import Mathlib.Algebra.Group.Int.Defs
import Mathlib.Algebra.GroupWithZero.Nat
import Mathlib.Data.List.Infix

/-!
# The contract of `inflate`

A decoder says which bytes a prefix of a compressed stream determines. An implementation of
`inflate` takes input and room for output and moves along such a stream: it stops only when
the input is used up or the room is full, and it may have taken all of the input while output
is still pending in its window. `Inflate.greedy` is the implementation that always takes all
of its input at once, and `Inflate.reluctant` leaves the last byte where it may.
-/

namespace FileApi.Zlib

/-- The return codes of `inflate` and `deflate` that callers tell apart. -/
inductive ZRet where
  | ok | streamEnd | bufError | dataError | streamError | memError
  deriving DecidableEq

/-- What one call did. -/
structure ZResult (σ : Type) where
  ret : ZRet
  consumed : Nat
  output : List UInt8
  state : σ

/-- The meaning of compressed bytes: what a prefix determines of the plain bytes, and which
strings are complete streams. -/
structure Decoder where
  out : List UInt8 → List UInt8
  complete : List UInt8 → Prop
  out_nil : out [] = []
  out_mono : ∀ p s, out p <+: out (p ++ s)
  complete_append : ∀ {p s}, complete p → complete (p ++ s) → s = []

/-- The start of some complete stream. -/
def Decoder.Valid (D : Decoder) (p : List UInt8) : Prop := ∃ s, D.complete (p ++ s)

theorem Decoder.Valid.left {D : Decoder} {p s : List UInt8} (h : D.Valid (p ++ s)) : D.Valid p := by
  obtain ⟨t, ht⟩ := h
  exact ⟨s ++ t, by rwa [← List.append_assoc]⟩

theorem Decoder.out_length_le (D : Decoder) (p s : List UInt8) :
    (D.out p).length ≤ (D.out (p ++ s)).length := (D.out_mono p s).length_le

/-- One call that returned `Z_OK` or `Z_STREAM_END`, with `p` the input taken and `q` the
output given before it. -/
structure InflateStep {σ : Type} (D : Decoder) (p q input : List UInt8) (room : Nat)
    (r : ZResult σ) : Prop where
  consumed_le : r.consumed ≤ input.length
  output_le : r.output.length ≤ room
  progress : r.ret = .ok → 0 < r.consumed ∨ 0 < r.output.length
  sound : q ++ r.output <+: D.out (p ++ input.take r.consumed)
  drained : r.ret = .ok → r.output.length < room →
    r.consumed = input.length ∧ q ++ r.output = D.out (p ++ input)
  finished : r.ret = .streamEnd → D.complete (p ++ input.take r.consumed) ∧
    q ++ r.output = D.out (p ++ input.take r.consumed)

/-- An implementation of raw `inflate` for the streams of `D`. -/
structure Inflate (D : Decoder) where
  State : Type
  reset : State
  inflate : State → List UInt8 → Nat → ZResult State
  Holds : State → List UInt8 → List UInt8 → Prop
  reset_holds : Holds reset [] []
  step : ∀ {s p q input room}, Holds s p q → 0 < room → D.Valid (p ++ input) →
    (inflate s input room).ret = .ok ∨ (inflate s input room).ret = .streamEnd →
    InflateStep D p q input room (inflate s input room) ∧
      Holds (inflate s input room).state (p ++ input.take (inflate s input room).consumed)
        (q ++ (inflate s input room).output)

/-- What else the manual promises of a call that has input and room: it goes on, it leaves input
only where there is no room for what the input determines, and it says so when it has come to the
end and has given everything. -/
structure Inflate.Prompt {D : Decoder} (I : Inflate D) : Prop where
  goes : ∀ {s p q input room}, I.Holds s p q → 0 < room → input ≠ [] → D.Valid (p ++ input) →
    (I.inflate s input room).ret = .ok ∨ (I.inflate s input room).ret = .streamEnd
  leaves : ∀ {s p q input room}, I.Holds s p q → 0 < room → D.Valid (p ++ input) →
    (I.inflate s input room).ret = .ok → (I.inflate s input room).consumed < input.length →
    (q ++ (I.inflate s input room).output).length < (D.out (p ++ input)).length
  ends : ∀ {s p q input room}, I.Holds s p q → 0 < room → D.Valid (p ++ input) →
    (I.inflate s input room).ret = .ok →
    ¬ (D.complete (p ++ input.take (I.inflate s input room).consumed) ∧
      q ++ (I.inflate s input room).output =
        D.out (p ++ input.take (I.inflate s input room).consumed))

/-- One call of the implementation that takes all of its input: the state is what was taken
and what was given. -/
def greedyStep (D : Decoder) [DecidablePred D.complete] (s : List UInt8 × List UInt8)
    (input : List UInt8) (room : Nat) : ZResult (List UInt8 × List UInt8) :=
  let taken := s.1 ++ input
  let output := ((D.out taken).drop s.2.length).take room
  let given := s.2 ++ output
  { ret :=
      if input = [] ∧ output = [] then .bufError
      else if D.complete taken ∧ given = D.out taken then .streamEnd
      else .ok
    consumed := input.length
    output
    state := (taken, given) }

theorem greedyStep_step (D : Decoder) [DecidablePred D.complete] {p q input : List UInt8}
    {room : Nat} (hq : q <+: D.out p)
    (hret : (greedyStep D (p, q) input room).ret = .ok ∨
      (greedyStep D (p, q) input room).ret = .streamEnd) :
    InflateStep D p q input room (greedyStep D (p, q) input room) ∧
      q ++ (greedyStep D (p, q) input room).output <+: D.out (p ++ input) := by
  obtain ⟨rest, hrest⟩ := hq.trans (D.out_mono p input)
  have hdrop : (D.out (p ++ input)).drop q.length = rest := by rw [← hrest, List.drop_left]
  have hgiven : q ++ rest.take room <+: D.out (p ++ input) := by
    rw [← hrest]
    exact (List.prefix_append_right_inj q).mpr (List.take_prefix room rest)
  simp only [greedyStep, hdrop] at hret ⊢
  refine ⟨⟨Nat.le_refl _, List.length_take_le _ _, ?_, ?_, ?_, ?_⟩, hgiven⟩
  · intro _
    by_contra hnone
    obtain ⟨hinput, houtput⟩ := not_or.mp hnone
    have hempty : input = [] ∧ rest.take room = [] :=
      ⟨List.length_eq_zero_iff.mp (Nat.eq_zero_of_not_pos hinput),
        List.length_eq_zero_iff.mp (Nat.eq_zero_of_not_pos houtput)⟩
    rw [if_pos hempty] at hret
    rcases hret with hret | hret <;> cases hret
  · simpa using hgiven
  · intro _ hroom
    refine ⟨rfl, ?_⟩
    simp only [List.length_take] at hroom
    rw [List.take_of_length_le (by omega), hrest]
  · intro hend
    simp only [List.take_length] at hend ⊢
    split at hend
    · cases hend
    · split at hend
      · next hdone => exact hdone
      · cases hend

def Inflate.greedy (D : Decoder) [DecidablePred D.complete] : Inflate D where
  State := List UInt8 × List UInt8
  reset := ([], [])
  inflate := greedyStep D
  Holds s p q := s = (p, q) ∧ q <+: D.out p
  reset_holds := ⟨rfl, List.nil_prefix⟩
  step := by
    rintro s p q input room ⟨rfl, hq⟩ _ _ hret
    obtain ⟨hstep, hgiven⟩ := greedyStep_step D hq hret
    refine ⟨hstep, ?_, ?_⟩
    · simp [greedyStep]
    · simpa [greedyStep] using hgiven

theorem Inflate.greedy_prompt (D : Decoder) [DecidablePred D.complete] :
    (Inflate.greedy D).Prompt := by
  refine ⟨?_, ?_, ?_⟩
  · rintro s p q input room ⟨rfl, -⟩ _ hinput _
    simp only [Inflate.greedy, greedyStep, hinput, false_and, if_false]
    split
    · exact .inr rfl
    · exact .inl rfl
  · rintro s p q input room ⟨rfl, -⟩ _ _ _ hlt
    exact absurd hlt (Nat.lt_irrefl _)
  · rintro s p q input room ⟨rfl, -⟩ _ _ hret ⟨hcomplete, hout⟩
    simp only [Inflate.greedy, greedyStep, List.take_length] at hret hcomplete hout
    split at hret
    · cases hret
    · rw [if_pos ⟨hcomplete, hout⟩] at hret
      cases hret

/-! ## An implementation that leaves input -/

/-- The rest fills the room without the last byte of the input, which determines more. -/
def LeavesLast (D : Decoder) (s : List UInt8 × List UInt8) (input : List UInt8) (room : Nat) : Prop :=
  input ≠ [] ∧ s.2.length + room ≤ (D.out (s.1 ++ input.dropLast)).length ∧
    s.2.length + room < (D.out (s.1 ++ input)).length

instance (D : Decoder) (s : List UInt8 × List UInt8) (input : List UInt8) (room : Nat) :
    Decidable (LeavesLast D s input room) := inferInstanceAs (Decidable (_ ∧ _ ∧ _))

def reluctantStep (D : Decoder) [DecidablePred D.complete] (s : List UInt8 × List UInt8)
    (input : List UInt8) (room : Nat) : ZResult (List UInt8 × List UInt8) :=
  greedyStep D s (if LeavesLast D s input room then input.dropLast else input) room

section Reluctant

variable {D : Decoder} [DecidablePred D.complete] {p q input : List UInt8} {room : Nat}

/-- A call that leaves the last byte of the input. -/
structure LeftLast (D : Decoder) (p input : List UInt8) (room : Nat)
    (r : ZResult (List UInt8 × List UInt8)) : Prop where
  ret : r.ret = .ok
  full : r.output.length = room
  taken : input.take r.consumed = input.dropLast
  short : r.consumed ≤ input.length
  more : ¬ D.complete (p ++ input.dropLast)

theorem reluctantStep_leaves (hq : q <+: D.out p) (hroom : 0 < room) (hvalid : D.Valid (p ++ input))
    (h : LeavesLast D (p, q) input room) :
    LeftLast D p input room (greedyStep D (p, q) input.dropLast room) := by
  obtain ⟨hinput, hfill, -⟩ := h
  obtain ⟨rest, hrest⟩ := hq.trans (D.out_mono p input.dropLast)
  have hfull : (((D.out (p ++ input.dropLast)).drop q.length).take room).length = room := by
    rw [List.length_take, List.length_drop]
    simp only at hfill
    omega
  have hmore : ¬ D.complete (p ++ input.dropLast) := by
    intro hdone
    obtain ⟨s, hs⟩ := hvalid
    rw [← List.dropLast_append_getLast hinput, ← List.append_assoc, List.append_assoc] at hs
    exact absurd (D.complete_append hdone hs) (by simp)
  refine ⟨?_, hfull, ?_, ?_, hmore⟩
  · simp only [greedyStep]
    rw [if_neg, if_neg fun hdone => hmore hdone.1]
    rintro ⟨-, hnone⟩
    rw [hnone] at hfull
    exact hroom.ne hfull
  · simp [greedyStep, List.dropLast_eq_take]
  · simp [greedyStep]

def Inflate.reluctant (D : Decoder) [DecidablePred D.complete] : Inflate D where
  State := List UInt8 × List UInt8
  reset := ([], [])
  inflate := reluctantStep D
  Holds s p q := s = (p, q) ∧ q <+: D.out p
  reset_holds := ⟨rfl, List.nil_prefix⟩
  step := by
    rintro s p q input room ⟨rfl, hq⟩ hroom hvalid hret
    by_cases hleaves : LeavesLast D (p, q) input room
    · have hleft := reluctantStep_leaves hq hroom hvalid hleaves
      simp only [reluctantStep, if_pos hleaves] at hret ⊢
      obtain ⟨hstep, hgiven⟩ := greedyStep_step D hq hret
      rw [hleft.taken]
      refine ⟨⟨hleft.short, hstep.output_le, hstep.progress, ?_, ?_, ?_⟩, ?_, hgiven⟩
      · rw [hleft.taken]
        exact hgiven
      · exact fun _ hless => absurd hleft.full hless.ne
      · exact fun hend => nomatch hleft.ret.symm.trans hend
      · simp [greedyStep]
    · simp only [reluctantStep, if_neg hleaves] at hret ⊢
      exact (Inflate.greedy D).step ⟨rfl, hq⟩ hroom hvalid hret

theorem Inflate.reluctant_prompt (D : Decoder) [DecidablePred D.complete] :
    (Inflate.reluctant D).Prompt := by
  have hgreedy := Inflate.greedy_prompt D
  refine ⟨?_, ?_, ?_⟩
  · rintro s p q input room ⟨rfl, hq⟩ hroom hinput hvalid
    show (reluctantStep D _ _ _).ret = _ ∨ (reluctantStep D _ _ _).ret = _
    by_cases hleaves : LeavesLast D (p, q) input room
    · rw [reluctantStep, if_pos hleaves]
      exact .inl (reluctantStep_leaves hq hroom hvalid hleaves).ret
    · rw [reluctantStep, if_neg hleaves]
      exact hgreedy.goes ⟨rfl, hq⟩ hroom hinput hvalid
  · rintro s p q input room ⟨rfl, hq⟩ hroom hvalid
    show (reluctantStep D _ _ _).ret = _ → (reluctantStep D _ _ _).consumed < _ →
      (q ++ (reluctantStep D _ _ _).output).length < _
    by_cases hleaves : LeavesLast D (p, q) input room
    · rw [reluctantStep, if_pos hleaves, List.length_append,
        (reluctantStep_leaves hq hroom hvalid hleaves).full]
      exact fun _ _ => hleaves.2.2
    · rw [reluctantStep, if_neg hleaves]
      exact hgreedy.leaves ⟨rfl, hq⟩ hroom hvalid
  · rintro s p q input room ⟨rfl, hq⟩ hroom hvalid
    show (reluctantStep D _ _ _).ret = _ → ¬ (D.complete (p ++ input.take
      (reluctantStep D _ _ _).consumed) ∧ q ++ (reluctantStep D _ _ _).output =
        D.out (p ++ input.take (reluctantStep D _ _ _).consumed))
    by_cases hleaves : LeavesLast D (p, q) input room
    · have hleft := reluctantStep_leaves hq hroom hvalid hleaves
      rw [reluctantStep, if_pos hleaves, hleft.taken]
      exact fun _ hdone => hleft.more hdone.1
    · rw [reluctantStep, if_neg hleaves]
      exact hgreedy.ends ⟨rfl, hq⟩ hroom hvalid

end Reluctant

end FileApi.Zlib
