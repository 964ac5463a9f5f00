import FileApi.Zlib.Inflate

/-!
# A compressed stream with other bytes behind it

In an archive a stream is followed by whatever comes next, and the input buffer of the caller does
not end where the stream does. `inflate` takes nothing of what is behind the end, and goes on to say
that the stream has ended. `Inflate.careful` is an implementation that does so.
-/

namespace FileApi.Zlib

/-- What the manual promises where a stream ends inside the input. -/
structure Inflate.Framed {D : Decoder} (I : Inflate D) : Prop where
  within : ∀ {s p q input behind room}, I.Holds s p q → 0 < room → D.complete (p ++ input) →
    (input ≠ [] ∨ q ≠ D.out p) →
    ((I.inflate s (input ++ behind) room).ret = .ok ∨
      (I.inflate s (input ++ behind) room).ret = .streamEnd) ∧
    InflateStep D p q input room (I.inflate s (input ++ behind) room) ∧
      I.Holds (I.inflate s (input ++ behind) room).state
        (p ++ input.take (I.inflate s (input ++ behind) room).consumed)
        (q ++ (I.inflate s (input ++ behind) room).output)
  ended : ∀ {s p q behind room}, I.Holds s p q → 0 < room → D.complete p → q = D.out p →
    behind ≠ [] → (I.inflate s behind room).ret = .streamEnd ∧
      (I.inflate s behind room).consumed = 0 ∧ (I.inflate s behind room).output = [] ∧
      I.Holds (I.inflate s behind room).state p q

/-! ## Calls along a stream -/

/-- One call along the stream `p ++ rest`: what it takes is of the stream, it makes progress, and
the end is the end of the stream. -/
structure StreamCall {D : Decoder} (I : Inflate D) (p q rest : List UInt8)
    (r : ZResult I.State) (taken left : List UInt8) : Prop where
  split : rest = taken ++ left
  consumed : r.consumed = taken.length
  ret : r.ret = .ok ∨ r.ret = .streamEnd
  progress : 0 < taken.length + r.output.length ∨ r.ret = .streamEnd
  sound : q ++ r.output <+: D.out (p ++ rest)
  holds : I.Holds r.state (p ++ taken) (q ++ r.output)
  ended : r.ret = .streamEnd → q ++ r.output = D.out (p ++ rest)

variable {D : Decoder} {I : Inflate D}

theorem InflateStep.streamCall {p q input more : List UInt8} {room : Nat} {r : ZResult I.State}
    (h : InflateStep D p q input room r) (hret : r.ret = .ok ∨ r.ret = .streamEnd)
    (hholds : I.Holds r.state (p ++ input.take r.consumed) (q ++ r.output))
    (hcomplete : D.complete (p ++ (input ++ more))) :
    ∃ taken left, taken <+: input ∧ StreamCall I p q (input ++ more) r taken left := by
  have hlength : (input.take r.consumed).length = r.consumed :=
    List.length_take_of_le h.consumed_le
  have hsplit : input ++ more = input.take r.consumed ++ (input.drop r.consumed ++ more) := by
    rw [← List.append_assoc, List.take_append_drop]
  refine ⟨input.take r.consumed, input.drop r.consumed ++ more, List.take_prefix _ _, hsplit,
    hlength.symm, hret, ?_, ?_, hholds, ?_⟩
  · rw [hlength]
    refine hret.imp_left fun hok => ?_
    have := h.progress hok
    omega
  · refine h.sound.trans ?_
    rw [hsplit, ← List.append_assoc]
    exact D.out_mono _ _
  · intro hend
    obtain ⟨hdone, hall⟩ := h.finished hend
    rw [hsplit, ← List.append_assoc] at hcomplete ⊢
    rw [D.complete_append hdone hcomplete, List.append_nil]
    exact hall

theorem Inflate.Framed.call (hframed : I.Framed) (hprompt : I.Prompt) {s : I.State}
    {p q rest behind input : List UInt8} {room : Nat} (hholds : I.Holds s p q) (hroom : 0 < room)
    (hcomplete : D.complete (p ++ rest)) (hinput : input ≠ []) (hahead : input <+: rest ++ behind) :
    ∃ taken left, taken <+: input ∧
      StreamCall I p q rest (I.inflate s input room) taken left := by
  by_cases hinside : input <+: rest
  · -- the buffer ends before the stream does
    obtain ⟨more, rfl⟩ := hinside
    have hvalid : D.Valid (p ++ input) := by
      refine ⟨more, ?_⟩
      rw [List.append_assoc]
      exact hcomplete
    have hret := hprompt.goes hholds hroom hinput hvalid
    obtain ⟨hstep, hstate⟩ := I.step hholds hroom hvalid hret
    exact hstep.streamCall hret hstate hcomplete
  · obtain ⟨beyond, rfl⟩ := (List.prefix_or_prefix_of_prefix hahead
      (List.prefix_append rest behind)).resolve_left hinside
    by_cases hended : rest = [] ∧ q = D.out p
    · obtain ⟨rfl, hall⟩ := hended
      simp only [List.nil_append, List.append_nil] at *
      obtain ⟨hret, hconsumed, hnone, hstate⟩ := hframed.ended hholds hroom hcomplete hall hinput
      refine ⟨[], [], List.nil_prefix, rfl, hconsumed, .inr hret, .inr hret, ?_, ?_, ?_⟩
      all_goals simp only [hnone, List.append_nil]
      · rw [hall]
      · exact hstate
      · exact fun _ => hall
    · have hmore : rest ≠ [] ∨ q ≠ D.out p := by
        by_cases hrest : rest = []
        · exact .inr fun hall => hended ⟨hrest, hall⟩
        · exact .inl hrest
      obtain ⟨hret, hstep, hstate⟩ :=
        @Inflate.Framed.within D I hframed s p q rest beyond room hholds hroom hcomplete hmore
      obtain ⟨taken, left, htaken, hcall⟩ := @InflateStep.streamCall D I p q rest [] room _ hstep
        hret hstate (by rw [List.append_nil]; exact hcomplete)
      rw [List.append_nil] at hcall
      exact ⟨taken, left, htaken.trans (List.prefix_append _ _), hcall⟩

/-! ## An implementation -/

/-- The part of the input in front of the end of the stream. -/
def streamPart (D : Decoder) [DecidablePred D.complete] : List UInt8 → List UInt8 → List UInt8
  | _, [] => []
  | taken, b :: input => if D.complete taken then [] else b :: streamPart D (taken ++ [b]) input

section

variable [DecidablePred D.complete]

theorem streamPart_of_complete {input behind : List UInt8} :
    ∀ {taken : List UInt8}, D.complete (taken ++ input) →
      streamPart D taken (input ++ behind) = input := by
  induction input with
  | nil =>
    intro taken hcomplete
    rw [List.append_nil] at hcomplete
    cases behind with
    | nil => rfl
    | cons b behind => rw [List.nil_append, streamPart, if_pos hcomplete]
  | cons b input ih =>
    intro taken hcomplete
    have hmore : ¬ D.complete taken := by
      intro hdone
      cases D.complete_append hdone hcomplete
    rw [List.cons_append, streamPart, if_neg hmore, ih]
    rw [List.append_assoc]
    exact hcomplete

theorem streamPart_of_valid {taken input : List UInt8} (h : D.Valid (taken ++ input)) :
    streamPart D taken input = input := by
  induction input generalizing taken with
  | nil => rfl
  | cons b input ih =>
    have hmore : ¬ D.complete taken := by
      intro hdone
      obtain ⟨rest, hrest⟩ := h
      rw [List.append_assoc] at hrest
      cases D.complete_append hdone hrest
    rw [streamPart, if_neg hmore, ih]
    rw [List.append_assoc]
    exact h

/-- `greedyStep` as far as the end of the stream. -/
def carefulStep (D : Decoder) [DecidablePred D.complete] (s : List UInt8 × List UInt8)
    (input : List UInt8) (room : Nat) : ZResult (List UInt8 × List UInt8) :=
  if D.complete s.1 ∧ s.2 = D.out s.1 ∧ input ≠ [] then ⟨.streamEnd, 0, [], s⟩
  else greedyStep D s (streamPart D s.1 input) room

theorem carefulStep_of_valid {p q input : List UInt8} {room : Nat} (h : D.Valid (p ++ input)) :
    carefulStep D (p, q) input room = greedyStep D (p, q) input room := by
  rw [carefulStep, if_neg, streamPart_of_valid h]
  rintro ⟨hdone, -, hinput⟩
  obtain ⟨rest, hrest⟩ := h
  rw [List.append_assoc] at hrest
  exact hinput (List.append_eq_nil_iff.mp (D.complete_append hdone hrest)).1

def Inflate.careful (D : Decoder) [DecidablePred D.complete] : Inflate D where
  State := List UInt8 × List UInt8
  reset := ([], [])
  inflate := carefulStep D
  Holds := (Inflate.greedy D).Holds
  reset_holds := (Inflate.greedy D).reset_holds
  step := by
    intro s p q input room hholds hroom hvalid
    obtain ⟨rfl, -⟩ := id hholds
    rw [carefulStep_of_valid hvalid]
    exact (Inflate.greedy D).step hholds hroom hvalid

theorem Inflate.careful_prompt : (Inflate.careful D).Prompt := by
  have hgreedy := Inflate.greedy_prompt D
  refine ⟨?_, ?_, ?_⟩
  · intro s p q input room hholds hroom hinput hvalid
    obtain ⟨rfl, -⟩ := id hholds
    show (carefulStep D _ _ _).ret = _ ∨ (carefulStep D _ _ _).ret = _
    rw [carefulStep_of_valid hvalid]
    exact hgreedy.goes hholds hroom hinput hvalid
  · intro s p q input room hholds hroom hvalid
    obtain ⟨rfl, -⟩ := id hholds
    show (carefulStep D _ _ _).ret = _ → (carefulStep D _ _ _).consumed < _ →
      (q ++ (carefulStep D _ _ _).output).length < _
    rw [carefulStep_of_valid hvalid]
    exact hgreedy.leaves hholds hroom hvalid
  · intro s p q input room hholds hroom hvalid
    obtain ⟨rfl, -⟩ := id hholds
    show (carefulStep D _ _ _).ret = _ → ¬ (D.complete (p ++ input.take
      (carefulStep D _ _ _).consumed) ∧ q ++ (carefulStep D _ _ _).output =
        D.out (p ++ input.take (carefulStep D _ _ _).consumed))
    rw [carefulStep_of_valid hvalid]
    exact hgreedy.ends hholds hroom hvalid

theorem Inflate.careful_framed : (Inflate.careful D).Framed := by
  constructor
  · rintro s p q input behind room ⟨rfl, hq⟩ hroom hcomplete hmore
    have hstep : (Inflate.careful D).inflate (p, q) (input ++ behind) room =
        greedyStep D (p, q) input room := by
      show carefulStep D (p, q) (input ++ behind) room = _
      rw [carefulStep, if_neg, streamPart_of_complete hcomplete]
      rintro ⟨hdone, hall, -⟩
      exact hmore.elim (fun hinput => hinput (D.complete_append hdone hcomplete)) fun hne => hne hall
    have hret : (greedyStep D (p, q) input room).ret = .ok ∨
        (greedyStep D (p, q) input room).ret = .streamEnd := by
      have hprogress : ¬ (input = [] ∧ ((D.out (p ++ input)).drop q.length).take room = []) := by
        rintro ⟨rfl, hnone⟩
        obtain ⟨rest, hrest⟩ := hq
        rw [List.append_nil, ← hrest, List.drop_left, List.take_eq_nil_iff] at hnone
        obtain rfl := hnone.resolve_left (Nat.pos_iff_ne_zero.mp hroom)
        rw [List.append_nil] at hrest
        exact hmore.elim (fun hinput => hinput rfl) fun hne => hne hrest
      simp only [greedyStep]
      rw [if_neg hprogress]
      split
      · exact .inr rfl
      · exact .inl rfl
    obtain ⟨hinflate, hgiven⟩ := greedyStep_step D hq hret
    rw [hstep]
    refine ⟨hret, hinflate, ?_, ?_⟩
    · simp [greedyStep]
    · simpa [greedyStep] using hgiven
  · rintro s p q behind room ⟨rfl, hq⟩ _ hdone hall hbehind
    have hstep : (Inflate.careful D).inflate (p, q) behind room = ⟨.streamEnd, 0, [], (p, q)⟩ := by
      show carefulStep D (p, q) behind room = _
      rw [carefulStep, if_pos ⟨hdone, hall, hbehind⟩]
      rfl
    rw [hstep]
    exact ⟨rfl, rfl, rfl, rfl, hq⟩

end

end FileApi.Zlib
