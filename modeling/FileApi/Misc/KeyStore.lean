import Mathlib.Logic.Function.Basic
import Mathlib.Data.List.Basic

/-!
# Stores whose keys are used once

A sequential key-value store, one event after the other. A key gets its value once. It can be
hidden, shown again and dropped; a key that was dropped stays dropped.
-/

namespace FileApi.KeyStore

/-- What is behind a key that was used. -/
inductive Slot (ν : Type) where
  | shown (value : ν)
  | hidden (value : ν)
  | gone
  deriving DecidableEq

def Slot.hide {ν : Type} : Slot ν → Slot ν
  | .shown v => .hidden v
  | slot => slot

/-- A key that was not used has no slot. -/
abbrev Store (κ ν : Type) := κ → Option (Slot ν)

variable {κ ν : Type}

/-- What a reader finds. -/
def Store.value (s : Store κ ν) (k : κ) : Option ν :=
  match s k with
  | some (.shown v) => some v
  | _ => none

theorem Store.value_eq_some {s : Store κ ν} {k : κ} {v : ν} :
    s.value k = some v ↔ s k = some (.shown v) := by
  unfold Store.value
  split
  · next w hw => simp [hw]
  · next hnot =>
    constructor
    · exact fun h => absurd h (by simp)
    · exact fun h => absurd h (hnot v)

inductive Event (κ ν : Type) where
  | put (key : κ) (value : ν)
  | get (key : κ) (found : Option ν)
  | hide (key : κ)
  | hideAll (keys : List κ)
  | restore (key : κ)
  | drop (key : κ)
  deriving DecidableEq

/-- The keys an event hides. -/
def Event.Hides (k : κ) : Event κ ν → Prop
  | .hide key => key = k
  | .hideAll keys => k ∈ keys
  | _ => False

/-- What an event does. `hideAll` names the keys that were shown. -/
inductive Step [DecidableEq κ] : Store κ ν → Event κ ν → Store κ ν → Prop where
  | put {s : Store κ ν} {k : κ} (v : ν) (hnew : s k = none) :
      Step s (.put k v) (Function.update s k (some (.shown v)))
  | get (s : Store κ ν) (k : κ) : Step s (.get k (s.value k)) s
  | hide {s : Store κ ν} {k : κ} {v : ν} (hshown : s k = some (.shown v)) :
      Step s (.hide k) (Function.update s k (some (.hidden v)))
  | hideAll {s : Store κ ν} {keys : List κ} (hkeys : ∀ k, k ∈ keys ↔ ∃ v, s k = some (.shown v)) :
      Step s (.hideAll keys) fun k => (s k).map Slot.hide
  | restore {s : Store κ ν} {k : κ} {v : ν} (hhidden : s k = some (.hidden v)) :
      Step s (.restore k) (Function.update s k (some (.shown v)))
  | drop {s : Store κ ν} {k : κ} {v : ν} (hhidden : s k = some (.hidden v)) :
      Step s (.drop k) (Function.update s k (some .gone))

/-- Events one after the other. -/
inductive Run [DecidableEq κ] (s : Store κ ν) : List (Event κ ν) → Store κ ν → Prop where
  | nil : Run s [] s
  | snoc {es : List (Event κ ν)} {t u : Store κ ν} {e : Event κ ν} (front : Run s es t)
      (last : Step t e u) : Run s (es ++ [e]) u

/-- The key was hidden, and not shown again since. -/
def Hidden (k : κ) (es : List (Event κ ν)) : Prop :=
  ∃ front e back, es = front ++ e :: back ∧ e.Hides k ∧ .restore k ∉ back

/-- What the events so far say about a slot. -/
def Says (k : κ) (es : List (Event κ ν)) : Option (Slot ν) → Prop
  | none => (∀ v, .put k v ∉ es) ∧ .drop k ∉ es ∧ ¬ Hidden k es
  | some (.shown v) => .put k v ∈ es ∧ .drop k ∉ es ∧ ¬ Hidden k es
  | some (.hidden v) => .put k v ∈ es ∧ .drop k ∉ es ∧ Hidden k es
  | some .gone => .drop k ∈ es

section Runs

variable [DecidableEq κ] {s t u : Store κ ν} {e : Event κ ν} {es fs : List (Event κ ν)}

theorem Run.one (h : Step s e t) : Run s [e] t := .snoc .nil h

theorem Run.append (h : Run s es t) (h' : Run t fs u) : Run s (es ++ fs) u := by
  induction h' with
  | nil =>
    rw [List.append_nil]
    exact h
  | snoc front last ih =>
    rw [← List.append_assoc]
    exact .snoc ih last

theorem Run.split (h : Run s (es ++ fs) u) : ∃ t, Run s es t ∧ Run t fs u := by
  generalize hsum : es ++ fs = gs at h
  induction h generalizing fs with
  | nil =>
    obtain ⟨rfl, rfl⟩ := List.append_eq_nil_iff.mp hsum
    exact ⟨s, .nil, .nil⟩
  | @snoc gs mid u e front last ih =>
    rcases List.eq_nil_or_concat' fs with rfl | ⟨fs', f, rfl⟩
    · rw [List.append_nil] at hsum
      subst hsum
      exact ⟨u, .snoc front last, .nil⟩
    · rw [← List.append_assoc] at hsum
      obtain ⟨rfl, heq⟩ := List.append_inj' hsum rfl
      obtain rfl : f = e := List.head_eq_of_cons_eq heq
      obtain ⟨t, hes, hfs⟩ := ih rfl
      exact ⟨t, hes, .snoc hfs last⟩

theorem Run.snoc_inv (h : Run s (es ++ [e]) u) : ∃ t, Run s es t ∧ Step t e u := by
  generalize hsum : es ++ [e] = gs at h
  cases h with
  | nil => simp at hsum
  | @snoc gs mid _ f front last =>
    obtain ⟨rfl, heq⟩ := List.append_inj' hsum rfl
    obtain rfl : e = f := List.head_eq_of_cons_eq heq
    exact ⟨mid, front, last⟩

end Runs

/-! ## What the events say about a key -/

variable {k : κ} {v : ν} {e : Event κ ν} {es : List (Event κ ν)}

theorem hidden_snoc : Hidden k (es ++ [e]) ↔ e.Hides k ∨ Hidden k es ∧ e ≠ .restore k := by
  constructor
  · rintro ⟨front, f, back, hsplit, hhides, hnot⟩
    rcases List.eq_nil_or_concat' back with rfl | ⟨back', g, rfl⟩
    · obtain ⟨-, heq⟩ := List.append_inj' hsplit rfl
      obtain rfl : e = f := List.head_eq_of_cons_eq heq
      exact .inl hhides
    · rw [← List.cons_append, ← List.append_assoc] at hsplit
      obtain ⟨rfl, heq⟩ := List.append_inj' hsplit rfl
      obtain rfl : e = g := List.head_eq_of_cons_eq heq
      rw [List.mem_append, not_or] at hnot
      refine .inr ⟨⟨front, f, back', rfl, hhides, hnot.1⟩, fun heq => hnot.2 ?_⟩
      simp [heq]
  · rintro (hhides | ⟨⟨front, f, back, rfl, hhides, hnot⟩, hne⟩)
    · exact ⟨es, e, [], rfl, hhides, by simp⟩
    · refine ⟨front, f, back ++ [e], by simp, hhides, ?_⟩
      simp [hnot, Ne.symm hne]

theorem Says.other {slot : Option (Slot ν)} (h : Says k es slot) (hput : ∀ v, e ≠ .put k v)
    (hhides : ¬ e.Hides k) (hrestore : e ≠ .restore k) (hdrop : e ≠ .drop k) :
    Says k (es ++ [e]) slot := by
  have hhidden : Hidden k (es ++ [e]) ↔ Hidden k es := by
    rw [hidden_snoc]
    simp [hhides, hrestore]
  have hdropped : .drop k ∈ es ++ [e] ↔ .drop k ∈ es := by
    simp [Ne.symm hdrop]
  cases slot with
  | none =>
    obtain ⟨hnone, hnot, hh⟩ := h
    refine ⟨fun v => ?_, by rwa [hdropped], by rwa [hhidden]⟩
    simp [hnone v, Ne.symm (hput v)]
  | some slot =>
    cases slot with
    | shown v =>
      obtain ⟨hput', hnot, hh⟩ := h
      exact ⟨List.mem_append_left _ hput', by rwa [hdropped], by rwa [hhidden]⟩
    | hidden v =>
      obtain ⟨hput', hnot, hh⟩ := h
      exact ⟨List.mem_append_left _ hput', by rwa [hdropped], by rwa [hhidden]⟩
    | gone => exact List.mem_append_left _ h

theorem Step.says [DecidableEq κ] {s t : Store κ ν} (hstep : Step s e t)
    (h : ∀ k, Says k es (s k)) (k : κ) : Says k (es ++ [e]) (t k) := by
  have hk := h k
  cases hstep with
  | @put key v hnew =>
    by_cases heq : k = key
    · subst heq
      rw [hnew] at hk
      obtain ⟨-, hdrop, hhidden⟩ := hk
      rw [Function.update_self]
      refine ⟨by simp, by simp [hdrop], ?_⟩
      rw [hidden_snoc]
      simp [Event.Hides, hhidden]
    · rw [Function.update_of_ne heq]
      apply hk.other <;> simp [Event.Hides, Ne.symm heq]
  | get key => apply hk.other <;> simp [Event.Hides]
  | @hide key v hshown =>
    by_cases heq : k = key
    · subst heq
      rw [hshown] at hk
      obtain ⟨hput, hdrop, -⟩ := hk
      rw [Function.update_self]
      refine ⟨List.mem_append_left _ hput, by simp [hdrop], ?_⟩
      rw [hidden_snoc]
      simp [Event.Hides]
    · rw [Function.update_of_ne heq]
      apply hk.other <;> simp [Event.Hides, Ne.symm heq]
  | @hideAll keys hkeys =>
    have hmem := hkeys k
    show Says k _ ((s k).map Slot.hide)
    cases hs : s k with
    | none =>
      rw [hs] at hk hmem
      refine Says.other (show Says k es none from hk) ?_ ?_ ?_ ?_ <;> simp [Event.Hides, hmem]
    | some slot =>
      rw [hs] at hk hmem
      cases slot with
      | shown v =>
        obtain ⟨hput, hdrop, -⟩ := hk
        refine ⟨List.mem_append_left _ hput, by simp [hdrop], ?_⟩
        rw [hidden_snoc]
        simp [Event.Hides, hmem]
      | hidden v =>
        refine Says.other (show Says k es (some (.hidden v)) from hk) ?_ ?_ ?_ ?_ <;>
          simp [Event.Hides, hmem]
      | gone =>
        refine Says.other (show Says k es (some .gone) from hk) ?_ ?_ ?_ ?_ <;>
          simp [Event.Hides, hmem]
  | @restore key v hhidden =>
    by_cases heq : k = key
    · subst heq
      rw [hhidden] at hk
      obtain ⟨hput, hdrop, -⟩ := hk
      rw [Function.update_self]
      refine ⟨List.mem_append_left _ hput, by simp [hdrop], ?_⟩
      rw [hidden_snoc]
      simp [Event.Hides]
    · rw [Function.update_of_ne heq]
      apply hk.other <;> simp [Event.Hides, Ne.symm heq]
  | @drop key v hhidden =>
    by_cases heq : k = key
    · subst heq
      rw [Function.update_self]
      exact List.mem_append_right _ (List.mem_singleton_self _)
    · rw [Function.update_of_ne heq]
      apply hk.other <;> simp [Event.Hides, Ne.symm heq]

theorem Run.says [DecidableEq κ] {t : Store κ ν} (h : Run (fun _ => none) es t) :
    ∀ k, Says k es (t k) := by
  induction h with
  | nil =>
    intro k
    refine ⟨by simp, by simp, ?_⟩
    rintro ⟨front, e, back, hsplit, -⟩
    simp at hsplit
  | snoc front last ih => exact last.says ih

/-- What a reader finds was put, and was neither dropped nor is it hidden. A reader that finds nothing
came before the put, behind the drop, or while the key was hidden. -/
theorem Run.found [DecidableEq κ] {t : Store κ ν} {front back : List (Event κ ν)} {found : Option ν}
    (h : Run (fun _ => none) (front ++ .get k found :: back) t) :
    (∀ v, found = some v → .put k v ∈ front ∧ .drop k ∉ front ∧ ¬ Hidden k front) ∧
    (found = none → (∀ v, .put k v ∉ front) ∨ .drop k ∈ front ∨ Hidden k front) := by
  rw [List.append_cons] at h
  obtain ⟨mid, hget, -⟩ := h.split
  obtain ⟨s, hfront, hstep⟩ := hget.snoc_inv
  have hsays := hfront.says k
  cases hstep
  unfold Store.value
  cases hs : mid k with
  | none =>
    rw [hs] at hsays
    exact ⟨by simp, fun _ => .inl hsays.1⟩
  | some slot =>
    rw [hs] at hsays
    cases slot with
    | shown v =>
      refine ⟨fun w hw => ?_, by simp⟩
      obtain rfl : v = w := Option.some.inj hw
      exact hsays
    | hidden v => exact ⟨by simp, fun _ => .inr (.inr hsays.2.2)⟩
    | gone => exact ⟨by simp, fun _ => .inr (.inl hsays)⟩

end FileApi.KeyStore
