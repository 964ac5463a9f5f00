import Mathlib.Algebra.BigOperators.Group.List.Basic
import Mathlib.Algebra.Group.Int.Defs
import Mathlib.Algebra.GroupWithZero.Nat
import Mathlib.Data.List.Basic
import Mathlib.Data.List.Nodup

/-!
# Pools of parties

The parties of a concurrent system are a list; one of them moves when its element is replaced.
A quantity of the system is the sum of what its parties hold.
-/

namespace FileApi.Pool

variable {α β : Type}

/-- What the parties hold together. -/
def total (f : α → Nat) (l : List α) : Nat := (l.map f).sum

@[simp] theorem total_nil (f : α → Nat) : total f [] = 0 := rfl

@[simp] theorem total_cons (f : α → Nat) (a : α) (l : List α) :
    total f (a :: l) = f a + total f l := by
  simp [total]

@[simp] theorem total_append (f : α → Nat) (l r : List α) :
    total f (l ++ r) = total f l + total f r := by
  simp [total]

theorem total_add (f g : α → Nat) (l : List α) :
    total (fun a => f a + g a) l = total f l + total g l :=
  List.sum_map_add

theorem total_set (f : α → Nat) : ∀ {l : List α} {i : Nat} {a : α} (b : α), l[i]? = some a →
    total f (l.set i b) + f a = total f l + f b := by
  intro l
  induction l with
  | nil =>
    intro i a b h
    simp at h
  | cons x l ih =>
    intro i a b h
    cases i with
    | zero =>
      obtain rfl : x = a := by simpa using h
      simp only [List.set_cons_zero, total_cons]
      omega
    | succ i =>
      have hrest := ih b (by simpa using h)
      simp only [List.set_cons_succ, total_cons]
      omega

variable {l : List α} {i : Nat}

theorem le_total (f : α → Nat) {a : α} (h : l[i]? = some a) :
    f a ≤ total f l := by
  induction l generalizing i with
  | nil => simp at h
  | cons x l ih =>
    rw [total_cons]
    cases i with
    | zero =>
      obtain rfl : x = a := by simpa using h
      omega
    | succ i =>
      have hrest := ih (i := i) (by simpa using h)
      omega

theorem add_le_total (f : α → Nat) {i j : Nat} {a b : α} (hij : i ≠ j) (hi : l[i]? = some a)
    (hj : l[j]? = some b) : f a + f b ≤ total f l := by
  induction l generalizing i j with
  | nil => simp at hi
  | cons x l ih =>
    cases i with
    | zero =>
      cases j with
      | zero => exact absurd rfl hij
      | succ j =>
        obtain rfl : x = a := by simpa using hi
        have hle : f b ≤ total f l := le_total f (i := j) (by simpa using hj)
        simp only [total_cons]
        omega
    | succ i =>
      cases j with
      | zero =>
        obtain rfl : x = b := by simpa using hj
        have hle : f a ≤ total f l := le_total f (i := i) (by simpa using hi)
        simp only [total_cons]
        omega
      | succ j =>
        have hrest := ih (i := i) (j := j) (by omega) (by simpa using hi) (by simpa using hj)
        simp only [total_cons]
        omega

theorem total_eq_zero (f : α → Nat) (h : ∀ a ∈ l, f a = 0) : total f l = 0 := by
  induction l with
  | nil => rfl
  | cons x l ih =>
    rw [total_cons, h x List.mem_cons_self, ih fun a ha => h a (List.mem_cons_of_mem x ha)]

theorem eq_zero_of_total (f : α → Nat) (h : total f l = 0) {a : α} (ha : a ∈ l) :
    f a = 0 := by
  obtain ⟨i, hi⟩ := List.mem_iff_getElem?.mp ha
  have hle := le_total f hi
  omega

theorem total_le_total {f g : α → Nat} (h : ∀ a ∈ l, f a ≤ g a) :
    total f l ≤ total g l := by
  induction l with
  | nil => exact Nat.le_refl 0
  | cons x l ih =>
    rw [total_cons, total_cons]
    exact Nat.add_le_add (h x List.mem_cons_self) (ih fun a ha => h a (List.mem_cons_of_mem x ha))

theorem total_congr {f g : α → Nat} (h : ∀ a ∈ l, f a = g a) :
    total f l = total g l := by
  rw [total, List.map_congr_left h, total]

/-- What is held under different keys is no more than all of the shares, if each is no more than a share
of its key. -/
theorem total_le_of_keys {κ : Type} {held shares : List (κ × Nat)}
    (hnodup : (held.map Prod.fst).Nodup)
    (h : ∀ e ∈ held, ∃ share, (e.1, share) ∈ shares ∧ e.2 ≤ share) :
    total Prod.snd held ≤ total Prod.snd shares := by
  induction held generalizing shares with
  | nil => exact Nat.zero_le _
  | cons e held ih =>
    obtain ⟨hkey, hnodup⟩ := List.nodup_cons.mp hnodup
    obtain ⟨share, hshare, hle⟩ := h e List.mem_cons_self
    obtain ⟨front, back, rfl⟩ := List.append_of_mem hshare
    have hrest : total Prod.snd held ≤ total Prod.snd (front ++ back) := by
      refine ih hnodup fun e' he' => ?_
      obtain ⟨share', hshare', hle'⟩ := h e' (List.mem_cons_of_mem _ he')
      refine ⟨share', ?_, hle'⟩
      have hne : (e'.1, share') ≠ (e.1, share) := fun heq =>
        hkey (List.mem_map.mpr ⟨e', he', (Prod.mk.inj heq).1⟩)
      simpa [hne] using hshare'
    rw [total_append] at hrest
    rw [total_cons, total_append, total_cons]
    omega

theorem total_set_congr {f g : α → Nat} {a : α} (b : α) (h : l[i]? = some a)
    (hothers : ∀ j x, j ≠ i → l[j]? = some x → g x = f x) :
    total g (l.set i b) + f a = total f l + g b := by
  induction l generalizing i with
  | nil => simp at h
  | cons x l ih =>
    cases i with
    | zero =>
      obtain rfl : x = a := by simpa using h
      have hrest : total g l = total f l := by
        refine total_congr fun y hy => ?_
        obtain ⟨j, hj⟩ := List.mem_iff_getElem?.mp hy
        exact hothers (j + 1) y (by omega) (by simpa using hj)
      simp only [List.set_cons_zero, total_cons]
      omega
    | succ i =>
      have hx : g x = f x := hothers 0 x (by omega) rfl
      have hrest := ih (by simpa using h) fun j y hj hy =>
        hothers (j + 1) y (by omega) (by simpa using hy)
      simp only [List.set_cons_succ, total_cons]
      omega

theorem filterMap_set (f : α → Option β) {a : α} (b : α) (h : l[i]? = some a) (hf : f b = f a) :
    (l.set i b).filterMap f = l.filterMap f := by
  induction l generalizing i with
  | nil => simp at h
  | cons x l ih =>
    cases i with
    | zero =>
      obtain rfl : x = a := by simpa using h
      simp only [List.set_cons_zero, List.filterMap_cons, hf]
    | succ i =>
      simp only [List.set_cons_succ, List.filterMap_cons, ih (i := i) (by simpa using h)]

/-- Parties that were given different values are told apart by them. -/
theorem index_unique {f : α → Option β} (hnodup : (l.filterMap f).Nodup) {i j : Nat} {a b : α}
    {v : β} (hi : l[i]? = some a) (hj : l[j]? = some b) (ha : f a = some v) (hb : f b = some v) :
    i = j := by
  induction l generalizing i j with
  | nil => simp at hi
  | cons x l ih =>
    have hmem : ∀ {k : Nat} {c : α}, l[k]? = some c → f c = some v → v ∈ l.filterMap f := by
      intro k c hk hc
      exact List.mem_filterMap.mpr ⟨c, List.mem_of_getElem? hk, hc⟩
    cases i with
    | zero =>
      obtain rfl : x = a := by simpa using hi
      rw [List.filterMap_cons_some ha] at hnodup
      cases j with
      | zero => rfl
      | succ j => exact absurd (hmem (by simpa using hj) hb) (List.nodup_cons.mp hnodup).1
    | succ i =>
      cases j with
      | zero =>
        obtain rfl : x = b := by simpa using hj
        rw [List.filterMap_cons_some hb] at hnodup
        exact absurd (hmem (by simpa using hi) ha) (List.nodup_cons.mp hnodup).1
      | succ j =>
        have hrest : (l.filterMap f).Nodup := by
          cases hx : f x with
          | none => rwa [List.filterMap_cons_none hx] at hnodup
          | some w =>
            rw [List.filterMap_cons_some hx] at hnodup
            exact (List.nodup_cons.mp hnodup).2
        have hij : i = j := ih hrest (by simpa using hi) (by simpa using hj)
        rw [hij]

variable {p : α → Prop}

theorem exists_mem_set {a b : α} (h : l[i]? = some a) (hab : p a → p b) (hex : ∃ x ∈ l, p x) :
    ∃ x ∈ l.set i b, p x := by
  obtain ⟨x, hx, hpx⟩ := hex
  obtain ⟨j, hj⟩ := List.mem_iff_getElem?.mp hx
  have hi : i < l.length := (List.getElem?_eq_some_iff.mp h).1
  by_cases hij : i = j
  · subst hij
    obtain rfl : a = x := Option.some.inj (h.symm.trans hj)
    exact ⟨b, List.mem_set hi b, hab hpx⟩
  · refine ⟨x, List.mem_iff_getElem?.mpr ⟨j, ?_⟩, hpx⟩
    rw [List.getElem?_set_ne hij]
    exact hj

theorem forall_mem_set (i : Nat) {b : α} (hl : ∀ x ∈ l, p x) (hb : p b) :
    ∀ x ∈ l.set i b, p x := by
  intro x hx
  rcases List.mem_or_eq_of_mem_set hx with hx | rfl
  · exact hl x hx
  · exact hb

theorem forall_getElem?_set {p : Nat → α → Prop} {b : α}
    (hl : ∀ j x, j ≠ i → l[j]? = some x → p j x) (hb : p i b) :
    ∀ j x, (l.set i b)[j]? = some x → p j x := by
  intro j x hj
  by_cases hij : i = j
  · subst hij
    have hlt : i < (l.set i b).length := (List.getElem?_eq_some_iff.mp hj).1
    rw [List.getElem?_set_self (by simpa using hlt)] at hj
    exact Option.some.inj hj ▸ hb
  · rw [List.getElem?_set_ne hij] at hj
    exact hl j x (Ne.symm hij) hj

theorem forall_mem_set_of_ne {b : α} (hl : ∀ j x, j ≠ i → l[j]? = some x → p x) (hb : p b) :
    ∀ x ∈ l.set i b, p x := by
  intro x hx
  obtain ⟨j, hj⟩ := List.mem_iff_getElem?.mp hx
  exact forall_getElem?_set (p := fun _ => p) hl hb j x hj

theorem forall_getElem?_append_singleton {p : Nat → α → Prop} {b : α}
    (hl : ∀ j x, l[j]? = some x → p j x) (hb : p l.length b) :
    ∀ j x, (l ++ [b])[j]? = some x → p j x := by
  intro j x hj
  rcases Nat.lt_or_ge j l.length with hlt | hge
  · rw [List.getElem?_append_left hlt] at hj
    exact hl j x hj
  · obtain ⟨hlt, -⟩ := List.getElem?_eq_some_iff.mp hj
    rw [List.length_append, List.length_singleton] at hlt
    obtain rfl : j = l.length := by omega
    rw [List.getElem?_concat_length] at hj
    exact Option.some.inj hj ▸ hb

theorem forall_mem_append_singleton {b : α} (hl : ∀ x ∈ l, p x) (hb : p b) :
    ∀ x ∈ l ++ [b], p x := by
  intro x hx
  rcases List.mem_append.mp hx with hx | hx
  · exact hl x hx
  · obtain rfl : x = b := by simpa using hx
    exact hb

end FileApi.Pool
