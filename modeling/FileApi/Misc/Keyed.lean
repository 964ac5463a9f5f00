import FileApi.Misc.Pool

/-!
# Keyed lists

A map whose values know their key, as the list of its values. `find`, `modify`, `erase` and `put`
are the operations of `std::unordered_map`; the lemmas say what they do to a lookup and to a sum
over the values.
-/

namespace FileApi.Keyed

open Pool

variable {α κ : Type} [DecidableEq κ] (key : α → κ)

def find (l : List α) (k : κ) : Option α := l.find? fun a => key a = k

def modify (l : List α) (k : κ) (g : α → α) : List α := l.map fun a => if key a = k then g a else a

def erase (l : List α) (k : κ) : List α := l.filter fun a => key a ≠ k

/-- `map[key a] = a`. -/
def put (l : List α) (a : α) : List α :=
  if (find key l (key a)).isSome then modify key l (key a) fun _ => a else l ++ [a]

/-- The keys are all different. -/
def Distinct (l : List α) : Prop := (l.map key).Nodup

variable {key} {l : List α} {a b : α} {k k' : κ} {g : α → α}

theorem find_mem (h : find key l k = some a) : a ∈ l ∧ key a = k := by
  refine ⟨List.mem_of_find?_eq_some h, ?_⟩
  simpa using List.find?_some h

theorem find_none (h : find key l k = none) (ha : a ∈ l) : key a ≠ k := by
  simpa using List.find?_eq_none.mp h a ha

theorem find_of_mem (hd : Distinct key l) (ha : a ∈ l) : find key l (key a) = some a := by
  cases h : find key l (key a) with
  | none => exact absurd rfl (find_none h ha)
  | some b =>
    obtain ⟨hb, hkey⟩ := find_mem h
    rw [List.inj_on_of_nodup_map hd hb ha hkey]

theorem find_modify (hg : ∀ a, key (g a) = key a) :
    find key (modify key l k g) k' = (find key l k').map fun a => if key a = k then g a else a := by
  unfold find modify
  rw [List.find?_map]
  congr 2
  funext a
  by_cases h : key a = k
  · simp [h, hg]
  · simp [h]

theorem find_modify_self (hg : ∀ a, key (g a) = key a) :
    find key (modify key l k g) k = (find key l k).map g := by
  rw [find_modify hg]
  cases h : find key l k with
  | none => rfl
  | some a => simp [(find_mem h).2]

theorem find_modify_of_ne (hg : ∀ a, key (g a) = key a) (hk : k' ≠ k) :
    find key (modify key l k g) k' = find key l k' := by
  rw [find_modify hg]
  cases h : find key l k' with
  | none => rfl
  | some a => simp [(find_mem h).2, hk]

theorem find_erase : find key (erase key l k) k' = if k' = k then none else find key l k' := by
  unfold find erase
  rw [List.find?_filter]
  by_cases h : k' = k
  · rw [if_pos h, List.find?_eq_none]
    intro a _
    simp [h]
  · rw [if_neg h]
    congr 1
    funext a
    by_cases ha : key a = k'
    · simp [ha, h]
    · simp [ha]

theorem find_append_singleton (h : find key l (key a) = none) :
    find key (l ++ [a]) k = if k = key a then some a else find key l k := by
  unfold find at h ⊢
  rw [List.find?_append]
  by_cases hk : k = key a
  · subst hk
    rw [h]
    simp
  · rw [if_neg hk, List.find?_singleton]
    have hne : ¬ key a = k := fun h => hk h.symm
    simp [hne]

theorem put_of_absent (h : find key l (key a) = none) : put key l a = l ++ [a] := by
  simp [put, h]

theorem Distinct.modify (hd : Distinct key l) (hg : ∀ a, key (g a) = key a) :
    Distinct key (modify key l k g) := by
  unfold Distinct Keyed.modify at *
  rw [List.map_map]
  convert hd using 2
  funext a
  by_cases h : key a = k
  · simp [h, hg]
  · simp [h]

theorem Distinct.erase (hd : Distinct key l) : Distinct key (erase key l k) :=
  List.Nodup.sublist (List.Sublist.map _ List.filter_sublist) hd

theorem Distinct.append_singleton (hd : Distinct key l) (h : find key l (key a) = none) :
    Distinct key (l ++ [a]) := by
  unfold Distinct at *
  rw [List.map_append, List.map_singleton]
  refine List.Nodup.append hd (List.nodup_singleton _) ?_
  intro x hx hxa
  obtain ⟨b, hb, rfl⟩ := List.mem_map.mp hx
  exact find_none h hb (by simpa using hxa)

theorem put_of_present (h : (find key l (key a)).isSome) :
    put key l a = modify key l (key a) fun b => if key b = key a then a else b := by
  rw [put, if_pos h]
  refine List.map_congr_left fun b _ => ?_
  by_cases hb : key b = key a
  · simp [hb]
  · simp [hb]

theorem key_replace (a b : α) : key (if key b = key a then a else b) = key b := by
  split
  · next h => exact h.symm
  · rfl

theorem find_put : find key (put key l a) k = if k = key a then some a else find key l k := by
  by_cases h : (find key l (key a)).isSome
  · rw [put_of_present h]
    by_cases hk : k = key a
    · obtain ⟨b, hb⟩ := Option.isSome_iff_exists.mp h
      rw [hk, find_modify_self (key_replace a), hb, if_pos rfl, Option.map_some,
        if_pos (find_mem hb).2]
    · rw [find_modify_of_ne (key_replace a) hk, if_neg hk]
  · rw [put, if_neg h]
    exact find_append_singleton (Option.not_isSome_iff_eq_none.mp h)

theorem Distinct.put (hd : Distinct key l) (a : α) : Distinct key (put key l a) := by
  by_cases h : (find key l (key a)).isSome
  · rw [put_of_present h]
    exact hd.modify (key_replace a)
  · rw [Keyed.put, if_neg h]
    exact hd.append_singleton (Option.not_isSome_iff_eq_none.mp h)

theorem find_filter_of_pos {q : α → Bool} (h : find key l k = some a) (hq : q a = true) :
    find key (l.filter q) k = some a := by
  unfold find at h ⊢
  rw [List.find?_filter]
  induction l with
  | nil => cases h
  | cons b l ih =>
    rw [List.find?_cons] at h ⊢
    by_cases hb : key b = k
    · simp only [hb, decide_true] at h
      cases h
      simp [hb, hq]
    · simp only [hb, decide_false] at h
      simpa [hb] using ih h

theorem map_modify {β : Type} (f : α → β) (hf : ∀ a, f (g a) = f a) :
    (modify key l k g).map f = l.map f := by
  unfold modify
  rw [List.map_map]
  congr 1
  funext a
  by_cases h : key a = k
  · simp [h, hf]
  · simp [h]

theorem total_erase (f : α → Nat) (hd : Distinct key l) (h : find key l k = some a) :
    total f (erase key l k) + f a = total f l := by
  induction l with
  | nil => simp [find] at h
  | cons x l ih =>
    have hx := List.nodup_cons.mp hd
    by_cases hk : key x = k
    · obtain rfl : x = a := by simpa [find, hk] using h
      have hrest : erase key l k = l := by
        unfold erase
        rw [List.filter_eq_self]
        intro b hb
        have hne : key b ≠ k := by
          rintro rfl
          exact hx.1 (hk ▸ List.mem_map.mpr ⟨b, hb, rfl⟩)
        simpa using hne
      have hcons : erase key (x :: l) k = erase key l k := by simp [erase, hk]
      rw [hcons, hrest, total_cons]
      omega
    · have hcons : erase key (x :: l) k = x :: erase key l k := by simp [erase, hk]
      have hrest := ih hx.2 (by simpa [find, hk] using h)
      rw [hcons, total_cons, total_cons]
      omega

theorem length_eq_total (l : List α) : l.length = total (fun _ => 1) l := by
  simp [total]

end FileApi.Keyed
