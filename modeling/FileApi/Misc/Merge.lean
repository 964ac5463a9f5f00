import FileApi.Misc.FileTree
import Mathlib.Data.List.Infix

/-!
# Moving a tree into another

Two trees by the places below their roots, of which one is moved into the other. Where the nodes of
both at a place clash, both stay with all that is below them, and so do the directories above in
the source; all else moves.
-/

namespace FileApi.Merge

open FileTree

variable {ν β : Type}

abbrev Tree (ν β : Type) := List ν → Option (Node ν β)

/-- What is at and below a place. -/
def subtree (t : Tree ν β) (root : List ν) : Tree ν β := fun rest => t (rest ++ root)

/-- What is at and below a name in a directory. -/
def child (t : Tree ν β) (name : ν) : Tree ν β := fun rest => t (rest ++ [name])

theorem subtree_cons (t : Tree ν β) (name : ν) (root : List ν) :
    subtree t (name :: root) = child (subtree t root) name := by
  funext rest
  rw [child, subtree, subtree, List.append_assoc, List.singleton_append]

/-- What a relation between nodes has to be to tell clashes. -/
structure Lawful (clash : Option (Node ν β) → Option (Node ν β) → Bool) : Prop where
  none_left : ∀ target, clash none target = false
  none_right : ∀ source, clash source none = false
  directories : clash (some .directory) (some .directory) = false
  file_directory : ∀ content, clash (some (.file content)) (some .directory) = true

section

variable (clash : Option (Node ν β) → Option (Node ν β) → Bool) (s t : Tree ν β)

def Conflict (rest : List ν) : Prop := clash (s rest) (t rest) = true

/-- At or below a conflict. -/
def Stuck (rest : List ν) : Prop := ∃ above, above <:+ rest ∧ Conflict clash s t above

/-- At, below or above a conflict. -/
def Kept (rest : List ν) : Prop :=
  ∃ other, Conflict clash s t other ∧ (rest <:+ other ∨ other <:+ rest)

/-- What does not clash has come to the target. -/
structure Arrived (t' : Tree ν β) : Prop where
  came : ∀ rest, s rest ≠ none → ¬ Stuck clash s t rest → t' rest = s rest
  left : ∀ rest, s rest = none ∨ Stuck clash s t rest → t' rest = t rest

/-- The source `s` has been moved into `t`. -/
structure Moved (s' t' : Tree ν β) : Prop where
  arrived : Arrived clash s t t'
  kept : ∀ rest, Kept clash s t rest → s' rest = s rest
  gone : ∀ rest, ¬ Kept clash s t rest → s' rest = none

/-- All that is below the root of `s` has been moved into `t`. -/
structure Merged (s' t' : Tree ν β) : Prop where
  arrived : Arrived clash s t t'
  root : s' [] = s []
  kept : ∀ rest, Kept clash s t rest → s' rest = s rest
  gone : ∀ rest, rest ≠ [] → ¬ Kept clash s t rest → s' rest = none

end

variable {clash : Option (Node ν β) → Option (Node ν β) → Bool} {s t s' t' : Tree ν β}
  {rest : List ν} {name : ν}

theorem stuck_of_conflict (h : Conflict clash s t rest) : Stuck clash s t rest :=
  ⟨rest, List.suffix_rfl, h⟩

theorem kept_of_stuck (h : Stuck clash s t rest) : Kept clash s t rest := by
  obtain ⟨above, habove, hconflict⟩ := h
  exact ⟨above, hconflict, .inr habove⟩

theorem stuck_concat (hroot : ¬ Conflict clash s t []) :
    Stuck clash s t (rest ++ [name]) ↔ Stuck clash (child s name) (child t name) rest := by
  constructor
  · rintro ⟨above, habove, hconflict⟩
    rcases List.suffix_concat_iff.mp habove with rfl | ⟨front, rfl, hfront⟩
    · exact absurd hconflict hroot
    · exact ⟨front, hfront, hconflict⟩
  · rintro ⟨above, habove, hconflict⟩
    exact ⟨above ++ [name], List.suffix_concat_iff.mpr (.inr ⟨above, rfl, habove⟩), hconflict⟩

theorem kept_concat (hroot : ¬ Conflict clash s t []) :
    Kept clash s t (rest ++ [name]) ↔ Kept clash (child s name) (child t name) rest := by
  constructor
  · rintro ⟨other, hconflict, hbelow | habove⟩
    · obtain ⟨front, rfl⟩ := hbelow
      refine ⟨front ++ rest, ?_, .inl (List.suffix_append front rest)⟩
      rw [← List.append_assoc] at hconflict
      exact hconflict
    · rcases List.suffix_concat_iff.mp habove with rfl | ⟨front, rfl, hfront⟩
      · exact absurd hconflict hroot
      · exact ⟨front, hconflict, .inr hfront⟩
  · rintro ⟨other, hconflict, hbelow | habove⟩
    · exact ⟨other ++ [name], hconflict,
        .inl (List.suffix_concat_iff.mpr (.inr ⟨rest, rfl, hbelow⟩))⟩
    · exact ⟨other ++ [name], hconflict,
        .inr (List.suffix_concat_iff.mpr (.inr ⟨other, rfl, habove⟩))⟩

theorem not_conflict_of_none (hclash : Lawful clash) (h : s rest = none) :
    ¬ Conflict clash s t rest := by
  rw [Conflict, h, hclash.none_left]
  nofun

theorem not_conflict_of_free (hclash : Lawful clash) (h : t rest = none) :
    ¬ Conflict clash s t rest := by
  rw [Conflict, h, hclash.none_right]
  nofun

theorem arrived_of_none (hs : ∀ rest, s rest = none) (htarget : t' = t) : Arrived clash s t t' := by
  subst htarget
  exact ⟨fun rest h => absurd (hs rest) h, fun _ _ => rfl⟩

theorem moved_of_none (hs : ∀ rest, s rest = none) (hsource : s' = s) (htarget : t' = t) :
    Moved clash s t s' t' := by
  subst hsource
  exact ⟨arrived_of_none hs htarget, fun _ _ => rfl, fun rest _ => hs rest⟩

theorem merged_of_conflict (hroot : Conflict clash s t []) (hsource : s' = s) (htarget : t' = t) :
    Merged clash s t s' t' := by
  subst hsource htarget
  have hstuck : ∀ rest, Stuck clash s' t' rest := fun rest => ⟨[], List.nil_suffix, hroot⟩
  exact ⟨⟨fun rest _ h => absurd (hstuck rest) h, fun _ _ => rfl⟩, rfl, fun _ _ => rfl,
    fun rest _ h => absurd (kept_of_stuck (hstuck rest)) h⟩

theorem merged_of_children (hroot : ¬ Conflict clash s t []) (hsource : s' [] = s [])
    (htarget : t' [] = t []) (hsame : s [] = t [])
    (h : ∀ name, Moved clash (child s name) (child t name) (child s' name) (child t' name)) :
    Merged clash s t s' t' := by
  refine ⟨⟨fun rest hthere hstuck => ?_, fun rest hleft => ?_⟩, hsource, fun rest hkept => ?_,
    fun rest hne hkept => ?_⟩
  · rcases List.eq_nil_or_concat rest with rfl | ⟨front, name, rfl⟩
    · exact htarget.trans hsame.symm
    · rw [List.concat_eq_append] at hthere hstuck ⊢
      exact (h name).arrived.came front hthere fun hs => hstuck ((stuck_concat hroot).mpr hs)
  · rcases List.eq_nil_or_concat rest with rfl | ⟨front, name, rfl⟩
    · exact htarget
    · rw [List.concat_eq_append] at hleft ⊢
      exact (h name).arrived.left front (hleft.imp id (stuck_concat hroot).mp)
  · rcases List.eq_nil_or_concat rest with rfl | ⟨front, name, rfl⟩
    · exact hsource
    · rw [List.concat_eq_append] at hkept ⊢
      exact (h name).kept front ((kept_concat hroot).mp hkept)
  · rcases List.eq_nil_or_concat rest with rfl | ⟨front, name, rfl⟩
    · exact absurd rfl hne
    · rw [List.concat_eq_append] at hkept ⊢
      exact (h name).gone front fun hk => hkept ((kept_concat hroot).mpr hk)

theorem Merged.moved (h : Merged clash s t s' t') (hconflict : ∃ rest, Conflict clash s t rest) :
    Moved clash s t s' t' := by
  refine ⟨h.arrived, h.kept, fun rest hkept => ?_⟩
  by_cases hne : rest = []
  · obtain ⟨other, hother⟩ := hconflict
    exact absurd ⟨other, hother, .inl (hne ▸ List.nil_suffix)⟩ hkept
  · exact h.gone rest hne hkept

theorem not_kept (h : ∀ rest, ¬ Conflict clash s t rest) : ¬ Kept clash s t rest := by
  rintro ⟨other, hother, -⟩
  exact h other hother

theorem Arrived.moved (h : Arrived clash s t t') (hconflict : ∀ rest, ¬ Conflict clash s t rest)
    (hgone : ∀ rest, s' rest = none) : Moved clash s t s' t' :=
  ⟨h, fun _ hkept => absurd hkept (not_kept hconflict), fun rest _ => hgone rest⟩

theorem moved_of_eq (hconflict : ∀ rest, ¬ Conflict clash s t rest)
    (hnone : ∀ rest, s rest = none → t rest = none) (hsource : ∀ rest, s' rest = none)
    (htarget : t' = s) : Moved clash s t s' t' := by
  subst htarget
  refine Arrived.moved ⟨fun _ _ _ => rfl, fun rest hleft => ?_⟩ hconflict hsource
  rcases hleft with h | ⟨above, -, habove⟩
  · rw [h, hnone rest h]
  · exact absurd habove (hconflict above)

theorem Arrived.directory (hclash : Lawful clash) (h : Arrived clash s t t')
    (hlink : ∀ route, s rest ≠ some (.link route)) (hdir : t rest = some .directory) :
    t' rest = some .directory := by
  by_cases hstuck : s rest = none ∨ Stuck clash s t rest
  · rw [h.left rest hstuck, hdir]
  · obtain ⟨hthere, hstuck⟩ := not_or.mp hstuck
    rw [h.came rest hthere hstuck]
    cases hnode : s rest with
    | none => exact absurd hnode hthere
    | some node =>
      cases node with
      | directory => rfl
      | link route => exact absurd hnode (hlink route)
      | file content =>
        refine absurd (stuck_of_conflict ?_) hstuck
        rw [Conflict, hnode, hdir, hclash.file_directory]

end FileApi.Merge
