import FileApi.Misc.FileTree

/-!
# Where a path may lead

While a tree is changed there come to be files and directories in it. In the opened tree everything
that is no link is a directory, so a path leads there to the one place that it may lead to later.
Only where a link has gone it may end at the name of that link.
-/

namespace FileApi.FileTree

variable {ν β : Type} {t t' : List ν → Option (Node ν β)} {dir place : List ν}
  {steps : List (Step ν)} {limit : Nat}

/-- A tree in which everything but the links is a directory. -/
def opened (t : List ν → Option (Node ν β)) (place : List ν) : Option (Node ν β) :=
  match t place with
  | some (.link target) => some (.link target)
  | _ => some .directory

theorem opened_link {target : Route ν} (h : t place = some (.link target)) :
    opened t place = some (.link target) := by
  rw [opened, h]

theorem opened_of_not_link (h : ∀ target, t place ≠ some (.link target)) :
    opened t place = some .directory := by
  unfold opened
  split
  · next target hlink => exact absurd hlink (h target)
  · rfl

/-- No links have come to be, and no directories where links were. -/
structure Grown (t t' : List ν → Option (Node ν β)) : Prop where
  link : ∀ q target, t' q = some (.link target) → t q = some (.link target)
  directory : ∀ q target, t' q = some .directory → t q ≠ some (.link target)

theorem Grown.refl (t : List ν → Option (Node ν β)) : Grown t t where
  link _ _ h := h
  directory _ _ h hlink := nomatch h.symm.trans hlink

/-- A path that leads somewhere in a tree that has grown may lead there, or it ends where a link was. -/
theorem walk_grown (hgrown : Grown t t')
    (h : (walk t' true limit dir steps).place? = some place) :
    walk (opened t) true limit dir steps = .there place ∨
      ∃ target, t place = some (.link target) ∧ t' place ≠ some (.link target) := by
  have hwalk : ∀ again again' : List ν → List (Step ν) → Found ν,
      (∀ dir steps, (again' dir steps).place? = some place → again dir steps = .there place ∨
        ∃ target, t place = some (.link target) ∧ t' place ≠ some (.link target)) →
      ∀ steps dir, (walkWith t' again' true dir steps).place? = some place →
        walkWith (opened t) again true dir steps = .there place ∨
          ∃ target, t place = some (.link target) ∧ t' place ≠ some (.link target) := by
    intro again again' hagain steps
    induction steps with
    | nil =>
      rintro dir ⟨⟩
      exact .inl rfl
    | cons step steps ih =>
      intro dir h
      cases step with
      | here => exact ih dir h
      | up => exact ih dir.tail h
      | down name =>
        -- the path is at its end if there is a file or nothing
        have hend : stays steps = true → place = name :: dir →
            (∀ target, t' (name :: dir) ≠ some (.link target)) →
            walkWith (opened t) again true dir (.down name :: steps) = .there place ∨
              ∃ target, t place = some (.link target) ∧ t' place ≠ some (.link target) := by
          rintro hstays rfl hlink'
          by_cases hlink : ∃ target, t (name :: dir) = some (.link target)
          · obtain ⟨target, hlink⟩ := hlink
            exact .inr ⟨target, hlink, hlink' target⟩
          · rw [walkWith, opened_of_not_link (not_exists.mp hlink)]
            exact .inl (walkWith_of_stays hstays)
        cases hnode : t' (name :: dir) with
        | none =>
          have hat := stays_of_place (by simp [hnode]) (by simp [hnode]) h
          exact hend hat.1 hat.2 (by simp [hnode])
        | some node =>
          cases node with
          | directory =>
            rw [walkWith, hnode] at h
            rw [walkWith, opened_of_not_link fun target => hgrown.directory _ target hnode]
            exact ih _ h
          | file content =>
            have hat := stays_of_place (by simp [hnode]) (by simp [hnode]) h
            exact hend hat.1 hat.2 (by simp [hnode])
          | link target =>
            rw [walkWith, hnode] at h
            rw [walkWith, opened_link (hgrown.link _ _ hnode)]
            dsimp only at h ⊢
            rw [if_neg (by simp)] at h ⊢
            exact hagain _ _ h
  induction limit generalizing dir steps with
  | zero => exact hwalk _ _ (fun _ _ h => by cases h) steps dir h
  | succ limit ih => exact hwalk _ _ (fun dir steps h => ih h) steps dir h

end FileApi.FileTree
