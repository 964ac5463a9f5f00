import Mathlib.Data.List.Basic
import Mathlib.Logic.Function.Basic

/-!
# Trees of files

A tree of directories, files and symbolic links. A path is walked step by step, and a link on the
way is followed, up to a number of them. A place is the list of the names on the way to it, the last
one first; the root is there always.
-/

namespace FileApi.FileTree

variable {ν β : Type}

/-- A step of a path. -/
inductive Step (ν : Type) where
  | here
  | up
  | down (name : ν)
  deriving DecidableEq

/-- A path, from the root on or from a directory on. -/
structure Route (ν : Type) where
  rooted : Bool
  steps : List (Step ν)
  deriving DecidableEq

inductive Node (ν β : Type) where
  | directory
  | file (content : β)
  | link (target : Route ν)
  deriving DecidableEq

/-- What a walk comes to: something, a name that is missing in its directory, or nothing. -/
inductive Found (ν : Type) where
  | there (place : List ν)
  | missing (place : List ν)
  | nowhere
  deriving DecidableEq

/-- Where a route starts that is taken from `dir`. -/
def Route.start (route : Route ν) (dir : List ν) : List ν := if route.rooted then [] else dir

/-- The names a path goes down. -/
def names : List (Step ν) → List ν
  | [] => []
  | .here :: rest => names rest
  | .up :: rest => names rest
  | .down name :: rest => name :: names rest

/-- There is no step that leads away. -/
def stays : List (Step ν) → Bool
  | [] => true
  | .here :: rest => stays rest
  | .up :: _ => false
  | .down _ :: _ => false

def Step.name? : Step ν → Option ν
  | .here => none
  | .up => none
  | .down name => some name

/-- The steps in front of the last name, and that name, if a path ends with one. -/
def splitLastName : List (Step ν) → Option (List (Step ν) × ν)
  | [] => none
  | step :: rest =>
      if stays rest then step.name?.map fun name => ([], name)
      else (splitLastName rest).map fun (front, name) => (step :: front, name)

theorem names_append (a b : List (Step ν)) : names (a ++ b) = names a ++ names b := by
  induction a with
  | nil => rfl
  | cons step a ih =>
    cases step with
    | here => exact ih
    | up => exact ih
    | down name => exact congrArg (name :: ·) ih

section

variable (t : List ν → Option (Node ν β))

def isDirectory (place : List ν) : Bool :=
  match place, t place with
  | [], _ => true
  | _, some .directory => true
  | _, _ => false

/-- A walk from `dir`; `again` is the walk behind a link, and `follow` is whether a link at the end
is followed. -/
def walkWith (again : List ν → List (Step ν) → Found ν) (follow : Bool) :
    List ν → List (Step ν) → Found ν
  | dir, [] => .there dir
  | dir, .here :: rest => walkWith again follow dir rest
  | dir, .up :: rest => walkWith again follow dir.tail rest
  | dir, .down name :: rest =>
      match t (name :: dir) with
      | some .directory => walkWith again follow (name :: dir) rest
      | some (.file _) => if rest.isEmpty then .there (name :: dir) else .nowhere
      | some (.link target) =>
          if rest.isEmpty ∧ ¬ follow then .there (name :: dir)
          else again (target.start dir) (target.steps ++ rest)
      | none => if stays rest then .missing (name :: dir) else .nowhere

/-- A walk that follows so many links. -/
def walk (follow : Bool) : Nat → List ν → List (Step ν) → Found ν
  | 0 => walkWith t (fun _ _ => .nowhere) follow
  | limit + 1 => walkWith t (walk follow limit) follow

/-- The place of the last name of a path, in the directory in front of it. -/
def entry (limit : Nat) (dir : List ν) (steps : List (Step ν)) : Option (List ν) :=
  match splitLastName steps with
  | none => none
  | some (front, name) =>
      match walk t true limit dir front with
      | .there parent => if isDirectory t parent then some (name :: parent) else none
      | _ => none

end

variable {dir : List ν} {steps rest : List (Step ν)} {t : List ν → Option (Node ν β)}
  {follow : Bool}

/-! ## Last names -/

variable {name : ν}

theorem splitLastName_eq_some {front : List (Step ν)}
    (h : splitLastName steps = some (front, name)) :
    ∃ back, stays back = true ∧ steps = front ++ .down name :: back := by
  induction steps generalizing front with
  | nil => cases h
  | cons step steps ih =>
    rw [splitLastName] at h
    split at h
    · next hstays =>
      obtain ⟨last, hlast, heq⟩ := Option.map_eq_some_iff.mp h
      cases heq
      cases step with
      | here => cases hlast
      | up => cases hlast
      | down other =>
        cases hlast
        exact ⟨steps, hstays, rfl⟩
    · obtain ⟨⟨front', name'⟩, hsplit, heq⟩ := Option.map_eq_some_iff.mp h
      cases heq
      obtain ⟨back, hback, rfl⟩ := ih hsplit
      exact ⟨back, hback, rfl⟩

variable {place : List ν} {limit : Nat}

theorem entry_eq_some (h : entry t limit dir steps = some place) :
    ∃ front name parent, splitLastName steps = some (front, name) ∧
      walk t true limit dir front = .there parent ∧ isDirectory t parent = true ∧
      place = name :: parent := by
  rw [entry] at h
  split at h
  · cases h
  · next front name hsplit =>
    split at h
    · next parent hwalk =>
      split at h
      · next hdir => exact ⟨front, name, parent, hsplit, hwalk, hdir, (Option.some.inj h).symm⟩
      · cases h
    · cases h

/-! ## Larger trees -/

variable {t' : List ν → Option (Node ν β)}

/-- What a walk comes to is still there in a tree that has the directories and the links of the first
one, and what is at that place. -/
theorem walk_keeps
    (hkeeps : ∀ q node, t q = some node → (∀ content, node ≠ .file content) → t' q = some node)
    (hplace : ∀ node, t place = some node → t' place = some node)
    (h : walk t follow limit dir steps = .there place) :
    walk t' follow limit dir steps = .there place := by
  have hwalk : ∀ (again again' : List ν → List (Step ν) → Found ν),
      (∀ dir steps, again dir steps = .there place → again' dir steps = .there place) →
      ∀ steps dir, walkWith t again follow dir steps = .there place →
        walkWith t' again' follow dir steps = .there place := by
    intro again again' hagain steps
    induction steps with
    | nil => exact fun dir h => h
    | cons step steps ih =>
      intro dir h
      cases step with
      | here => exact ih _ h
      | up => exact ih _ h
      | down name =>
        rw [walkWith] at h ⊢
        cases hnode : t (name :: dir) with
        | none =>
          rw [hnode] at h
          dsimp only at h
          split at h
          · cases h
          · cases h
        | some node =>
          rw [hnode] at h
          cases node with
          | directory =>
            rw [hkeeps _ _ hnode nofun]
            exact ih _ h
          | file content =>
            dsimp only at h
            split at h
            · next hlast =>
              cases h
              rw [hplace _ hnode]
              exact if_pos hlast
            · cases h
          | link target =>
            rw [hkeeps _ _ hnode nofun]
            dsimp only at h ⊢
            split
            · next hlast =>
              rw [if_pos hlast] at h
              exact h
            · next hlast =>
              rw [if_neg hlast] at h
              exact hagain _ _ h
  induction limit generalizing dir steps with
  | zero => exact hwalk (fun _ _ => .nowhere) (fun _ _ => .nowhere) (fun _ _ h => by cases h) steps dir h
  | succ limit ih => exact hwalk _ _ (fun dir steps h => ih h) steps dir h

theorem walk_mono (hlarger : ∀ place node, t place = some node → t' place = some node)
    (h : walk t follow limit dir steps = .there place) :
    walk t' follow limit dir steps = .there place :=
  walk_keeps (fun q node hnode _ => hlarger q node hnode) (hlarger place) h

/-- Where something is missing there is nothing. -/
theorem walk_missing (h : walk t follow limit dir steps = .missing place) :
    t place = none := by
  have hwalk : ∀ (again : List ν → List (Step ν) → Found ν),
      (∀ dir steps, again dir steps = .missing place → t place = none) →
      ∀ steps dir, walkWith t again follow dir steps = .missing place → t place = none := by
    intro again hagain steps
    induction steps with
    | nil => nofun
    | cons step steps ih =>
      intro dir h
      cases step with
      | here => exact ih _ h
      | up => exact ih _ h
      | down name =>
        rw [walkWith] at h
        split at h
        · exact ih _ h
        · split at h <;> cases h
        · split at h
          · cases h
          · exact hagain _ _ h
        · next hnone =>
          split at h
          · cases h
            exact hnone
          · cases h
  induction limit generalizing dir steps with
  | zero => exact hwalk (fun _ _ => .nowhere) (fun _ _ h => by cases h) steps dir h
  | succ limit ih => exact hwalk _ (fun dir steps h => ih h) steps dir h

/-- A node without what a file holds. -/
def Node.shape : Node ν β → Node ν Unit
  | .directory => .directory
  | .file _ => .file ()
  | .link target => .link target

/-- What files hold leads nowhere. -/
theorem walk_of_shapes (hshape : ∀ q, (t' q).map Node.shape = (t q).map Node.shape) (limit : Nat)
    (dir : List ν) (steps : List (Step ν)) :
    walk t' follow limit dir steps = walk t follow limit dir steps := by
  have hwalk : ∀ (again again' : List ν → List (Step ν) → Found ν),
      (∀ dir steps, again' dir steps = again dir steps) →
      ∀ steps dir, walkWith t' again' follow dir steps = walkWith t again follow dir steps := by
    intro again again' hagain steps
    induction steps with
    | nil => exact fun _ => rfl
    | cons step steps ih =>
      intro dir
      cases step with
      | here => exact ih dir
      | up => exact ih dir.tail
      | down name =>
        have hnode := hshape (name :: dir)
        rw [walkWith, walkWith]
        cases h : t (name :: dir) with
        | none =>
          rw [h, Option.map_none, Option.map_eq_none_iff] at hnode
          rw [hnode]
        | some node =>
          rw [h] at hnode
          obtain ⟨node', h', hsame⟩ := Option.map_eq_some_iff.mp hnode
          rw [h']
          cases node with
          | directory =>
            cases node' with
            | directory => exact ih _
            | _ => cases hsame
          | file content =>
            cases node' with
            | file content' => rfl
            | _ => cases hsame
          | link target =>
            cases node' with
            | link target' =>
              cases hsame
              dsimp only
              rw [hagain]
            | _ => cases hsame
  induction limit generalizing dir steps with
  | zero => exact hwalk (fun _ _ => .nowhere) (fun _ _ => .nowhere) (fun _ _ => rfl) steps dir
  | succ limit ih => exact hwalk _ _ (fun dir steps => ih dir steps) steps dir

/-! ## One name further -/

theorem stays_append (h : stays steps = true) (hrest : stays rest = true) :
    stays (steps ++ rest) = true := by
  induction steps with
  | nil => exact hrest
  | cons step steps ih =>
    cases step with
    | here => exact ih h
    | up => cases h
    | down name => cases h

theorem stays_append_down (steps : List (Step ν)) (name : ν) (back : List (Step ν)) :
    stays (steps ++ .down name :: back) = false := by
  induction steps with
  | nil => rfl
  | cons step steps ih =>
    cases step with
    | here => exact ih
    | up => rfl
    | down first => rfl

theorem splitLastName_append (steps : List (Step ν)) (name : ν) {back : List (Step ν)}
    (hback : stays back = true) :
    splitLastName (steps ++ .down name :: back) = some (steps, name) := by
  induction steps with
  | nil => exact if_pos hback
  | cons step steps ih =>
    rw [List.cons_append, splitLastName, stays_append_down, if_neg Bool.false_ne_true, ih]
    rfl

theorem splitLastName_append_down (steps : List (Step ν)) (name : ν) :
    splitLastName (steps ++ [Step.down name]) = some (steps, name) := splitLastName_append steps name rfl

theorem entry_append_down (hwalk : walk t true limit dir steps = .there place)
    (hdir : isDirectory t place = true) :
    entry t limit dir (steps ++ [Step.down name]) = some (name :: place) := by
  rw [entry, splitLastName_append_down]
  dsimp only
  rw [hwalk]
  exact if_pos hdir

/-- A walk that goes on from a directory. -/
theorem walk_append {more : List (Step ν)} {found : Found ν}
    (hwalk : walk t true limit dir steps = .there place) (hdir : t place = some .directory)
    (hmore : ∀ again, walkWith t again true place more = found) :
    walk t true limit dir (steps ++ more) = found := by
  have hstep : ∀ (again again' : List ν → List (Step ν) → Found ν),
      (∀ dir steps, again dir steps = .there place → again' dir (steps ++ more) = found) →
      ∀ steps dir, walkWith t again true dir steps = .there place →
        walkWith t again' true dir (steps ++ more) = found := by
    intro again again' hagain steps
    induction steps with
    | nil =>
      rintro dir ⟨⟩
      exact hmore again'
    | cons step steps ih =>
      intro dir h
      cases step with
      | here => exact ih dir h
      | up => exact ih dir.tail h
      | down first =>
        rw [List.cons_append, walkWith]
        rw [walkWith] at h
        cases hnode : t (first :: dir) with
        | none =>
          rw [hnode] at h
          dsimp only at h
          split at h <;> cases h
        | some node =>
          rw [hnode] at h
          cases node with
          | directory => exact ih _ h
          | file content =>
            dsimp only at h
            split at h
            · cases h
              rw [hnode] at hdir
              cases hdir
            · cases h
          | link target =>
            dsimp only at h ⊢
            rw [if_neg (by simp)] at h ⊢
            rw [← List.append_assoc]
            exact hagain _ _ h
  induction limit generalizing dir steps with
  | zero => exact hstep _ _ (fun _ _ h => by cases h) steps dir hwalk
  | succ limit ih => exact hstep _ _ (fun dir steps h => ih h) steps dir hwalk

theorem tree_of_isDirectory (hroot : t [] = some .directory) (h : isDirectory t place = true) :
    t place = some .directory := by
  cases place with
  | nil => exact hroot
  | cons name place =>
    unfold isDirectory at h
    split at h
    · next heq => cases heq
    · next hnode _ => exact hnode
    · cases h

theorem walk_of_entry (hroot : t [] = some .directory) (h : entry t limit dir steps = some place)
    (hnone : t place = none) :
    walk t true limit dir steps = .missing place := by
  obtain ⟨front, name, parent, hsplit, hwalk, hdir, rfl⟩ := entry_eq_some h
  obtain ⟨back, hback, rfl⟩ := splitLastName_eq_some hsplit
  refine walk_append hwalk (tree_of_isDirectory hroot hdir) fun again => ?_
  rw [walkWith, hnone]
  exact if_pos hback

theorem walkWith_of_stays {again : List ν → List (Step ν) → Found ν} (h : stays steps = true) :
    walkWith t again follow dir steps = .there dir := by
  induction steps with
  | nil => rfl
  | cons step steps ih =>
    cases step with
    | here => exact ih h
    | up => cases h
    | down name => cases h

theorem walk_of_entry_directory (hroot : t [] = some .directory)
    (h : entry t limit dir steps = some place) (hnode : t place = some .directory) :
    walk t true limit dir steps = .there place := by
  obtain ⟨front, name, parent, hsplit, hwalk, hdir, rfl⟩ := entry_eq_some h
  obtain ⟨back, hback, rfl⟩ := splitLastName_eq_some hsplit
  refine walk_append hwalk (tree_of_isDirectory hroot hdir) fun again => ?_
  rw [walkWith, hnode]
  exact walkWith_of_stays hback

/-- The last name of a path is at the same place in a tree that has the directories and the links of
the first one. -/
theorem entry_keeps (hroot : t [] = some .directory)
    (hkeeps : ∀ q node, t q = some node → (∀ content, node ≠ .file content) → t' q = some node)
    (h : entry t limit dir steps = some place) :
    entry t' limit dir steps = some place := by
  obtain ⟨front, name, parent, hsplit, hwalk, hdir, rfl⟩ := entry_eq_some h
  have hparent := tree_of_isDirectory hroot hdir
  have hparent' := hkeeps parent _ hparent nofun
  have hwalk' := walk_keeps hkeeps (fun node hnode => by
    rw [hparent] at hnode
    exact hparent'.trans hnode) hwalk
  rw [entry, hsplit]
  dsimp only
  rw [hwalk']
  refine if_pos ?_
  cases parent with
  | nil => rfl
  | cons first parent => simp [isDirectory, hparent']

/-- What is found one name behind a path is in the place that the path leads to. -/
theorem walk_append_down (h : walk t true limit dir (steps ++ [Step.down name]) ≠ .nowhere) :
    ∃ place again, walk t true limit dir steps = .there place ∧
      walk t true limit dir (steps ++ [Step.down name]) =
        walkWith t again true place [.down name] := by
  have hstep : ∀ again : List ν → List (Step ν) → Found ν,
      (∀ dir steps, again dir (steps ++ [Step.down name]) ≠ .nowhere →
        ∃ place again', again dir steps = .there place ∧
          again dir (steps ++ [Step.down name]) = walkWith t again' true place [.down name]) →
      ∀ steps dir, walkWith t again true dir (steps ++ [Step.down name]) ≠ .nowhere →
        ∃ place again', walkWith t again true dir steps = .there place ∧
          walkWith t again true dir (steps ++ [Step.down name]) =
            walkWith t again' true place [.down name] := by
    intro again hagain steps
    induction steps with
    | nil => exact fun dir _ => ⟨dir, again, rfl, rfl⟩
    | cons step steps ih =>
      intro dir h
      cases step with
      | here => exact ih dir h
      | up => exact ih dir.tail h
      | down first =>
        rw [List.cons_append, walkWith] at h ⊢
        rw [walkWith]
        cases hnode : t (first :: dir) with
        | none =>
          rw [hnode] at h
          dsimp only at h
          rw [stays_append_down] at h
          exact absurd rfl h
        | some node =>
          rw [hnode] at h
          cases node with
          | directory => exact ih _ h
          | file content =>
            dsimp only at h
            rw [if_neg (by simp)] at h
            exact absurd rfl h
          | link target =>
            dsimp only at h ⊢
            rw [if_neg (by simp), ← List.append_assoc] at h
            rw [if_neg (by simp), if_neg (by simp), ← List.append_assoc]
            exact hagain _ _ h
  induction limit generalizing dir steps with
  | zero => exact hstep _ (fun _ _ h => absurd rfl h) steps dir h
  | succ limit ih => exact hstep _ (fun dir steps h => ih h) steps dir h

/-- Down the directories of a path. -/
theorem walk_of_directories (hup : .up ∉ steps)
    (h : ∀ place, place <:+ (names steps).reverse ++ dir → dir <:+ place → place ≠ dir →
      t place = some .directory) :
    walk t follow limit dir steps = .there ((names steps).reverse ++ dir) := by
  have hwalk : ∀ again : List ν → List (Step ν) → Found ν,
      walkWith t again follow dir steps = .there ((names steps).reverse ++ dir) := by
    intro again
    induction steps generalizing dir with
    | nil => rfl
    | cons step steps ih =>
      obtain ⟨hstep, hsteps⟩ := not_or.mp fun h' => hup (List.mem_cons.mpr h')
      cases step with
      | here => exact ih hsteps h
      | up => exact absurd rfl hstep
      | down name =>
        rw [names, List.reverse_cons, List.append_assoc] at h ⊢
        have hne : name :: dir ≠ dir := fun heq =>
          absurd (congrArg List.length heq) (Nat.succ_ne_self _)
        rw [walkWith, h (name :: dir) (List.suffix_append _ _) (List.suffix_cons _ _) hne]
        refine ih hsteps fun place hplace hdir _ => h place hplace ?_ ?_
        · exact (List.suffix_cons _ _).trans hdir
        · rintro rfl
          exact absurd hdir.length_le (Nat.not_succ_le_self _)
  cases limit with
  | zero => exact hwalk _
  | succ limit => exact hwalk _

/-- What a walk comes to that follows links is there, and is no link. -/
theorem walk_there (hroot : t [] = some .directory)
    (hrooted : ∀ name dir, t (name :: dir) ≠ none → t dir = some .directory)
    (hdir : t dir = some .directory) (h : walk t true limit dir steps = .there place) :
    ∃ node, t place = some node ∧ ∀ target, node ≠ .link target := by
  have hwalk : ∀ again : List ν → List (Step ν) → Found ν,
      (∀ dir steps, t dir = some .directory → again dir steps = .there place →
        ∃ node, t place = some node ∧ ∀ target, node ≠ .link target) →
      ∀ steps dir, t dir = some .directory → walkWith t again true dir steps = .there place →
        ∃ node, t place = some node ∧ ∀ target, node ≠ .link target := by
    intro again hagain steps
    induction steps with
    | nil =>
      rintro dir hdir ⟨⟩
      exact ⟨_, hdir, nofun⟩
    | cons step steps ih =>
      intro dir hdir h
      cases step with
      | here => exact ih dir hdir h
      | up =>
        refine ih dir.tail ?_ h
        cases dir with
        | nil => exact hroot
        | cons name dir => exact hrooted name dir (by rw [hdir]; nofun)
      | down name =>
        rw [walkWith] at h
        split at h
        · next hnode => exact ih _ hnode h
        · next content hnode =>
          split at h
          · cases h
            exact ⟨_, hnode, nofun⟩
          · cases h
        · next target hnode =>
          rw [if_neg (by simp)] at h
          refine hagain _ _ ?_ h
          unfold Route.start
          split
          · exact hroot
          · exact hdir
        · split at h <;> cases h
  induction limit generalizing dir steps with
  | zero => exact hwalk _ (fun _ _ _ h => by cases h) steps dir hdir h
  | succ limit ih => exact hwalk _ (fun dir steps hdir h => ih hdir h) steps dir hdir h

/-- Whether a link at the end of a path is followed makes a difference only where there is one. -/
theorem walk_unfollowed (t : List ν → Option (Node ν β)) (limit : Nat) (dir : List ν)
    (steps : List (Step ν)) :
    walk t false limit dir steps = walk t true limit dir steps ∨
      ∃ place target, walk t false limit dir steps = .there place ∧
        t place = some (.link target) := by
  have hwalk : ∀ again again' : List ν → List (Step ν) → Found ν,
      (∀ dir steps, again dir steps = again' dir steps ∨
        ∃ place target, again dir steps = .there place ∧ t place = some (.link target)) →
      ∀ steps dir, walkWith t again false dir steps = walkWith t again' true dir steps ∨
        ∃ place target, walkWith t again false dir steps = .there place ∧
          t place = some (.link target) := by
    intro again again' hagain steps
    induction steps with
    | nil => exact fun dir => .inl rfl
    | cons step steps ih =>
      intro dir
      cases step with
      | here => exact ih dir
      | up => exact ih dir.tail
      | down name =>
        rw [walkWith, walkWith]
        cases hnode : t (name :: dir) with
        | none => exact .inl rfl
        | some node =>
          cases node with
          | directory => exact ih (name :: dir)
          | file content => exact .inl rfl
          | link target =>
            dsimp only
            rw [if_neg (by simp : ¬ (steps.isEmpty = true ∧ ¬ true = true))]
            by_cases hlast : steps.isEmpty = true ∧ ¬ false = true
            · rw [if_pos hlast]
              exact .inr ⟨name :: dir, target, rfl, hnode⟩
            · rw [if_neg hlast]
              exact hagain _ _
  induction limit generalizing dir steps with
  | zero => exact hwalk _ _ (fun _ _ => .inl rfl) steps dir
  | succ limit ih => exact hwalk _ _ (fun dir steps => ih dir steps) steps dir

/-- Where a path goes on, the walk is in a directory. -/
theorem walk_append_there (hroot : t [] = some .directory)
    (hrooted : ∀ name dir, t (name :: dir) ≠ none → t dir = some .directory) {more : List (Step ν)}
    (hdir : t dir = some .directory) (hmore : more ≠ [])
    (h : walk t true limit dir (steps ++ more) = .there place) :
    ∃ mid again, walk t true limit dir steps = .there mid ∧ t mid = some .directory ∧
      walkWith t again true mid more = .there place := by
  have hwalk : ∀ again : List ν → List (Step ν) → Found ν,
      (∀ dir steps, t dir = some .directory → again dir (steps ++ more) = .there place →
        ∃ mid again', again dir steps = .there mid ∧ t mid = some .directory ∧
          walkWith t again' true mid more = .there place) →
      ∀ steps dir, t dir = some .directory →
        walkWith t again true dir (steps ++ more) = .there place →
        ∃ mid again', walkWith t again true dir steps = .there mid ∧ t mid = some .directory ∧
          walkWith t again' true mid more = .there place := by
    intro again hagain steps
    induction steps with
    | nil => exact fun dir hdir h => ⟨dir, again, rfl, hdir, h⟩
    | cons step steps ih =>
      intro dir hdir h
      cases step with
      | here => exact ih dir hdir h
      | up =>
        refine ih dir.tail ?_ h
        cases dir with
        | nil => exact hroot
        | cons name dir => exact hrooted name dir (by rw [hdir]; nofun)
      | down name =>
        rw [List.cons_append, walkWith] at h
        rw [walkWith]
        split at h
        · next hnode => exact ih _ hnode h
        · rw [if_neg (by simp [hmore])] at h
          cases h
        · next target hnode =>
          rw [if_neg (by simp), ← List.append_assoc] at h
          rw [if_neg (by simp)]
          refine hagain _ _ ?_ h
          unfold Route.start
          split
          · exact hroot
          · exact hdir
        · split at h <;> cases h
  induction limit generalizing dir steps with
  | zero => exact hwalk _ (fun _ _ _ h => by cases h) steps dir hdir h
  | succ limit ih => exact hwalk _ (fun dir steps hdir h => ih hdir h) steps dir hdir h

/-! ## Places that do not depend on a region -/

/-- The place of what is found, or of the name that is missing. -/
def Found.place? : Found ν → Option (List ν)
  | .there place => some place
  | .missing place => some place
  | .nowhere => none

theorem stays_of_place {again : List ν → List (Step ν) → Found ν}
    (hlink : ∀ route, t (name :: dir) ≠ some (.link route))
    (hdir : t (name :: dir) ≠ some .directory)
    (h : (walkWith t again follow dir (.down name :: steps)).place? = some place) :
    stays steps = true ∧ place = name :: dir := by
  rw [walkWith] at h
  split at h
  · next hnode => exact absurd hnode hdir
  · split at h
    · next hempty =>
      rw [List.isEmpty_iff] at hempty
      cases h
      exact ⟨hempty ▸ rfl, rfl⟩
    · cases h
  · next route hnode => exact absurd hnode (hlink route)
  · split at h
    · next hstays =>
      cases h
      exact ⟨hstays, rfl⟩
    · cases h

end FileApi.FileTree
