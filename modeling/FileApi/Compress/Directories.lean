import FileApi.Compress.Posix

/-!
# Directories and `mkdir`

The tree that `stat` and `mkdir` reach from a current directory. Either may fail for a reason of its
own; what they say otherwise is so. `mkdir` makes the last name of a path, which dots are not, and
says `EEXIST` whatever has that name.
-/

namespace FileApi.Compress

open FileTree

/-- A tree of files: what there is is in directories, and the current directory is one. -/
@[ext] structure Directories (cwd : List PathName) where
  node : List PathName → Option FileNode
  root : node [] = some .directory
  rooted : ∀ name dir, node (name :: dir) ≠ none → node dir = some .directory
  cwd_directory : node cwd = some .directory

/-- Whether the last part of a path is a name. -/
def namesEntry (path : PathName) : Bool :=
  match (path.splitOn slash).reverse.find? (· ≠ []) with
  | none => false
  | some part => part ≠ [dot] ∧ part ≠ [dot, dot]

namespace Directories

variable {cwd : List PathName} (fs : Directories cwd) (limit : Nat) (path : PathName)

/-- The path names a directory. -/
def isDirectory : Bool :=
  path ≠ [] && match lookupAt fs.node cwd limit path with
    | .there place => decide (fs.node place = some .directory)
    | _ => false

/-- Where `mkdir` makes a directory, if there is nothing. -/
def entry : Option (List PathName) :=
  if namesEntry path then entryAt fs.node cwd limit path else none

/-- There is something for which `mkdir` says `EEXIST`. -/
def taken : Bool :=
  if namesEntry path then (fs.entry limit path).any fun place => (fs.node place).isSome
  else fs.isDirectory limit path

variable {fs limit path} in
theorem entry_parent {place : List PathName} (h : fs.entry limit path = some place) :
    ∃ name parent, place = name :: parent ∧ fs.node parent = some .directory := by
  unfold entry at h
  split at h
  · obtain ⟨front, name, parent, -, -, hdir, rfl⟩ := entry_eq_some h
    exact ⟨name, parent, rfl, tree_of_isDirectory fs.root hdir⟩
  · cases h

variable {fs} in
theorem update_directory {q : List PathName} (place : List PathName)
    (h : fs.node q = some .directory) :
    Function.update fs.node place (some .directory) q = some .directory := by
  rw [Function.update_apply]
  split
  · rfl
  · exact h

/-- A directory more. -/
def add (place : List PathName)
    (hparent : ∃ name parent, place = name :: parent ∧ fs.node parent = some .directory) :
    Directories cwd where
  node := Function.update fs.node place (some .directory)
  root := update_directory place fs.root
  rooted := by
    intro name dir hnode
    by_cases heq : name :: dir = place
    · obtain ⟨first, parent, rfl, hdir⟩ := hparent
      cases heq
      exact update_directory _ hdir
    · rw [Function.update_of_ne heq] at hnode
      exact update_directory _ (fs.rooted name dir hnode)
  cwd_directory := update_directory place fs.cwd_directory

/-- A directory where the path leads, if there is nothing. -/
def make : Directories cwd :=
  match h : fs.entry limit path with
  | none => fs
  | some place => if fs.node place = none then fs.add place (entry_parent h) else fs

end Directories

/-- The parts of a path in front of its last slash, from the root on, each with a slash at its end;
`temp` is in front of `p`. -/
def frontsOf : PathName → PathName → List PathName
  | _, [] => []
  | temp, b :: p =>
      if b = slash ∧ p ≠ [] then (temp ++ [b]) :: frontsOf (temp ++ [b]) p
      else frontsOf (temp ++ [b]) p

/-- The tree with the directories that are missing in front of the end of a path. -/
def Directories.prepared {cwd : List PathName} (fs : Directories cwd) (limit : Nat)
    (path : PathName) : Directories cwd :=
  (frontsOf [] path).foldl (fun fs front => fs.make limit front) fs

/-- A system with a tree, from which `mkdir` takes nothing. -/
structure MakesDirectories {W H : Type} (os : Os W H) (cwd : List PathName) (limit : Nat) where
  fs : W → Directories cwd
  isDirectory : ∀ path w, fs (os.isDirectory path w).2 = fs w
  isDirectory_true : ∀ path w, (os.isDirectory path w).1 = true →
    (fs w).isDirectory limit path = true
  mkdir_made : ∀ path w, (os.mkdir path w).1 = .made →
    ∃ place, (fs w).entry limit path = some place ∧ (fs w).node place = none ∧
      fs (os.mkdir path w).2 = (fs w).make limit path
  mkdir_fails : ∀ path w, (os.mkdir path w).1 ≠ .made → fs (os.mkdir path w).2 = fs w
  mkdir_exists : ∀ path w, (os.mkdir path w).1 = .exists → (fs w).taken limit path = true

end FileApi.Compress
