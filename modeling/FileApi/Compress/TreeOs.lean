import FileApi.Compress.Posix

/-!
# A system that is a tree

Every call finds what is in the tree and changes it as it should; only a directory is never removed.
The current directory is the root.
-/

namespace FileApi.Compress

open FileTree

/-- A tree of files: what there is is in directories. -/
structure TreeState where
  node : List PathName → Option FileNode
  root : node [] = some .directory
  rooted : ∀ name dir, node (name :: dir) ≠ none → node dir = some .directory

namespace TreeState

variable (fs : TreeState) {place : List PathName}

/-- Something that is no directory is taken away, or something else is put in its place. -/
def set (place : List PathName) (node : Option FileNode) (hold : fs.node place ≠ some .directory)
    (hparent : fs.node place.tail = some .directory) : TreeState where
  node := Function.update fs.node place node
  root := by
    rw [Function.update_of_ne, fs.root]
    rintro rfl
    exact hold fs.root
  rooted := by
    intro name dir hnode
    have hdir : dir ≠ place := by
      rintro rfl
      rw [Function.update_of_ne (List.cons_ne_self name dir)] at hnode
      exact hold (fs.rooted name dir hnode)
    rw [Function.update_of_ne hdir]
    by_cases heq : name :: dir = place
    · rw [← heq] at hparent
      exact hparent
    · rw [Function.update_of_ne heq] at hnode
      exact fs.rooted name dir hnode

variable {fs}

theorem parent_of_there (h : fs.node place ≠ none) : fs.node place.tail = some .directory := by
  cases place with
  | nil => exact fs.root
  | cons name dir => exact fs.rooted name dir h

end TreeState

/-- The path that `realpath` gives for a place. -/
def canonicalPath (place : List PathName) : PathName :=
  if place = [] then [slash] else place.reverse.flatMap (slash :: ·)

instance (path : PathName) (place : List PathName) : Decidable (Canonical path place) :=
  decidable_of_iff (path.head? = some slash ∧ [dot, dot] ∉ path.splitOn slash ∧
    [dot] ∉ path.splitOn slash ∧ names (routeOf path).steps = place.reverse)
    ⟨fun h => ⟨h.1, h.2.1, h.2.2.1, h.2.2.2⟩, fun h => ⟨h.rooted, h.double, h.single, h.names⟩⟩

section

variable (limit : Nat)

/-- The path names something. -/
def treeFinds (path : PathName) (fs : TreeState) : Bool :=
  match lookupAt fs.node [] limit path with
  | .there _ => path ≠ []
  | _ => false

/-- A name for something that is not there yet. -/
def treeMake (path : PathName) (node : FileNode) (fs : TreeState) : Option TreeState :=
  match entryAt fs.node [] limit path with
  | none => none
  | some place =>
      if h : fs.node place = none ∧ fs.node place.tail = some .directory then
        some (fs.set place (some node) (by simp [h.1]) h.2)
      else none

/-- What is no directory is taken away. -/
def treeRemove (path : PathName) (fs : TreeState) : Bool × TreeState :=
  match entryAt fs.node [] limit path with
  | none => (false, fs)
  | some place =>
      if h : fs.node place ≠ none ∧ fs.node place ≠ some .directory then
        (true, fs.set place none h.2 (TreeState.parent_of_there h.1))
      else (false, fs)

/-- What is in a file. -/
def contentOf : Option FileNode → Option (List UInt8)
  | some (.file content) => some content
  | _ => none

theorem contentOf_isSome {node : Option FileNode} (h : (contentOf node).isSome) :
    ∃ content, node = some (.file content) := by
  unfold contentOf at h
  split at h
  · next content => exact ⟨content, rfl⟩
  · cases h

theorem not_directory_of_content {node : Option FileNode} (h : (contentOf node).isSome) :
    node ≠ none ∧ node ≠ some .directory := by
  obtain ⟨content, rfl⟩ := contentOf_isSome h
  simp

/-- A file is emptied, or made if it is missing. -/
def treeOpen (path : PathName) (fs : TreeState) : Except Errno (List PathName) × TreeState :=
  match lookupAt fs.node [] limit path with
  | .there place =>
      if h : (contentOf (fs.node place)).isSome then
        (.ok place, fs.set place (some (.file [])) (not_directory_of_content h).2
          (TreeState.parent_of_there (not_directory_of_content h).1))
      else (.error .eacces, fs)
  | .missing place =>
      if h : fs.node place = none ∧ fs.node place.tail = some .directory then
        (.ok place, fs.set place (some (.file [])) (by simp [h.1]) h.2)
      else (.error .eio, fs)
  | .nowhere => (.error .enoent, fs)

def treeWrite (handle : List PathName) (bytes : List UInt8) (fs : TreeState) :
    Option Errno × TreeState :=
  if h : (contentOf (fs.node handle)).isSome then
    let new := (contentOf (fs.node handle)).getD [] ++ bytes
    (none, fs.set handle (some (.file new)) (not_directory_of_content h).2
      (TreeState.parent_of_there (not_directory_of_content h).1))
  else (some .eio, fs)

def treeOs : Os TreeState (List PathName) where
  isDirectory path fs :=
    (match lookupAt fs.node [] limit path with
      | .there place => decide (fs.node place = some .directory)
      | _ => false, fs)
  stat path fs := (treeFinds limit path fs, fs)
  access path fs := (treeFinds limit path fs, fs)
  isSymlink path fs :=
    (match entryAt fs.node [] limit path with
      | some place => match fs.node place with
        | some (.link _) => true
        | _ => false
      | none => false, fs)
  mkdir path fs :=
    match treeMake limit path .directory fs with
    | some fs => (.made, fs)
    | none => (if treeFinds limit path fs then .exists else .fails, fs)
  remove path fs := treeRemove limit path fs
  unlink path fs := treeRemove limit path fs
  symlink target path fs :=
    match treeMake limit path (.link (routeOf target)) fs with
    | some fs => (true, fs)
    | none => (false, fs)
  realpath path fs :=
    (match lookupAt fs.node [] limit path with
      | .there place =>
          if Canonical (canonicalPath place) place then .ok (canonicalPath place)
          else .error .enametoolong
      | _ => .error .enoent, fs)
  fopen path fs := treeOpen limit path fs
  fwrite handle bytes fs := treeWrite handle bytes fs
  fclose _ fs := (true, fs)
  cancels fs := (false, fs)

variable {limit} {path : PathName} {fs fs' : TreeState}

theorem treeFinds_true (h : treeFinds limit path fs = true) :
    ∃ place, lookupAt fs.node [] limit path = .there place := by
  unfold treeFinds at h
  split at h
  · next place hlookup => exact ⟨place, hlookup⟩
  · cases h

theorem treeFinds_there {place : List PathName} (hne : path ≠ [])
    (h : lookupAt fs.node [] limit path = .there place) : treeFinds limit path fs = true := by
  simp [treeFinds, h, hne]

theorem treeMake_some {node : FileNode} (h : treeMake limit path node fs = some fs') :
    ∃ place, entryAt fs.node [] limit path = some place ∧ fs.node place = none ∧
      fs'.node = Function.update fs.node place (some node) := by
  unfold treeMake at h
  split at h
  · cases h
  · next place hentry =>
    split at h
    · next hnone =>
      cases h
      exact ⟨place, hentry, hnone.1, rfl⟩
    · cases h

theorem treeRemove_node (path : PathName) (fs : TreeState) :
    (treeRemove limit path fs).2.node = fs.node ∨
      ∃ place, entryAt fs.node [] limit path = some place ∧ fs.node place ≠ some .directory ∧
        (treeRemove limit path fs).2.node = Function.update fs.node place none := by
  unfold treeRemove
  split
  · exact .inl rfl
  · next place hentry =>
    split
    · next hnode => exact .inr ⟨place, hentry, hnode.2, rfl⟩
    · exact .inl rfl

theorem treeOpen_error {errno : Errno} (h : (treeOpen limit path fs).1 = .error errno) :
    (treeOpen limit path fs).2.node = fs.node := by
  unfold treeOpen at h ⊢
  split at h
  · split at h
    · cases h
    · next hno => simp [hno]
  · split at h
    · cases h
    · next hno => simp [hno]
  · rfl

theorem treeOpen_ok {handle : List PathName} (h : (treeOpen limit path fs).1 = .ok handle) :
    (lookupAt fs.node [] limit path = .there handle ∧
        (∃ old, fs.node handle = some (.file old)) ∨
      lookupAt fs.node [] limit path = .missing handle ∧ fs.node handle = none) ∧
      (treeOpen limit path fs).2.node = Function.update fs.node handle (some (.file [])) := by
  unfold treeOpen at h ⊢
  cases hlookup : lookupAt fs.node [] limit path with
  | there place =>
    rw [hlookup] at h
    dsimp only at h ⊢
    split at h
    · next hfile =>
      cases h
      rw [dif_pos hfile]
      exact ⟨.inl ⟨rfl, contentOf_isSome hfile⟩, rfl⟩
    · cases h
  | missing place =>
    rw [hlookup] at h
    dsimp only at h ⊢
    split at h
    · next hnone =>
      cases h
      rw [dif_pos hnone]
      exact ⟨.inr ⟨rfl, hnone.1⟩, rfl⟩
    · cases h
  | nowhere =>
    rw [hlookup] at h
    cases h

theorem treeWrite_node (handle : List PathName) (bytes : List UInt8) (fs : TreeState) :
    (treeWrite handle bytes fs).2.node = fs.node ∨
      ∃ old new, fs.node handle = some (.file old) ∧
        (treeWrite handle bytes fs).2.node = Function.update fs.node handle (some (.file new)) := by
  unfold treeWrite
  split
  · next hfile =>
    obtain ⟨old, hold⟩ := contentOf_isSome hfile
    exact .inr ⟨old, _, hold, rfl⟩
  · exact .inl rfl

variable (limit) in
/-- The calls of the tree are those of a file system. -/
def treePosix : Posix (treeOs limit) where
  tree fs := fs.node
  place handle := handle
  tree_root fs := fs.root
  tree_rooted fs := fs.rooted
  cwd := []
  limit := limit
  isDirectory _ _ := rfl
  stat _ _ := rfl
  stat_finds _ _ _ hne _ h := treeFinds_there hne h
  access _ _ := rfl
  access_true _ _ h := treeFinds_true h
  access_finds _ _ _ hne _ h := treeFinds_there hne h
  isSymlink _ _ := rfl
  cancels _ := rfl
  fclose _ _ := rfl
  realpath _ _ := rfl
  realpath_ok path fs resolved h := by
    dsimp only [treeOs] at h
    split at h
    · next place hlookup =>
      split at h
      · next hcanonical =>
        cases h
        exact ⟨place, hlookup, hcanonical⟩
      · cases h
    · cases h
  mkdir path fs := by
    dsimp only [treeOs]
    cases hmake : treeMake limit path .directory fs with
    | none => exact .inl rfl
    | some fs' => exact .inr (treeMake_some hmake)
  remove path fs := by
    refine (treeRemove_node path fs).imp_right ?_
    rintro ⟨place, hentry, hnode, htree⟩
    exact ⟨place, hentry, fun hdir => absurd hdir hnode, htree⟩
  unlink path fs := treeRemove_node path fs
  symlink target path fs := by
    dsimp only [treeOs]
    cases hmake : treeMake limit path (.link (routeOf target)) fs with
    | none => exact .inl rfl
    | some fs' => exact .inr (treeMake_some hmake)
  fopen_fails _ _ _ h := treeOpen_error h
  fopen _ _ _ h := treeOpen_ok h
  fwrite handle bytes fs := treeWrite_node handle bytes fs

end

end FileApi.Compress
