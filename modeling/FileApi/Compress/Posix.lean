import FileApi.Compress.ArchiveUtils
import FileApi.Misc.FileTree

/-!
# The tree behind the calls

The calls on paths reach a tree of files. A path is taken apart at its slashes and walked; a call
fails and changes nothing, or it changes what its manual page says where its path leads. A file that
is open may have lost its place, so what is written to it may change nothing.
-/

namespace FileApi.Compress

open FileTree Zip

/-- A part of a path between slashes. -/
def stepOf (part : PathName) : Step PathName :=
  if part = [] ∨ part = [dot] then .here
  else if part = [dot, dot] then .up
  else .down part

def routeOf (path : PathName) : Route PathName :=
  ⟨path.head? = some slash, (path.splitOn slash).map stepOf⟩

abbrev FileNode := Node PathName (List UInt8)

/-- Where a path leads, all links followed. -/
def lookupAt (tree : List PathName → Option FileNode) (cwd : List PathName) (limit : Nat)
    (path : PathName) : Found PathName :=
  walk tree true limit ((routeOf path).start cwd) (routeOf path).steps

/-- The place that the last name of a path has in its directory. -/
def entryAt (tree : List PathName → Option FileNode) (cwd : List PathName) (limit : Nat)
    (path : PathName) : Option (List PathName) :=
  entry tree limit ((routeOf path).start cwd) (routeOf path).steps

/-- A path of a place as `realpath` gives it. -/
structure Canonical (path : PathName) (place : List PathName) : Prop where
  rooted : path.head? = some slash
  double : [dot, dot] ∉ path.splitOn slash
  single : [dot] ∉ path.splitOn slash
  names : names (routeOf path).steps = place.reverse

/-- The tree of a system, the place of an open file, the current directory, and how many links are
followed. There are no permissions: what is in the tree is found. -/
structure Posix {W H : Type} (os : Os W H) where
  tree : W → List PathName → Option FileNode
  place : H → List PathName
  tree_root : ∀ w, tree w [] = some .directory
  tree_rooted : ∀ w name dir, tree w (name :: dir) ≠ none → tree w dir = some .directory
  cwd : List PathName
  limit : Nat
  isDirectory : ∀ path w, tree (os.isDirectory path w).2 = tree w
  stat : ∀ path w, tree (os.stat path w).2 = tree w
  stat_finds : ∀ path w p, path ≠ [] → path.length < ZIP_FILE_NAME_LEN_MAX →
    lookupAt (tree w) cwd limit path = .there p → (os.stat path w).1 = true
  access : ∀ path w, tree (os.access path w).2 = tree w
  access_true : ∀ path w, (os.access path w).1 = true →
    ∃ p, lookupAt (tree w) cwd limit path = .there p
  access_finds : ∀ path w p, path ≠ [] → path.length < ZIP_FILE_NAME_LEN_MAX →
    lookupAt (tree w) cwd limit path = .there p → (os.access path w).1 = true
  isSymlink : ∀ path w, tree (os.isSymlink path w).2 = tree w
  cancels : ∀ w, tree (os.cancels w).2 = tree w
  fclose : ∀ handle w, tree (os.fclose handle w).2 = tree w
  realpath : ∀ path w, tree (os.realpath path w).2 = tree w
  realpath_ok : ∀ path w resolved, (os.realpath path w).1 = .ok resolved →
    ∃ p, lookupAt (tree w) cwd limit path = .there p ∧ Canonical resolved p
  mkdir : ∀ path w, tree (os.mkdir path w).2 = tree w ∨
    ∃ p, entryAt (tree w) cwd limit path = some p ∧ tree w p = none ∧
      tree (os.mkdir path w).2 = Function.update (tree w) p (some .directory)
  /-- A directory is taken away if it is empty. -/
  remove : ∀ path w, tree (os.remove path w).2 = tree w ∨
    ∃ p, entryAt (tree w) cwd limit path = some p ∧
      (tree w p = some .directory → ∀ name, tree w (name :: p) = none) ∧
        tree (os.remove path w).2 = Function.update (tree w) p none
  unlink : ∀ path w, tree (os.unlink path w).2 = tree w ∨
    ∃ p, entryAt (tree w) cwd limit path = some p ∧ tree w p ≠ some .directory ∧
      tree (os.unlink path w).2 = Function.update (tree w) p none
  symlink : ∀ target path w, tree (os.symlink target path w).2 = tree w ∨
    ∃ p, entryAt (tree w) cwd limit path = some p ∧ tree w p = none ∧
      tree (os.symlink target path w).2 =
        Function.update (tree w) p (some (.link (routeOf target)))
  fopen_fails : ∀ path w errno, (os.fopen path w).1 = .error errno →
    tree (os.fopen path w).2 = tree w
  fopen : ∀ path w handle, (os.fopen path w).1 = .ok handle →
    (lookupAt (tree w) cwd limit path = .there (place handle) ∧
        (∃ old, tree w (place handle) = some (.file old)) ∨
      lookupAt (tree w) cwd limit path = .missing (place handle) ∧
        tree w (place handle) = none) ∧
      tree (os.fopen path w).2 = Function.update (tree w) (place handle) (some (.file []))
  fwrite : ∀ handle bytes w, tree (os.fwrite handle bytes w).2 = tree w ∨
    ∃ old new, tree w (place handle) = some (.file old) ∧
      tree (os.fwrite handle bytes w).2 = Function.update (tree w) (place handle) (some (.file new))

end FileApi.Compress
