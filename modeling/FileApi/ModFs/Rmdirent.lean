import FileApi.Compress.Directories
import FileApi.ModFs.FileSystem

/-!
# Removing directories

`RmDirent` (`rmdirent.cpp:37-108`), as it is with `__MUSL__` and as it is without, on a volume that
has FIFOs, sockets and devices too. The calls fail only for what is in the volume: there is memory,
nothing is read-only, and the system says the type of every entry. `std::filesystem::remove_all`
takes away what the standard says: a path that names no directory by itself, and else all that is in
the directory and then the path, as `rmdir` takes it.
-/

namespace FileApi.ModFs.Rmdirent

open Compress FileTree

/-- What there is that is neither a directory nor a link. -/
inductive Content where
  | regular (bytes : List UInt8)
  | fifo | socket | char | block
  deriving DecidableEq

abbrev DirentNode := Node PathName Content

abbrev DirentVolume := Volume PathName Content PlainName

/-- `uv_dirent_type_t`. -/
inductive DirentType where
  | file | dir | link | fifo | socket | char | block
  deriving DecidableEq

def direntType : DirentNode → DirentType
  | .directory => .dir
  | .link _ => .link
  | .file (.regular _) => .file
  | .file .fifo => .fifo
  | .file .socket => .socket
  | .file .char => .char
  | .file .block => .block

/-- `uv_dirent_t`. -/
structure Dirent where
  name : PathName
  type : DirentType
  deriving DecidableEq

/-- The current directory, and how many links are followed. -/
structure Lookups where
  cwd : List PathName := []
  limit : Nat := 0

/-- The entries of a directory but for `.` and `..`, in the order of `alphasort`. -/
def entries (v : DirentVolume) (dir : List PathName) : List Dirent :=
  ((v.children dir).insertionSort (· ≤ ·)).filterMap fun name =>
    (v.tree (name :: dir)).map fun node => ⟨name, direntType node⟩

/-- All that is below a directory is taken away, entry by entry. -/
def clear (v : DirentVolume) (dir : List PathName) : DirentVolume :=
  (v.children dir).foldl (fun v name => v.removeTree (name :: dir)) v

/-- How many files are at a place and below it. -/
def countTree (v : DirentVolume) (place : List PathName) : Nat :=
  ((v.nodes.map Prod.fst).dedup.filter (place <:+ ·)).length

namespace Lookups

variable (sys : Lookups)

/-- Where a path leads, and whether a link at its end is followed. -/
def leadsTo (follow : Bool) (tree : List PathName → Option DirentNode) (path : PathName) :
    Found PathName :=
  if path = [] then .nowhere
  else walk tree follow sys.limit ((routeOf path).start sys.cwd) (routeOf path).steps

/-- The place of the last name of a path, which dots are not. -/
def entry (tree : List PathName → Option DirentNode) (path : PathName) : Option (List PathName) :=
  if namesEntry path then
    FileTree.entry tree sys.limit ((routeOf path).start sys.cwd) (routeOf path).steps
  else none

/-- `filesystem::exists`. -/
def exists_ (path : PathName) (v : DirentVolume) : Bool :=
  match sys.leadsTo true v.tree path with
  | .there place => (v.tree place).isSome
  | _ => false

/-- `uv_fs_scandir`. -/
def scandir (path : PathName) : EStateM Stop DirentVolume (List Dirent) := fun v =>
  match sys.leadsTo true v.tree path with
  | .there place =>
      if v.tree place = some .directory then .ok (entries v place) v
      else .error (.errno .enotdir) v
  | _ => .error (.errno .enoent) v

/-- `uv_fs_unlink`. -/
def unlink (path : PathName) : EStateM Stop DirentVolume Unit := fun v =>
  match sys.entry v.tree path with
  | none => .error (.errno .enoent) v
  | some place =>
      match v.tree place with
      | none => .error (.errno .enoent) v
      | some .directory => .error (.errno .eisdir) v
      | some _ => .ok () (v.removeTree place)

/-- `uv_fs_rmdir`. -/
def rmdir (path : PathName) : EStateM Stop DirentVolume Unit := fun v =>
  match sys.entry v.tree path with
  | none => .error (.errno (if namesEntry path then .enoent else .einval)) v
  | some place =>
      match v.tree place with
      | none => .error (.errno .enoent) v
      | some .directory =>
          if v.children place = [] then .ok () (v.removeTree place)
          else .error (.errno .enotempty) v
      | some _ => .error (.errno .enotdir) v

/-- `filesystem::remove_all`: how many files are removed. -/
def removeAll (path : PathName) : EStateM Stop DirentVolume Nat := fun v =>
  match sys.leadsTo false v.tree path with
  | .there place =>
      if v.tree place = some .directory then
        match sys.rmdir path (clear v place) with
        | .ok () v' => .ok (countTree v place) v'
        | .error stop v' => .error stop v'
      else .ok (countTree v place) (v.removeTree place)
  | _ => .ok 0 v

/-! ## The two bodies -/

/-- `RmDirent` with `__MUSL__`. -/
def rmDirentMusl (fpath : PathName) : EStateM Stop DirentVolume Unit := do
  let num ← sys.removeAll fpath
  if num = 0 ∨ sys.exists_ fpath (← get) then throw (.errno .enoent) else pure ()

/-- What is done with an entry; `recur` is `RmDirent` on it. -/
def removeEntry (recur : PathName → EStateM Stop DirentVolume Unit) (filePath : PathName) :
    DirentType → EStateM Stop DirentVolume Unit
  | .file => sys.unlink filePath
  | .dir => recur filePath
  | _ => pure ()

/-- The loop over the entries. -/
def removeEntries (recur : PathName → EStateM Stop DirentVolume Unit) (fpath : PathName) :
    List Dirent → EStateM Stop DirentVolume Unit
  | [] => pure ()
  | dent :: rest => do
      removeEntry sys recur (fpath ++ slash :: dent.name) dent.type
      removeEntries recur fpath rest

/-- `RmDirent` without `__MUSL__`. -/
def rmDirent : Nat → PathName → EStateM Stop DirentVolume Unit
  | 0, _ => throw .fuel
  | fuel + 1, fpath => do
      let scandirReq ← sys.scandir fpath
      removeEntries sys (rmDirent fuel) fpath scandirReq
      sys.rmdir fpath

end Lookups

end FileApi.ModFs.Rmdirent
