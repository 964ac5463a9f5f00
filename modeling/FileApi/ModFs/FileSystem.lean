import FileApi.Compress.Posix
import FileApi.Misc.Errno
import FileApi.Misc.Volume
import Mathlib.Data.List.Sort

/-!
# The calls on a volume

What the directory operations ask of the system and of `std::filesystem`, on a volume of
directories, regular files and symbolic links. A call on a path fails as the environment says, and
then changes nothing; otherwise it does what its manual page says. A path that leads nowhere is not
there, whatever the reason is. The overloads with an `error_code` give a `bool` and a code; where
both are asked for the result is an `Except`.
-/

namespace FileApi.ModFs

open Compress FileTree

/-- A name that an entry of a directory can have. -/
def PlainName (name : PathName) : Prop :=
  name ≠ [] ∧ name ≠ [dot] ∧ name ≠ [dot, dot] ∧ slash ∉ name

instance : DecidablePred PlainName := fun _ => inferInstanceAs (Decidable (_ ∧ _))

/-- The regular files hold their bytes. -/
abbrev FileVolume := Volume PathName (List UInt8) PlainName

/-- `d_type`. -/
inductive FileType where
  | directory | regular | link
  deriving DecidableEq

def typeOf : FileNode → FileType
  | .directory => .directory
  | .file _ => .regular
  | .link _ => .link

structure DirEntry where
  name : PathName
  type : FileType
  deriving DecidableEq

/-- How a function is left early: with an error code, or with its recursion not at an end. -/
inductive Stop where
  | errno (code : Errno)
  | fuel
  deriving DecidableEq

/-- The calls that may fail. -/
inductive SysCall where
  | status | isEmpty | scandir | createDirectory | remove | removeAll | rename | copyFile | openRead
  | openWrite | fstat | addWatch
  deriving DecidableEq

/-- What calls fail with on a path, the current directory, and how many links are followed. -/
structure System where
  fails : SysCall → PathName → Option Errno := fun _ _ => none
  cwd : List PathName := []
  limit : Nat := 0

namespace System

variable (sys : System) (v : FileVolume)

/-- Where a path leads, all links followed. -/
def lookup (path : PathName) : Found PathName :=
  if path = [] then .nowhere else lookupAt v.tree sys.cwd sys.limit path

/-- The place of the last name of a path, which is not `.`. -/
def entry (path : PathName) : Option (List PathName) :=
  if path = [] ∨ (path.splitOn slash).getLast? = some [dot] then none
  else entryAt v.tree sys.cwd sys.limit path

/-- What `stat` finds. -/
def found (path : PathName) : Option FileNode :=
  match sys.lookup v path with
  | .there place => v.tree place
  | _ => none

/-- `filesystem::exists`. -/
def exists_ (path : PathName) : Except Errno Bool :=
  orFail (sys.fails .status path) (.ok (sys.found v path).isSome)

/-- `filesystem::is_directory`, and `filesystem::status` with it; no error is told apart. -/
def isDirectory (path : PathName) : Bool :=
  match orFail (sys.fails .status path) (.ok (sys.found v path)) with
  | .ok (some .directory) => true
  | _ => false

/-- Whether `stat` finds a regular file. -/
def isFile (path : PathName) : Bool :=
  match orFail (sys.fails .status path) (.ok (sys.found v path)) with
  | .ok (some (.file _)) => true
  | _ => false

/-- `filesystem::is_empty`. -/
def isEmpty (path : PathName) : Except Errno Bool :=
  orFail (sys.fails .isEmpty path)
    (match sys.lookup v path with
      | .there place =>
          match v.tree place with
          | some (.file content) => .ok (content = [])
          | _ => .ok (v.children place = [])
      | _ => .error .enoent)

/-- The entries of a directory but for `.` and `..`, in the order of `alphasort`. -/
def entries (dir : List PathName) : List DirEntry :=
  ((v.children dir).insertionSort (· ≤ ·)).filterMap fun name =>
    (v.tree (name :: dir)).map fun node => ⟨name, typeOf node⟩

/-- `scandir` with a filter that leaves `.` and `..` out. -/
def scandir (path : PathName) : Except Errno (List DirEntry) :=
  orFail (sys.fails .scandir path)
    (match sys.lookup v path with
      | .there place =>
          if v.tree place = some .directory then .ok (entries v place) else .error .enotdir
      | _ => .error .enoent)

/-- The entries that a loop over the result of `scandir` goes over, if it does not look whether there
is one. -/
def listed (path : PathName) : List DirEntry :=
  match sys.scandir v path with
  | .ok entries => entries
  | .error _ => []

/-- `filesystem::create_directory`: whether a directory was made. -/
def createDirectory (path : PathName) : Except Errno Bool × FileVolume :=
  match sys.fails .createDirectory path with
  | some errno => (.error errno, v)
  | none =>
      match sys.found v path with
      | some .directory => (.ok false, v)
      | some _ => (.error .eexist, v)
      | none =>
          match sys.entry v path with
          | some (name :: dir) =>
              if v.tree (name :: dir) = none then (.ok true, v.put name dir .directory)
              else (.error .eexist, v)
          | _ => (.error .enoent, v)

/-- `filesystem::remove`: whether something was removed. -/
def remove (path : PathName) : Except Errno Bool × FileVolume :=
  match sys.fails .remove path with
  | some errno => (.error errno, v)
  | none =>
      match sys.entry v path with
      | some place =>
          match v.tree place with
          | none => (.ok false, v)
          | some .directory =>
              if v.children place = [] then (.ok true, v.removeTree place)
              else (.error .enotempty, v)
          | some _ => (.ok true, v.removeTree place)
      | none => if (sys.found v path).isSome then (.error .einval, v) else (.ok false, v)

/-- All below a directory, child by child. -/
def clear (dir : List PathName) : FileVolume :=
  (v.children dir).foldl (fun v name => v.removeTree (name :: dir)) v

/-- `filesystem::remove_all`. -/
def removeAll (path : PathName) : Except Errno Unit × FileVolume :=
  match sys.fails .removeAll path with
  | some errno => (.error errno, v)
  | none =>
      match sys.entry v path with
      | some place => (.ok (), v.removeTree place)
      | none =>
          match sys.lookup v path with
          | .there place =>
              (.error .einval, if v.tree place = some .directory then clear v place else v)
          | _ => (.ok (), v)

/-- What `rename` meets at its two places. -/
def renameTo (src : List PathName) (node : FileNode) (name : PathName) (dir : List PathName) :
    Except Errno Unit × FileVolume :=
  let dest := name :: dir
  if src = dest then (.ok (), v)
  else if src <:+ dest then (.error .einval, v)
  else if dest <:+ src then (.error .enotempty, v)
  else
    match node, v.tree dest with
    | _, none => (.ok (), v.moveTree src name dir)
    | .directory, some .directory =>
        if v.children dest = [] then (.ok (), v.moveTree src name dir) else (.error .enotempty, v)
    | .directory, some _ => (.error .enotdir, v)
    | _, some .directory => (.error .eisdir, v)
    | _, some _ => (.ok (), v.moveTree src name dir)

/-- `filesystem::rename`. -/
def rename (src dest : PathName) : Except Errno Unit × FileVolume :=
  match sys.fails .rename src with
  | some errno => (.error errno, v)
  | none =>
      match sys.entry v src, sys.entry v dest with
      | some place, some (name :: dir) =>
          match v.tree place with
          | none => (.error .enoent, v)
          | some node => renameTo v place node name dir
      | _, _ => (.error .enoent, v)

/-- A file with these bytes, in place of the one at a place or at a new one. -/
def write (place : List PathName) (bytes : List UInt8) : FileVolume :=
  match place with
  | [] => v
  | name :: dir => v.put name dir (.file bytes)

/-- `filesystem::copy_file` with `overwrite_existing`. A path with a slash behind its last name makes
no file. -/
def copyFile (src dest : PathName) : Except Errno Unit × FileVolume :=
  match sys.fails .copyFile src with
  | some errno => (.error errno, v)
  | none =>
      match sys.found v src, sys.lookup v dest with
      | some (.file bytes), .missing place =>
          if sys.lookup (write v place bytes) dest = .there place then (.ok (), write v place bytes)
          else (.error .eisdir, v)
      | some (.file bytes), .there place =>
          if sys.lookup v src = .there place then (.error .eexist, v)
          else
            match v.tree place with
            | some (.file _) => (.ok (), write v place bytes)
            | _ => (.error .eisdir, v)
      | some (.file _), .nowhere => (.error .enoent, v)
      | some _, _ => (.error .enotsup, v)
      | none, _ => (.error .enoent, v)

/-- `open` with `O_RDONLY`: the place of the file. -/
def openRead (path : PathName) : Except Errno (List PathName) :=
  orFail (sys.fails .openRead path)
    (match sys.lookup v path with
      | .there place => if (v.tree place).isSome then .ok place else .error .enoent
      | _ => .error .enoent)

/-- `open` with `O_RDWR` and `O_CREAT`: the place of the file. -/
def openWrite (path : PathName) : Except Errno (List PathName) × FileVolume :=
  match sys.fails .openWrite path with
  | some errno => (.error errno, v)
  | none =>
      match sys.lookup v path with
      | .there place =>
          match v.tree place with
          | some (.file _) => (.ok place, v)
          | some .directory => (.error .eisdir, v)
          | _ => (.error .enoent, v)
      | .missing place =>
          if sys.lookup (write v place []) path = .there place then (.ok place, write v place [])
          else (.error .eisdir, v)
      | .nowhere => (.error .enoent, v)

/-- The bytes of a file. -/
def content (place : List PathName) : List UInt8 :=
  match v.tree place with
  | some (.file bytes) => bytes
  | _ => []

end System

/-- A call that only looks at the volume. -/
def ask {α : Type} (f : FileVolume → Except Errno α) : EStateM Stop FileVolume α := fun v =>
  match f v with
  | .ok a => .ok a v
  | .error errno => .error (.errno errno) v

/-- A call that may change the volume. -/
def act {α : Type} (f : FileVolume → Except Errno α × FileVolume) : EStateM Stop FileVolume α :=
  fun v =>
    match f v with
    | (.ok a, v) => .ok a v
    | (.error errno, v) => .error (.errno errno) v

end FileApi.ModFs
