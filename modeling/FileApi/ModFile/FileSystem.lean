import FileApi.Misc.ByteFile
import FileApi.Misc.Program
import FileApi.ModFs.Proofs.RealPath

/-!
# The calls of `system.file`

Each call comes at a time of its own and may fail then, and nothing is changed if it does. A transfer
of bytes may be shorter than what was asked for, and memory may not be there. A path that leads
nowhere, without a last name that is missing, fails as the environment says.
-/

namespace FileApi.ModFile

open Compress FileTree Zip
open ModFs (DirEntry FileType FileVolume System)

inductive FileCall where
  | realpath | stat | openRead | openWrite | sendfile | read | write | remove | mkdir | rmdir
  | opendir
  deriving DecidableEq

def ENAMETOOLONG : Errno := .other 36

def PATH_MAX : Nat := 4096

/-- What `stat` gives; `size` and the times of a directory are what the file system says. -/
structure Stat where
  directory : Bool
  size : Int
  mtime : Int
  mtimeNsec : Int
  deriving DecidableEq

theorem stored_perm (entries : List DirEntry) : (id entries).Perm entries := .rfl

/-- The environment of a request: at each time, what the calls on a path fail with, how many bytes a
transfer has at most, and which memory there is; the order in which a directory is read, and what
files are like. -/
structure Env where
  limit : Nat := 0
  fails : Nat → FileCall → PathName → Option Errno := fun _ _ _ => none
  nowhere : Nat → PathName → Errno := fun _ _ => .enoent
  sends : Nat → Nat → Nat := fun _ count => count
  allocates : Nat → Nat → Bool := fun _ _ => true
  order : List DirEntry → List DirEntry := id
  dirSize : List PathName → Int := fun _ => 0
  times : Nat → List PathName → Int × Int := fun _ _ => (0, 0)
  /-- Variables that nothing was written to. -/
  junk : Nat → Stat := fun _ => ⟨false, 0, 0, 0⟩
  order_perm : ∀ entries, (order entries).Perm entries := by exact stored_perm

/-- The files, and how many calls there have been. -/
structure World where
  volume : FileVolume
  clock : Nat

/-- How a request is left without an answer: memory is not there, or a recursion is not at its end. -/
inductive Abort where
  | badAlloc | fuel
  deriving DecidableEq

abbrev Run := EStateM Abort World

namespace Env

variable (env : Env)

/-- The paths as they lead; the current directory is the root. -/
def sys : System := { limit := env.limit }

/-- What a call on a path fails with. -/
def failure (time : Nat) (call : FileCall) (path : PathName) : Option Errno :=
  if PATH_MAX ≤ path.length then some ENAMETOOLONG else env.fails time call path

/-- A call on a path. -/
def onPath {α : Type} (call : FileCall) (path : PathName)
    (f : Nat → FileVolume → Except Errno α × FileVolume) : Run (Except Errno α) :=
  Program.call fun w =>
    match env.failure w.clock call path with
    | some errno => (.error errno, ⟨w.volume, w.clock + 1⟩)
    | none => ((f w.clock w.volume).1, ⟨(f w.clock w.volume).2, w.clock + 1⟩)

/-- A call on an open file. -/
abbrev onFile {α : Type} (call : FileCall) (f : Nat → FileVolume → Except Errno α × FileVolume) :
    Run (Except Errno α) :=
  env.onPath call [] f

/-- `realpath`. -/
def realpath (path : PathName) : Run (Except Errno PathName) :=
  env.onPath .realpath path fun time v =>
    (match env.sys.lookup v path with
      | .there place =>
          let absPath := ModFs.Copy.render place.reverse
          if absPath.length < PATH_MAX then .ok absPath else .error ENAMETOOLONG
      | .missing _ => .error .enoent
      | .nowhere => .error (env.nowhere time path), v)

/-- `stat`. -/
def stat (path : PathName) : Run (Except Errno Stat) :=
  env.onPath .stat path fun time v =>
    (match env.sys.lookup v path with
      | .there place =>
          let (mtime, mtimeNsec) := env.times time place
          match v.tree place with
          | some (.file bytes) => .ok ⟨false, bytes.length, mtime, mtimeNsec⟩
          | _ => .ok ⟨true, env.dirSize place, mtime, mtimeNsec⟩
      | .missing _ => .error .enoent
      | .nowhere => .error (env.nowhere time path), v)

/-- `open` with `O_RDONLY`: the place of the file. -/
def openRead (path : PathName) : Run (Except Errno (List PathName)) :=
  env.onPath .openRead path fun _ v => (env.sys.openRead v path, v)

/-- `open` with `O_WRONLY` and `O_CREAT`: the place of the file. -/
def openWrite (path : PathName) : Run (Except Errno (List PathName)) :=
  env.onPath .openWrite path fun _ v => env.sys.openWrite v path

/-- `open` with `O_WRONLY`, `O_CREAT` and `O_TRUNC`. -/
def openTrunc (path : PathName) : Run (Except Errno (List PathName)) :=
  env.onPath .openWrite path fun _ v =>
    match env.sys.openWrite v path with
    | (.ok place, v) => (.ok place, System.write v place [])
    | result => result

/-- `sendfile` between two open files at their beginnings: how many bytes were sent. -/
def sendfile (out source : List PathName) (count : Int) : Run (Except Errno Nat) :=
  env.onFile .sendfile fun time v =>
    match v.tree source, v.tree out with
    | some (.file bytes), some (.file old) =>
        let sent := (bytes.take count.toNat).take (env.sends time count.toNat)
        (.ok sent.length, System.write v out (sent ++ old.drop sent.length))
    | _, _ => (.error .einval, v)

/-- `read` of an open file at a position; a count from `SSIZE_MAX` on is not valid. -/
def read (file : List PathName) (position : Nat) (count : Int) : Run (Except Errno (List UInt8)) :=
  env.onFile .read fun time v =>
    (match v.tree file with
      | some (.file bytes) =>
          if count < 0 then .error .einval
          else .ok (((bytes.drop position).take count.toNat).take (env.sends time count.toNat))
      | _ => .error .eisdir, v)

/-- `write` to an open file, at a position or at its end: how many bytes were written. -/
def write (file : List PathName) (position : Option Nat) (bytes : List UInt8) :
    Run (Except Errno Nat) :=
  env.onFile .write fun time v =>
    match v.tree file with
    | some (.file old) =>
        let put := bytes.take (env.sends time bytes.length)
        let out := ByteFile.write ⟨old, position.getD old.length⟩ put
        (.ok put.length, System.write v file out.data)
    | _ => (.error .eio, v)

/-- `remove`. -/
def remove (path : PathName) : Run (Except Errno Unit) :=
  env.onPath .remove path fun _ v =>
    match env.sys.remove v path with
    | (.ok true, v) => (.ok (), v)
    | (.ok false, v) => (.error .enoent, v)
    | (.error errno, v) => (.error errno, v)

/-- `mkdir`. -/
def mkdir (path : PathName) : Run (Except Errno Unit) :=
  env.onPath .mkdir path fun _ v =>
    match env.sys.createDirectory v path with
    | (.ok true, v) => (.ok (), v)
    | (.ok false, v) => (.error .eexist, v)
    | (.error errno, v) => (.error errno, v)

/-- `rmdir`. -/
def rmdir (path : PathName) : Run (Except Errno Unit) :=
  env.onPath .rmdir path fun _ v =>
    match env.sys.entry v path with
    | some place =>
        if v.tree place = some .directory then
          if v.children place = [] then (.ok (), v.removeTree place) else (.error .enotempty, v)
        else (.error .enotdir, v)
    | none => (.error .einval, v)

/-- `opendir`, and the entries that `readdir` gives then but for `.` and `..`; the `d_type` of an
entry is its kind. -/
def opendir (path : PathName) : Run (Except Errno (List DirEntry)) :=
  env.onPath .opendir path fun _ v =>
    match env.sys.scandir v path with
    | .ok entries => (.ok (env.order entries), v)
    | .error errno => (.error errno, v)

/-- `make_unique<char[]>` of so many bytes, as a `size_t`. -/
def makeUnique (size : Int) : Run Unit := fun w =>
  let bytes := (size % 2 ^ 64).toNat
  if bytes < 2 ^ 63 ∧ env.allocates w.clock bytes = true then .ok () w else .error .badAlloc w

end Env

end FileApi.ModFile
