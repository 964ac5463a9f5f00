import FileApi.Misc.Entries

/-!
# Moving a file

`fs.move` (`move_core.cpp:33-185`): a rename, and across devices a copy with the removal of the
source behind it. Each call of the system is made at most once in a `DoMove`; whether it fails, and
how far a copy that fails has come, is up to the environment. The paths are those of directory
entries, and `limit` is how many links are followed.
-/

namespace FileApi.ModFs.Move

open Entries

/-- `MODE_FORCE_MOVE`. -/
def modeForceMove : Int := 0

/-- `MODE_THROW_ERR`. -/
def modeThrowErr : Int := 1

/-- How `copy_file` fails: in front of the target, or behind so many bytes of it. -/
structure CopyFailure where
  errno : Errno
  written : Option Nat
  deriving DecidableEq

/-- Which calls of a `DoMove` fail. -/
structure MoveFailures where
  srcStatus : Option Errno := none
  destStatus : Option Errno := none
  accessSrc : Option Errno := none
  accessDest : Option Errno := none
  rename : Option Errno := none
  stat : Option Errno := none
  exists_ : Option Errno := none
  remove : Option Errno := none
  copy : Option CopyFailure := none
  unlinkSrc : Option Errno := none
  unlinkDest : Option Errno := none
  deriving DecidableEq

abbrev MoveDisk := Disk (List UInt8)

section Calls

variable (limit : Nat) (d : MoveDisk)

/-- `stat`, and `access` of a name. -/
def stat (name : List UInt8) : Except Errno (Entry (List UInt8)) :=
  match follow d.names limit name with
  | .there _ entry => .ok entry
  | .missing _ => .error .enoent
  | .nowhere => .error .eloop

/-- `CheckDir`. -/
def checkDir (failure : Option Errno) (name : List UInt8) : Bool :=
  match orFail failure (stat limit d name) with
  | .ok .directory => true
  | _ => false

/-- `filesystem::exists`; an error is no. -/
def found (failure : Option Errno) (name : List UInt8) : Bool :=
  (orFail failure (stat limit d name)).isOk

/-- `filesystem::remove`: whether a name was removed. One that is not there is no error: behind
`ENOENT` the code is cleared. -/
def remove (failure : Option Errno) (name : List UInt8) : Except Errno Bool × MoveDisk :=
  match failure with
  | some .enoent => (.ok false, d.erase name)
  | some errno => (.error errno, d)
  | none =>
      match d.names name with
      | none => (.ok false, d)
      | some _ =>
          match d.unlink name with
          | .ok d => (.ok true, d)
          | .error errno => (.error errno, d)

/-- `filesystem::copy_file` with `overwrite_existing`. -/
def copyFile (failure : Option CopyFailure) (src dest : List UInt8) :
    Except Errno Unit × MoveDisk :=
  let bytes := (d.read limit src).getD []
  match d.overwrite limit src dest bytes with
  | .error errno => (.error errno, d)
  | .ok copied =>
      match failure with
      | none => (.ok (), copied)
      | some ⟨errno, none⟩ => (.error errno, d)
      | some ⟨errno, some written⟩ =>
          match d.overwrite limit src dest (bytes.take written) with
          | .error errno => (.error errno, d)
          | .ok partly => (.error errno, partly)

end Calls

variable (f : MoveFailures) (limit : Nat)

/-- `CopyAndDeleteFile` from the copy on. -/
def copyAndUnlink (d : MoveDisk) (src dest : List UInt8) : Except Errno Unit × MoveDisk :=
  match copyFile limit d f.copy src dest with
  | (.error errno, d) => (.error errno, d)
  | (.ok (), d) =>
      match orFail f.unlinkSrc (d.unlink src) with
      | .ok d => (.ok (), d)
      | .error errno =>
          match orFail f.unlinkDest (d.unlink dest) with
          | .ok d => (.error errno, d)
          | .error errno => (.error errno, d)

/-- `CopyAndDeleteFile`. -/
def copyAndDeleteFile (d : MoveDisk) (src dest : List UInt8) : Except Errno Unit × MoveDisk :=
  match orFail f.stat (stat limit d src) with
  | .error errno => (.error errno, d)
  | .ok _ =>
      if found limit d f.exists_ dest then
        match remove d f.remove dest with
        | (.error errno, d) => (.error errno, d)
        -- `return errCode.value()`, which is zero here
        | (.ok false, d) => (.ok (), d)
        | (.ok true, d) => copyAndUnlink f limit d src dest
      else copyAndUnlink f limit d src dest

/-- `RenameFile`. -/
def renameFile (d : MoveDisk) (src dest : List UInt8) : Except Errno Unit × MoveDisk :=
  match orFail f.rename (d.rename src dest) with
  | .ok d => (.ok (), d)
  | .error .exdev => copyAndDeleteFile f limit d src dest
  | .error errno => (.error errno, d)

/-- `MoveFile`. -/
def moveFile (d : MoveDisk) (src dest : List UInt8) (mode : Int) : Except Errno Unit × MoveDisk :=
  match orFail f.accessSrc (stat limit d src) with
  | .error errno => (.error errno, d)
  | .ok _ =>
      if mode = modeThrowErr then
        match orFail f.accessDest (stat limit d dest) with
        | .ok _ => (.error .eexist, d)
        | .error .enoent => renameFile f limit d src dest
        | .error errno => (.error errno, d)
      else renameFile f limit d src dest

/-- `ValidMoveArg`: the mode, if the arguments are good. -/
def validMoveArg (d : MoveDisk) (src dest : List UInt8) (mode : Option Int) : Option Int :=
  if checkDir limit d f.srcStatus src then none
  else if checkDir limit d f.destStatus dest then none
  else
    match mode with
    | none => some 0
    | some mode => if mode ≠ modeForceMove ∧ mode ≠ modeThrowErr then none else some mode

/-- `MoveCore::DoMove`. -/
def doMove (d : MoveDisk) (src dest : List UInt8) (mode : Option Int) :
    Except Errno Unit × MoveDisk :=
  match validMoveArg f limit d src dest mode with
  | none => (.error .einval, d)
  | some mode => moveFile f limit d src dest mode

end FileApi.ModFs.Move
