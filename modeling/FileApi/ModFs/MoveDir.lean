import FileApi.ModFs.FileSystem

/-!
# Moving directories

`fs.moveDir` (`movedir_core.cpp:34-298`). The functions share a deque of the files that are in
conflict, which is part of the state here beside the volume.
-/

namespace FileApi.ModFs.MoveDir

open Compress FileTree

/-- `DIRMODE_DIRECTORY_THROW_ERR` to `DIRMODE_DIRECTORY_REPLACE`. -/
inductive DirMode where
  | directoryThrowErr | fileThrowErr | fileReplace | directoryReplace
  deriving DecidableEq

/-- The mode with a number between `DIRMODE_MIN` and `DIRMODE_MAX`. -/
def dirMode (mode : Int) : Option DirMode :=
  if mode = 0 then some .directoryThrowErr
  else if mode = 1 then some .fileThrowErr
  else if mode = 2 then some .fileReplace
  else if mode = 3 then some .directoryReplace
  else none

/-- `ErrFiles`. -/
structure ErrFiles where
  srcFiles : PathName
  destFiles : PathName
  deriving DecidableEq

structure Moving where
  volume : FileVolume
  errfiles : List ErrFiles

/-- What is done to the volume alone. -/
def onVolume {α : Type} (x : EStateM Stop FileVolume α) : EStateM Stop Moving α := fun s =>
  match x s.volume with
  | .ok a v => .ok a ⟨v, s.errfiles⟩
  | .error stop v => .error stop ⟨v, s.errfiles⟩

/-- `emplace_front`. -/
def emplaceFront (src dest : PathName) : EStateM Stop Moving Unit :=
  modify fun s => ⟨s.volume, ⟨src, dest⟩ :: s.errfiles⟩

/-- `emplace_back`. -/
def emplaceBack (src dest : PathName) : EStateM Stop Moving Unit :=
  modify fun s => ⟨s.volume, s.errfiles ++ [⟨src, dest⟩]⟩

section

variable (sys : System)

/-! ## Removing -/

/-- `JudgeExistAndEmpty`. -/
def judgeExistAndEmpty (v : FileVolume) (path : PathName) : Bool × Bool :=
  if sys.exists_ v path = .ok true then (true, sys.isEmpty v path = .ok true) else (false, false)

/-- `RmDirectory`. -/
def rmDirectory (path : PathName) : EStateM Stop FileVolume Unit := do
  if ← ask (sys.exists_ · path) then act (sys.removeAll · path) else pure ()

/-- `RemovePath`; it is no failure if nothing is there. -/
def removePath (path : PathName) : EStateM Stop FileVolume Unit :=
  discard (act (sys.remove · path))

/-! ## Entries -/

/-- What `CopyAndDeleteFile` does first. -/
def removeDest (dest : PathName) : EStateM Stop FileVolume Unit := do
  if sys.exists_ (← get) dest = .ok true then removePath sys dest else pure ()

/-- `CopyAndDeleteFile`. -/
def copyAndDeleteFile (src dest : PathName) : EStateM Stop FileVolume Unit := do
  removeDest sys dest
  act (sys.copyFile · src dest)
  removePath sys src

/-- The end of `RenameFile`. -/
def renameOrCopy (src dest : PathName) : EStateM Stop FileVolume Unit := fun v =>
  match sys.rename v src dest with
  | (.ok (), v) => .ok () v
  | (.error .exdev, v) => copyAndDeleteFile sys src dest v
  | (.error errno, v) => .error (.errno errno) v

/-- `RenameFile`. -/
def renameFile (mode : DirMode) (src dest : PathName) : EStateM Stop Moving Unit := do
  let v := (← get).volume
  if sys.exists_ v dest = .ok true ∧ sys.isDirectory v dest then emplaceFront src dest
  else if sys.exists_ v dest = .ok true ∧ mode = .fileThrowErr then emplaceBack src dest
  else onVolume (renameOrCopy sys src dest)

/-- The end of `RenameDir`: whether the entries have to be moved one by one. -/
def renameOrCreate (src dest : PathName) : EStateM Stop FileVolume Bool := fun v =>
  match sys.rename v src dest with
  | (.ok (), v) => .ok false v
  | (.error .exdev, v) => act (sys.createDirectory · dest) v
  | (.error errno, v) => .error (.errno errno) v

/-- The directory behind a `rename` that was tried. -/
def moveRest (recur : PathName → PathName → EStateM Stop Moving Unit) (src dest : PathName) :
    EStateM Stop Moving Unit := do
  if ← onVolume (renameOrCreate sys src dest) then recur src dest else pure ()

/-- `RenameDir`, with the `RecurMoveDir` it calls. -/
def renameDir (recur : PathName → PathName → EStateM Stop Moving Unit) (src dest : PathName) :
    EStateM Stop Moving Unit := do
  if ← onVolume (ask (sys.exists_ · dest)) then recur src dest else moveRest sys recur src dest

/-- The source directory is removed if there are no more conflicts than before. -/
def removeMoved (src : PathName) (size : Nat) : EStateM Stop Moving Unit := do
  if size ≠ (← get).errfiles.length then pure () else onVolume (removePath sys src)

/-- One turn of the loop of `RecurMoveDir`. -/
def moveEntry (recur : PathName → PathName → EStateM Stop Moving Unit) (mode : DirMode)
    (src dest : PathName) (type : FileType) : EStateM Stop Moving Unit :=
  match type with
  | .directory => do
      let size := (← get).errfiles.length
      renameDir sys recur src dest
      removeMoved sys src size
  | _ => renameFile sys mode src dest

/-- The loop of `RecurMoveDir`. -/
def moveEntries (recur : PathName → PathName → EStateM Stop Moving Unit) (mode : DirMode)
    (srcPath destPath : PathName) : List DirEntry → EStateM Stop Moving Unit
  | [] => pure ()
  | entry :: rest => do
      moveEntry sys recur mode (srcPath ++ slash :: entry.name) (destPath ++ slash :: entry.name)
        entry.type
      moveEntries recur mode srcPath destPath rest

/-- `RecurMoveDir`, so many levels deep; a `scandir` that fails gives no entries. -/
def recurMoveDir (mode : DirMode) : Nat → PathName → PathName → EStateM Stop Moving Unit
  | 0, _, _ => throw .fuel
  | fuel + 1, srcPath, destPath => do
      let v := (← get).volume
      if sys.isDirectory v destPath then
        moveEntries sys (recurMoveDir mode fuel) mode srcPath destPath (sys.listed v srcPath)
      else emplaceFront srcPath destPath

/-! ## The whole call -/

/-- `src.substr(src.rfind('/'))`. -/
def dirName (src : PathName) : Option PathName :=
  if slash ∈ src then some (slash :: (src.reverse.takeWhile (· ≠ slash)).reverse) else none

/-- What `MoveDirFunc` does about a target that is there and not empty. -/
def prepareDest (mode : DirMode) (destStr : PathName) : EStateM Stop FileVolume Unit := do
  let v ← get
  if judgeExistAndEmpty sys v destStr = (true, false) then
    match mode with
    | .directoryReplace => rmDirectory sys destStr
    | .directoryThrowErr => throw (.errno .enotempty)
    | _ => pure ()
  else pure ()

/-- The end of `MoveDirFunc`. -/
def finish (src : PathName) : EStateM Stop Moving Unit := do
  if (← get).errfiles ≠ [] then throw (.errno .eexist) else onVolume (rmDirectory sys src)

/-- `MoveDirFunc`. -/
def moveDirFunc (fuel : Nat) (src dest : PathName) (mode : DirMode) : EStateM Stop Moving Unit :=
  match dirName src with
  | none => throw (.errno .einval)
  | some name => do
      onVolume (prepareDest sys mode (dest ++ name))
      renameDir sys (recurMoveDir sys mode fuel) src (dest ++ name)
      finish sys src

/-- `ValidMoveDirArg`. -/
def validMoveDirArg (v : FileVolume) (src dest : PathName) (mode : Option Int) : Option DirMode :=
  if sys.isDirectory v src ∧ sys.isDirectory v dest then
    match mode with
    | some mode => dirMode mode
    | none => some .directoryThrowErr
  else none

/-- `MoveDirResult`. -/
structure MoveDirResult where
  fsResult : Except Errno Unit
  errFiles : Option (List ErrFiles) := none

/-- `DoMoveDir`; no result if the recursion is not at an end. -/
def doMoveDir (fuel : Nat) (src dest : PathName) (modeType : Option Int) (v : FileVolume) :
    Option MoveDirResult × FileVolume :=
  match validMoveDirArg sys v src dest modeType with
  | none => (some { fsResult := .error .einval }, v)
  | some mode =>
      match moveDirFunc sys fuel src dest mode ⟨v, []⟩ with
      | .ok () s => (some { fsResult := .ok () }, s.volume)
      | .error (.errno errno) s =>
          (some ⟨.error errno, if errno = .eexist then some s.errfiles else none⟩, s.volume)
      | .error .fuel s => (none, s.volume)

end

end FileApi.ModFs.MoveDir
