import FileApi.ModFs.Copy
import FileApi.ModFs.MoveDir

/-!
# Copying directories

`fs.copyDir` (`copy_dir_core.cpp:36-253`). The functions share a vector of the files that are in
conflict, which is part of the state here beside the volume. `AllowToCopy` of `copydir.cpp:48-63` is
the same text.
-/

namespace FileApi.ModFs.CopyDir

open Compress FileTree

/-- `DIRMODE_FILE_COPY_THROW_ERR` and `DIRMODE_FILE_COPY_REPLACE`. -/
inductive ModeOfCopyDir where
  | fileCopyThrowErr | fileCopyReplace
  deriving DecidableEq

structure ConflictFiles where
  srcFiles : PathName
  destFiles : PathName
  deriving DecidableEq

structure Copying where
  volume : FileVolume
  errfiles : List ConflictFiles

/-- What is done to the volume alone. -/
def onVolume {α : Type} (x : EStateM Stop FileVolume α) : EStateM Stop Copying α := fun s =>
  match x s.volume with
  | .ok a v => .ok a ⟨v, s.errfiles⟩
  | .error stop v => .error stop ⟨v, s.errfiles⟩

/-! ## Arguments -/

section

variable (sys : System)

/-- `MakeDir`; it is no failure if the directory is there. -/
def makeDir (path : PathName) : EStateM Stop FileVolume Unit :=
  discard (act (sys.createDirectory · path))

/-- `RemoveFile`; it is no failure if nothing is there. -/
def removeFile (destPath : PathName) : EStateM Stop FileVolume Unit :=
  discard (act (sys.remove · destPath))

/-- What `CopyFile` does about a target that is there. -/
def clearTarget (mode : ModeOfCopyDir) (dest : PathName) : EStateM Stop FileVolume Unit := do
  if ← ask (sys.exists_ · dest) then
    match mode with
    | .fileCopyThrowErr => throw (.errno .eexist)
    | .fileCopyReplace => removeFile sys dest
  else pure ()

/-- `CopyFile`. -/
def copyFile (mode : ModeOfCopyDir) (src dest : PathName) : EStateM Stop FileVolume Unit := do
  clearTarget sys mode dest
  act (sys.copyFile · src dest)

/-- The target of `CopySubDir` and of `CopyDirFunc`. -/
def ensureDir (destPath : PathName) : EStateM Stop FileVolume Unit := do
  if ← ask (sys.exists_ · destPath) then pure () else makeDir sys destPath

/-- `CopySubDir`, with the `RecurCopyDir` it calls. -/
def copySubDir (recur : PathName → PathName → EStateM Stop Copying Unit)
    (srcPath destPath : PathName) : EStateM Stop Copying Unit := do
  onVolume (ensureDir sys destPath)
  recur srcPath destPath

/-- The file of an entry; `EEXIST` makes it a conflict. -/
def copyOrNote (mode : ModeOfCopyDir) (src dest : PathName) : EStateM Stop Copying Unit := fun s =>
  match copyFile sys mode src dest s.volume with
  | .ok () v => .ok () ⟨v, s.errfiles⟩
  | .error (.errno .eexist) v => .ok () ⟨v, s.errfiles ++ [⟨src, dest⟩]⟩
  | .error stop v => .error stop ⟨v, s.errfiles⟩

/-- One turn of the loop of `RecurCopyDir`. -/
def copyEntry (recur : PathName → PathName → EStateM Stop Copying Unit) (mode : ModeOfCopyDir)
    (src dest : PathName) (type : FileType) : EStateM Stop Copying Unit :=
  match type with
  | .directory => copySubDir sys recur src dest
  | _ => copyOrNote sys mode src dest

/-- The loop of `RecurCopyDir`. -/
def copyEntries (recur : PathName → PathName → EStateM Stop Copying Unit) (mode : ModeOfCopyDir)
    (srcPath destPath : PathName) : List DirEntry → EStateM Stop Copying Unit
  | [] => pure ()
  | entry :: rest => do
      copyEntry sys recur mode (srcPath ++ slash :: entry.name) (destPath ++ slash :: entry.name)
        entry.type
      copyEntries recur mode srcPath destPath rest

/-- `RecurCopyDir`, so many levels deep. -/
def recurCopyDir (mode : ModeOfCopyDir) : Nat → PathName → PathName → EStateM Stop Copying Unit
  | 0, _, _ => throw .fuel
  | fuel + 1, srcPath, destPath => do
      let entries ← onVolume (ask (sys.scandir · srcPath))
      copyEntries sys (recurCopyDir mode fuel) mode srcPath destPath entries

/-! ## The whole call -/

/-- The end of `CopyDirFunc`. -/
def finish : EStateM Stop Copying Unit := do
  if (← get).errfiles ≠ [] then throw (.errno .eexist) else pure ()

/-- `CopyDirFunc`. -/
def copyDirFunc (fuel : Nat) (src dest : PathName) (mode : ModeOfCopyDir) :
    EStateM Stop Copying Unit :=
  match MoveDir.dirName src with
  | none => throw (.errno .einval)
  | some dirName => do
      copySubDir sys (recurCopyDir sys mode fuel) src (dest ++ dirName)
      finish

end

end FileApi.ModFs.CopyDir
