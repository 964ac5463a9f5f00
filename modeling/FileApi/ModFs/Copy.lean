import FileApi.Misc.ByteFile
import FileApi.ModFs.FileSystem

/-!
# Copying by paths

`fs.copy` for files and directories of this device (`copy_core.cpp:66-461, 716-812`). The
environment says which calls fail, how much each `sendfile` moves, whether the task is cancelled
then, and what the listener does; the progress that is counted for the listener is left out.
-/

namespace FileApi.ModFs.Copy

open Compress FileTree

/-- `MAX_SIZE`. -/
def maxSize : Nat := 1024 * 1024 * 4

/-- What `sendfile` does: it fails, or it moves at most so many bytes, behind which the task is
cancelled or not. -/
inductive Send where
  | fails (errno : Errno)
  | sends (count : Nat) (cancelled : Bool)
  deriving DecidableEq

structure CopyEnv where
  sys : System
  /-- The calls of `sendfile` in a copy to a path. -/
  sends : PathName → Nat → Send
  /-- What `OpenFile` of the data share opens for the source. -/
  media : Except Errno (List PathName) := .error .eacces
  /-- What `SubscribeLocalListener` fails with. -/
  subscribe : Option Errno := none
  /-- Whether there is a `notifyFd` when a directory is copied to a path. -/
  notified : PathName → Bool := fun _ => false
  /-- What the listener leaves in `exceptionCode`. -/
  exceptionCode : Option Errno := none

/-- `FsFileInfos`. -/
structure FsFileInfos where
  srcPath : PathName
  destPath : PathName
  isMedia : Bool := false
  isFile : Bool
  hasListener : Bool := false
  deriving DecidableEq

/-! ## Paths -/

/-- `path::operator/=`. -/
def appendPath (path part : PathName) : PathName :=
  if part.head? = some slash then part
  else if path = [] ∨ path.getLast? = some slash then path ++ part
  else path ++ slash :: part

/-- `path::parent_path`. -/
def parentPath (path : PathName) : PathName :=
  let front := path.reverse.dropWhile (· ≠ slash)
  match front.dropWhile (· = slash) with
  | [] => front.reverse
  | parent => parent.reverse

/-- `path::filename`. -/
def pathFilename (path : PathName) : PathName := (path.reverse.takeWhile (· ≠ slash)).reverse

/-- The elements of a path: the root, the names, and an empty one for a slash at the end. -/
def components (path : PathName) : List PathName :=
  let names := (path.splitOn slash).filter (· ≠ [])
  (if path.head? = some slash then [[slash]] else []) ++ names ++
    if names ≠ [] ∧ path.getLast? = some slash then [[]] else []

/-- One turn of the loop of `GetRealPath`. -/
def realPathStep (realPath component : PathName) : PathName :=
  if component = [dot] then realPath
  else if component = [dot, dot] then parentPath realPath
  else appendPath realPath component

/-- `GetRealPath`. -/
def getRealPath (path : PathName) : PathName := (components path).foldl realPathStep []

/-! ## Files -/

/-- The loop of `SendFileCore`, with the bytes of the source by those of the target. -/
def sendFileLoop (sends : Nat → Send) (source : List UInt8 → List UInt8) :
    Nat → Nat → Nat → Int → ByteFile → Except Stop Int × ByteFile
  | 0, _, _, _, dest => (.error .fuel, dest)
  | fuel + 1, turn, offset, size, dest =>
      if size < 0 then (.ok size, dest)
      else
        match sends turn with
        | .fails errno => (.error (.errno errno), dest)
        | .sends count cancelled =>
            let bytes := ((source dest.data).drop offset).take (min count maxSize)
            let dest := dest.write bytes
            let size := size - bytes.length
            if cancelled then (.error (.errno .ecanceled), dest)
            else if bytes.length = 0 then (.ok size, dest)
            else sendFileLoop sends source fuel (turn + 1) (offset + bytes.length) size dest

/-- `SendFileCore` from the `fstat` of the source on: what is in the target behind it. Two
descriptors can be of one file. -/
def sendFile (sends : Nat → Send) (same : Bool) (src old : List UInt8) :
    Except Stop Unit × List UInt8 :=
  let source := fun data => if same then data else src
  match sendFileLoop sends source (src.length + 1) 0 0 src.length ⟨old, 0⟩ with
  | (.error stop, dest) => (.error stop, dest.data)
  | (.ok size, dest) => (if size ≠ 0 then .error (.errno .eio) else .ok (), dest.data)

section

variable (env : CopyEnv)

/-- `SendFileCore`. -/
def sendFileCore (dest : PathName) (srcFd destFd : List PathName) : EStateM Stop FileVolume Unit :=
  fun v =>
    match env.sys.fails .fstat dest with
    | some errno => .error (.errno errno) v
    | none =>
        match sendFile (env.sends dest) (srcFd = destFd) (System.content v srcFd)
            (System.content v destFd) with
        | (.ok (), bytes) => .ok () (System.write v destFd bytes)
        | (.error stop, bytes) => .error stop (System.write v destFd bytes)

/-- `OpenSrcFile`. -/
def openSrcFile (isMedia : Bool) (srcPth : PathName) (v : FileVolume) :
    Except Errno (List PathName) :=
  if isMedia then env.media else env.sys.openRead v srcPth

/-- `CopyFile`. -/
def copyFile (isMedia : Bool) (src dest : PathName) : EStateM Stop FileVolume Unit := do
  let srcFd ← ask (openSrcFile env isMedia src)
  let destFd ← act (env.sys.openWrite · dest)
  sendFileCore env dest srcFd destFd

/-- `CheckOrCreatePath`. -/
def checkOrCreatePath (destPath : PathName) : EStateM Stop FileVolume Unit := do
  if ← ask (env.sys.exists_ · destPath) then pure ()
  else discard (act (env.sys.openWrite · destPath))

/-! ## Directories -/

/-- `MakeDir`. -/
def makeDir (path : PathName) : EStateM Stop FileVolume Unit :=
  discard (act (env.sys.createDirectory · path))

/-- The target of `CopySubDir`. -/
def ensureDir (destPath : PathName) : EStateM Stop FileVolume Unit := do
  if ← ask (env.sys.exists_ · destPath) then pure () else makeDir env destPath

/-- The watch of `CopySubDir`. -/
def addWatch (destPath : PathName) : EStateM Stop FileVolume Unit :=
  if env.notified destPath then ask fun _ => orFail (env.sys.fails .addWatch destPath) (.ok ())
  else pure ()

/-- `CopySubDir`, with the `RecurCopyDir` it calls. -/
def copySubDir (recur : PathName → PathName → EStateM Stop FileVolume Unit)
    (srcPath destPath : PathName) : EStateM Stop FileVolume Unit := do
  ensureDir env destPath
  addWatch env destPath
  recur srcPath destPath

/-- One turn of the loop of `RecurCopyDir`. -/
def copyEntry (recur : PathName → PathName → EStateM Stop FileVolume Unit) (isMedia : Bool)
    (src dest : PathName) (type : FileType) : EStateM Stop FileVolume Unit :=
  match type with
  | .link => pure ()
  | .directory => copySubDir env recur src dest
  | .regular => copyFile env isMedia src dest

/-- The loop of `RecurCopyDir`. -/
def copyEntries (recur : PathName → PathName → EStateM Stop FileVolume Unit) (isMedia : Bool)
    (srcPath destPath : PathName) : List DirEntry → EStateM Stop FileVolume Unit
  | [] => pure ()
  | entry :: rest => do
      copyEntry env recur isMedia (srcPath ++ slash :: entry.name)
        (destPath ++ slash :: entry.name) entry.type
      copyEntries recur isMedia srcPath destPath rest

/-- `RecurCopyDir`, so many levels deep; a `scandir` that fails gives no entries. -/
def recurCopyDir (isMedia : Bool) : Nat → PathName → PathName → EStateM Stop FileVolume Unit
  | 0, _, _ => throw .fuel
  | fuel + 1, srcPath, destPath => do
      let entries := env.sys.listed (← get) srcPath
      copyEntries env (recurCopyDir isMedia fuel) isMedia srcPath destPath entries

/-- The name of the directory that `CopyDirFunc` copies to. -/
def dirNameOf (src : PathName) : PathName :=
  if parentPath src ≠ [] then pathFilename (parentPath src) else []

/-- `CopyDirFunc`. -/
def copyDirFunc (isMedia : Bool) (fuel : Nat) (src dest : PathName) :
    EStateM Stop FileVolume Unit := do
  if src <+: dest then throw (.errno .einval)
  else copySubDir env (recurCopyDir env isMedia fuel) src (dest ++ slash :: dirNameOf src)

/-! ## The whole call -/

/-- A path with a slash at its end. -/
def withSlash (path : PathName) : PathName :=
  if path.getLast? ≠ some slash then path ++ [slash] else path

/-- `ExecCopy`. -/
def execCopy (fuel : Nat) (infos : FsFileInfos) : EStateM Stop FileVolume Unit := do
  let v ← get
  if infos.isFile ∧ env.sys.isFile v infos.destPath then
    copyFile env infos.isMedia infos.srcPath infos.destPath
  else if ¬ infos.isFile ∧ env.sys.isDirectory v infos.destPath then
    copyDirFunc env infos.isMedia fuel (withSlash infos.srcPath) (withSlash infos.destPath)
  else throw (.errno .einval)

/-- The target of a file, in front of the copy. -/
def prepareFile (infos : FsFileInfos) : EStateM Stop FileVolume Unit :=
  if infos.isFile then
    if infos.srcPath = infos.destPath then throw (.errno .einval)
    else checkOrCreatePath env infos.destPath
  else pure ()

/-- `SubscribeLocalListener`, where there is a listener. -/
def subscribeLocalListener (infos : FsFileInfos) : EStateM Stop FileVolume Unit :=
  if infos.hasListener then ask fun _ => orFail env.subscribe (.ok ()) else pure ()

/-- `ExecLocal`. -/
def execLocal (fuel : Nat) (infos : FsFileInfos) : EStateM Stop FileVolume Unit := do
  prepareFile env infos
  subscribeLocalListener env infos
  execCopy env fuel infos

/-- `CreateFileInfos`, with the paths that the URIs stand for. -/
def createFileInfos (v : FileVolume) (srcPath destPath : PathName) (isMedia hasListener : Bool) :
    FsFileInfos where
  srcPath := getRealPath srcPath
  destPath := getRealPath destPath
  isMedia := isMedia
  isFile := isMedia || env.sys.isFile v (getRealPath srcPath)
  hasListener := hasListener

/-- What `DoCopy` does for a source on this device. -/
def doCopy (fuel : Nat) (srcPath destPath : PathName) (isMedia hasListener : Bool) :
    EStateM Stop FileVolume Unit := do
  let v ← get
  execLocal env fuel (createFileInfos env v srcPath destPath isMedia hasListener)
  ask fun _ => orFail env.exceptionCode (.ok ())

end

end FileApi.ModFs.Copy
