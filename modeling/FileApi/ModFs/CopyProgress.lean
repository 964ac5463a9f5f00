import FileApi.Misc.Machine
import FileApi.ModFs.Copy

/-!
# The progress of a copy

What the listener of `fs.copy` is told (`copy_core.cpp:329-403`, `430-463`, `504-693`, `834-887`). The
copying thread writes the targets one by one, and a write may leave an event in the inotify
descriptor; the notify thread reads events and takes the sizes of the files that they name. Who opens
and closes the descriptors is not looked at here. The source does not change while it is copied, and
every target is a file of its own.
-/

namespace FileApi.ModFs.CopyProgress

open Compress FileTree

/-- `ReceiveInfo`. -/
structure ReceiveInfo where
  path : PathName
  fileList : List (PathName × Nat) := []
  deriving DecidableEq

/-- `FsCallbackObject`. -/
structure FsCallbackObject where
  wds : List (Nat × ReceiveInfo)
  totalSize : Nat
  progressSize : Nat := 0
  maxProgressSize : Nat := 0
  deriving DecidableEq

/-- `FsFileInfos`. -/
structure FsFileInfos where
  isFile : Bool
  run : Bool := true
  filePaths : List PathName := []
  exceptionCode : Option Errno := none
  deriving DecidableEq

/-- `inotify_event`. -/
structure InotifyEvent where
  wd : Nat
  name : PathName
  deriving DecidableEq

/-! ## Sizes -/

section Sizes

variable (sys : System) (v : FileVolume)

/-- `GetFileSize`. -/
def getFileSize (path : PathName) : Except Errno Nat :=
  orFail (sys.fails .status path)
    (match sys.found v path with
      | some (.file bytes) => .ok bytes.length
      | some _ => .ok 0
      | none => .error .enoent)

/-- The loop of `GetDirSize`. -/
def dirSizeLoop (getDirSize : PathName → Nat) (path : PathName) : Nat → List DirEntry → Nat
  | size, [] => size
  | size, entry :: rest =>
      match entry.type with
      | .link => dirSizeLoop getDirSize path size rest
      | .directory =>
          dirSizeLoop getDirSize path (size + getDirSize (path ++ slash :: entry.name)) rest
      | .regular =>
          match getFileSize sys v (path ++ slash :: entry.name) with
          | .error _ => size
          | .ok bytes => dirSizeLoop getDirSize path (size + bytes) rest

/-- `GetDirSize`, so many levels deep. -/
def getDirSize : Nat → PathName → Nat
  | 0, _ => 0
  | fuel + 1, path => dirSizeLoop sys v (getDirSize fuel) path 0 (sys.listed v path)

end Sizes

/-! ## What the copying thread has to do -/

/-- A directory that is watched, and a file in it that is copied, with the size of its source. -/
inductive CopyTask where
  | subDir (destPath : PathName)
  | file (destPath name : PathName) (size : Nat)
  deriving DecidableEq

section Tasks

variable (sys : System) (v : FileVolume)

/-- The bytes of a source file. -/
def sourceSize (src : PathName) : Nat :=
  match sys.found v src with
  | some (.file bytes) => bytes.length
  | _ => 0

/-- The loop of `RecurCopyDir`. -/
def entryTasks (recurCopyDir : PathName → PathName → List CopyTask) (srcPath destPath : PathName) :
    List DirEntry → List CopyTask
  | [] => []
  | entry :: rest =>
      let src := srcPath ++ slash :: entry.name
      let dest := destPath ++ slash :: entry.name
      let tasks :=
        match entry.type with
        | .link => []
        | .directory => .subDir dest :: recurCopyDir src dest
        | .regular => [.file destPath entry.name (sourceSize sys v src)]
      tasks ++ entryTasks recurCopyDir srcPath destPath rest

/-- `RecurCopyDir`, so many levels deep. -/
def dirTasks : Nat → PathName → PathName → List CopyTask
  | 0, _, _ => []
  | fuel + 1, srcPath, destPath =>
      entryTasks sys v (dirTasks fuel) srcPath destPath (sys.listed v srcPath)

/-- `CopyDirFunc`. -/
def copyDirTasks (fuel : Nat) (src dest : PathName) : List CopyTask :=
  let destStr := dest ++ slash :: Copy.dirNameOf src
  .subDir destStr :: dirTasks sys v fuel src destStr

end Tasks

/-! ## The two threads -/

/-- A file that is being sent: its target, the size of the source, and what is written. -/
structure Sending where
  destPath : PathName
  name : PathName
  size : Nat
  offset : Nat
  deriving DecidableEq

/-- Where `DoCopy` stands: it is copying, it has the result of `ExecCopy` and closes the descriptors, it
waits for the notify thread, or it has returned. -/
inductive CopierPc where
  | copying
  | closing (result : Option Errno)
  | joining (result : Option Errno)
  | returned (result : Option Errno)
  deriving DecidableEq

/-- The threads, what they share, the sizes of the files at the targets, the events that are in the
descriptor and those that are read, and what the listener was told. -/
structure ProgressState where
  copier : CopierPc := .copying
  todo : List CopyTask
  sending : Option Sending := none
  notifying : Bool := true
  sizes : PathName → Option Nat
  queue : List InotifyEvent := []
  buffer : List InotifyEvent := []
  infos : FsFileInfos
  callback : FsCallbackObject
  reports : List (Nat × Nat) := []

/-- The path of a target: a file in its directory, or the file that is copied to. -/
def targetPath (isFile : Bool) (destPath name : PathName) : PathName :=
  if isFile then destPath else destPath ++ slash :: name

/-- The state in front of a copy, with the target watched. -/
def startState (isFile : Bool) (dest : PathName) (sizes : PathName → Option Nat) (totalSize : Nat)
    (todo : List CopyTask) : ProgressState :=
  { todo := todo, sizes := sizes, infos := { isFile := isFile }
    callback := { wds := [(1, { path := dest })], totalSize := totalSize } }

/-- `SubscribeLocalListener` and `StartNotify`. -/
def subscribe (sys : System) (v : FileVolume) (fuel : Nat) (isFile : Bool) (src dest : PathName)
    (sizes : PathName → Option Nat) : Except Errno ProgressState :=
  if isFile then
    (getFileSize sys v src).map fun size =>
      startState isFile dest sizes size [.file dest [] (sourceSize sys v src)]
  else
    .ok (startState isFile dest sizes (getDirSize sys v fuel src)
      (copyDirTasks sys v fuel (Copy.withSlash src) (Copy.withSlash dest)))

/-! ## Events -/

/-- `GetReceivedInfo`. -/
def getReceivedInfo (wds : List (Nat × ReceiveInfo)) (wd : Nat) : Option ReceiveInfo :=
  (wds.find? fun item => item.1 = wd).map (·.2)

/-- The `ReceiveInfo` that `GetReceivedInfo` gives is changed. -/
def setReceivedInfo (wd : Nat) (receivedInfo : ReceiveInfo) :
    List (Nat × ReceiveInfo) → List (Nat × ReceiveInfo)
  | [] => []
  | item :: wds =>
      if item.1 = wd then (item.1, receivedInfo) :: wds
      else item :: setReceivedInfo wd receivedInfo wds

/-- The size of a file in a `fileList`. -/
def setSize (filePath : PathName) (size : Nat) : List (PathName × Nat) → List (PathName × Nat)
  | [] => []
  | item :: fileList =>
      if item.1 = filePath then (filePath, size) :: fileList
      else item :: setSize filePath size fileList

/-- `UpdateProgressSize`, with the size of the file: the `ReceiveInfo` and the `progressSize` behind
it. -/
def updateProgressSize (size : Nat) (filePath : PathName) (receivedInfo : ReceiveInfo)
    (progressSize : Nat) : ReceiveInfo × Nat :=
  match receivedInfo.fileList.lookup filePath with
  | none =>
      ({ receivedInfo with fileList := receivedInfo.fileList ++ [(filePath, size)] },
        progressSize + size)
  | some seen =>
      if size > seen then
        ({ receivedInfo with fileList := setSize filePath size receivedInfo.fileList },
          progressSize + (size - seen))
      else (receivedInfo, progressSize)

/-- What `HandleProgress` returns: whether to go on, with what error, and whether to send. -/
structure Handled where
  needContinue : Bool
  errCode : Option Errno
  needSend : Bool
  deriving DecidableEq

/-- `HandleProgress`; `getFileSize` is asked for the size of a file that was copied to. -/
def handleProgress (getFileSize : PathName → Except Errno Nat) (event : InotifyEvent)
    (infos : FsFileInfos) (callback : FsCallbackObject) : Handled × FsCallbackObject :=
  match getReceivedInfo callback.wds event.wd with
  | none => (⟨true, some .einval, false⟩, callback)
  | some receivedInfo =>
      let fileName := targetPath infos.isFile receivedInfo.path event.name
      if ¬ infos.isFile ∧ fileName ∉ infos.filePaths then (⟨true, some .einval, false⟩, callback)
      else
        match getFileSize fileName with
        | .error errno => (⟨false, some errno, false⟩, callback)
        | .ok fileSize =>
            if infos.isFile then
              (⟨true, none, true⟩, { callback with progressSize := fileSize })
            else
              let updated := updateProgressSize fileSize fileName receivedInfo callback.progressSize
              (⟨true, none, true⟩, { callback with
                wds := setReceivedInfo event.wd updated.1 callback.wds
                progressSize := updated.2 })

/-- `OnFileReceive`, with the `FsUvEntry` and the `ReceiveComplete` of it. -/
def ProgressState.onFileReceive (s : ProgressState) : ProgressState :=
  if s.callback.progressSize < s.callback.maxProgressSize then s
  else { s with
    callback := { s.callback with maxProgressSize := s.callback.progressSize }
    reports := s.reports ++ [(s.callback.progressSize, s.callback.totalSize)] }

/-- `GetFileSize` of a target: `stat` fails, or there is a file of some size or not. -/
def ProgressState.targetSize (s : ProgressState) (failure : Option Errno) (path : PathName) :
    Except Errno Nat :=
  orFail failure
    (match s.sizes path with
      | some size => .ok size
      | none => .error .enoent)

/-- One turn of the loop of `ReadNotifyEvent`; `due` says whether `notifyTime` is over. -/
def ProgressState.readEvent (s : ProgressState) (event : InotifyEvent) (rest : List InotifyEvent)
    (due : Bool) (failure : Option Errno) : ProgressState :=
  if ¬ s.infos.run then { s with buffer := [] }
  else
    let (handled, callback) := handleProgress (s.targetSize failure) event s.infos s.callback
    let s := { s with callback := callback }
    if ¬ handled.needContinue then
      { s with buffer := [], infos := { s.infos with exceptionCode := handled.errCode } }
    else if ¬ handled.needSend then { s with buffer := rest }
    else if callback.progressSize = callback.totalSize then
      { s with buffer := [], infos := { s.infos with run := false } }
    else
      let s := { s with buffer := rest }
      if due then s.onFileReceive else s

/-! ## Steps -/

inductive CopierMove where
  /-- The next task is begun. -/
  | next
  /-- `sendfile` moves so many bytes; the event of it is queued, or it is merged or lost. -/
  | send (count : Nat) (queued : Bool)
  | fails (errno : Errno)
  /-- The file, or else the whole copy, is done. -/
  | done
  | close
  | join
  deriving DecidableEq

inductive NotifierMove where
  /-- So many events are read. -/
  | read (count : Nat)
  | event (due : Bool) (failure : Option Errno)
  /-- `GetNotifyEvent` returns, with an exception or not. -/
  | leaves (exception : Option Errno)
  deriving DecidableEq

inductive ProgressAction where
  | copier (move : CopierMove)
  | notifier (move : NotifierMove)
  deriving DecidableEq

/-- The event of a write to a target: from the watch on its directory, or from the one on the file. -/
def eventOf (wds : List (Nat × ReceiveInfo)) (destPath name : PathName) : Option InotifyEvent :=
  (wds.find? fun item => item.2.path = destPath).map fun item => ⟨item.1, name⟩

/-- A task is begun: a directory is watched, or a target is opened. -/
def ProgressState.begin (s : ProgressState) (task : CopyTask) (todo : List CopyTask) :
    ProgressState :=
  match task with
  | .subDir destPath =>
      { s with todo := todo, callback := { s.callback with
        wds := s.callback.wds ++ [(s.callback.wds.length + 1, { path := destPath })] } }
  | .file destPath name size =>
      let dest := targetPath s.infos.isFile destPath name
      { s with
        todo := todo
        sending := some ⟨destPath, name, size, 0⟩
        sizes := Function.update s.sizes dest (some ((s.sizes dest).getD 0))
        infos := { s.infos with
          filePaths := if s.infos.isFile then s.infos.filePaths else dest :: s.infos.filePaths } }

/-- Bytes of a file are written behind those that are. -/
def ProgressState.write (s : ProgressState) (f : Sending) (count : Nat) (queued : Bool) :
    ProgressState :=
  let dest := targetPath s.infos.isFile f.destPath f.name
  let written := f.offset + count
  let events := if queued then (eventOf s.callback.wds f.destPath f.name).toList else []
  { s with
    sending := some { f with offset := written }
    sizes := Function.update s.sizes dest (some (max ((s.sizes dest).getD 0) written))
    queue := s.queue ++ events }

/-- The end of `DoCopy`, with `CopyComplete`. -/
def ProgressState.complete (s : ProgressState) (result : Option Errno) : ProgressState :=
  match result with
  | some errno => { s with copier := .returned (some errno) }
  | none =>
      let s := { s with callback := { s.callback with progressSize := s.callback.totalSize } }
      let s := s.onFileReceive
      { s with copier := .returned s.infos.exceptionCode }

/-- A step of the copying thread. -/
def copierStep (s : ProgressState) (move : CopierMove) : Option ProgressState :=
  match s.copier, move with
  | .copying, .next =>
      match s.sending, s.todo with
      | none, task :: todo => some (s.begin task todo)
      | _, _ => none
  | .copying, .send count queued =>
      match s.sending with
      | some f => if 0 < count ∧ f.offset + count ≤ f.size then some (s.write f count queued) else none
      | none => none
  | .copying, .done =>
      match s.sending with
      | some f => if f.offset = f.size then some { s with sending := none } else none
      | none => if s.todo = [] then some { s with copier := .closing none } else none
  | .copying, .fails errno => some { s with copier := .closing (some errno) }
  | .closing result, .close =>
      some { s with copier := .joining result, infos := { s.infos with run := false } }
  | .joining result, .join => if s.notifying then none else some (s.complete result)
  | _, _ => none

/-- A step of the notify thread. -/
def notifierStep (s : ProgressState) (move : NotifierMove) : Option ProgressState :=
  match s.notifying, move, s.buffer with
  | true, .read count, [] =>
      some { s with buffer := s.queue.take count, queue := s.queue.drop count }
  | true, .event due failure, event :: rest => some (s.readEvent event rest due failure)
  | true, .leaves none, [] => some { s with notifying := false }
  | true, .leaves (some errno), [] =>
      some { s with notifying := false, infos := { s.infos with exceptionCode := some errno } }
  | _, _, _ => none

def progressStep (s : ProgressState) : ProgressAction → Option ProgressState
  | .copier move => copierStep s move
  | .notifier move => notifierStep s move

end FileApi.ModFs.CopyProgress
