import FileApi.Compress.Zip.WriterFiles
import FileApi.Compress.Zip.ReaderProgress

/-!
# The progress of adding files

`ZipWriterUpdateProgress` (`zip_writer.c:223-241`) and the functions that call it, this time with
the arithmetic, and with the sizes `GetDirSize` adds up (`zip_writer.c:876-899`, `936-1038`,
`1061-1098`). What the handler is told is kept in the order of the calls, the last one first. The
functions that do not ask the handler are those of `WriterFiles`; without a handler the others are
theirs as well (`zipWriterAddFiles_plain`).
-/

namespace FileApi.Compress.Zip.Out.Progress

open Program Zlib
open Zip.Progress (ProgressHandler PROGRESS_PERCENT)

def COMPRESS_OVER_PROCESS : Int := 100

/-- The fields of `struct ZipWriter` behind the percentage. `told` is what the handler was told since
`InitWriterProgress`, the last one first. -/
structure WriteProgress where
  progressTotal : UInt64 := 0
  progressUpdated : UInt64 := 0
  told : List Int := []
  deriving DecidableEq

/-- The fields beside the rest of the system. -/
structure Told (W : Type) where
  world : W
  progress : WriteProgress := {}
  deriving DecidableEq

/-- A call that leaves the fields alone. -/
def Told.other {W α : Type} (f : W → α × W) (s : Told W) : α × Told W :=
  ((f s.world).1, { s with world := (f s.world).2 })

/-- The system beside the fields. -/
def toldOs {W H : Type} (os : SourceOs W H) : SourceOs (Told W) H where
  stat path := Told.other (os.stat path)
  lstat path := Told.other (os.lstat path)
  readlink path := Told.other (os.readlink path)
  access path := Told.other (os.access path)
  readdir path := Told.other (os.readdir path)
  realpath path := Told.other (os.realpath path)
  fopen path := Told.other (os.fopen path)
  fread handle n := Told.other (os.fread handle n)
  fclose handle := Told.other (os.fclose handle)
  currentDosDateTime := Told.other os.currentDosDateTime
  -- the handler is asked by `zipWriterUpdateProgress` below
  cancels s := (false, s)

/-- The percentage: `uint64_t` arithmetic, narrowed to an `int`. -/
def ratioOf (progressUpdated progressTotal : UInt64) : Int :=
  Int.bmod (progressUpdated * PROGRESS_PERCENT / progressTotal).toNat (2 ^ 32)

section

variable {B : Type} [StreamOps B] {W H : Type} {D : Decoder} (Z : Deflate D) (os : SourceOs W H)
  (handler : ProgressHandler W) (fuel : Nat) (archive : WriteMethod)

/-- `ZipWriterUpdateProgress`: whether it returns `OH_ARCHIVE_PROGRESS_CANCEL`. -/
def zipWriterUpdateProgress (len : Nat) (isCompressOver : Bool) (s : Told W) : Bool × Told W :=
  match handler with
  | none => (false, s)
  | some progressHandler =>
      if s.progress.progressTotal = 0 ∨ isCompressOver then
        let ratio := if isCompressOver then COMPRESS_OVER_PROCESS else 0
        let (cancel, world) := progressHandler ratio s.world
        (cancel, ⟨world, { s.progress with told := ratio :: s.progress.told }⟩)
      else
        let progressUpdated := s.progress.progressUpdated + UInt64.ofNat len
        let ratio := ratioOf progressUpdated s.progress.progressTotal
        let (cancel, world) := progressHandler ratio s.world
        (cancel, ⟨world, { s.progress with progressUpdated, told := ratio :: s.progress.told }⟩)

/-- The loop of `ZipWriterAddData`. -/
def zipWriterAddLoop (handle : H) :
    Nat → WriterTask Z.State B H → Run (Told W) (WriterTask Z.State B H)
  | 0, _ => throw .fuel
  | turns + 1, task => do
      match ← call ((toldOs os).fread handle ZIP_BUF_INTERNAL) with
      | .error errno => throw (.error (convertWriteErrno errno .readError))
      | .ok data =>
          if data = [] then return task
          else
            let task ← task.write Z fuel data
            if ← call (zipWriterUpdateProgress handler data.length false) then
              throw (.error .cancelError)
            else zipWriterAddLoop handle turns task

/-- `ZipWriterAddData`. -/
def zipWriterAddData (path : PathName) (task : WriterTask Z.State B H) :
    Run (Told W) (WriterTask Z.State B H) := do
  if ((← call ((toldOs os).lstat path)).map LinkStat.isLink).getD false then
    match ← readSymlink (toldOs os) path with
    | none => throw (.error .paramError)
    | some linkName => task.write Z fuel linkName
  else
    match task.extractStream with
    | none => return task
    | some handle => zipWriterAddLoop Z os handler fuel handle fuel task

/-- `ZipWriterAddOneFile`. -/
def zipWriterAddOneFile (writer : ArchiveWriter B) (node : FilePathNode) :
    Run (Told W) (ArchiveWriter B) := do
  match ← zipWriterEntryOpen Z (toldOs os) archive writer.base .file node with
  | .ok task =>
      let task ← zipWriterAddData Z os handler fuel node.filePath task
      let writer ← zipWriterCloseStream Z fuel writer task true
      zipWriterDeleteStream Z (toldOs os) task
      return writer
  | .error err =>
      if err = .openError then
        if ← call ((toldOs os).access node.filePath) then throw (.error err) else return writer
      else throw (.error err)

/-- `ZipWriterAddEmptyDir`. The handler is told however the entry is opened and closed. -/
def zipWriterAddEmptyDir (writer : ArchiveWriter B) (inputDir path : PathName) :
    Run (Told W) (ArchiveWriter B) := do
  let _ ← liftStatus (getSaveName path inputDir)
  let newPath ← liftStatus (pathAppendSlash path)
  let node : FilePathNode := ⟨path, newPath.drop inputDir.length⟩
  let ret ← status do
    let task ← liftStatus (← zipWriterEntryOpen Z (toldOs os) archive writer.base .emptyDir node)
    zipWriterCloseStream Z fuel writer task false
  if ← call (zipWriterUpdateProgress handler 0 false) then throw (.error .cancelError)
  else liftStatus ret

/-- The loop of `GetDirSize`. -/
def getDirSize : Nat → UInt64 → List PathName → Run (Told W) UInt64
  | _, totalSize, [] => pure totalSize
  | 0, _, _ :: _ => throw .fuel
  | turns + 1, totalSize, path :: queue => do
      if ← isDir (toldOs os) path then
        if isValidFolderEnd path then
          let queue ← traversalDir (toldOs os) queue path
          getDirSize turns totalSize queue
        else getDirSize turns totalSize queue
      else
        let size := ((← call ((toldOs os).stat path)).map FileStat.size).getD 0
        getDirSize turns (totalSize + size) queue

/-- What `ZipWriterAddOnePath` does with one path: the writer, and the queue. -/
def zipWriterAddNode (inputDir : PathName) (writer : ArchiveWriter B) (path : PathName)
    (queue : List PathName) : Run (Told W) (ArchiveWriter B × List PathName) := do
  if ← isDir (toldOs os) path then
    let add := if isValidFolderEnd path then
        zipWriterAddEmptyDir Z os handler fuel archive writer inputDir path
      else pure writer
    let writer ← add
    let queue ← traversalDir (toldOs os) queue path
    return (writer, queue)
  else
    let saveName ← liftStatus (getSaveName path inputDir)
    let writer ← zipWriterAddOneFile Z os handler fuel archive writer ⟨path, saveName⟩
    return (writer, queue)

/-- The loop of `ZipWriterAddOnePath`. -/
def zipWriterAddQueue (inputDir : PathName) :
    Nat → ArchiveWriter B → List PathName → Run (Told W) (ArchiveWriter B)
  | _, writer, [] => pure writer
  | 0, _, _ :: _ => throw .fuel
  | turns + 1, writer, path :: queue => do
      let (writer, queue) ← zipWriterAddNode Z os handler fuel archive inputDir writer path queue
      zipWriterAddQueue inputDir turns writer queue

/-- `ZipWriterAddOnePath`. -/
def zipWriterAddOnePath (writer : ArchiveWriter B) (infile : PathName) :
    Run (Told W) (ArchiveWriter B) :=
  zipWriterAddQueue Z os handler fuel archive (getprefixOfInput infile) fuel writer [infile]

/-- `ZipWriterAddFiles`. -/
def zipWriterAddFiles : ArchiveWriter B → List PathName → Run (Told W) (ArchiveWriter B)
  | writer, [] => pure writer
  | writer, infile :: infiles => do
      let writer ← zipWriterAddOnePath Z os handler fuel archive writer infile
      zipWriterAddFiles writer infiles

/-- The loop of `InitWriterProgress`. -/
def measureInputs : UInt64 → List PathName → Run (Told W) UInt64
  | progressTotal, [] => pure progressTotal
  | progressTotal, infile :: infiles => do
      match ← status (getDirSize os fuel progressTotal [infile]) with
      | .error _ => throw (.error .internalError)
      | .ok progressTotal => measureInputs progressTotal infiles

/-- `InitWriterProgress`. -/
def initWriterProgress (infiles : List PathName) : Run (Told W) Unit := do
  call fun s => ((), { s with progress := { s.progress with progressUpdated := 0, told := [] } })
  let progressTotal ← measureInputs os fuel 0 infiles
  call fun s => ((), { s with progress := { s.progress with progressTotal } })

/-- `ZipWriterAddFunc` of a writer whose archive is open. -/
def zipWriterAddFunc (writer : ArchiveWriter B) (infiles : List PathName) :
    Run (Told W) (ArchiveWriter B) := do
  checkInputs (toldOs os) infiles
  initWriterProgress os fuel infiles
  let writer ← zipWriterAddFiles Z os handler fuel archive writer infiles
  if ← call (zipWriterUpdateProgress handler 0 true) then throw (.error .cancelError)
  else return writer

end

end FileApi.Compress.Zip.Out.Progress
