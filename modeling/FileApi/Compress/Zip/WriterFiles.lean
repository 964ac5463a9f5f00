import FileApi.Compress.ArchiveUtils
import FileApi.Compress.Zip.WriterOut
import FileApi.Misc.Crc32

/-!
# Adding files

`zip_writer.c:189-271`, `487-1098`: a path is walked breadth first from a queue; a directory gets
an entry of its own and its names are queued, anything else is read and packed. An entry is opened,
its data is added and it is closed. The stream of the archive is passed along; what the arithmetic
of the progress comes to is up to the system.
-/

namespace FileApi.Compress.Zip.Out

open Program Zlib

/-! ## Paths -/

/-- `PathAppendSlash`, into a buffer of `ZIP_FILE_NAME_LEN_MAX` bytes. -/
def pathAppendSlash (path : PathName) : Except ArchiveErr PathName :=
  if ZIP_FILE_NAME_LEN_MAX ≤ path.length + 2 then .error .bufError
  else .ok (if path.getLast? = some slash then path else path ++ [slash])

/-- `PathCombine`, into a buffer of `ZIP_FILE_NAME_LEN_MAX` bytes. -/
def pathCombine (path join : PathName) : Except ArchiveErr PathName :=
  if path = [] then
    if ZIP_FILE_NAME_LEN_MAX ≤ join.length then .error .internalError else .ok join
  else do
    let path ← pathAppendSlash path
    if ZIP_FILE_NAME_LEN_MAX ≤ (path ++ join).length then .error .internalError
    else .ok (path ++ join)

/-- `IsValidFolderEnd`. -/
def isValidFolderEnd (dir : PathName) : Bool := dir ≠ [] ∧ dir ≠ [dot] ∧ dir ≠ [dot, dot]

/-- `GetprefixOfInput`: what is cut off the paths below the input. -/
def getprefixOfInput (input : PathName) : PathName :=
  let prefixOf := (input.dropLast.reverse.dropWhile (· ≠ slash)).reverse
  if ZIP_FILE_NAME_LEN_MAX < input.length ∨ prefixOf = [] then
    if input = [dot] then [dot, slash]
    else if input = [dot, dot] then [dot, dot, slash]
    else []
  else if ZIP_FILE_NAME_LEN_MAX ≤ prefixOf.length then []
  else prefixOf

/-- `GetSaveName`. -/
def getSaveName (filePath inputDir : PathName) : Except ArchiveErr PathName :=
  if inputDir <+: filePath then .ok (filePath.drop inputDir.length) else .error .internalError

/-! ## Entries -/

/-- `FileType`. -/
inductive FileType where
  | file | emptyDir
  deriving DecidableEq

/-- What `HmArchiveWriteInfo` gives every entry. -/
structure WriteMethod where
  method : UInt16
  level : Int
  deriving DecidableEq

/-- `FilePathNode`. -/
structure FilePathNode where
  filePath : PathName
  saveName : PathName
  deriving DecidableEq

/-- The task of one entry: the compress stream above the archive, the source, and what is known
about the entry. -/
structure WriterTask (σ B H : Type) where
  stream : WriteStream σ B
  extractStream : Option H
  entryInfo : ZipWriterEntryInfo

section

variable {B : Type} [StreamOps B] {W H : Type} {D : Decoder} (Z : Deflate D) (os : SourceOs W H)
  (fuel : Nat) (archive : WriteMethod)

/-- `IsDir`. -/
def isDir (path : PathName) : Run W Bool := do
  return ((← call (os.stat path)).map FileStat.isDirectory).getD false

/-- `GetFileModfiyTime`, `GetFileExternalAttributes` and `GetFileSize`. -/
def pathStat (path : PathName) : Run W PathStat := do
  let dosModDateTime ← match ← call (os.lstat path) with
    | some st => pure st.dosModDateTime
    | none => call os.currentDosDateTime
  let mode := ((← call (os.lstat path)).map LinkStat.mode).getD 0
  let size := ((← call (os.stat path)).map FileStat.size).getD 0
  return { mode, size, dosModDateTime }

/-- `FileStreamOpen` with `OPEN_MODE_READ`. -/
def fileStreamOpenRead (path : PathName) : Run W (Except ArchiveErr H) := do
  match ← call (os.realpath path) with
  | .error errno => return .error (convertWriteErrno errno .openError)
  | .ok resolvedPath =>
      match ← call (os.fopen resolvedPath) with
      | .error errno => return .error (convertWriteErrno errno .openError)
      | .ok handle => return .ok handle

/-- `ZipWriterOpenInitExtractStream`. -/
def zipWriterOpenInitExtractStream (fileType : FileType) (path : PathName) :
    Run W (Except ArchiveErr (Option H)) :=
  match fileType with
  | .emptyDir => pure (.ok none)
  | .file => do return (← fileStreamOpenRead os path).map some

/-- `ZipWriterOpenInitCompressStream`, for a method that is known. -/
def zipWriterOpenInitCompressStream (e : ZipWriterEntryInfo) (base : B) :
    WriteStream Z.State B :=
  if e.compressionMethod = OH_ARCHIVE_NO_COMPRESSION then .raw base 0
  else .deflate (deflateStreamOpen Z base)

/-- `ZipWriterEntryOpen`. -/
def zipWriterEntryOpen (base : B) (fileType : FileType) (node : FilePathNode) :
    Run W (Except ArchiveErr (WriterTask Z.State B H)) :=
  if archive.method ≠ OH_ARCHIVE_NO_COMPRESSION ∧ archive.method ≠ OH_ARCHIVE_COMPRESS_DEFLATE then
    pure (.error .paramError)
  else do
    let st ← pathStat os node.filePath
    let e := zipWriterOpenInitEntryInfo archive.method archive.level (fileType = .emptyDir) st
      (UInt64.ofNat (StreamOps.tell base)) ⟨cstr node.saveName, noNul_cstr node.saveName⟩
    if e.filename.bytes.length = 0 ∨ 0xffff < e.filename.bytes.length then
      return .error .paramError
    else
      match ← zipWriterOpenInitExtractStream os fileType node.filePath with
      | .error err => return .error err
      | .ok extractStream =>
          return (zipEntryWriteLocalHeader base e).map fun (base, e) =>
            { stream := zipWriterOpenInitCompressStream Z e base, extractStream, entryInfo := e }

/-- Data that was taken from the source, through the compress stream. -/
def WriterTask.write (data : List UInt8) (task : WriterTask Z.State B H) :
    Run W (WriterTask Z.State B H) := do
  let stream ← liftFuel (task.stream.write Z fuel data)
  let stream ← liftStatus stream
  return { task with
    stream, entryInfo := { task.entryInfo with crc := crc32 task.entryInfo.crc data } }

/-- The loop of `ZipWriterAddData`. -/
def zipWriterAddLoop (handle : H) :
    Nat → WriterTask Z.State B H → Run W (WriterTask Z.State B H)
  | 0, _ => throw .fuel
  | turns + 1, task => do
      match ← call (os.fread handle ZIP_BUF_INTERNAL) with
      | .error errno => throw (.error (convertWriteErrno errno .readError))
      | .ok data =>
          if data = [] then return task
          else
            let task ← task.write Z fuel data
            if ← call os.cancels then throw (.error .cancelError)
            else zipWriterAddLoop handle turns task

/-- `ReadSymlink`, into a buffer of `ZIP_FILE_NAME_LEN_MAX` bytes. -/
def readSymlink (path : PathName) : Run W (Option PathName) := do
  return (← call (os.readlink path)).map fun target => cstr (target.take (ZIP_FILE_NAME_LEN_MAX - 1))

/-- `ZipWriterAddData`. -/
def zipWriterAddData (path : PathName) (task : WriterTask Z.State B H) :
    Run W (WriterTask Z.State B H) := do
  if ((← call (os.lstat path)).map LinkStat.isLink).getD false then
    match ← readSymlink os path with
    | none => throw (.error .paramError)
    | some linkName => task.write Z fuel linkName
  else
    match task.extractStream with
    | none => return task
    | some handle => zipWriterAddLoop Z os fuel handle fuel task

/-- `ZipWriterCloseStream`; `needCalSize` is set for files. -/
def zipWriterCloseStream (writer : ArchiveWriter B) (task : WriterTask Z.State B H)
    (needCalSize : Bool) : Run W (ArchiveWriter B) := do
  let stream ← liftStatus (← liftFuel (task.stream.close Z fuel))
  let e := if needCalSize then
      { task.entryInfo with
        compressedSize := stream.totalOut, uncompressedSize := stream.totalIn }
    else task.entryInfo
  let base ← liftStatus (zipEntryUpdateLocalHeader stream.base e)
  let cdMemStream ← liftStatus (zipEntryWriteCdHeader writer.cdMemStream e)
  return {
    base, cdMemStream
    totalNumberOfEntries := writer.totalNumberOfEntries + 1
    entries := writer.entries ++ [e] }

/-- `ZipWriterDeleteStream`, for the source. -/
def zipWriterDeleteStream (task : WriterTask Z.State B H) : Run W Unit :=
  match task.extractStream with
  | none => pure ()
  | some handle => discard (call (os.fclose handle))

/-- `ZipWriterAddOneFile`. A file that could not be opened and is not there is left out. -/
def zipWriterAddOneFile (writer : ArchiveWriter B) (node : FilePathNode) :
    Run W (ArchiveWriter B) := do
  match ← zipWriterEntryOpen Z os archive writer.base .file node with
  | .ok task =>
      let task ← zipWriterAddData Z os fuel node.filePath task
      let writer ← zipWriterCloseStream Z fuel writer task true
      zipWriterDeleteStream Z os task
      return writer
  | .error err =>
      if err = .openError then
        if ← call (os.access node.filePath) then throw (.error err) else return writer
      else throw (.error err)

/-- `ZipWriterAddEmptyDir`. -/
def zipWriterAddEmptyDir (writer : ArchiveWriter B) (inputDir path : PathName) :
    Run W (ArchiveWriter B) := do
  let _ ← liftStatus (getSaveName path inputDir)
  let newPath ← liftStatus (pathAppendSlash path)
  let node : FilePathNode := ⟨path, newPath.drop inputDir.length⟩
  let ret ← status do
    let task ← liftStatus (← zipWriterEntryOpen Z os archive writer.base .emptyDir node)
    zipWriterCloseStream Z fuel writer task false
  if ← call os.cancels then throw (.error .cancelError)
  else liftStatus ret

/-! ## The walk -/

/-- The loop of `TraversalDir`: the names that are left, and the queue. -/
def traversalNames (currentDir : PathName) :
    List PathName → List PathName → Except ArchiveErr (List PathName)
  | [], queue => .ok queue
  | name :: names, queue =>
      if name = [dot] ∨ name = [dot, dot] then traversalNames currentDir names queue
      else do
        let fullPath ← pathCombine [] currentDir
        let fullPath ← pathCombine fullPath name
        traversalNames currentDir names (queue ++ [fullPath])

/-- `TraversalDir`. A directory that cannot be opened has no names. -/
def traversalDir (queue : List PathName) (currentDir : PathName) : Run W (List PathName) := do
  match ← call (os.readdir currentDir) with
  | none => return queue
  | some names => liftStatus (traversalNames currentDir names queue)

/-- The loop of `GetDirSize`, whose errors end `InitWriterProgress`. -/
def getDirSize : Nat → List PathName → Run W Unit
  | _, [] => pure ()
  | 0, _ :: _ => throw .fuel
  | turns + 1, path :: queue => do
      if ← isDir os path then
        if isValidFolderEnd path then
          let queue ← traversalDir os queue path
          getDirSize turns queue
        else getDirSize turns queue
      else
        let _ ← call (os.stat path)
        getDirSize turns queue

/-- What `ZipWriterAddOnePath` does with one path: the writer, and the queue. -/
def zipWriterAddNode (inputDir : PathName) (writer : ArchiveWriter B) (path : PathName)
    (queue : List PathName) : Run W (ArchiveWriter B × List PathName) := do
  if ← isDir os path then
    let add := if isValidFolderEnd path then
        zipWriterAddEmptyDir Z os fuel archive writer inputDir path
      else pure writer
    let writer ← add
    let queue ← traversalDir os queue path
    return (writer, queue)
  else
    let saveName ← liftStatus (getSaveName path inputDir)
    let writer ← zipWriterAddOneFile Z os fuel archive writer ⟨path, saveName⟩
    return (writer, queue)

/-- The loop of `ZipWriterAddOnePath`. -/
def zipWriterAddQueue (inputDir : PathName) :
    Nat → ArchiveWriter B → List PathName → Run W (ArchiveWriter B)
  | _, writer, [] => pure writer
  | 0, _, _ :: _ => throw .fuel
  | turns + 1, writer, path :: queue => do
      let (writer, queue) ← zipWriterAddNode Z os fuel archive inputDir writer path queue
      zipWriterAddQueue inputDir turns writer queue

/-- `ZipWriterAddOnePath`. -/
def zipWriterAddOnePath (writer : ArchiveWriter B) (infile : PathName) :
    Run W (ArchiveWriter B) :=
  zipWriterAddQueue Z os fuel archive (getprefixOfInput infile) fuel writer [infile]

/-- `ZipWriterAddFiles`. -/
def zipWriterAddFiles : ArchiveWriter B → List PathName → Run W (ArchiveWriter B)
  | writer, [] => pure writer
  | writer, infile :: infiles => do
      let writer ← zipWriterAddOnePath Z os fuel archive writer infile
      zipWriterAddFiles writer infiles

/-- The check of the inputs in `ZipWriterAddFunc`. -/
def checkInputs : List PathName → Run W Unit
  | [] => pure ()
  | infile :: infiles => do
      match ← call (os.stat infile) with
      | none => throw (.error .existError)
      | some _ => checkInputs infiles

/-- `InitWriterProgress`. -/
def initWriterProgress : List PathName → Run W Unit
  | [] => pure ()
  | infile :: infiles => do
      match ← status (getDirSize os fuel [infile]) with
      | .error _ => throw (.error .internalError)
      | .ok () => initWriterProgress infiles

/-- `ZipWriterAddFunc` of a writer whose archive is open. -/
def zipWriterAddFunc (writer : ArchiveWriter B) (infiles : List PathName) :
    Run W (ArchiveWriter B) := do
  checkInputs os infiles
  initWriterProgress os fuel infiles
  let writer ← zipWriterAddFiles Z os fuel archive writer infiles
  if ← call os.cancels then throw (.error .cancelError)
  else return writer

end

end FileApi.Compress.Zip.Out
