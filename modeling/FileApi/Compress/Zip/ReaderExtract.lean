import FileApi.Compress.ArchiveUtils
import FileApi.Compress.Stream.Entry
import FileApi.Compress.Zip.ReaderWalk

/-!
# Extracting an entry

`zip_reader.c:92-194`, `498-922` and `zip_reader_impl.c:359-384`: the local header of an entry is
looked up, its bytes are read through the compress stream and written to a file or taken as the
target of a link, and the file is closed. Time and mode of the file are not modelled, nor the
arithmetic of the progress: what the callback answers is up to the system.
-/

namespace FileApi.Compress.Zip

open Program Zlib

/-! ## What an entry is -/

/-- `ZipAttribWin32ToPosix`, the file type. -/
def zipAttribWin32ToPosix (win32Attrib : UInt32) : UInt32 :=
  if win32Attrib &&& 0x400 = 0x400 then 0o120000
  else if win32Attrib &&& 0x10 = 0x10 then 0o040000
  else 0o100000

/-- `ZipConvertAttrib`, the file type. -/
def zipConvertAttrib (srcHostSys : UInt16) (srcAttrib : UInt32) : Option UInt32 :=
  if srcHostSys = 0 ∨ srcHostSys = 10 then some (zipAttribWin32ToPosix srcAttrib)
  else if srcHostSys = 3 ∨ srcHostSys = 19 ∨ srcHostSys = 13 then
    some ((if srcAttrib >>> 16 ≠ 0 then srcAttrib >>> 16 else srcAttrib) &&& 0o170000)
  else none

/-- `ZipReaderEntryIsSymlink`. -/
def zipReaderEntryIsSymlink (header : ReadCentralDirHeader) : Bool :=
  zipConvertAttrib (zipHostSystem header.versionMadeBy) header.externalFileAttr = some 0o120000

/-- `ZipReaderEntryIsDirectory`. -/
def zipReaderEntryIsDirectory (entry : ZipReaderEntry) : Bool :=
  let header := entry.centralDirHeader
  let hostOS := zipHostSystem header.versionMadeBy
  let last := entry.entryInfo.name.getLast?
  let highAttrib := header.externalFileAttr >>> 16
  if last = some slash then true
  else if header.uncompressedSize = 0 ∧ header.compressedSize = 0 ∧ last = some 0x5c ∧
      hostOS ∈ [0, 11, 6, 14] then true
  else if hostOS = 1 then highAttrib &&& 0o6000 = 0o4000
  else if hostOS ∈ [0, 11, 6, 14] then header.externalFileAttr &&& 0x10 ≠ 0
  else if hostOS = 3 then highAttrib &&& 0o170000 = 0o040000
  else false

/-! ## Opening -/

/-- The seek of `ZipSeekAndCheckLocalHeader` to `offset`, and the check there. -/
def zipSeekLocalHeader (stream : ByteFile) (offset : UInt64) : Except ArchiveErr ByteFile := do
  let stream ← streamSeek stream (toInt64 offset) .set
  zipCheckSignature stream ZIP_MAGIC_LOCALHEADER
  return stream

/-- `ZipSeekAndCheckLocalHeader`. Its caller takes every error for a format error. -/
def zipSeekAndCheckLocalHeader (stream : ByteFile) (relativeOffsetOfLocalHeader : UInt64)
    (offsetCorrection : Int) : Except ArchiveErr ByteFile :=
  let plain := (zipSeekLocalHeader stream relativeOffsetOfLocalHeader).mapError
    fun _ => .formatError
  if 0 < offsetCorrection ∧
      (relativeOffsetOfLocalHeader.toNat : Int) ≤ 2 ^ 64 - 1 - offsetCorrection then
    match zipSeekLocalHeader stream
        (relativeOffsetOfLocalHeader + UInt64.ofNat offsetCorrection.toNat) with
    | .ok stream => .ok stream
    | .error _ => plain
  else plain

/-- `ZipReaderProcessLocalHeader`; the stream is left at the data. -/
def zipReaderProcessLocalHeader (reader : ZipReader) (entry : ZipReaderEntry) :
    Except ArchiveErr ByteFile := do
  let stream ← zipSeekAndCheckLocalHeader reader.baseStream
    entry.entryInfo.relativeOffsetOfLocalHeader reader.offsetCorrection
  let (bytes, stream) := streamRead stream 30
  if bytes.length ≠ 30 then .error .readError
  else
    let header := LocalFileHeader.ofBytes bytes
    streamSeek stream (header.fileNameLength.toNat + header.extraFieldLength.toNat) .cur

/-- An entry that is open: the stream of the archive, the compress stream, the checksum, and the
bytes that have been written to the file. -/
structure OpenEntry (σ : Type) where
  base : ByteFile
  compressStream : CompressStream σ
  entryCrc : UInt32 := 0
  written : List UInt8 := []

section

variable {W H : Type} {D : Decoder} (I : Inflate D) (os : Os W H) (fuel : Nat)

/-- The compress stream of `ZipReaderInitStream`, with the limit `ZipReaderOpenEntry` sets. -/
def zipReaderCompressStream (info : ZipReaderEntryInfo) :
    Except ArchiveErr (CompressStream I.State) :=
  match info.compressionMethod with
  | 0 => .ok (.raw info.compressedSize 0)
  | 8 => .ok (.deflate I.reset [] 0)
  | _ => .error .supportError

/-- `ZipReaderOpenEntry`; a link has no file. -/
def zipReaderOpenEntry (reader : ZipReader) (entry : ZipReaderEntry) (outPath : PathName) :
    Run W (OpenEntry I.State × Option H) := do
  let base ← liftStatus (zipReaderProcessLocalHeader reader entry)
  let compressStream ← liftStatus (zipReaderCompressStream I entry.entryInfo)
  if zipReaderEntryIsSymlink entry.centralDirHeader then return (⟨base, compressStream, 0, []⟩, none)
  else
    let handle ← fileStreamOpen os outPath
    return (⟨base, compressStream, 0, []⟩, some handle)

/-! ## Reading -/

variable {I}

/-- `ZipReaderReadData` into the whole buffer. -/
def zipReaderReadData (info : ZipReaderEntryInfo) (st : OpenEntry I.State) :
    Option (Except ArchiveErr (List UInt8 × OpenEntry I.State)) :=
  if info.compressedSize = 0 ∨ info.uncompressedSize = 0 then some (.ok ([], st))
  else
    (st.compressStream.read fuel st.base ZIP_BUF_INTERNAL).map fun read =>
      read.map fun read =>
        (read.bytes,
          { st with
            base := read.base, compressStream := read.stream
            entryCrc := crc32 st.entryCrc read.bytes })

/-- `ZipReaderVerifyEntryCrc`; there is no encryption header. -/
def zipReaderVerifyEntryCrc (entry : ZipReaderEntry) (st : OpenEntry I.State) :
    Except ArchiveErr Unit :=
  if entry.entryInfo.compressedSize ≤ st.compressStream.totalIn ∧
      st.entryCrc ≠ entry.centralDirHeader.crc32 then .error .crcError
  else .ok ()

/-! ## Files -/

/-- The loop of `DeleteTempFileWithRootPath`: empty parents are removed. -/
def deleteParents (rootPath : PathName) : Nat → PathName → Run W Unit
  | 0, _ => throw .fuel
  | fuel + 1, parentPath =>
      if rootPath.length < parentPath.length then do
        if ← call (os.remove parentPath) then
          match getParentDirectory parentPath with
          | none => pure ()
          | some parentPath => deleteParents rootPath fuel parentPath
        else pure ()
      else pure ()

/-- `DeleteTempFileWithRootPath`. -/
def deleteTempFileWithRootPath (rootPath file : PathName) : Run W Unit := do
  if ← call (os.remove file) then
    match getParentDirectory file with
    | none => pure ()
    | some parentPath => deleteParents os rootPath (parentPath.length + 2) parentPath
  else pure ()

/-- `ZipReaderCloseEntry` and the result; the result of `fclose` is not looked at. -/
def closeEntryWith {α : Type} (handle : H) (err : ArchiveErr) : Run W α := do
  discard (call (os.fclose handle))
  throw (.error err)

/-- `ZipReaderSaveFile` where the callback cancels. -/
def cancelEntry {α : Type} (outDir newFilePath : PathName) (handle : H) : Run W α := do
  discard (call (os.fclose handle))
  deleteTempFileWithRootPath os outDir newFilePath
  throw (.error .cancelError)

/-- `ZipReaderWriteData`. -/
def zipReaderWriteData (handle : H) (bytes : List UInt8) (st : OpenEntry I.State) :
    Run W (OpenEntry I.State) := do
  match ← call (os.fwrite handle bytes) with
  | none => pure { st with written := st.written ++ bytes }
  | some errno =>
      closeEntryWith os handle (if errno = .enospc then .noSpaceError else .writeError)

/-- The loop of `ZipReaderSaveFile`. -/
def zipReaderSaveLoop (entry : ZipReaderEntry) (outDir newFilePath : PathName) (handle : H) :
    Nat → OpenEntry I.State → Run W (OpenEntry I.State)
  | 0, _ => throw .fuel
  | turns + 1, st => do
      match ← liftFuel (zipReaderReadData fuel entry.entryInfo st) with
      | .error _ => closeEntryWith os handle .readError
      | .ok (bytes, st) =>
          let write := if bytes ≠ [] then zipReaderWriteData os handle bytes st else pure st
          let st ← write
          if ← call os.cancels then cancelEntry os outDir newFilePath handle
          else if bytes ≠ [] then zipReaderSaveLoop entry outDir newFilePath handle turns st
          else pure st

/-- `ZipReaderSaveFile`; the state of the entry is kept for the reader of the model. -/
def zipReaderSaveFile (entry : ZipReaderEntry) (outDir newFilePath : PathName) (handle : H)
    (st : OpenEntry I.State) : Run W (OpenEntry I.State) := do
  if ← call os.cancels then cancelEntry os outDir newFilePath handle
  else
    let st ← zipReaderSaveLoop os fuel entry outDir newFilePath handle fuel st
    discard (call os.cancels)
    discard (call (os.fclose handle))
    liftStatus (zipReaderVerifyEntryCrc entry st)
    return st

/-! ## Links -/

/-- The string in the buffer, which was zeroed: the bytes that were read, cut at
`uncompressedSize`. -/
def symlinkTarget (info : ZipReaderEntryInfo) (bytes : List UInt8) : PathName :=
  cstr (bytes.take info.uncompressedSize.toNat ++ [0])

/-- `ZipReaderCreateSymlink`. -/
def zipReaderCreateSymlink (entry : ZipReaderEntry) (outDir newFilePath : PathName)
    (st : OpenEntry I.State) : Run W Unit :=
  if UInt64.ofNat ZIP_BUF_INTERNAL ≤ entry.entryInfo.uncompressedSize then
    throw (.error .formatError)
  else do
    match ← liftFuel (zipReaderReadData fuel entry.entryInfo st) with
    | .error _ => throw (.error .readError)
    | .ok (bytes, _) =>
        let target := symlinkTarget entry.entryInfo bytes
        if ← call (os.isSymlink newFilePath) then discard (call (os.unlink newFilePath))
        match ← validateSymlinkTarget os target entry.entryInfo.name outDir with
        | .error _ => throw (.error .symlinkError)
        | .ok () =>
            if ← call (os.symlink target newFilePath) then pure ()
            else throw (.error .internalError)

/-! ## Entries -/

/-- `ZipReaderAutoRenamePath`. -/
def zipReaderAutoRenamePath (outPath : PathName) : Run W PathName := do
  if ← call (os.stat outPath) then generateNewFilename os outPath
  else pure outPath

variable (I)

/-- `ZipReaderExtractEntry`. -/
def zipReaderExtractEntry (reader : ZipReader) (entry : ZipReaderEntry)
    (outDir outPath : PathName) : Run W Unit :=
  if zipReaderEntryIsDirectory entry ∧ ¬ zipReaderEntryIsSymlink entry.centralDirHeader then
    createDirectory os outPath
  else do
    let newFilePath ← zipReaderAutoRenamePath os outPath
    createParentDirectory os newFilePath
    match ← zipReaderOpenEntry I os reader entry newFilePath with
    | (st, none) => zipReaderCreateSymlink os fuel entry outDir newFilePath st
    | (st, some handle) =>
        discard (zipReaderSaveFile os fuel entry outDir newFilePath handle st)

/-- What `ZipReaderExtractAllFiles` does with one entry. -/
def zipReaderExtractOne (reader : ZipReader) (outDir : PathName) (entry : ZipReaderEntry) :
    Run W Unit := do
  let outPath ← liftStatus (getOutputFilePath entry.entryInfo.name outDir)
  zipReaderExtractEntry I os fuel reader entry outDir outPath

/-- `ZipReaderExtractAllFiles` with a directory. -/
def zipReaderExtractAll (convert : List UInt8 → Option CString) (reader : ZipReader)
    (outDir : PathName) : Run W (List ZipReaderEntry) :=
  zipReaderExtractAllFiles convert reader (zipReaderExtractOne I os fuel reader outDir)

end

end FileApi.Compress.Zip
