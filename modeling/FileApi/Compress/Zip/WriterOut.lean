import FileApi.Compress.Stream.Buffered
import FileApi.Compress.Zip.WriterAdd

/-!
# Writing entries to any stream

The functions of `WriterEntry` and `WriterClose` that write to the archive, over any type of
stream. The central directory is buffered in memory as before. Over a byte array they are the
functions that are there already.
-/

namespace FileApi.Compress.Zip.Out

section

variable {B : Type} [StreamOps B]

/-- `ZipWriteFileName`. -/
def zipWriteFileName (stream : B) (filename : CString) (filenameLength : UInt16) :
    Except ArchiveErr B :=
  if filenameLength > 0 then Out.streamWrite stream (filename.bytes.take filenameLength.toNat)
  else .ok stream

/-- `ZipEntryWriteLocalHeader` with `ZipWriterDataDesiptorZip64LocalHeader`. -/
def zipEntryWriteLocalHeader (stream : B) (e : ZipWriterEntryInfo) :
    Except ArchiveErr (B × ZipWriterEntryInfo) := do
  let stream ← Out.streamWrite stream (localFileHeader e).toBytes
  let stream ← zipWriteFileName stream e.filename e.filenameSize
  if e.zip64 then
    let e := { e with zip64extraInLocalHeaderPos := UInt64.ofNat (StreamOps.tell stream) }
    let stream ← Out.streamWrite stream (localExtraDataZIP64 e)
    return (stream, e)
  else
    return (stream, e)

/-- `ZipEntryUpdateLocalHeader` with `inCache = 0`. -/
def zipEntryUpdateLocalHeader (stream : B) (e : ZipWriterEntryInfo) : Except ArchiveErr B := do
  let currentPos := StreamOps.tell stream
  let stream ← Out.streamSeek stream (toInt64 e.localHeaderOffset + CRC_POS_IN_LOCAL_HEADER) .set
  let stream ← Out.streamWrite stream (putU32 e.crc)
  if (e.compressedSize > UINT32_MAX.toUInt64 ∨ e.uncompressedSize > UINT32_MAX.toUInt64) ∧
      !e.zip64 then
    throw .paramError
  let stream ← Out.streamWrite stream (putU32 (clampU32 e.compressedSize))
  let stream ← Out.streamWrite stream (putU32 (clampU32 e.uncompressedSize))
  let stream ←
    if e.zip64 ∧ e.zip64extraInLocalHeaderPos > 0 then do
      let stream ← Out.streamSeek stream
        (toInt64 (e.zip64extraInLocalHeaderPos + EXTRA_FIELD_HEADER_BYTES.toUInt64)) .set
      let stream ← Out.streamWrite stream (putU64 e.uncompressedSize)
      Out.streamWrite stream (putU64 e.compressedSize)
    else pure stream
  Out.streamSeek stream currentPos .set

/-- The writer: the stream of the archive, the buffered central directory, how many entries there
are, and the entries whose records are buffered. -/
structure ArchiveWriter (B : Type) where
  base : B
  cdMemStream : ByteFile := ⟨[], 0⟩
  totalNumberOfEntries : UInt64 := 0
  entries : List ZipWriterEntryInfo := []

/-- The records of `ZipWriterSaveCD`: the fields of the writer that they are made from. -/
def ArchiveWriter.closing (writer : ArchiveWriter B) (base : B) : ZipWriter where
  baseStream := ⟨[], 0⟩
  cdMemStream := writer.cdMemStream
  offsetOfCentralDir := UInt64.ofNat (StreamOps.tell writer.base)
  sizeOfCentralDir :=
    UInt64.ofNat (StreamOps.tell base) - UInt64.ofNat (StreamOps.tell writer.base)
  totalNumberOfEntries := writer.totalNumberOfEntries

/-- The end records of `ZipWriterSaveCD`. -/
def zipWriterSaveEnd (closing : ZipWriter) (base : B) : Except ArchiveErr B :=
  if writesZip64 closing then do
    let closing := { closing with offsetOfEOCD := UInt64.ofNat (StreamOps.tell base) }
    let base ← Out.streamWrite base (endOfCentralDir64 closing).toBytes
    let base ← Out.streamWrite base (endOfCentralDirLocator64 closing).toBytes
    Out.streamWrite base (endOfCentralDir closing).toBytes
  else Out.streamWrite base (endOfCentralDir closing).toBytes

/-- `ZipWriterSaveCD`. The memory stream holds what it was given, from its start. -/
def zipWriterSaveCD (writer : ArchiveWriter B) : Except ArchiveErr B := do
  let base ← Out.streamWrite writer.base writer.cdMemStream.data
  zipWriterSaveEnd (writer.closing base) base

end

/-- `ZipWriterClose` of an archive file that is buffered. -/
def zipWriterClose (writer : ArchiveWriter Stdio) : Except ArchiveErr Stdio := do
  let base ← zipWriterSaveCD writer
  return fileStreamClose base

end FileApi.Compress.Zip.Out
