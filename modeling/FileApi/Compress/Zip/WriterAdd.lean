import FileApi.Compress.Zip.WriterClose

/-!
# Adding an entry

The archive side of `ZipWriterEntryOpen`, `ZipWriterAddData` and `ZipWriterCloseStream`
(`zip_writer.c:487-735`): the local header is written, the compression stream forwards the
packed data to the archive, and closing patches the header and buffers the central record.
-/

namespace FileApi.Compress.Zip

/-- The writer `ZipWriterOpenOutputFile` leaves behind: an empty archive and an empty central
directory. -/
def zipWriterOpened : ZipWriter := { baseStream := ⟨[], 0⟩, cdMemStream := ⟨[], 0⟩ }

/-- `ZipWriterEntryOpen` behind `ZipWriterOpenInitEntryInfo`, for a source that could be
opened. -/
def zipWriterEntryOpen (writer : ZipWriter) (e : ZipWriterEntryInfo) :
    Except ArchiveErr (ZipWriter × ZipWriterEntryInfo) := do
  if e.filename.bytes.length = 0 ∨ e.filename.bytes.length > 0xffff then
    throw .paramError
  let (baseStream, e) ← zipEntryWriteLocalHeader writer.baseStream e
  return ({ writer with baseStream }, e)

/-- `ZipWriterCloseStream` behind the close of the compression stream. -/
def zipWriterCloseStream (writer : ZipWriter) (e : ZipWriterEntryInfo) :
    Except ArchiveErr ZipWriter := do
  let baseStream ← zipEntryUpdateLocalHeader writer.baseStream e
  let cdMemStream ← zipEntryWriteCdHeader writer.cdMemStream e
  return { writer with
    baseStream, cdMemStream, totalNumberOfEntries := writer.totalNumberOfEntries + 1 }

/-- One entry: `payload` is what the compression stream forwards, and checksum and sizes are
what is known about it at the close. -/
def zipWriterAddEntry (writer : ZipWriter) (e : ZipWriterEntryInfo) (payload : List UInt8)
    (crc : UInt32) (compressedSize uncompressedSize : UInt64) : Except ArchiveErr ZipWriter := do
  let (writer, e) ← zipWriterEntryOpen writer e
  let baseStream ← streamWrite writer.baseStream payload
  zipWriterCloseStream { writer with baseStream } { e with crc, compressedSize, uncompressedSize }

/-- The writers of successful runs. Paths handed to `lstat` are shorter than `PATH_MAX` and a
directory gets one slash more, so no entry name exceeds `ZIP_FILE_NAME_LEN_MAX`. -/
inductive ZipWriter.Reach : ZipWriter → Prop
  | opened : Reach zipWriterOpened
  | added {writer writer' : ZipWriter} (method : UInt16) (level : Int) (emptyDir : Bool)
      (st : PathStat) (saveName : CString) (payload : List UInt8) (crc : UInt32)
      (compressedSize uncompressedSize : UInt64) :
      Reach writer → saveName.bytes.length ≤ ZIP_FILE_NAME_LEN_MAX →
      zipWriterAddEntry writer
        (zipWriterOpenInitEntryInfo method level emptyDir st
          (UInt64.ofNat (streamTell writer.baseStream)) saveName)
        payload crc compressedSize uncompressedSize = .ok writer' →
      Reach writer'

end FileApi.Compress.Zip
