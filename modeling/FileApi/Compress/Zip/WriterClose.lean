import FileApi.Compress.Zip.WriterEntry

/-!
# Closing the archive

`zip_writer.c:1100-1184`: the buffered central directory is appended to the archive, followed
by the end-of-central-directory records. The zip64 record and its locator are written only
when one of the three numbers does not fit its classic field.
-/

namespace FileApi.Compress.Zip

/-- The part of `struct ZipWriter` that survives from entry to entry. `calloc` leaves
`versionMadeBy` and `globalCommentLength` zero and nothing sets them. -/
structure ZipWriter where
  baseStream : ByteFile
  cdMemStream : ByteFile
  numberOfDiskWithCD : UInt32 := 0
  versionMadeBy : UInt16 := 0
  globalCommentLength : UInt16 := 0
  offsetOfEOCD : UInt64 := 0
  offsetOfCentralDir : UInt64 := 0
  sizeOfCentralDir : UInt64 := 0
  totalNumberOfEntries : UInt64 := 0
  deriving DecidableEq

/-- `ZipWriteMemStream`. -/
def zipWriteMemStream (writeToStream memStream : ByteFile) : Except ArchiveErr ByteFile := do
  let memStream ← streamSeek memStream 0 .fromEnd
  let cdRetSize := streamTell memStream
  streamWrite writeToStream (memStream.data.take cdRetSize)

/-- The record of `ZipWriterZip64EndOfCD`. -/
def endOfCentralDir64 (writer : ZipWriter) : EndOfCentralDir64 where
  signature := ZIP_MAGIC_ENDHEADER64
  size := ZIP_END_OF_CD64_SIZE
  versionMadeBy := writer.versionMadeBy
  versionNeeded := ZIP_VERSION_45
  numberOfDisk := writer.numberOfDiskWithCD
  numberOfDiskWithCD := writer.numberOfDiskWithCD
  totalNumberOfEntriesOnThisDisk := writer.totalNumberOfEntries
  totalNumberOfEntries := writer.totalNumberOfEntries
  sizeOfCentralDir := writer.sizeOfCentralDir
  offsetOfCentralDir := writer.offsetOfCentralDir

/-- `ZipWriterZip64EndOfCD`. -/
def zipWriterZip64EndOfCD (writer : ZipWriter) (stream : ByteFile) : Except ArchiveErr ByteFile :=
  streamWrite stream (endOfCentralDir64 writer).toBytes

/-- The record of `ZipWriterZip64EndOfCDLocator`. -/
def endOfCentralDirLocator64 (writer : ZipWriter) : EndOfCentralDirLocator64 where
  signature := ZIP_MAGIC_ENDLOCHEADER64
  numberOfDiskWithEOCD64 := writer.numberOfDiskWithCD
  offsetOfEOCD64 := writer.offsetOfEOCD
  diskTotalNum := 1

/-- `ZipWriterZip64EndOfCDLocator`. -/
def zipWriterZip64EndOfCDLocator (writer : ZipWriter) (stream : ByteFile) :
    Except ArchiveErr ByteFile :=
  streamWrite stream (endOfCentralDirLocator64 writer).toBytes

/-- `totalNumberOfEntries > UINT16_MAX ? UINT16_MAX : totalNumberOfEntries`. -/
def clampU16 (value : UInt64) : UInt16 :=
  if value > UINT16_MAX.toUInt64 then UINT16_MAX else value.toUInt16

/-- The record of `ZipWriteEndOfCD`. -/
def endOfCentralDir (writer : ZipWriter) : EndOfCentralDir where
  signature := ZIP_MAGIC_ENDHEADER
  numberOfDisk := writer.numberOfDiskWithCD.toUInt16
  numberOfDiskWithCD := writer.numberOfDiskWithCD.toUInt16
  totalNumberOfEntriesOnThisDisk := clampU16 writer.totalNumberOfEntries
  totalNumberOfEntries := clampU16 writer.totalNumberOfEntries
  sizeOfCentralDir := clampU32 writer.sizeOfCentralDir
  offsetOfCentralDir := clampU32 writer.offsetOfCentralDir
  commentLength := writer.globalCommentLength

/-- `ZipWriteEndOfCD`. -/
def zipWriteEndOfCD (writer : ZipWriter) (stream : ByteFile) : Except ArchiveErr ByteFile :=
  streamWrite stream (endOfCentralDir writer).toBytes

/-- The writer's test for the zip64 records. -/
def writesZip64 (writer : ZipWriter) : Bool :=
  writer.sizeOfCentralDir > UINT32_MAX.toUInt64 || writer.offsetOfCentralDir > UINT32_MAX.toUInt64 ||
    writer.totalNumberOfEntries > UINT16_MAX.toUInt64

/-- The end records of `ZipWriterSaveCD`, behind the central directory. -/
def zipWriterSaveEnd (writer : ZipWriter) (baseStream : ByteFile) : Except ArchiveErr ZipWriter :=
  if writesZip64 writer then do
    let writer := { writer with offsetOfEOCD := UInt64.ofNat (streamTell baseStream) }
    let baseStream ← zipWriterZip64EndOfCD writer baseStream
    let baseStream ← zipWriterZip64EndOfCDLocator writer baseStream
    let baseStream ← zipWriteEndOfCD writer baseStream
    return { writer with baseStream }
  else do
    let baseStream ← zipWriteEndOfCD writer baseStream
    return { writer with baseStream }

/-- `ZipWriterSaveCD` of an opened writer. -/
def zipWriterSaveCD (writer : ZipWriter) : Except ArchiveErr ZipWriter := do
  let offsetOfCentralDir := UInt64.ofNat (streamTell writer.baseStream)
  let baseStream ← zipWriteMemStream writer.baseStream writer.cdMemStream
  zipWriterSaveEnd
    { writer with
      offsetOfCentralDir
      numberOfDiskWithCD := 0
      sizeOfCentralDir := UInt64.ofNat (streamTell baseStream) - offsetOfCentralDir }
    baseStream

end FileApi.Compress.Zip
