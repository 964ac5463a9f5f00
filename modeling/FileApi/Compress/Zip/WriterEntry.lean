import FileApi.Compress.Stream.File
import FileApi.Compress.Zip.NameEncoding
import FileApi.Misc.CString

/-!
# Headers of one entry

`zip_writer.c:272-548` and `zip_writer.c:663-696`: what the writer knows about an entry, its
local header (with the zip64 extra field when the file is large), the patch of that header
once the sizes are known, and the central directory record.
-/

namespace FileApi.Compress.Zip

/-- `struct ZipWriterEntryInfo`; `filenameSize` is `ZipWriterEntryInfo.filenameSize`. -/
structure ZipWriterEntryInfo where
  versionMadeBy : UInt16
  flag : UInt16
  compressionMethod : UInt16
  crc : UInt32
  compressedSize : UInt64
  uncompressedSize : UInt64
  diskNumber : UInt32
  localHeaderOffset : UInt64
  internalFa : UInt16
  externalFa : UInt32
  filename : CString
  dosModDateTime : UInt32
  zip64 : Bool
  zip64extraInLocalHeaderPos : UInt64
  deriving DecidableEq

/-- `(uint16_t)strlen(filename)`. -/
def ZipWriterEntryInfo.filenameSize (e : ZipWriterEntryInfo) : UInt16 :=
  UInt16.ofNat e.filename.bytes.length

def ARCHIVE_WZAES_COMPRESS_METHOD : UInt16 := 99
def OH_ARCHIVE_NO_COMPRESSION : UInt16 := 0
def OH_ARCHIVE_COMPRESS_DEFLATE : UInt16 := 8

/-- A 64-bit value in a 32-bit header field: `value > UINT32_MAX ? UINT32_MAX : value`. -/
def clampU32 (value : UInt64) : UInt32 :=
  if value > UINT32_MAX.toUInt64 then UINT32_MAX else value.toUInt32

/-- `ZipGetFlag`. -/
def zipGetFlag (compressionMethod : UInt16) (compressLevel : Int) : UInt16 :=
  if compressionMethod = OH_ARCHIVE_COMPRESS_DEFLATE then
    if compressLevel = 9 then ZIP_FLAG_DEFLATE_MAX
    else if compressLevel = 1 then ZIP_FLAG_DEFLATE_SUPER_FAST
    else 0
  else 0

/-- `NeedZip64`. -/
def needZip64 (size : UInt64) : Bool := size > 0xff000000

/-- What `lstat` and `stat` tell about the path of an entry. -/
structure PathStat where
  mode : UInt32
  size : UInt64
  dosModDateTime : UInt32
  deriving DecidableEq

/-- `GetFileExternalAttributes`. -/
def getFileExternalAttributes (st : PathStat) : UInt32 :=
  (st.mode >>> 16) ||| (st.mode <<< 16)

/-- `ZipWriterOpenInitEntryInfo`; `offset` is the position of the base stream. -/
def zipWriterOpenInitEntryInfo (method : UInt16) (level : Int) (emptyDir : Bool)
    (st : PathStat) (offset : UInt64) (saveName : CString) : ZipWriterEntryInfo where
  versionMadeBy := ZIP_VERSION_MADEBY
  flag := zipGetFlag method level |||
    (if isUtf8Encoded saveName.bytes false then ZIP_FLAG_UTF8 else 0)
  compressionMethod := if emptyDir then OH_ARCHIVE_NO_COMPRESSION else method
  crc := 0
  compressedSize := 0
  uncompressedSize := if emptyDir then 0 else st.size
  diskNumber := 0
  localHeaderOffset := offset
  internalFa := 0
  externalFa := getFileExternalAttributes st
  filename := saveName
  dosModDateTime := st.dosModDateTime
  zip64 := needZip64 st.size
  zip64extraInLocalHeaderPos := 0

/-- `ZipWriteFileName`. -/
def zipWriteFileName (stream : ByteFile) (filename : CString) (filenameLength : UInt16) :
    Except ArchiveErr ByteFile :=
  if filenameLength > 0 then streamWrite stream (filename.bytes.take filenameLength.toNat)
  else .ok stream

/-- The header field: an encrypted entry would carry the AES pseudo method. -/
def headerMethod (e : ZipWriterEntryInfo) : UInt16 :=
  if e.flag &&& ZIP_FLAG_ENCRYPTED ≠ 0 then ARCHIVE_WZAES_COMPRESS_METHOD
  else e.compressionMethod

/-- The record of `ZipEntryWriteLocalHeader`. -/
def localFileHeader (e : ZipWriterEntryInfo) : LocalFileHeader where
  signature := ZIP_MAGIC_LOCALHEADER
  versionNeeded := if e.zip64 then ZIP_VERSION_45 else ZIP_VERSION_20
  flag := e.flag
  compressionMethod := headerMethod e
  dosModDateTime := e.dosModDateTime
  crc32 := e.crc
  compressedSize := clampU32 e.compressedSize
  uncompressedSize := clampU32 e.uncompressedSize
  fileNameLength := e.filenameSize
  extraFieldLength := if e.zip64 then 20 else 0

/-- `struct LocalExtraDataZIP64`. -/
def localExtraDataZIP64 (e : ZipWriterEntryInfo) : List UInt8 :=
  putU16 ZIP_EXTRAFIELD_ZIP64_HEADER ++ (putU16 ZIP_LOCAL_EXTRAFILED_ZIP64_LENGTH ++
    (putU64 e.uncompressedSize ++ putU64 e.compressedSize))

/-- `ZipEntryWriteLocalHeader` with `ZipWriterDataDesiptorZip64LocalHeader`, which records
where the zip64 extra field starts. -/
def zipEntryWriteLocalHeader (stream : ByteFile) (e : ZipWriterEntryInfo) :
    Except ArchiveErr (ByteFile × ZipWriterEntryInfo) := do
  let stream ← streamWrite stream (localFileHeader e).toBytes
  let stream ← zipWriteFileName stream e.filename e.filenameSize
  if e.zip64 then
    let e := { e with zip64extraInLocalHeaderPos := UInt64.ofNat (streamTell stream) }
    let stream ← streamWrite stream (localExtraDataZIP64 e)
    return (stream, e)
  else
    return (stream, e)

/-- `GetCdExtraFieldZip64DataSize`. -/
def getCdExtraFieldZip64DataSize (e : ZipWriterEntryInfo) : UInt16 :=
  (if e.uncompressedSize > UINT32_MAX.toUInt64 then 8 else 0) +
  (if e.compressedSize > UINT32_MAX.toUInt64 then 8 else 0) +
  (if e.localHeaderOffset > UINT32_MAX.toUInt64 then 8 else 0)

/-- The record of `ZipWritePartCentralDirHeader`, behind its signature. -/
def centralDirHeader (e : ZipWriterEntryInfo) (zip64ExtraFieldDataSize : UInt16) :
    ReadCentralDirHeader where
  versionMadeBy := e.versionMadeBy
  versionNeeded := if zip64ExtraFieldDataSize > 0 then ZIP_VERSION_45 else ZIP_VERSION_20
  flag := e.flag
  compressionMethod := headerMethod e
  dosModDateTime := e.dosModDateTime
  crc32 := e.crc
  compressedSize := clampU32 e.compressedSize
  uncompressedSize := clampU32 e.uncompressedSize
  fileNameLength := e.filenameSize
  extraFieldLength := if zip64ExtraFieldDataSize > 0 then 4 + zip64ExtraFieldDataSize else 0
  fileCommentLength := 0
  diskNumberStart := e.diskNumber.toUInt16
  internalFileAttr := e.internalFa
  externalFileAttr := e.externalFa
  relativeOffsetOfLocalHeader := clampU32 e.localHeaderOffset

/-- `ZipWritePartCentralDirHeader`. -/
def zipWritePartCentralDirHeader (stream : ByteFile) (e : ZipWriterEntryInfo)
    (zip64ExtraFieldDataSize : UInt16) : Except ArchiveErr ByteFile :=
  streamWrite stream (putU32 ZIP_MAGIC_CENTRALHEADER ++
    (centralDirHeader e zip64ExtraFieldDataSize).toBytes)

/-- One value of the positional zip64 extra field, present only when it does not fit. -/
def zip64Value (value : UInt64) : List UInt8 :=
  if value > UINT32_MAX.toUInt64 then putU64 value else []

/-- `StreamWriteUint64` of a value that needs the zip64 extra field. -/
def writeZip64Value (stream : ByteFile) (value : UInt64) : Except ArchiveErr ByteFile :=
  if value > UINT32_MAX.toUInt64 then streamWrite stream (putU64 value) else .ok stream

/-- `ZipWriteExtraFieldZip64Cd`. -/
def zipWriteExtraFieldZip64Cd (stream : ByteFile) (e : ZipWriterEntryInfo)
    (zip64ExtraFieldDataSize : UInt16) : Except ArchiveErr ByteFile := do
  if zip64ExtraFieldDataSize = 0 then
    return stream
  let stream ← streamWrite stream
    (putU16 ZIP_EXTRAFIELD_ZIP64_HEADER ++ putU16 zip64ExtraFieldDataSize)
  let stream ← writeZip64Value stream e.uncompressedSize
  let stream ← writeZip64Value stream e.compressedSize
  let stream ← writeZip64Value stream e.localHeaderOffset
  if getCdExtraFieldZip64DataSize e ≠ zip64ExtraFieldDataSize then
    throw .writeError
  return stream

/-- `ZipEntryWriteCdHeader`. -/
def zipEntryWriteCdHeader (stream : ByteFile) (e : ZipWriterEntryInfo) :
    Except ArchiveErr ByteFile := do
  let size := getCdExtraFieldZip64DataSize e
  let stream ← zipWritePartCentralDirHeader stream e size
  let stream ← zipWriteFileName stream e.filename e.filenameSize
  if size > 0 then zipWriteExtraFieldZip64Cd stream e size else return stream

def CRC_POS_IN_LOCAL_HEADER : Nat := 14

/-- `ZipEntryUpdateLocalHeader` with `inCache = 0`: patch CRC and sizes, restore the
position. -/
def zipEntryUpdateLocalHeader (stream : ByteFile) (e : ZipWriterEntryInfo) :
    Except ArchiveErr ByteFile := do
  let currentPos := streamTell stream
  let stream ← streamSeek stream (toInt64 e.localHeaderOffset + CRC_POS_IN_LOCAL_HEADER) .set
  let stream ← streamWrite stream (putU32 e.crc)
  if (e.compressedSize > UINT32_MAX.toUInt64 ∨ e.uncompressedSize > UINT32_MAX.toUInt64) ∧
      !e.zip64 then
    throw .paramError
  let stream ← streamWrite stream (putU32 (clampU32 e.compressedSize))
  let stream ← streamWrite stream (putU32 (clampU32 e.uncompressedSize))
  let stream ←
    if e.zip64 ∧ e.zip64extraInLocalHeaderPos > 0 then do
      let stream ← streamSeek stream
        (toInt64 (e.zip64extraInLocalHeaderPos + EXTRA_FIELD_HEADER_BYTES.toUInt64)) .set
      let stream ← streamWrite stream (putU64 e.uncompressedSize)
      streamWrite stream (putU64 e.compressedSize)
    else pure stream
  streamSeek stream currentPos .set

end FileApi.Compress.Zip
