import FileApi.Compress.Zip.NameEncoding
import FileApi.Compress.Zip.ReaderOpen
import FileApi.Misc.Crc32
import FileApi.Misc.CString

/-!
# Reading a central header

`zip_reader.c:212-427` and `zip_reader_impl.c:220-343`: the fixed part, the name and the extra
fields of one entry of the central directory. Numbers that do not fit their 32-bit fields come
from the zip64 extra field, the name may be replaced by the one of the Unicode path field, and
a name that neither carries the UTF-8 flag nor looks like UTF-8 is converted from GBK.

`ConvertStrGBKToUTF8` rests on `iconv`, which is not part of the library: it is the parameter
`convert`, with `none` for a string `iconv` refuses.
-/

namespace FileApi.Compress.Zip

/-- `ZipReadCentralDirHeader`; the stream is left behind the fixed part. -/
def zipReadCentralDirHeader (stream : ByteFile) (position : UInt64) :
    Except ArchiveErr (ReadCentralDirHeader × ByteFile) := do
  let stream ← streamSeek stream (toInt64 position) .set
  let (signature, stream) := streamRead stream ZIP_SIZE_SIGNATURE
  if signature.length ≠ ZIP_SIZE_SIGNATURE then .error .formatError
  else if leValue signature ≠ ZIP_MAGIC_CENTRALHEADER.toNat then
    if leValue signature = ZIP_MAGIC_ENDHEADER.toNat ∨
        leValue signature = ZIP_MAGIC_ENDHEADER64.toNat then .error .endOfList
    else .error .formatError
  else
    let (header, stream) := streamRead stream 42
    if header.length ≠ 42 then .error .formatError
    else .ok (ReadCentralDirHeader.ofBytes header, stream)

/-- `struct ReadZip64ExtraField`. -/
structure ReadZip64ExtraField where
  uncompressedSize : UInt64
  compressedSize : UInt64
  relativeOffsetOfLocalHeader : UInt64
  diskNumberStart : UInt32
  deriving DecidableEq

/-- One number of the positional field: it is there when the header field is all ones. -/
def readZip64Value (extraField : List UInt8) (cur pos : Nat) (value : UInt64) : UInt64 × Nat :=
  if value = UINT32_MAX.toUInt64 then
    (UInt64.ofNat (getLittleEndianValue extraField (cur + pos) 8), pos + 8)
  else (value, pos)

/-- `ZipReadZip64ExtraField`. -/
def zipReadZip64ExtraField (extraField : List UInt8) (cur dataSize : Nat)
    (field : ReadZip64ExtraField) : ReadZip64ExtraField :=
  if 8 > dataSize then field
  else
    let (uncompressedSize, pos) := readZip64Value extraField cur 0 field.uncompressedSize
    let field := { field with uncompressedSize }
    if pos + 8 > dataSize then field
    else
      let (compressedSize, pos) := readZip64Value extraField cur pos field.compressedSize
      let field := { field with compressedSize }
      if pos + 8 > dataSize then field
      else
        let (relativeOffsetOfLocalHeader, pos) :=
          readZip64Value extraField cur pos field.relativeOffsetOfLocalHeader
        let field := { field with relativeOffsetOfLocalHeader }
        if pos + 4 > dataSize then field
        else if field.diskNumberStart = UINT16_MAX.toUInt32 then
          { field with
            diskNumberStart := UInt32.ofNat (getLittleEndianValue extraField (cur + pos) 4) }
        else field

/-- The part of `struct ZipReaderEntryInfo` that decides what is extracted; `entryName` is the
character buffer, terminator included. -/
structure ZipReaderEntryInfo where
  uncompressedSize : UInt64
  compressedSize : UInt64
  relativeOffsetOfLocalHeader : UInt64
  diskNumberStart : UInt32
  compressionMethod : UInt16
  isEncrypted : Bool
  useUnicodePath : Bool
  entryName : List UInt8
  deriving DecidableEq

/-- The current entry: its central header and what was derived from it. -/
structure ZipReaderEntry where
  centralDirHeader : ReadCentralDirHeader
  entryInfo : ZipReaderEntryInfo
  deriving DecidableEq

/-- The string in the name buffer. -/
def ZipReaderEntryInfo.name (info : ZipReaderEntryInfo) : List UInt8 := cstr info.entryName

/-- `ZipReaderProcessZip64ExtraField`. -/
def zipReaderProcessZip64ExtraField (entry : ZipReaderEntry) (extraField : List UInt8)
    (cur dataSize : Nat) : ZipReaderEntry :=
  let field := zipReadZip64ExtraField extraField cur dataSize
    { uncompressedSize := entry.centralDirHeader.uncompressedSize.toUInt64
      compressedSize := entry.centralDirHeader.compressedSize.toUInt64
      relativeOffsetOfLocalHeader := entry.centralDirHeader.relativeOffsetOfLocalHeader.toUInt64
      diskNumberStart := entry.centralDirHeader.diskNumberStart.toUInt32 }
  { entry with entryInfo := { entry.entryInfo with
      uncompressedSize := field.uncompressedSize
      compressedSize := field.compressedSize
      relativeOffsetOfLocalHeader := field.relativeOffsetOfLocalHeader
      diskNumberStart := field.diskNumberStart } }

/-- Overwrite the front of a buffer by a string and its terminator. -/
def putString (buffer bytes : List UInt8) : List UInt8 :=
  bytes ++ [0] ++ buffer.drop (bytes.length + 1)

/-- `ZipReadUnicodePathExtraField`. -/
def zipReadUnicodePathExtraField (extraField : List UInt8) (cur dataSize : Nat)
    (fileName : List UInt8) (filenameSize : Nat) : Except ArchiveErr (List UInt8) :=
  if getLittleEndianValue extraField cur 1 ≠ 1 then .error .formatError
  else if getLittleEndianValue extraField (cur + 1) 4 ≠
      (crc32 0 (fileName.take filenameSize)).toNat then .error .crcError
  else if dataSize - 5 > ZIP_FILE_NAME_LEN_MAX then .error .memError
  else .ok (putString fileName ((extraField.drop (cur + 5)).take (dataSize - 5)))

/-- `(uint16_t)min(fileNameLength, ZIP_FILE_NAME_LEN_MAX)`. -/
def readNameLen (header : ReadCentralDirHeader) : Nat :=
  min header.fileNameLength.toNat ZIP_FILE_NAME_LEN_MAX

/-- One extra field of `ZipReaderProcessExtraField`; the strong encryption header is copied
into a field that nothing reads. -/
def zipReaderProcessOneExtraField (entry : ZipReaderEntry) (extraField : List UInt8)
    (headerID cur dataSize : Nat) : Except ArchiveErr ZipReaderEntry :=
  match headerID with
  | 0x0001 => .ok (zipReaderProcessZip64ExtraField entry extraField cur dataSize)
  | 0x0017 => if dataSize < 8 then .error .readError else .ok entry
  | 0x7075 =>
      if dataSize < EXTRA_FIELD_UNICODE_PATH_MIN_LEN then .ok entry
      else do
        let entryName ← zipReadUnicodePathExtraField extraField cur dataSize
          entry.entryInfo.entryName (readNameLen entry.centralDirHeader)
        return { entry with entryInfo := { entry.entryInfo with entryName, useUnicodePath := true } }
  | _ => .ok entry

/-- The loop of `ZipReaderProcessExtraField`. Every turn moves four bytes on, so `fuel` turns
are enough for an extra field of `4 * fuel` bytes. -/
def zipReaderProcessExtraField (extraField : List UInt8) :
    Nat → Nat → ZipReaderEntry → Except ArchiveErr ZipReaderEntry
  | 0, _, entry => .ok entry
  | fuel + 1, cur, entry =>
      if cur + EXTRA_FIELD_HEADER_BYTES ≤ extraField.length then do
        let headerID := getLittleEndianValue extraField cur 2
        let dataSize := getLittleEndianValue extraField (cur + 2) 2
        let cur := cur + EXTRA_FIELD_HEADER_BYTES
        let dataSize := min dataSize (extraField.length - cur)
        let entry ← zipReaderProcessOneExtraField entry extraField headerID cur dataSize
        zipReaderProcessExtraField extraField fuel (cur + dataSize) entry
      else .ok entry

/-- `ZipReaderProcessCentralDirHeader` behind the read of the header. -/
def zipReaderInitEntry (header : ReadCentralDirHeader) : ZipReaderEntry where
  centralDirHeader := header
  entryInfo := {
    uncompressedSize := header.uncompressedSize.toUInt64
    compressedSize := header.compressedSize.toUInt64
    relativeOffsetOfLocalHeader := header.relativeOffsetOfLocalHeader.toUInt64
    diskNumberStart := header.diskNumberStart.toUInt32
    compressionMethod := header.compressionMethod
    isEncrypted := header.flag &&& ZIP_FLAG_ENCRYPTED ≠ 0
    useUnicodePath := false
    entryName := [] }

/-- `ZipReaderConvertFileNameEncoding`. `strncpy_s` refuses a string that does not fit. -/
def zipReaderConvertFileNameEncoding (convert : List UInt8 → Option CString)
    (entryName : List UInt8) (fileNameLen : Nat) : Except ArchiveErr (List UInt8) :=
  if isUTF8Str (cstr entryName) then .ok entryName
  else match convert (cstr entryName) with
    | none => .ok entryName
    | some utf8Name =>
        if min (fileNameLen * 4 + 1) ZIP_FILE_NAME_LEN_MAX ≤ utf8Name.bytes.length then
          .error .internalError
        else .ok (putString entryName utf8Name.bytes)

/-- `ZIP_HOST_SYSTEM`. -/
def zipHostSystem (versionMadeBy : UInt16) : UInt16 := versionMadeBy >>> 8

/-- `ZipReaderConvertPathSlash`: backslashes of FAT, HPFS, NTFS and VFAT archives. -/
def zipReaderConvertPathSlash (header : ReadCentralDirHeader) (entryName : List UInt8) :
    List UInt8 :=
  if zipHostSystem header.versionMadeBy ∈ [0, 6, 11, 14] then
    (cstr entryName).map (fun b => if b = 0x5c then 0x2f else b) ++ [0]
  else entryName

/-- `ZipReadExtraFieldBuffer`. -/
def zipReadExtraFieldBuffer (stream : ByteFile) (extraFieldPos : UInt64) (extraFieldLength : Nat) :
    Except ArchiveErr (List UInt8) :=
  if extraFieldLength = 0 then .ok []
  else do
    let stream ← streamSeek stream (toInt64 extraFieldPos) .set
    let extraField := (streamRead stream extraFieldLength).1
    if extraField.length ≠ extraFieldLength then .error .readError else .ok extraField

/-- The encoding step of `ZipReaderGoToCentralDirHeader`. -/
def zipReaderNameEncoding (convert : List UInt8 → Option CString) (entry : ZipReaderEntry) :
    Except ArchiveErr (List UInt8) :=
  if entry.entryInfo.useUnicodePath = false ∧
      entry.centralDirHeader.flag &&& ZIP_FLAG_UTF8 = 0 then
    zipReaderConvertFileNameEncoding convert entry.entryInfo.entryName
      (readNameLen entry.centralDirHeader)
  else .ok entry.entryInfo.entryName

/-- `ZipReaderGoToCentralDirHeader`. -/
def zipReaderGoToCentralDirHeader (convert : List UInt8 → Option CString)
    (reader : ZipReader) (offset : UInt64) : Except ArchiveErr ZipReaderEntry :=
  if offset ≥ reader.offsetOfCentralDir + reader.sizeOfCentralDir then .error .endOfList
  else do
    let (header, stream) ← zipReadCentralDirHeader reader.baseStream offset
    let fileNameLen := readNameLen header
    let fileName := (streamRead stream fileNameLen).1
    if fileName.length ≠ fileNameLen then .error .readError
    else do
      let extraField ← zipReadExtraFieldBuffer reader.baseStream
        (offset + 46 + header.fileNameLength.toUInt64) header.extraFieldLength.toNat
      let entry := zipReaderInitEntry header
      let entry ← zipReaderProcessExtraField extraField extraField.length 0
        { entry with entryInfo := { entry.entryInfo with entryName := fileName ++ [0] } }
      let entryName ← zipReaderNameEncoding convert entry
      return { entry with entryInfo := { entry.entryInfo with
        entryName := zipReaderConvertPathSlash header entryName } }

end FileApi.Compress.Zip
