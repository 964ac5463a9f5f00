import FileApi.Compress.Os
import FileApi.Compress.Zip.ReaderEntry
import FileApi.Misc.BoundedBuffer

/-!
# The memory that extra fields touch

The parser of the extra fields (`zip_reader.c:212-287`, `zip_reader_impl.c:220-294`) as in
`ReaderEntry`, with the 16 bits of its cursor, the arrays it writes to, and a record of what it
reads and writes. `memcpy_s` clears a destination that is too small.
-/

namespace FileApi.Compress.Zip.ExtraField

open Program

/-- The extra field, `char entryName[ZIP_FILE_NAME_LEN_MAX + 1]`, and the encryption header. -/
inductive Region where
  | extraField | entryName | strongEncryptHeader
  deriving DecidableEq

/-- What is read or written. -/
structure Access where
  region : Region
  write : Bool
  pos : Nat
  len : Nat
  deriving DecidableEq

/-- An extra field: the cursor at its header, its size as far as it is there, what the loop reads of
the header, and what its parser touches. -/
structure ExtraRecord where
  pos : UInt16
  dataSize : UInt16 := 0
  header : List Access := []
  accesses : List Access := []
  deriving DecidableEq

/-- `struct ZipReaderExtractContext`, and the records so far, the last one first. -/
structure ExtractContext where
  entry : ZipReaderEntry
  strongEncryptHeader : List UInt8
  records : List ExtraRecord := []
  deriving DecidableEq

namespace ExtractContext

/-- Change the record that is being read. -/
def record (f : ExtraRecord → ExtraRecord) (c : ExtractContext) : ExtractContext :=
  { c with records := match c.records with
      | [] => []
      | r :: rs => f r :: rs }

def touch (a : Access) : ExtractContext → ExtractContext :=
  record fun r => { r with accesses := r.accesses ++ [a] }

def touchHeader (a : Access) : ExtractContext → ExtractContext :=
  record fun r => { r with header := r.header ++ [a] }

def setEntryName (entryName : List UInt8) (c : ExtractContext) : ExtractContext :=
  { c with entry := { c.entry with entryInfo := { c.entry.entryInfo with entryName } } }

end ExtractContext

section

variable (extraField : List UInt8)

/-- `GetLittleEndianValue` of the record that is being read. -/
def getValue (pos len : Nat) : Run ExtractContext Nat :=
  call fun c => (getLittleEndianValue extraField pos len, c.touch ⟨.extraField, false, pos, len⟩)

/-- `GetLittleEndianValue` of a header. -/
def getHeaderValue (pos len : Nat) : Run ExtractContext Nat :=
  call fun c =>
    (getLittleEndianValue extraField pos len, c.touchHeader ⟨.extraField, false, pos, len⟩)

/-- Some bytes into the name. -/
def writeName (pos : Nat) (bytes : List UInt8) : Run ExtractContext Unit :=
  call fun c => ((), (c.touch ⟨.entryName, true, pos, bytes.length⟩).setEntryName
    (splice c.entry.entryInfo.entryName pos bytes))

/-- `crc32` of the name. -/
def crcName (filenameSize : Nat) : Run ExtractContext UInt32 :=
  call fun c => (crc32 0 (c.entry.entryInfo.entryName.take filenameSize),
    c.touch ⟨.entryName, false, 0, filenameSize⟩)

/-- `memcpy_s` into the name: whether it returns `EOK`. -/
def memcpyName (pos count : Nat) : Run ExtractContext Bool :=
  if ZIP_FILE_NAME_LEN_MAX < count then do
    writeName 0 (List.replicate ZIP_FILE_NAME_LEN_MAX 0)
    return false
  else do
    let bytes ← call fun c =>
      ((extraField.drop pos).take count, c.touch ⟨.extraField, false, pos, count⟩)
    writeName 0 bytes
    return true

/-- One number of `ZipReadZip64ExtraField`: it is there when the header field is all ones. -/
def readZip64Value (cur pos : UInt16) (value : UInt64) : Run ExtractContext (UInt64 × UInt16) :=
  if value = UINT32_MAX.toUInt64 then do
    let value ← getValue extraField (cur.toNat + pos.toNat) 8
    return (UInt64.ofNat value, pos + 8)
  else pure (value, pos)

/-- `ZipReadZip64ExtraField`. -/
def zipReadZip64ExtraField (cur dataSize : UInt16) (field : ReadZip64ExtraField) :
    Run ExtractContext ReadZip64ExtraField :=
  if (0 : UInt16).toNat + 8 > dataSize.toNat then pure field
  else do
    let (uncompressedSize, pos) ← readZip64Value extraField cur 0 field.uncompressedSize
    let field := { field with uncompressedSize }
    if pos.toNat + 8 > dataSize.toNat then return field
    else
      let (compressedSize, pos) ← readZip64Value extraField cur pos field.compressedSize
      let field := { field with compressedSize }
      if pos.toNat + 8 > dataSize.toNat then return field
      else
        let (relativeOffsetOfLocalHeader, pos) ←
          readZip64Value extraField cur pos field.relativeOffsetOfLocalHeader
        let field := { field with relativeOffsetOfLocalHeader }
        if pos.toNat + 4 > dataSize.toNat then return field
        else if field.diskNumberStart = UINT16_MAX.toUInt32 then
          let value ← getValue extraField (cur.toNat + pos.toNat) 4
          return { field with diskNumberStart := UInt32.ofNat value }
        else return field

/-- `ZipReaderProcessZip64ExtraField`. -/
def zipReaderProcessZip64ExtraField (cur dataSize : UInt16) : Run ExtractContext Unit := do
  let header ← call fun c : ExtractContext => (c.entry.centralDirHeader, c)
  let field ← zipReadZip64ExtraField extraField cur dataSize
    { uncompressedSize := header.uncompressedSize.toUInt64
      compressedSize := header.compressedSize.toUInt64
      relativeOffsetOfLocalHeader := header.relativeOffsetOfLocalHeader.toUInt64
      diskNumberStart := header.diskNumberStart.toUInt32 }
  call fun c => ((), { c with entry := { c.entry with entryInfo := { c.entry.entryInfo with
    uncompressedSize := field.uncompressedSize
    compressedSize := field.compressedSize
    relativeOffsetOfLocalHeader := field.relativeOffsetOfLocalHeader
    diskNumberStart := field.diskNumberStart } } })

/-- `sizeof(struct StrongEncryptionExtraFields)` and `sizeof(struct StrongEncryptionHeader)`. -/
def strongEncryptionExtraFieldsSize : Nat := 8
def strongEncryptionHeaderSize : Nat := 12

/-- Some bytes into the encryption header. -/
def writeHeader (pos : Nat) (bytes : List UInt8) : Run ExtractContext Unit :=
  call fun c => ((), { c.touch ⟨.strongEncryptHeader, true, pos, bytes.length⟩ with
    strongEncryptHeader := splice c.strongEncryptHeader pos bytes })

/-- `ZipReaderProcessStrongEncryptExtraField`. -/
def zipReaderProcessStrongEncryptExtraField (cur dataSize : UInt16) : Run ExtractContext Unit :=
  if dataSize.toNat < strongEncryptionExtraFieldsSize then throw (.error .readError)
  else do
    let bytes ← call fun c : ExtractContext =>
      ((extraField.drop cur.toNat).take strongEncryptionExtraFieldsSize,
        c.touch ⟨.extraField, false, cur.toNat, strongEncryptionExtraFieldsSize⟩)
    writeHeader EXTRA_FIELD_HEADER_BYTES bytes
    writeHeader 0 (putU16 0x0017)
    writeHeader 2 (putU16 dataSize)

/-- `ZipReadUnicodePathExtraField`. -/
def zipReadUnicodePathExtraField (cur dataSize : UInt16) (filenameSize : Nat) :
    Run ExtractContext Unit := do
  let version ← getValue extraField cur.toNat 1
  if version ≠ 1 then throw (.error .formatError)
  let pos : UInt16 := 0 + 1
  let fileNameCrc ← getValue extraField (cur.toNat + pos.toNat) 4
  let crc ← crcName filenameSize
  if fileNameCrc ≠ crc.toNat then throw (.error .crcError)
  let pos := pos + 4
  let fileNameSize := dataSize - pos
  let ok ← memcpyName extraField (cur.toNat + pos.toNat) fileNameSize.toNat
  writeName (min fileNameSize.toNat ZIP_FILE_NAME_LEN_MAX) [0]
  if ¬ ok then throw (.error .memError)

/-- The switch of `ZipReaderProcessExtraField`. -/
def zipReaderProcessOneExtraField (headerID : Nat) (cur dataSize : UInt16) :
    Run ExtractContext Unit :=
  match headerID with
  | 0x0001 => zipReaderProcessZip64ExtraField extraField cur dataSize
  | 0x0017 => zipReaderProcessStrongEncryptExtraField extraField cur dataSize
  | 0x7075 =>
      if dataSize.toNat < EXTRA_FIELD_UNICODE_PATH_MIN_LEN then pure ()
      else do
        let fileNameSize ← call fun c : ExtractContext => (readNameLen c.entry.centralDirHeader, c)
        zipReadUnicodePathExtraField extraField cur dataSize fileNameSize
        call fun c => ((), { c with entry := { c.entry with
          entryInfo := { c.entry.entryInfo with useUnicodePath := true } } })
  | _ => pure ()

/-- The loop of `ZipReaderProcessExtraField`; it stops where `fuel` turns are not enough. -/
def zipReaderProcessExtraField (extraFieldLength : UInt16) : Nat → UInt16 → Run ExtractContext Unit
  | 0, cur =>
      if cur.toNat + EXTRA_FIELD_HEADER_BYTES ≤ extraFieldLength.toNat then throw .fuel else pure ()
  | fuel + 1, cur =>
      if cur.toNat + EXTRA_FIELD_HEADER_BYTES ≤ extraFieldLength.toNat then do
        call fun c => ((), { c with records := { pos := cur } :: c.records })
        let headerID ← getHeaderValue extraField cur.toNat 2
        let dataSize ← getHeaderValue extraField (cur.toNat + 2) 2
        let cur := cur + UInt16.ofNat EXTRA_FIELD_HEADER_BYTES
        let dataSize := UInt16.ofNat
          (if dataSize > extraFieldLength.toNat - cur.toNat then
            extraFieldLength.toNat - cur.toNat else dataSize)
        call fun c => ((), c.record fun r => { r with dataSize })
        zipReaderProcessOneExtraField extraField headerID cur dataSize
        zipReaderProcessExtraField extraFieldLength fuel (cur + dataSize)
      else pure ()

end

end FileApi.Compress.Zip.ExtraField
