import FileApi.Compress.Stream.File
import FileApi.Compress.Zip.Format

/-!
# Opening an archive

`zip_reader_impl.c:31-218` and `zip_reader.c:429-496`: the end-of-central-directory record is
searched backwards from the end of the file, the zip64 record is followed when a field of the
classic one holds its all-ones value, and the position of the central directory is checked.
-/

namespace FileApi.Compress.Zip

/-- `GetLittleEndianValue(buf + pos, bytes)`. -/
def getLittleEndianValue (buffer : List UInt8) (pos bytes : Nat) : Nat :=
  leValue ((buffer.drop pos).take bytes)

/-- `ZipCheckSignature`: the next four bytes, and the stream behind them. -/
def zipCheckSignature (stream : ByteFile) (check : UInt32) : Except ArchiveErr Unit :=
  let sigRead := (streamRead stream ZIP_SIZE_SIGNATURE).1
  if sigRead.length ≠ ZIP_SIZE_SIGNATURE then .error .internalError
  else if leValue sigRead ≠ check.toNat then .error .formatError
  else .ok ()

/-- `ZipReadEOCD`. -/
def zipReadEOCD (buffer : List UInt8) (pos : Nat) : Except ArchiveErr EndOfCentralDir :=
  let eocd := EndOfCentralDir.ofBytes (buffer.drop pos)
  if eocd.totalNumberOfEntriesOnThisDisk ≠ eocd.totalNumberOfEntries then .error .formatError
  else .ok eocd

/-- The zeroed record `calloc` left in the reader. -/
def zeroEOCD64 : EndOfCentralDir64 := ⟨0, 0, 0, 0, 0, 0, 0, 0, 0, 0⟩

/-- `ZipReadEOCD64`. -/
def zipReadEOCD64 (stream : ByteFile) (buffer : List UInt8) (pos : Nat) :
    Except ArchiveErr (EndOfCentralDir64 × UInt64) := do
  let offsetOfEOCD64 := (EndOfCentralDirLocator64.ofBytes (buffer.drop pos)).offsetOfEOCD64
  let stream ← streamSeek stream (toInt64 offsetOfEOCD64) .set
  let read := (streamRead stream 56).1
  let eocd64 := EndOfCentralDir64.ofBytes read
  if read.length ≠ 56 then .error .formatError
  else if eocd64.signature ≠ ZIP_MAGIC_ENDHEADER64 then .error .formatError
  else if eocd64.totalNumberOfEntriesOnThisDisk ≠ eocd64.totalNumberOfEntries then
    .error .formatError
  else .ok (eocd64, offsetOfEOCD64)

/-- `ZipSearchEOCD64`: without a locator the record stays zeroed, and that is no error. -/
def zipSearchEOCD64 (stream : ByteFile) (buffer : List UInt8) (cur : Nat) :
    Except ArchiveErr (EndOfCentralDir64 × UInt64) :=
  if cur < ZIP_SIZE_CD_LOCATOR64 then .error .formatError
  else if getLittleEndianValue buffer (cur - ZIP_SIZE_CD_LOCATOR64) ZIP_SIZE_SIGNATURE =
      ZIP_MAGIC_ENDLOCHEADER64.toNat then
    zipReadEOCD64 stream buffer (cur - ZIP_SIZE_CD_LOCATOR64)
  else .ok (zeroEOCD64, 0)

/-- What `ZipSearchEOCD` fills in. -/
structure EocdInfo where
  eocd : EndOfCentralDir
  offsetOfEOCD : UInt64
  eocd64 : EndOfCentralDir64
  offsetOfEOCD64 : UInt64
  isZip64 : Bool
  deriving DecidableEq

/-- The loop of `ZipSearchEOCDFromback`. The cursor falls by one to four bytes a turn, so
`cur + 1` turns are enough; `none` as cursor is the negative one that ends the loop. -/
def zipSearchEOCDFromback (stream : ByteFile) (buffer : List UInt8) (maxRead fileSize : Nat) :
    Nat → Option Nat → Except ArchiveErr EocdInfo
  | _, none => .error .formatError
  | 0, some _ => .error .formatError
  | fuel + 1, some cur =>
      let back (n : Nat) := if n ≤ cur then some (cur - n) else none
      match buffer.getD cur 0 with
      | 0x50 =>
          if getLittleEndianValue buffer cur ZIP_SIZE_SIGNATURE ≠ ZIP_MAGIC_ENDHEADER.toNat then
            zipSearchEOCDFromback stream buffer maxRead fileSize fuel (back 4)
          else do
            let eocd ← zipReadEOCD buffer cur
            let offsetOfEOCD := UInt64.ofNat (fileSize - (maxRead - cur))
            if eocd.totalNumberOfEntries ≠ UINT16_MAX ∧ eocd.offsetOfCentralDir ≠ UINT32_MAX then
              return ⟨eocd, offsetOfEOCD, zeroEOCD64, 0, false⟩
            else
              let (eocd64, offsetOfEOCD64) ← zipSearchEOCD64 stream buffer cur
              return ⟨eocd, offsetOfEOCD, eocd64, offsetOfEOCD64, true⟩
      | 0x4b => zipSearchEOCDFromback stream buffer maxRead fileSize fuel (back 1)
      | 0x05 => zipSearchEOCDFromback stream buffer maxRead fileSize fuel (back 2)
      | 0x06 => zipSearchEOCDFromback stream buffer maxRead fileSize fuel (back 3)
      | _ => zipSearchEOCDFromback stream buffer maxRead fileSize fuel (back 4)

/-- `ZipSearchEOCD` over the last `min(fileSize, 65535 + 22 + 20)` bytes. -/
def zipSearchEOCD (stream : ByteFile) : Except ArchiveErr EocdInfo := do
  let stream ← streamSeek stream 0 .fromEnd
  let fileSize := streamTell stream
  let maxRead :=
    min fileSize (ZIP_SIZE_MAX_GLOBAL_COMMENT + ZIP_SIZE_EOCD_FIXED + ZIP_SIZE_CD_LOCATOR64)
  let stream ← streamSeek stream (-(maxRead : Int)) .fromEnd
  let (buffer, stream) := streamRead stream maxRead
  let cur := if ZIP_SIZE_EOCD_FIXED ≤ maxRead then some (maxRead - ZIP_SIZE_EOCD_FIXED) else none
  zipSearchEOCDFromback stream buffer maxRead fileSize (maxRead + 1) cur

/-- Offset, size and correction of the central directory. -/
structure CentralDirPlace where
  offsetOfCentralDir : UInt64
  sizeOfCentralDir : UInt64
  offsetCorrection : Int
  deriving DecidableEq

/-- The correction in `ZipCheckAndCorrectCentralDirOffset`, with the stream at the offset the
end record gives. -/
def zipCorrectCentralDir (stream : ByteFile) (offsetOfEOCD : UInt64)
    (isZip64 : Bool) (offsetOfCentralDir sizeOfCentralDir : UInt64) :
    Except ArchiveErr CentralDirPlace :=
  match zipCheckSignature stream ZIP_MAGIC_CENTRALHEADER with
  | .ok () =>
      if offsetOfEOCD < offsetOfCentralDir + sizeOfCentralDir then
        .ok ⟨offsetOfCentralDir, offsetOfEOCD - offsetOfCentralDir, 0⟩
      else .ok ⟨offsetOfCentralDir, sizeOfCentralDir, 0⟩
  | .error _ =>
      if offsetOfEOCD > UINT32_MAX.toUInt64 ∧ isZip64 = false then .error .formatError
      else do
        let corrected := offsetOfEOCD - sizeOfCentralDir
        let stream ← streamSeek stream (toInt64 corrected) .set
        match zipCheckSignature stream ZIP_MAGIC_CENTRALHEADER with
        | .ok () => .ok ⟨corrected, sizeOfCentralDir, toInt64 (corrected - offsetOfCentralDir)⟩
        | .error _ =>
            -- an archive without entries
            if sizeOfCentralDir = 0 then .ok ⟨offsetOfCentralDir, sizeOfCentralDir, 0⟩
            else .error .formatError

/-- `ZipCheckAndCorrectCentralDirOffset`. -/
def zipCheckAndCorrectCentralDirOffset (stream : ByteFile) (offsetOfEOCD : UInt64)
    (isZip64 : Bool) (offsetOfCentralDir sizeOfCentralDir : UInt64) :
    Except ArchiveErr CentralDirPlace := do
  let stream ← streamSeek stream (toInt64 offsetOfCentralDir) .set
  let place ← zipCorrectCentralDir stream offsetOfEOCD isZip64 offsetOfCentralDir sizeOfCentralDir
  if offsetOfEOCD < place.offsetOfCentralDir ∨ place.offsetCorrection < 0 then .error .formatError
  else .ok place

/-- The fields of `struct ZipReader` that opening fills in. -/
structure ZipReader where
  baseStream : ByteFile
  offsetOfEOCD : UInt64
  offsetOfEOCD64 : UInt64
  offsetOfCentralDir : UInt64
  sizeOfCentralDir : UInt64
  offsetCorrection : Int
  isZip64 : Bool
  totalNumberOfEntries : UInt64
  deriving DecidableEq

/-! The numbers `ZipReaderProcessEOCD` and `ZipReaderOpenFile` take from the records in use. -/

def EocdInfo.offsetOfCentralDir (info : EocdInfo) : UInt64 :=
  if info.isZip64 then info.eocd64.offsetOfCentralDir else info.eocd.offsetOfCentralDir.toUInt64

def EocdInfo.sizeOfCentralDir (info : EocdInfo) : UInt64 :=
  if info.isZip64 then info.eocd64.sizeOfCentralDir else info.eocd.sizeOfCentralDir.toUInt64

def EocdInfo.endOfCentralDir (info : EocdInfo) : UInt64 :=
  if info.isZip64 then info.offsetOfEOCD64 else info.offsetOfEOCD

def EocdInfo.totalNumberOfEntries (info : EocdInfo) : UInt64 :=
  if info.isZip64 then info.eocd64.totalNumberOfEntries
  else info.eocd.totalNumberOfEntries.toUInt64

/-- `ZipReaderProcessEOCD` and the rest of `ZipReaderOpenFile` for a file that could be
opened: `archive` holds its bytes. -/
def zipReaderOpenFile (archive : List UInt8) : Except ArchiveErr ZipReader := do
  let info ← zipSearchEOCD ⟨archive, 0⟩
  let place ← zipCheckAndCorrectCentralDirOffset ⟨archive, 0⟩ info.endOfCentralDir info.isZip64
    info.offsetOfCentralDir info.sizeOfCentralDir
  return {
    baseStream := ⟨archive, 0⟩
    offsetOfEOCD := info.offsetOfEOCD
    offsetOfEOCD64 := info.offsetOfEOCD64
    offsetOfCentralDir := place.offsetOfCentralDir
    sizeOfCentralDir := place.sizeOfCentralDir
    offsetCorrection := place.offsetCorrection
    isZip64 := info.isZip64
    totalNumberOfEntries := info.totalNumberOfEntries }

end FileApi.Compress.Zip
