import FileApi.Misc.LittleEndian

/-!
# The ZIP records

The packed records of `frameworks/format/zip/zip_format.h` and `zip_read_format.h` on a
little-endian machine, where `GETV` and `SETV` are the identity: `toBytes` is what
`StreamWrite(stream, &record, sizeof(record))` emits and `ofBytes` what `memcpy_s` or
`StreamRead` into the record reads. The reader keeps the central header without its
signature (`ReadCentralDirHeader`), which it checks first.
-/

namespace FileApi.Compress.Zip

/-! `zip_format.h:24-121` and `archive_macros.h:47-48`. -/

def ZIP_FLAG_ENCRYPTED : UInt16 := 0x0001
def ZIP_FLAG_DEFLATE_MAX : UInt16 := 0x0002
def ZIP_FLAG_DEFLATE_SUPER_FAST : UInt16 := 0x0006
def ZIP_FLAG_DATA_DESCRIPTOR : UInt16 := 0x0008
def ZIP_FLAG_UTF8 : UInt16 := 0x0800

def ZIP_MAGIC_LOCALHEADER : UInt32 := 0x04034b50
def ZIP_MAGIC_CENTRALHEADER : UInt32 := 0x02014b50
def ZIP_MAGIC_ENDHEADER : UInt32 := 0x06054b50
def ZIP_MAGIC_ENDHEADER64 : UInt32 := 0x06064b50
def ZIP_MAGIC_ENDLOCHEADER64 : UInt32 := 0x07064b50

def ZIP_SIZE_CD_ITEM : Nat := 46
def ZIP_SIZE_CD_LOCATOR64 : Nat := 20
def ZIP_SIZE_EOCD_FIXED : Nat := 22
def ZIP_SIZE_SIGNATURE : Nat := 4
def ZIP_SIZE_MAX_GLOBAL_COMMENT : Nat := 0xFFFF

def ZIP_EXTRAFIELD_ZIP64_HEADER : UInt16 := 0x0001
def ZIP_LOCAL_EXTRAFILED_ZIP64_LENGTH : UInt16 := 16
def ZIP_END_OF_CD64_SIZE : UInt64 := 44
def ZIP_VERSION_20 : UInt16 := 20
def ZIP_VERSION_45 : UInt16 := 45
/-- `(ZIP_HOST_SYSTEM_UNIX << 8) | 45`. -/
def ZIP_VERSION_MADEBY : UInt16 := 0x032d

def EXTRA_FIELD_HEADER_BYTES : Nat := 4
def EXTRA_FIELD_UNICODE_PATH_MIN_LEN : Nat := 5
/-- `PATH_MAX`. -/
def ZIP_FILE_NAME_LEN_MAX : Nat := 4096
def ZIP_BUF_INTERNAL : Nat := 65536

def UINT16_MAX : UInt16 := 0xFFFF
def UINT32_MAX : UInt32 := 0xFFFFFFFF

/-- `struct EndOfCentralDir`. -/
structure EndOfCentralDir where
  signature : UInt32
  numberOfDisk : UInt16
  numberOfDiskWithCD : UInt16
  totalNumberOfEntriesOnThisDisk : UInt16
  totalNumberOfEntries : UInt16
  sizeOfCentralDir : UInt32
  offsetOfCentralDir : UInt32
  commentLength : UInt16
  deriving DecidableEq

def EndOfCentralDir.toBytes (r : EndOfCentralDir) : List UInt8 :=
  putU32 r.signature ++ (putU16 r.numberOfDisk ++ (putU16 r.numberOfDiskWithCD ++
    (putU16 r.totalNumberOfEntriesOnThisDisk ++ (putU16 r.totalNumberOfEntries ++
    (putU32 r.sizeOfCentralDir ++ (putU32 r.offsetOfCentralDir ++ putU16 r.commentLength))))))

def EndOfCentralDir.ofBytes (bytes : List UInt8) : EndOfCentralDir :=
  let (signature, bytes) := getU32 bytes
  let (numberOfDisk, bytes) := getU16 bytes
  let (numberOfDiskWithCD, bytes) := getU16 bytes
  let (totalNumberOfEntriesOnThisDisk, bytes) := getU16 bytes
  let (totalNumberOfEntries, bytes) := getU16 bytes
  let (sizeOfCentralDir, bytes) := getU32 bytes
  let (offsetOfCentralDir, bytes) := getU32 bytes
  let (commentLength, _) := getU16 bytes
  { signature, numberOfDisk, numberOfDiskWithCD, totalNumberOfEntriesOnThisDisk,
    totalNumberOfEntries, sizeOfCentralDir, offsetOfCentralDir, commentLength }

/-- `struct EndOfCentralDirLocator64`. -/
structure EndOfCentralDirLocator64 where
  signature : UInt32
  numberOfDiskWithEOCD64 : UInt32
  offsetOfEOCD64 : UInt64
  diskTotalNum : UInt32
  deriving DecidableEq

def EndOfCentralDirLocator64.toBytes (r : EndOfCentralDirLocator64) : List UInt8 :=
  putU32 r.signature ++ (putU32 r.numberOfDiskWithEOCD64 ++ (putU64 r.offsetOfEOCD64 ++
    putU32 r.diskTotalNum))

def EndOfCentralDirLocator64.ofBytes (bytes : List UInt8) : EndOfCentralDirLocator64 :=
  let (signature, bytes) := getU32 bytes
  let (numberOfDiskWithEOCD64, bytes) := getU32 bytes
  let (offsetOfEOCD64, bytes) := getU64 bytes
  let (diskTotalNum, _) := getU32 bytes
  { signature, numberOfDiskWithEOCD64, offsetOfEOCD64, diskTotalNum }

/-- `struct EndOfCentralDir64`. -/
structure EndOfCentralDir64 where
  signature : UInt32
  size : UInt64
  versionMadeBy : UInt16
  versionNeeded : UInt16
  numberOfDisk : UInt32
  numberOfDiskWithCD : UInt32
  totalNumberOfEntriesOnThisDisk : UInt64
  totalNumberOfEntries : UInt64
  sizeOfCentralDir : UInt64
  offsetOfCentralDir : UInt64
  deriving DecidableEq

def EndOfCentralDir64.toBytes (r : EndOfCentralDir64) : List UInt8 :=
  putU32 r.signature ++ (putU64 r.size ++ (putU16 r.versionMadeBy ++ (putU16 r.versionNeeded ++
    (putU32 r.numberOfDisk ++ (putU32 r.numberOfDiskWithCD ++
    (putU64 r.totalNumberOfEntriesOnThisDisk ++ (putU64 r.totalNumberOfEntries ++
    (putU64 r.sizeOfCentralDir ++ putU64 r.offsetOfCentralDir))))))))

def EndOfCentralDir64.ofBytes (bytes : List UInt8) : EndOfCentralDir64 :=
  let (signature, bytes) := getU32 bytes
  let (size, bytes) := getU64 bytes
  let (versionMadeBy, bytes) := getU16 bytes
  let (versionNeeded, bytes) := getU16 bytes
  let (numberOfDisk, bytes) := getU32 bytes
  let (numberOfDiskWithCD, bytes) := getU32 bytes
  let (totalNumberOfEntriesOnThisDisk, bytes) := getU64 bytes
  let (totalNumberOfEntries, bytes) := getU64 bytes
  let (sizeOfCentralDir, bytes) := getU64 bytes
  let (offsetOfCentralDir, _) := getU64 bytes
  { signature, size, versionMadeBy, versionNeeded, numberOfDisk, numberOfDiskWithCD,
    totalNumberOfEntriesOnThisDisk, totalNumberOfEntries, sizeOfCentralDir, offsetOfCentralDir }

/-- `struct ReadCentralDirHeader`: the central header behind its signature. -/
structure ReadCentralDirHeader where
  versionMadeBy : UInt16
  versionNeeded : UInt16
  flag : UInt16
  compressionMethod : UInt16
  dosModDateTime : UInt32
  crc32 : UInt32
  compressedSize : UInt32
  uncompressedSize : UInt32
  fileNameLength : UInt16
  extraFieldLength : UInt16
  fileCommentLength : UInt16
  diskNumberStart : UInt16
  internalFileAttr : UInt16
  externalFileAttr : UInt32
  relativeOffsetOfLocalHeader : UInt32
  deriving DecidableEq

def ReadCentralDirHeader.toBytes (r : ReadCentralDirHeader) : List UInt8 :=
  putU16 r.versionMadeBy ++ (putU16 r.versionNeeded ++ (putU16 r.flag ++
    (putU16 r.compressionMethod ++ (putU32 r.dosModDateTime ++ (putU32 r.crc32 ++
    (putU32 r.compressedSize ++ (putU32 r.uncompressedSize ++ (putU16 r.fileNameLength ++
    (putU16 r.extraFieldLength ++ (putU16 r.fileCommentLength ++ (putU16 r.diskNumberStart ++
    (putU16 r.internalFileAttr ++ (putU32 r.externalFileAttr ++
    putU32 r.relativeOffsetOfLocalHeader)))))))))))))

def ReadCentralDirHeader.ofBytes (bytes : List UInt8) : ReadCentralDirHeader :=
  let (versionMadeBy, bytes) := getU16 bytes
  let (versionNeeded, bytes) := getU16 bytes
  let (flag, bytes) := getU16 bytes
  let (compressionMethod, bytes) := getU16 bytes
  let (dosModDateTime, bytes) := getU32 bytes
  let (crc32, bytes) := getU32 bytes
  let (compressedSize, bytes) := getU32 bytes
  let (uncompressedSize, bytes) := getU32 bytes
  let (fileNameLength, bytes) := getU16 bytes
  let (extraFieldLength, bytes) := getU16 bytes
  let (fileCommentLength, bytes) := getU16 bytes
  let (diskNumberStart, bytes) := getU16 bytes
  let (internalFileAttr, bytes) := getU16 bytes
  let (externalFileAttr, bytes) := getU32 bytes
  let (relativeOffsetOfLocalHeader, _) := getU32 bytes
  { versionMadeBy, versionNeeded, flag, compressionMethod, dosModDateTime, crc32,
    compressedSize, uncompressedSize, fileNameLength, extraFieldLength, fileCommentLength,
    diskNumberStart, internalFileAttr, externalFileAttr, relativeOffsetOfLocalHeader }

/-- `struct LocalFileHeader`. -/
structure LocalFileHeader where
  signature : UInt32
  versionNeeded : UInt16
  flag : UInt16
  compressionMethod : UInt16
  dosModDateTime : UInt32
  crc32 : UInt32
  compressedSize : UInt32
  uncompressedSize : UInt32
  fileNameLength : UInt16
  extraFieldLength : UInt16
  deriving DecidableEq

def LocalFileHeader.toBytes (r : LocalFileHeader) : List UInt8 :=
  putU32 r.signature ++ (putU16 r.versionNeeded ++ (putU16 r.flag ++
    (putU16 r.compressionMethod ++ (putU32 r.dosModDateTime ++ (putU32 r.crc32 ++
    (putU32 r.compressedSize ++ (putU32 r.uncompressedSize ++ (putU16 r.fileNameLength ++
    putU16 r.extraFieldLength))))))))

def LocalFileHeader.ofBytes (bytes : List UInt8) : LocalFileHeader :=
  let (signature, bytes) := getU32 bytes
  let (versionNeeded, bytes) := getU16 bytes
  let (flag, bytes) := getU16 bytes
  let (compressionMethod, bytes) := getU16 bytes
  let (dosModDateTime, bytes) := getU32 bytes
  let (crc32, bytes) := getU32 bytes
  let (compressedSize, bytes) := getU32 bytes
  let (uncompressedSize, bytes) := getU32 bytes
  let (fileNameLength, bytes) := getU16 bytes
  let (extraFieldLength, _) := getU16 bytes
  { signature, versionNeeded, flag, compressionMethod, dosModDateTime, crc32, compressedSize,
    uncompressedSize, fileNameLength, extraFieldLength }

/-! Every record has its packed size and is read back whatever follows it. -/

@[simp] theorem EndOfCentralDir.toBytes_length (r : EndOfCentralDir) :
    r.toBytes.length = ZIP_SIZE_EOCD_FIXED := by simp [toBytes, ZIP_SIZE_EOCD_FIXED]

@[simp] theorem EndOfCentralDirLocator64.toBytes_length (r : EndOfCentralDirLocator64) :
    r.toBytes.length = ZIP_SIZE_CD_LOCATOR64 := by simp [toBytes, ZIP_SIZE_CD_LOCATOR64]

@[simp] theorem EndOfCentralDir64.toBytes_length (r : EndOfCentralDir64) :
    r.toBytes.length = 56 := by simp [toBytes]

@[simp] theorem ReadCentralDirHeader.toBytes_length (r : ReadCentralDirHeader) :
    r.toBytes.length = 42 := by simp [toBytes]

@[simp] theorem LocalFileHeader.toBytes_length (r : LocalFileHeader) :
    r.toBytes.length = 30 := by simp [toBytes]

theorem EndOfCentralDir.toBytes_signed (r : EndOfCentralDir) :
    ∃ rest, r.toBytes = putU32 r.signature ++ rest := ⟨_, rfl⟩

theorem EndOfCentralDir64.toBytes_signed (r : EndOfCentralDir64) :
    ∃ rest, r.toBytes = putU32 r.signature ++ rest := ⟨_, rfl⟩

@[simp] theorem EndOfCentralDir.ofBytes_toBytes (r : EndOfCentralDir) (rest : List UInt8) :
    ofBytes (r.toBytes ++ rest) = r := by
  simp only [ofBytes, toBytes, List.append_assoc, getU32_putU32, getU16_putU16]

@[simp] theorem EndOfCentralDirLocator64.ofBytes_toBytes (r : EndOfCentralDirLocator64)
    (rest : List UInt8) : ofBytes (r.toBytes ++ rest) = r := by
  simp only [ofBytes, toBytes, List.append_assoc, getU32_putU32, getU64_putU64]

@[simp] theorem EndOfCentralDir64.ofBytes_toBytes (r : EndOfCentralDir64) (rest : List UInt8) :
    ofBytes (r.toBytes ++ rest) = r := by
  simp only [ofBytes, toBytes, List.append_assoc, getU32_putU32, getU16_putU16, getU64_putU64]

@[simp] theorem ReadCentralDirHeader.ofBytes_toBytes (r : ReadCentralDirHeader)
    (rest : List UInt8) : ofBytes (r.toBytes ++ rest) = r := by
  simp only [ofBytes, toBytes, List.append_assoc, getU32_putU32, getU16_putU16]

@[simp] theorem LocalFileHeader.ofBytes_toBytes (r : LocalFileHeader) (rest : List UInt8) :
    ofBytes (r.toBytes ++ rest) = r := by
  simp only [ofBytes, toBytes, List.append_assoc, getU32_putU32, getU16_putU16]

end FileApi.Compress.Zip
