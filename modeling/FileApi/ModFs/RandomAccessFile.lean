import FileApi.Misc.ByteFile
import FileApi.Misc.Errno

/-!
# Random access files

`FsRandomAccessFile` (`fs_randomaccessfile.cpp:32-240`) with `FsUtils::GetActualLen`
(`fs_utils.cpp:22-41`). `SetFilePointerSync`, `ReadSync` and `WriteSync` are called on an object
whose file is open and not in append mode; how the request of `libuv` ends is given with the call.
A negative offset of a request stands for the position of the descriptor.
-/

namespace FileApi.ModFs

/-- `INT64_MAX`, behind which no byte of a file lies. -/
def maxOffset : Nat := 2 ^ 63 - 1

/-- What one call of the system transfers at most. -/
def maxRwCount : Nat := 0x7ffff000

/-- How a request ends: there is no memory for it, it fails, or it transfers so many bytes at most. -/
inductive UvEnd where
  | noRequest
  | fails (errno : Nat) (positive : 0 < errno)
  | moves (most : Nat)
  deriving DecidableEq

/-- `ENOMEM`. -/
def enomemCode : Int := 12

/-- The options of a transfer. -/
structure IoOptions where
  length : Option Int64 := none
  offset : Option Int64 := none
  deriving DecidableEq

/-- The object, and the file with the position of its descriptor. -/
structure RandomAccessFile where
  filePointer : Int64
  file : ByteFile
  deriving DecidableEq

/-! ## Requests -/

/-- Where a request transfers. -/
def uvPosition (file : ByteFile) (offset : Int64) : Nat :=
  if offset < 0 then file.pos else offset.toInt.toNat

/-- How many bytes it transfers at most. -/
def uvRoom (file : ByteFile) (len : Nat) (offset : Int64) (most : Nat) : Nat :=
  min (min len most) (min maxRwCount (maxOffset - uvPosition file offset))

/-- The position of the descriptor behind a transfer. -/
def uvMoved (file : ByteFile) (offset : Int64) (count : Nat) : Nat :=
  if offset < 0 then file.pos + count else file.pos

/-- `uv_fs_read`: its result, the bytes that are read, and the file. -/
def uvFsRead (file : ByteFile) (len : Nat) (offset : Int64) (most : Nat) :
    Int × List UInt8 × ByteFile :=
  let got := (file.data.drop (uvPosition file offset)).take (uvRoom file len offset most)
  (got.length, got, { file with pos := uvMoved file offset got.length })

/-- The bytes of a file when some are written at a place. -/
def writtenAt (data : List UInt8) (position : Nat) (bytes : List UInt8) : List UInt8 :=
  if bytes = [] then data else ((⟨data, position⟩ : ByteFile).write bytes).data

/-- `uv_fs_write`: its result and the file. -/
def uvFsWrite (file : ByteFile) (buf : List UInt8) (len : Nat) (offset : Int64) (most : Nat) :
    Int × ByteFile :=
  let bytes := buf.take (uvRoom file len offset most)
  (bytes.length, ⟨writtenAt file.data (uvPosition file offset) bytes, uvMoved file offset bytes.length⟩)

/-- `DoReadRAF`. -/
def doReadRAF (file : ByteFile) (len : Nat) (offset : Int64) : UvEnd → Int × List UInt8 × ByteFile
  | .noRequest => (enomemCode, [], file)
  | .fails errno _ => (-errno, [], file)
  | .moves most => uvFsRead file len offset most

/-- `DoWriteRAF`. -/
def doWriteRAF (file : ByteFile) (buf : List UInt8) (len : Nat) (offset : Int64) :
    UvEnd → Int × ByteFile
  | .noRequest => (enomemCode, file)
  | .fails errno _ => (-errno, file)
  | .moves most => uvFsWrite file buf len offset most

/-! ## Arguments -/

/-- `CalculateOffset`. -/
def calculateOffset (offset fPointer : Int64) : Int64 :=
  if offset < 0 then fPointer else offset + fPointer

/-- `GetActualLen` with no offset in the buffer. -/
def getActualLen (bufLen : Nat) (length : Option Int64) : Option Nat :=
  match length with
  | none => some bufLen
  | some opLength =>
      if opLength < 0 ∨ bufLen < opLength.toInt.toNat then none else some opLength.toInt.toNat

/-- `UINT_MAX`. -/
def uintMax : Nat := 2 ^ 32 - 1

/-- `ValidReadArg` and `ValidWriteArg`: the length, and the offset or -1. -/
def validArg (bufLen : Nat) (options : IoOptions) : Option (Nat × Int64) :=
  if uintMax < bufLen then none
  else
    match getActualLen bufLen options.length with
    | none => none
    | some len =>
        match options.offset with
        | none => some (len, -1)
        | some offset => if offset < 0 then none else some (len, offset)

/-! ## Calls -/

inductive RafCall where
  | setFilePointer (fp : Int64)
  | read (bufLen : Nat) (options : IoOptions) (uv : UvEnd)
  | write (buffer : List UInt8) (options : IoOptions) (uv : UvEnd)
  deriving DecidableEq

/-- What a call returns: an error, or a number, with the bytes that a read has put in the buffer. -/
structure RafAnswer where
  result : Except Int Int64
  bytes : List UInt8 := []

namespace RandomAccessFile

variable (raf : RandomAccessFile)

/-- `EINVAL`. -/
def einvalCode : Int := 22

/-- `SetFilePointerSync`. -/
def setFilePointerSync (fp : Int64) : RafAnswer × RandomAccessFile :=
  (⟨.ok 0, []⟩, { raf with filePointer := fp })

/-- The end of a transfer from an offset on. -/
def finishTransfer (offset : Int64) (actLen : Int) (bytes : List UInt8) (file : ByteFile) :
    RafAnswer × RandomAccessFile :=
  if actLen < 0 then (⟨.error actLen, bytes⟩, ⟨raf.filePointer, file⟩)
  else (⟨.ok (Int64.ofInt actLen), bytes⟩, ⟨offset + Int64.ofInt actLen, file⟩)

/-- `ReadSync`. -/
def readSync (bufLen : Nat) (options : IoOptions) (uv : UvEnd) : RafAnswer × RandomAccessFile :=
  match validArg bufLen options with
  | none => (⟨.error einvalCode, []⟩, raf)
  | some (len, offset) =>
      let offset := calculateOffset offset raf.filePointer
      let (actLen, bytes, file) := doReadRAF raf.file len offset uv
      raf.finishTransfer offset actLen bytes file

/-- `WriteSync`, of a string or of an array. -/
def writeSync (buffer : List UInt8) (options : IoOptions) (uv : UvEnd) :
    RafAnswer × RandomAccessFile :=
  match validArg buffer.length options with
  | none => (⟨.error einvalCode, []⟩, raf)
  | some (len, offset) =>
      let offset := calculateOffset offset raf.filePointer
      let (writeLen, file) := doWriteRAF raf.file buffer len offset uv
      raf.finishTransfer offset writeLen [] file

def exec : RafCall → RafAnswer × RandomAccessFile
  | .setFilePointer fp => raf.setFilePointerSync fp
  | .read bufLen options uv => raf.readSync bufLen options uv
  | .write buffer options uv => raf.writeSync buffer options uv

end RandomAccessFile

end FileApi.ModFs
