import FileApi.Misc.BoundedBuffer
import FileApi.Misc.Errno

/-!
# File mappings

`MmapCore::DoMmap` (`mmap_core.cpp:52-193`) and the object it makes, `FsFileMapping`
(`fs_filemapping.cpp:50-378`). A pointer into the mapped memory is its distance from the start of
it. How the calls of the system end is given, and so is `memcpy_s`; each call of it is noted with
the part of the memory it is for. The descriptor, the offset and the protection are only handed on and left out.
-/

namespace FileApi.ModFs.FileMapping

/-- `EBADF`. -/
def ebadf : Errno := .other 9

/-- `EOVERFLOW`. -/
def eoverflow : Errno := .other 75

/-- The codes of an `FsResult`: an `errno`, `E_MMAP_FREE`, `E_MMAP_OOB`, `E_MMAP_RO`, `E_MMAP_FILE`. -/
inductive FsError where
  | errno (code : Errno)
  | mmapFree | mmapOob | mmapRo | mmapFile
  deriving DecidableEq

inductive MappingMode where
  | readOnly | readWrite | priv
  deriving DecidableEq

/-- The mode with a number between 0 and `PRIVATE`. -/
def mappingMode (mode : Int) : Option MappingMode :=
  if mode = 0 then some .readOnly
  else if mode = 1 then some .readWrite
  else if mode = 2 then some .priv
  else none

structure FileMappingEntity where
  mapAddr : Option UInt64
  rawMapAddr : Option UInt64
  capacity : UInt64
  rawCapacity : UInt64
  adjustment : UInt64
  limit : UInt64
  position : UInt64
  mode : MappingMode
  isValid : Bool
  deriving DecidableEq

namespace FileMappingEntity

variable (e : FileMappingEntity)

def checkValid : Bool := e.isValid && e.mapAddr.isSome

def isReadOnly : Bool := e.mode = .readOnly

end FileMappingEntity

/-- A part of the mapped memory that is read or written. -/
structure Access where
  start : Nat
  length : Nat
  write : Bool
  deriving DecidableEq

/-- The object, the memory that is mapped, and the accesses so far, the last one first. -/
structure FsFileMapping where
  entity : FileMappingEntity
  memory : List UInt8
  accesses : List Access := []

/-! ## Copies -/

/-- `SECUREC_MEM_MAX_LEN`. -/
def securecMemMaxLen : UInt64 := 0x7fffffff

/-- The codes of `memcpy_s`. -/
inductive SecureError where
  | einval | erange | erangeAndReset
  deriving DecidableEq

/-- `memcpy_s` between areas that are there and apart: its code, and what the target begins with
then. Bytes that fit are copied, unless the target is longer than `SECUREC_MEM_MAX_LEN`. -/
class Securec where
  memcpyS : UInt64 → List UInt8 → Option SecureError × List UInt8
  fits : ∀ (destMax : UInt64) (src : List UInt8), src ≠ [] → src.length ≤ destMax.toNat →
    memcpyS destMax src = if securecMemMaxLen < destMax then (some .erange, []) else (none, src)

export Securec (memcpyS)

def copyError : SecureError → FsError
  | .einval => .errno .einval
  | _ => .mmapOob

/-- A buffer of the caller: `nullptr`, or as many bytes as it says. -/
structure UserBuffer where
  data : Option (List UInt8)
  bufLen : UInt64
  sized : ∀ bytes, data = some bytes → bytes.length = bufLen.toNat

/-- `buffer == nullptr && bufLen > 0`. -/
def UserBuffer.invalid (buffer : UserBuffer) : Bool := buffer.data.isNone && 0 < buffer.bufLen

/-- What a transfer reports: the number of bytes, and the bytes that a read has put in the buffer. -/
structure Transfer where
  opLength : UInt64
  bytes : List UInt8 := []
  deriving DecidableEq

/-! ## The object -/

namespace FsFileMapping

variable (m : FsFileMapping)

/-- An object that is changed if its entity is valid. -/
def ifValid {α : Type} (f : Except FsError α × FsFileMapping) : Except FsError α × FsFileMapping :=
  if m.entity.checkValid then f else (.error .mmapFree, m)

def setPosition (position : UInt64) : Except FsError Unit × FsFileMapping :=
  m.ifValid
    (if m.entity.limit < position then (.error (.errno .einval), m)
    else (.ok (), { m with entity := { m.entity with position := position } }))

def getPosition : Except FsError UInt64 × FsFileMapping := m.ifValid (.ok m.entity.position, m)

def capacity : Except FsError UInt64 × FsFileMapping := m.ifValid (.ok m.entity.capacity, m)

def setLimit (limit : UInt64) : Except FsError Unit × FsFileMapping :=
  m.ifValid
    (if m.entity.capacity < limit then (.error (.errno .einval), m)
    else
      let position := if limit < m.entity.position then limit else m.entity.position
      (.ok (), { m with entity := { m.entity with limit := limit, position := position } }))

def getLimit : Except FsError UInt64 × FsFileMapping := m.ifValid (.ok m.entity.limit, m)

def flip : Except FsError Unit × FsFileMapping :=
  m.ifValid
    (.ok (), { m with entity := { m.entity with limit := m.entity.position, position := 0 } })

/-- What is left from a position up to the limit. -/
def remainingFrom (position : UInt64) : UInt64 :=
  if position < m.entity.limit then m.entity.limit - position else 0

def remaining : Except FsError UInt64 × FsFileMapping :=
  m.ifValid (.ok (m.remainingFrom m.entity.position), m)

/-- `opLength` of the transfers. -/
def opLength (position length bufLen : UInt64) : UInt64 :=
  let remaining := m.remainingFrom position
  let opLength := if length < remaining then length else remaining
  if bufLen < opLength then bufLen else opLength

/-- `mapAddr + position`. -/
def addressOf (position : UInt64) : Nat := (m.entity.mapAddr.getD 0).toNat + position.toNat

/-- The position behind a transfer that went well. -/
def advance (result : Except FsError Transfer × FsFileMapping) :
    Except FsError Transfer × FsFileMapping :=
  match result with
  | (.ok t, m) =>
      (.ok t, { m with entity := { m.entity with position := m.entity.position + t.opLength } })
  | (.error e, m) => (.error e, m)

section Transfers

variable [Securec]

/-- The copy out of the memory in `Read` and `ReadFrom`. -/
def copyOut (position : UInt64) (buffer : UserBuffer) (opLength : UInt64) :
    Except FsError Transfer × FsFileMapping :=
  if 0 < opLength then
    let start := m.addressOf position
    let src := (m.memory.drop start).take opLength.toNat
    let noted := { m with accesses := ⟨start, opLength.toNat, false⟩ :: m.accesses }
    match memcpyS buffer.bufLen src with
    | (some ret, _) => (.error (copyError ret), noted)
    | (none, bytes) => (.ok ⟨opLength, bytes⟩, noted)
  else (.ok ⟨opLength, []⟩, m)

/-- The copy into the memory in `Write` and `WriteTo`. -/
def copyIn (position : UInt64) (data : UserBuffer) (opLength : UInt64) :
    Except FsError Transfer × FsFileMapping :=
  if 0 < opLength then
    let start := m.addressOf position
    let (ret, bytes) := memcpyS (m.remainingFrom position)
      ((data.data.getD []).take opLength.toNat)
    let written : FsFileMapping :=
      { m with
        memory := splice m.memory start bytes
        accesses := ⟨start, bytes.length, true⟩ :: m.accesses }
    match ret with
    | some ret => (.error (copyError ret), written)
    | none => (.ok ⟨opLength, []⟩, written)
  else (.ok ⟨opLength, []⟩, m)

def read (buffer : UserBuffer) (length : UInt64) : Except FsError Transfer × FsFileMapping :=
  m.ifValid
    (if buffer.invalid then (.error (.errno .einval), m)
    else advance (m.copyOut m.entity.position buffer
      (m.opLength m.entity.position length buffer.bufLen)))

def readFrom (position : UInt64) (buffer : UserBuffer) (length : UInt64) :
    Except FsError Transfer × FsFileMapping :=
  m.ifValid
    (if buffer.invalid ∨ m.entity.capacity < position then (.error (.errno .einval), m)
    else m.copyOut position buffer (m.opLength position length buffer.bufLen))

def write (data : UserBuffer) (length : UInt64) : Except FsError Transfer × FsFileMapping :=
  m.ifValid
    (if data.invalid then (.error (.errno .einval), m)
    else if m.entity.isReadOnly then (.error .mmapRo, m)
    else advance (m.copyIn m.entity.position data
      (m.opLength m.entity.position length data.bufLen)))

def writeTo (position : UInt64) (data : UserBuffer) (length : UInt64) :
    Except FsError Transfer × FsFileMapping :=
  m.ifValid
    (if data.invalid ∨ m.entity.capacity < position then (.error (.errno .einval), m)
    else if m.entity.isReadOnly then (.error .mmapRo, m)
    else m.copyIn position data (m.opLength position length data.bufLen))

end Transfers

/-- The part of the memory that `Msync` hands to `msync`: where it starts and how long it is. -/
def msyncRange (pageSize : Int) (offset length : UInt64) : Except FsError (UInt64 × UInt64) :=
  if m.entity.checkValid then
    let rawOffset := m.entity.adjustment + offset
    if rawOffset < m.entity.adjustment then .error (.errno .einval)
    else if m.entity.rawCapacity < rawOffset then .error (.errno .einval)
    else if pageSize ≤ 0 then .error (.errno .eio)
    else
      let page := UInt64.ofNat pageSize.toNat
      let alignedRawOffset := rawOffset / page * page
      let extra := rawOffset - alignedRawOffset
      let rawLength := length + extra
      if rawLength < extra then .error (.errno .einval)
      else if m.entity.rawCapacity < alignedRawOffset + rawLength then .error (.errno .einval)
      else .ok (alignedRawOffset, rawLength)
  else .error .mmapFree

/-- `Msync`, with what `msync` fails with. -/
def msync (pageSize : Int) (offset length : UInt64) (fails : Option Errno) :
    Except FsError Unit × FsFileMapping :=
  match m.msyncRange pageSize offset length with
  | .error e => (.error e, m)
  | .ok _ =>
      match fails with
      | some errno => (.error (.errno errno), m)
      | none => (.ok (), m)

/-- `Unmap`, with what `munmap` fails with. -/
def unmap (fails : Option Errno) : Except FsError Unit × FsFileMapping :=
  if m.entity.isValid = false ∨ m.entity.rawMapAddr = none then (.ok (), m)
  else
    match fails with
    | some errno => (.error (.errno errno), m)
    | none =>
        (.ok (), { m with entity :=
          { m.entity with
            mapAddr := none, rawMapAddr := none, isValid := false, capacity := 0
            rawCapacity := 0, adjustment := 0, limit := 0, position := 0 } })

end FsFileMapping

/-! ## Making a mapping -/

/-- `INT64_MAX`. -/
def int64Max : Int := 2 ^ 63 - 1

/-- The file behind the descriptor, the page size, and how the calls end. -/
structure MmapEnv where
  pageSize : Int
  isLong : pageSize ≤ int64Max
  regular : Bool := true
  /-- The calls of `fstat` in `ValidateFile` and in `ExpandFileIfNeeded`. -/
  validated : Option Errno := none
  fstat : Option Errno := none
  ftruncate : Option Errno := none
  mmap : Option Errno := none
  alloc : Bool := true

structure PageAlignResult where
  alignedOffset : Int
  adjustment : UInt64
  adjustedSize : UInt64

section

variable (env : MmapEnv)

def validateMmapParams (fd : Int) (mode offset : Int) (size : UInt64) :
    Except FsError MappingMode :=
  if fd < 0 then .error (.errno ebadf)
  else
    match mappingMode mode with
    | none => .error (.errno .einval)
    | some mode =>
        if offset < 0 then .error (.errno .einval)
        else if size ≤ 0 then .error (.errno .einval)
        else .ok mode

def validateFile : Except FsError Unit :=
  match env.validated with
  | some errno => .error (.errno errno)
  | none => if env.regular then .ok () else .error .mmapFile

def alignToPage (offset : Int) (size : UInt64) : Option PageAlignResult :=
  if env.pageSize ≤ 0 then none
  else
    let alignedOffset := offset.tdiv env.pageSize * env.pageSize
    let adjustment := UInt64.ofInt (offset - alignedOffset)
    if UInt64.ofNat (2 ^ 64 - 1) - adjustment < size then none
    else some ⟨alignedOffset, adjustment, size + adjustment⟩

/-- `ExpandFileIfNeeded`: what the file holds then. -/
def expandFileIfNeeded (content : List UInt8) (offset : Int) (size : UInt64) :
    Except FsError (List UInt8) :=
  match env.fstat with
  | some errno => .error (.errno errno)
  | none =>
      if int64Max < size.toNat then .error (.errno eoverflow)
      else if int64Max - size.toNat < offset then .error (.errno eoverflow)
      else
        let requiredSize := offset + size.toNat
        if requiredSize ≤ content.length then .ok content
        else
          match env.ftruncate with
          | some errno =>
              if env.regular ∨ errno ≠ .einval then .error (.errno errno) else .ok content
          | none => .ok (content ++ List.replicate (requiredSize.toNat - content.length) 0)

/-- `Constructor`. -/
def constructor (align : PageAlignResult) (size : UInt64) (mode : MappingMode)
    (memory : List UInt8) : Except FsError FsFileMapping :=
  if env.alloc then
    .ok
      { entity :=
          { mapAddr := some align.adjustment
            rawMapAddr := some 0
            capacity := size
            rawCapacity := align.adjustedSize
            adjustment := align.adjustment
            limit := size
            position := 0
            mode := mode
            isValid := true }
        memory := memory }
  else .error (.errno .enomem)

/-- `DoMmap` of a file with some content: the object, and what the file holds then. -/
def doMmap (content : List UInt8) (fd mode offset : Int) (size : UInt64) :
    Except FsError (FsFileMapping × List UInt8) := do
  let mode ← validateMmapParams fd mode offset size
  validateFile env
  match alignToPage env offset size with
  | none => .error (.errno .eio)
  | some align =>
      let content ← expandFileIfNeeded env content align.alignedOffset align.adjustedSize
      match env.mmap with
      | some errno => .error (.errno errno)
      | none =>
          let memory := (content.drop align.alignedOffset.toNat).take align.adjustedSize.toNat
          let mapping ← constructor env align size mode memory
          .ok (mapping, content)

/-- `DoMmap`, and what the file holds behind it however it ends. -/
def doMmapFile (content : List UInt8) (fd mode offset : Int) (size : UInt64) :
    Except FsError FsFileMapping × List UInt8 :=
  match validateMmapParams fd mode offset size with
  | .error err => (.error err, content)
  | .ok mode =>
      match validateFile env with
      | .error err => (.error err, content)
      | .ok _ =>
          match alignToPage env offset size with
          | none => (.error (.errno .eio), content)
          | some align =>
              match expandFileIfNeeded env content align.alignedOffset align.adjustedSize with
              | .error err => (.error err, content)
              | .ok file =>
                  match env.mmap with
                  -- the file stays as long as it was made
                  | some errno => (.error (.errno errno), file)
                  | none =>
                      let memory := (file.drop align.alignedOffset.toNat).take align.adjustedSize.toNat
                      (constructor env align size mode memory, file)

end

/-! ## Calls on the object -/

/-- The calls, with how those of the system below them end. -/
inductive Call where
  | setPosition (position : UInt64)
  | getPosition
  | capacity
  | setLimit (limit : UInt64)
  | getLimit
  | flip
  | remaining
  | read (buffer : UserBuffer) (length : UInt64)
  | readFrom (position : UInt64) (buffer : UserBuffer) (length : UInt64)
  | write (data : UserBuffer) (length : UInt64)
  | writeTo (position : UInt64) (data : UserBuffer) (length : UInt64)
  | msync (offset length : UInt64) (fails : Option Errno)
  | unmap (fails : Option Errno)

/-- What a call returns. -/
inductive Answer where
  | done
  | size (n : UInt64)
  | transferred (t : Transfer)
  | failed (e : FsError)
  deriving DecidableEq

def answer {α : Type} (f : α → Answer) : Except FsError α → Answer
  | .ok a => f a
  | .error e => .failed e

/-- A call, what it returns and the object behind it. -/
def FsFileMapping.exec [Securec] (pageSize : Int) (m : FsFileMapping) : Call → Answer × FsFileMapping
  | .setPosition position => (m.setPosition position).map (answer fun _ => .done) id
  | .getPosition => m.getPosition.map (answer .size) id
  | .capacity => m.capacity.map (answer .size) id
  | .setLimit limit => (m.setLimit limit).map (answer fun _ => .done) id
  | .getLimit => m.getLimit.map (answer .size) id
  | .flip => m.flip.map (answer fun _ => .done) id
  | .remaining => m.remaining.map (answer .size) id
  | .read buffer length => (m.read buffer length).map (answer .transferred) id
  | .readFrom position buffer length => (m.readFrom position buffer length).map (answer .transferred) id
  | .write data length => (m.write data length).map (answer .transferred) id
  | .writeTo position data length => (m.writeTo position data length).map (answer .transferred) id
  | .msync offset length fails => (m.msync pageSize offset length fails).map (answer fun _ => .done) id
  | .unmap fails => (m.unmap fails).map (answer fun _ => .done) id

/-- Some calls, and what they return. -/
def FsFileMapping.execAll [Securec] (pageSize : Int) :
    FsFileMapping → List Call → List Answer × FsFileMapping
  | m, [] => ([], m)
  | m, call :: calls =>
      let (answer, m') := m.exec pageSize call
      let (answers, last) := execAll pageSize m' calls
      (answer :: answers, last)

end FileApi.ModFs.FileMapping
