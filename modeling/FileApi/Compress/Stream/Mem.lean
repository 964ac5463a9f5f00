import FileApi.Compress.Stream.File

/-!
# The memory stream

`MemStream` (`stream/memory/stream_mem.c:26-248`). What `malloc` gives, and what it finds in there,
comes with the call.
-/

namespace FileApi.Compress

/-- `MEM_INIT_SIZE`. -/
def MEM_INIT_SIZE : UInt64 := 4096

/-- `MemStream`; the null pointer is the empty buffer. -/
structure MemStream where
  buffer : List UInt8 := []
  size : UInt64 := 0
  capacity : UInt64 := 0
  position : UInt64 := 0
  memInitSize : UInt64 := MEM_INIT_SIZE
  deriving DecidableEq

/-- The bytes of a block that was allocated; `none` where there is no memory. -/
abbrev Malloc := Option (Nat → UInt8)

/-- What a call returns. `overrun`: it comes to bytes outside of the buffer; `hangs`: it does not
return. -/
inductive MemAnswer where
  | ok
  | error (e : ArchiveErr)
  | read (bytes : List UInt8)
  | written (len : Nat)
  | at (position : Nat)
  | overrun
  | hangs
  deriving DecidableEq

/-- `MemStreamResize`. -/
def memStreamResize (s : MemStream) (size : UInt64) (block : Malloc) :
    Except ArchiveErr MemStream :=
  if size = 0 then .error .paramError
  else
    match block with
    | none => .error .memError
    | some garbage =>
        let copySize := if s.buffer = [] then 0 else if s.size < size then s.size else size
        .ok { s with
          buffer := s.buffer.take copySize.toNat ++
            ((List.range size.toNat).map garbage).drop copySize.toNat
          size := copySize
          capacity := size }

/-- `MemStreamOpen`. -/
def memStreamOpen (s : MemStream) (block : Malloc) : MemAnswer × MemStream :=
  let s := { s with position := 0 }
  match memStreamResize s s.memInitSize block with
  | .error e => (.error e, s)
  | .ok s => (.ok, s)

/-- `MemStreamRead`. -/
def memStreamRead (s : MemStream) (len : Int) : MemAnswer × MemStream :=
  let len := UInt64.ofNat (len % 2 ^ 64).toNat
  let len := if len > s.size - s.position then s.size - s.position else len
  if len = 0 then (.read [], s)
  else if s.buffer.length < s.position.toNat + len.toNat then (.overrun, s)
  else (.read ((s.buffer.drop s.position.toNat).take len.toNat),
    { s with position := s.position + len })

/-- The loop that doubles the capacity. The number is zero after 64 turns at the latest, and stays
zero: a loop that has not ended by then does not end. -/
def growCapacity (len position : UInt64) : Nat → UInt64 → Option UInt64
  | 0, _ => none
  | turns + 1, newCap =>
      if len > newCap - position then growCapacity len position turns (newCap <<< 1)
      else some newCap

/-- The end of `MemStreamWrite`, with room for the bytes. -/
def memStreamCopy (s : MemStream) (bytes : List UInt8) : MemAnswer × MemStream :=
  if s.buffer.length < s.position.toNat + bytes.length then (.overrun, s)
  else
    let position := s.position + UInt64.ofNat bytes.length
    (.written bytes.length, { s with
      buffer := s.buffer.take s.position.toNat ++ bytes ++
        s.buffer.drop (s.position.toNat + bytes.length)
      position
      size := if position > s.size then position else s.size })

/-- `MemStreamWrite`. -/
def memStreamWrite (s : MemStream) (bytes : List UInt8) (block : Malloc) : MemAnswer × MemStream :=
  let len := UInt64.ofNat bytes.length
  if bytes = [] then (.written 0, s)
  else if len > s.capacity - s.position then
    match growCapacity len s.position 64 (s.capacity <<< 1) with
    | none => (.hangs, s)
    | some newCap =>
        match memStreamResize s newCap block with
        | .error e => (.error e, s)
        | .ok s => memStreamCopy s bytes
  else memStreamCopy s bytes

/-- Where a seek goes; `none` for an origin that is not known. A sum past the end of `int64_t` is
refused like a position behind the buffer. -/
def memSeekTarget (s : MemStream) (offset : Int) : Option SeekOrigin → Option Int
  | some .set => some offset
  | some .cur => some (s.position.toNat + offset)
  | some .fromEnd => some (s.size.toNat + offset)
  | none => none

/-- `MemStreamSeek`. -/
def memStreamSeek (s : MemStream) (offset : Int) (origin : Option SeekOrigin) :
    MemAnswer × MemStream :=
  match memSeekTarget s offset origin with
  | none => (.error .seekError, s)
  | some newPos =>
      if newPos < 0 ∨ s.capacity.toNat < newPos then (.error .seekError, s)
      else (.ok, { s with position := UInt64.ofNat newPos.toNat })

/-- `MemStreamTell`. -/
def memStreamTell (s : MemStream) : MemAnswer := .at s.position.toNat

/-- A call of one of the operations of `g_MemStreamOps`. -/
inductive MemCall where
  | open (block : Malloc)
  | read (len : Int)
  | write (bytes : List UInt8) (block : Malloc)
  | seek (offset : Int) (origin : Option SeekOrigin)
  | tell

def memCall (s : MemStream) : MemCall → MemAnswer × MemStream
  | .open block => memStreamOpen s block
  | .read len => memStreamRead s len
  | .write bytes block => memStreamWrite s bytes block
  | .seek offset origin => memStreamSeek s offset origin
  | .tell => (memStreamTell s, s)

/-- What a sequence of calls returns, and the stream it leaves. -/
def memRun : MemStream → List MemCall → List MemAnswer × MemStream
  | s, [] => ([], s)
  | s, call :: calls =>
      let (answer, s) := memCall s call
      let (answers, s) := memRun s calls
      (answer :: answers, s)

end FileApi.Compress
