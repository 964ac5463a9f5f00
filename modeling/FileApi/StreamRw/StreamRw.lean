import FileApi.StreamRw.FsStream

/-!
# Read streams and write streams

`ReadStream` and `WriteStream` of `streamrw.ts`. What comes behind a promise is done when it is
resolved, and the next call is issued then; behind one that is rejected there is none. The numbers are
whole.
-/

namespace FileApi.StreamRw

/-! ## `ReadStream` -/

/-- What a `ReadStream` has pushed is a chunk, or `null`. -/
structure ReadStream where
  bytesRead : Nat := 0
  offset : Int
  stop : Option Int
  stream : FsStream
  pushed : List (Option (List UInt8)) := []
  rejected : Bool := false
  deriving DecidableEq

/-- The constructor; `stop` is the option `end`. -/
def ReadStream.create (content : List UInt8) (start stop : Option Int) : ReadStream where
  offset := start.getD 0
  stop := stop
  stream := ⟨⟨content, 0⟩, false⟩

/-- How a read ends, and whether there is memory for its buffer. -/
structure ReadEnd extends StreamEnd where
  memory : Bool := true
  deriving DecidableEq

namespace ReadStream

variable (s : ReadStream)

/-- `push`. -/
def push (chunk : Option (List UInt8)) : ReadStream := { s with pushed := s.pushed ++ [chunk] }

/-- The read of `doRead`, and what follows it. -/
def readChunk (readSize size : Nat) (e : ReadEnd) : ReadStream :=
  if ¬ e.memory then { s with rejected := true }
  else
    let off := s.offset
    let s := { s with offset := s.offset + readSize }
    match s.stream.read readSize ⟨some off, some readSize⟩ e.toStreamEnd with
    | (.error _, stream) => { s with stream := stream, rejected := true }
    | (.ok buffer, stream) =>
        let readOut := buffer.length
        let s := { s with stream := stream }
        let s :=
          if 0 < readOut then { s.push (some buffer) with bytesRead := s.bytesRead + readOut } else s
        if readOut ≠ readSize ∨ readOut < size then
          { s.push none with offset := s.offset - readSize + readOut }
        else s

/-- `doRead`. -/
def doRead (size : Nat) (e : ReadEnd) : ReadStream :=
  match s.stop with
  | none => s.readChunk size size e
  | some stop =>
      if stop < s.offset then s.push none
      else
        let readSize := if stop < s.offset + size then (stop - s.offset).toNat else size
        s.readChunk readSize size e

/-- A call of `doRead`, if the one before it has resolved. -/
def step (s : ReadStream) (call : Nat × ReadEnd) : Option ReadStream :=
  if s.rejected then none else some (s.doRead call.1 call.2)

end ReadStream

/-! ## `WriteStream` -/

/-- The mode strings of `fopen`. -/
inductive OpenMode where
  | w | wPlus | a | aPlus
  deriving DecidableEq

def WRITE_ONLY : Nat := 0o1
def READ_WRITE : Nat := 0o2
def APPEND : Nat := 0o2000

/-- `convertOpenMode`. -/
def convertOpenMode (mode : Option Nat) : OpenMode :=
  match mode with
  | none => .w
  | some mode =>
      let modeStr : OpenMode := .w
      let modeStr := if mode &&& WRITE_ONLY ≠ 0 then .w else modeStr
      let modeStr := if mode &&& READ_WRITE ≠ 0 then .wPlus else modeStr
      let modeStr := if mode &&& WRITE_ONLY ≠ 0 ∧ mode &&& APPEND ≠ 0 then .a else modeStr
      if mode &&& READ_WRITE ≠ 0 ∧ mode &&& APPEND ≠ 0 then .aPlus else modeStr

/-- `fopen` of a file with some content. -/
def fopen (content : List UInt8) : OpenMode → FsStream
  | .w | .wPlus => ⟨⟨[], 0⟩, false⟩
  | .a | .aPlus => ⟨⟨content, content.length⟩, true⟩

structure WriteStream where
  bytesWritten : Nat := 0
  offset : Int
  stream : FsStream
  deriving DecidableEq

/-- The constructor. -/
def WriteStream.create (content : List UInt8) (start : Option Int) (mode : Option Nat) :
    WriteStream where
  offset := start.getD 0
  stream := fopen content (convertOpenMode mode)

/-- A call of the callback, without an error or with one. -/
inductive Callback where
  | done
  | failed
  deriving DecidableEq

/-- `doWrite`: the calls of the callback, and the stream behind them. What `flush` does then is not
waited for. -/
def WriteStream.doWrite (s : WriteStream) (chunk : List UInt8) (e : StreamEnd) :
    List Callback × WriteStream :=
  match s.stream.write chunk ⟨some s.offset, none⟩ e with
  -- nothing handles a rejection
  | (.error _, stream) => ([], { s with stream := stream })
  | (.ok writeIn, stream) =>
      ([.done],
        { bytesWritten := s.bytesWritten + writeIn, offset := s.offset + writeIn, stream := stream })

/-- A stream, the chunks it was given so far, and the calls of their callbacks. -/
structure Writing where
  stream : WriteStream
  chunks : List (List UInt8) := []
  callbacks : List (List Callback) := []
  deriving DecidableEq

/-- A chunk, if the callback of the one before it was called. -/
def Writing.step (w : Writing) (call : List UInt8 × StreamEnd) : Option Writing :=
  if [] ∈ w.callbacks then none
  else
    let (callbacks, stream) := w.stream.doWrite call.1 call.2
    some ⟨stream, w.chunks ++ [call.1], w.callbacks ++ [callbacks]⟩

end FileApi.StreamRw
