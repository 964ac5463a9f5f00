import FileApi.Compress.Stream.Deflate

/-!
# The stream of an archive that is written

What `StreamWrite`, `StreamSeek` and `StreamTell` do is up to the stream: `StreamOps` has them for
any type of stream. The file of an archive may be a byte array, or a buffer in front of a device
that fails. Above it are the writing sides of `stream/raw/stream_raw.c` and of the deflate stream.
-/

namespace FileApi.Compress

open Zlib

/-- `StreamOps`; a seek says whether it succeeded. -/
class StreamOps (B : Type) extends StreamSink B where
  seek : B → Int → SeekOrigin → Bool × B
  tell : B → Nat

instance : StreamOps ByteFile where
  write f bytes :=
    if f.pos + bytes.length < offLimit then (bytes.length, f.write bytes) else (-1, f)
  seek f offset origin :=
    match streamSeek f offset origin with
    | .ok g => (true, g)
    | .error _ => (false, f)
  tell := streamTell

namespace Out

section

variable {B : Type} [StreamOps B]

/-- `StreamWrite`, with everything short of the whole length a failure. -/
def streamWrite (stream : B) (bytes : List UInt8) : Except ArchiveErr B :=
  let (written, stream) := StreamSink.write stream bytes
  if written ≠ bytes.length then .error .writeError else .ok stream

/-- `StreamSeek`. -/
def streamSeek (stream : B) (offset : Int) (origin : SeekOrigin) : Except ArchiveErr B :=
  let (ok, stream) := StreamOps.seek stream offset origin
  if ok then .ok stream else .error .seekError

end

theorem streamWrite_byteFile (f : ByteFile) (bytes : List UInt8) :
    streamWrite f bytes = Compress.streamWrite f bytes := by
  rw [streamWrite, Compress.streamWrite]
  by_cases hfit : f.pos + bytes.length < offLimit
  · simp only [StreamSink.write, if_pos hfit, ne_eq, not_true_eq_false, if_false]
  · simp only [StreamSink.write, if_neg hfit]
    rw [if_pos (by omega)]

theorem streamSeek_byteFile (f : ByteFile) (offset : Int) (origin : SeekOrigin) :
    streamSeek f offset origin = Compress.streamSeek f offset origin := by
  have herror : ∀ err, Compress.streamSeek f offset origin = .error err → err = .seekError := by
    intro err h
    unfold Compress.streamSeek at h
    dsimp only at h
    split_ifs at h
    exact (Except.error.inj h).symm
  simp only [streamSeek, StreamOps.seek]
  cases h : Compress.streamSeek f offset origin with
  | ok g => rfl
  | error err => rw [herror err h]; rfl

end Out

/-! ## The streams data is written through -/

/-- `RawStream` or `DeflateStream`, above the stream of the archive. -/
inductive WriteStream (σ B : Type) where
  | raw (base : B) (total : Nat)
  | deflate (stream : DeflateStream σ B)

namespace WriteStream

variable {σ B : Type}

def base : WriteStream σ B → B
  | .raw base _ => base
  | .deflate stream => stream.base

/-- `StreamGetTotalIn`; a `RawStream` counts its bytes as input and as output. -/
def totalIn : WriteStream σ B → UInt64
  | .raw _ total => UInt64.ofNat total
  | .deflate stream => UInt64.ofNat stream.totalIn

/-- `StreamGetTotalOut`. -/
def totalOut : WriteStream σ B → UInt64
  | .raw _ total => UInt64.ofNat total
  | .deflate stream => UInt64.ofNat stream.totalOut

variable [StreamOps B] {D : Decoder} (Z : Deflate D)

/-- `RawStreamWrite` or `DeflateStreamWrite`, with everything short of the whole length a
failure. -/
def write (fuel : Nat) (data : List UInt8) :
    WriteStream Z.State B → Option (Except ArchiveErr (WriteStream Z.State B))
  | .raw base total =>
      some ((Out.streamWrite base data).map fun base => .raw base (total + data.length))
  | .deflate stream =>
      (deflateStreamWrite Z fuel stream data).map fun (status, stream) =>
        status.map fun _ => .deflate stream

/-- `RawStreamClose` or `DeflateStreamClose`. -/
def close (fuel : Nat) :
    WriteStream Z.State B → Option (Except ArchiveErr (WriteStream Z.State B))
  | .raw base total => some (.ok (.raw base total))
  | .deflate stream =>
      (deflateStreamClose Z fuel stream).map fun (status, stream) =>
        status.map fun _ => .deflate stream

end WriteStream

end FileApi.Compress
