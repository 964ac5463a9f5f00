import FileApi.Compress.Stream.File
import FileApi.Compress.Zip.Format
import FileApi.Zlib.Deflate

/-!
# The deflate write stream

`stream/compress/stream_deflate.c:107-225`, the writing side. Output is gathered in the buffer and
handed to the stream below when the buffer is full, and at the end. What the writes of the stream
below return is given; a run of calls goes on while they succeed.
-/

namespace FileApi.Compress

open Zlib

/-- A stream that is written to: the result of `StreamWrite`, negative for an error. -/
class StreamSink (B : Type) where
  write : B → List UInt8 → Int × B

/-- What a write of the stream below does: it takes everything, some bytes only, or fails with a
negative result. -/
inductive BaseWrite where
  | full
  | short (count : Nat)
  | negative (code : Nat)
  deriving DecidableEq

/-- The stream below: what its writes will do, how many were made, and what it has received. -/
structure BaseStream where
  results : Nat → BaseWrite
  calls : Nat := 0
  received : List UInt8 := []

/-- `StreamWrite` of the stream below. -/
def BaseStream.streamWrite (base : BaseStream) (buf : List UInt8) : Int × BaseStream :=
  let base' := { base with calls := base.calls + 1 }
  match base.results base.calls with
  | .full => (buf.length, { base' with received := base.received ++ buf })
  | .short count =>
      ((buf.take count).length, { base' with received := base.received ++ buf.take count })
  | .negative code => (-1 - code, base')

instance : StreamSink BaseStream := ⟨BaseStream.streamWrite⟩

theorem BaseStream.write_eq (base : BaseStream) (buf : List UInt8) :
    StreamSink.write base buf = base.streamWrite buf := rfl

section

variable {B : Type} [StreamSink B] {D : Decoder} (Z : Deflate D)

/-- `DeflateStream`: `nextIn` is the input from `next_in` on, `buf` the part of the buffer in
front of `next_out`. -/
structure DeflateStream (σ B : Type) where
  zstream : σ
  nextIn : List UInt8 := []
  buf : List UInt8 := []
  len : Nat := Zip.ZIP_BUF_INTERNAL
  availOut : Nat := Zip.ZIP_BUF_INTERNAL
  totalIn : Nat := 0
  totalOut : Nat := 0
  base : B

/-- `DeflateStreamCreate` and `DeflateStreamOpen`, above `base`. -/
def deflateStreamOpen (base : B) : DeflateStream Z.State B where
  zstream := Z.reset
  base := base

/-- How the loop of `DeflateWriteBuf` ends: the function is left with a status, or goes on with
the bytes flushed so far. -/
inductive DeflateWriteEnd where
  | left (status : Except ArchiveErr Unit)
  | done (flushedToBase : Nat)

/-- A full buffer is handed on: how many bytes of it went, or the status the function is left
with. -/
def DeflateStream.flushFull {σ : Type} (st : DeflateStream σ B) :
    Except (Except ArchiveErr Unit) Nat × DeflateStream σ B :=
  if st.availOut ≠ 0 then (.ok 0, st)
  else
    let (len, base) := StreamSink.write st.base st.buf
    -- a negative result is answered with `ret`, which is `Z_OK` here
    if len ≠ st.len then (.error (if len < 0 then .ok () else .error .writeError), { st with base })
    else (.ok st.len, { st with base, buf := [], availOut := st.len })

/-- The call of `deflate` in the loop. -/
def DeflateStream.deflate (st : DeflateStream Z.State B) (flush : FlushMode) :
    ZRet × DeflateStream Z.State B :=
  let r := Z.deflate st.zstream st.nextIn st.availOut flush
  (r.ret,
    { st with
      zstream := r.state
      nextIn := st.nextIn.drop r.consumed
      buf := st.buf ++ r.output
      availOut := st.availOut - r.output.length })

/-- The loop of `DeflateWriteBuf`; `none` when `fuel` turns are not enough. -/
def deflateWriteLoop (flush : FlushMode) :
    Nat → Nat → DeflateStream Z.State B → Option (DeflateWriteEnd × DeflateStream Z.State B)
  | 0, _, _ => none
  | fuel + 1, flushedToBase, st =>
      match st.flushFull with
      | (.error status, st) => some (.left status, st)
      | (.ok flushed, st) =>
          match st.deflate Z flush with
          | (.streamEnd, st) => some (.done (flushedToBase + flushed), st)
          | (.ok, st) =>
              if st.nextIn ≠ [] ∨ flush = .finish then
                deflateWriteLoop flush fuel (flushedToBase + flushed) st
              else some (.done (flushedToBase + flushed), st)
          | (_, st) => some (.left (.error .zlibError), st)

/-- `DeflateWriteBuf`. -/
def deflateWriteBuf (fuel : Nat) (st : DeflateStream Z.State B) (flush : FlushMode) :
    Option (Except ArchiveErr Unit × DeflateStream Z.State B) :=
  (deflateWriteLoop Z flush fuel 0 st).map fun
    | (.left status, st') => (status, st')
    | (.done flushedToBase, st') =>
        let processedIn := st.nextIn.length - st'.nextIn.length
        let processedOut := flushedToBase + st.availOut - st'.availOut
        (.ok (), { st' with
          totalIn := st'.totalIn + processedIn
          totalOut := st'.totalOut + processedOut })

/-- `DeflateStreamWrite`; `avail_in` has 32 bits. -/
def deflateStreamWrite (fuel : Nat) (st : DeflateStream Z.State B) (data : List UInt8) :
    Option (Except ArchiveErr Nat × DeflateStream Z.State B) :=
  (deflateWriteBuf Z fuel { st with nextIn := data.take (data.length % 2 ^ 32) } .noFlush).map
    fun (status, st) => (status.map fun _ => data.length, st)

/-- `DeflateStreamClose`; a negative result of the last write is an error as well. -/
def deflateStreamClose (fuel : Nat) (st : DeflateStream Z.State B) :
    Option (Except ArchiveErr Unit × DeflateStream Z.State B) :=
  (deflateWriteBuf Z fuel st .finish).map fun (status, st) =>
    match status with
    | .error err => (.error err, st)
    | .ok () =>
        let compressedLen := st.len - st.availOut
        let (writeRet, base) := StreamSink.write st.base (st.buf.take compressedLen)
        if writeRet ≠ compressedLen then (.error .writeError, { st with base })
        else (.ok (), { st with base })

/-- Writes of the data in order, and the close, while every call succeeds. -/
def deflateStreamRun (fuel : Nat) :
    DeflateStream Z.State B → List (List UInt8) → Option (DeflateStream Z.State B)
  | st, [] =>
      match deflateStreamClose Z fuel st with
      | some (.ok (), st) => some st
      | _ => none
  | st, data :: rest =>
      match deflateStreamWrite Z fuel st data with
      | some (.ok _, st) => deflateStreamRun fuel st rest
      | _ => none

end

end FileApi.Compress
