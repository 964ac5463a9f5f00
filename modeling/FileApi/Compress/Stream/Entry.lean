import FileApi.Compress.Stream.File
import FileApi.Compress.Zip.Format
import FileApi.Zlib.Inflate

/-!
# The streams an entry is read through

The reading sides of `stream/raw/stream_raw.c:28-61` and `stream/compress/stream_deflate.c:41-99`,
above the stream of the archive file. Both start with `totalIn` at zero; `headerSize` is never set
and stays zero.
-/

namespace FileApi.Compress

open Zlib

/-- `RawStream`, or `DeflateStream` with `nextIn` the input from `next_in` on. -/
inductive CompressStream (σ : Type) where
  | raw (maxTotalIn totalIn : UInt64)
  | deflate (zstream : σ) (nextIn : List UInt8) (totalIn : UInt64)

/-- `StreamGetTotalIn`. -/
def CompressStream.totalIn {σ : Type} : CompressStream σ → UInt64
  | .raw _ totalIn => totalIn
  | .deflate _ _ totalIn => totalIn

/-- The size `RawStreamRead` asks the base for. -/
def rawReadSize (maxTotalIn totalIn : UInt64) (len : Nat) : Nat :=
  if 0 < maxTotalIn ∧ (maxTotalIn - totalIn).toNat < len then (maxTotalIn - totalIn).toNat else len

/-- The stream below, an entry stream above it, and the bytes a read gave. -/
structure EntryRead (σ : Type) where
  base : ByteFile
  stream : CompressStream σ
  bytes : List UInt8

/-- `RawStreamRead`. -/
def rawStreamRead {σ : Type} (base : ByteFile) (maxTotalIn totalIn : UInt64) (len : Nat) :
    EntryRead σ :=
  let (bytes, base) := streamRead base (rawReadSize maxTotalIn totalIn len)
  ⟨base, .raw maxTotalIn (totalIn + UInt64.ofNat bytes.length), bytes⟩

/-- The variables of the loop of `DeflateStreamRead`; `output` is the part of the buffer in front
of `next_out`. -/
structure DeflateRead (σ : Type) where
  base : ByteFile
  zstream : σ
  nextIn : List UInt8
  totalIn : UInt64
  output : List UInt8

/-- The input buffer is filled where it is empty. -/
def DeflateRead.fill {σ : Type} (st : DeflateRead σ) : DeflateRead σ :=
  if st.nextIn = [] then
    let (nextIn, base) := streamRead st.base Zip.ZIP_BUF_INTERNAL
    { st with base, nextIn, totalIn := st.totalIn + UInt64.ofNat nextIn.length }
  else st

section

variable {D : Decoder} {I : Inflate D}

/-- The loop of `DeflateStreamRead`; `none` when `fuel` turns are not enough. -/
def deflateReadLoop (size : Nat) :
    Nat → DeflateRead I.State → Option (ZRet × DeflateRead I.State)
  | 0, _ => none
  | fuel + 1, st =>
      let st := st.fill
      let r := I.inflate st.zstream st.nextIn (size - st.output.length)
      let st := { st with
        zstream := r.state, nextIn := st.nextIn.drop r.consumed, output := st.output ++ r.output }
      if st.output.length < size ∧ r.ret = .ok then deflateReadLoop size fuel st
      else some (r.ret, st)

/-- `DeflateStreamRead`; `Z_DATA_ERROR` is negative, which is all the caller looks at. -/
def deflateStreamRead (fuel : Nat) (base : ByteFile) (zstream : I.State) (nextIn : List UInt8)
    (totalIn : UInt64) (size : Nat) : Option (Except ArchiveErr (EntryRead I.State)) :=
  (deflateReadLoop size fuel ⟨base, zstream, nextIn, totalIn, []⟩).map fun (ret, st) =>
    if ret ≠ .ok ∧ ret ≠ .streamEnd then .error .readError
    else .ok ⟨st.base, .deflate st.zstream st.nextIn st.totalIn, st.output⟩

/-- `StreamRead` of the compress stream. -/
def CompressStream.read (fuel : Nat) (base : ByteFile) (stream : CompressStream I.State)
    (len : Nat) : Option (Except ArchiveErr (EntryRead I.State)) :=
  match stream with
  | .raw maxTotalIn totalIn => some (.ok (rawStreamRead base maxTotalIn totalIn len))
  | .deflate zstream nextIn totalIn => deflateStreamRead fuel base zstream nextIn totalIn len

end

end FileApi.Compress
