import FileApi.Compress.StreamRead
import FileApi.Zlib.Bound

/-!
# One-shot compression and decompression

`OH_Archive_BufferRead` (`oh_archive_reader.c:213-282`), and `OH_Archive_BufferWrite` with
`CompressDeflate` and `OH_Archive_BufferWriteCompressBound` (`oh_archive_streamwrite.c:320-417`)
without an accelerator plugin. A pointer is `none` where it is null; a destination is its capacity.
What `inflateInit2` and `deflateInit2` return is given.
-/

namespace FileApi.Compress

open Zlib

/-- `UINT_MAX`. -/
def uIntMax : Nat := 2 ^ 32 - 1

/-- The `OH_ARCHIVE_*` codes of the buffer interfaces; `OH_ARCHIVE_OK` is `Except.ok`. -/
inductive OhArchiveBufferErr where
  | paramError | insufficientOutbufError | deflateError | memError
  deriving DecidableEq

section Read

variable {D : Decoder} (I : Inflate D)

/-- The variables of the loop; `totalOutProduced` is the length of the output. -/
structure BufferReadState (σ : Type) where
  stream : σ
  availIn : Nat := 0
  availOut : Nat := 0
  totalInProcessed : Nat := 0
  output : List UInt8 := []

/-- The call of `inflate`, with the input and the room set up anew where they are used up. -/
def bufferReadCall (src : List UInt8) (maxDstLen : Nat) (st : BufferReadState I.State) :
    ZRet × BufferReadState I.State :=
  let availOut :=
    if st.availOut = 0 then min (maxDstLen - st.output.length) uIntMax else st.availOut
  let availIn :=
    if st.availIn = 0 then min (src.length - st.totalInProcessed) uIntMax else st.availIn
  let r := I.inflate st.stream ((src.drop st.totalInProcessed).take availIn) availOut
  (r.ret,
    { stream := r.state
      availIn := availIn - r.consumed
      availOut := availOut - r.output.length
      totalInProcessed := st.totalInProcessed + r.consumed
      output := st.output ++ r.output })

/-- The loop; `none` when `fuel` turns are not enough. -/
def bufferReadLoop (src : List UInt8) (maxDstLen : Nat) :
    Nat → BufferReadState I.State → Option (Except OhArchiveBufferErr (List UInt8))
  | 0, _ => none
  | fuel + 1, st =>
      if maxDstLen - st.output.length = 0 then some (.error .insufficientOutbufError)
      else
        match bufferReadCall I src maxDstLen st with
        | (.streamEnd, st) => some (.ok st.output)
        | (.ok, st) =>
            if st.totalInProcessed < src.length then bufferReadLoop src maxDstLen fuel st
            else some (.ok st.output)
        | _ => some (.error .deflateError)

/-- `OH_Archive_BufferRead`. Every turn takes input or gives output. -/
def bufferRead (inflateInit2 : ZRet) (dst : Option Nat) (src : Option (List UInt8))
    (method : CompressMethod) : Option (Except OhArchiveBufferErr (List UInt8)) :=
  match dst, src with
  | some maxDstLen, some src =>
      if src.length = 0 then some (.error .paramError)
      else if method ≠ .deflate then some (.error .paramError)
      else if inflateInit2 ≠ .ok then some (.error .deflateError)
      else bufferReadLoop I src maxDstLen (src.length + maxDstLen + 1) { stream := I.reset }
  | _, _ => some (.error .paramError)

end Read

section Write

variable {D : Decoder} (Z : Deflate D)

/-- The variables of the loop of `CompressDeflate`: the input of the stream, the source behind
it, `avail_out`, and the room behind it. -/
structure BufferWriteState (σ : Type) where
  stream : σ
  nextIn : List UInt8 := []
  source : List UInt8
  availOut : Nat := 0
  left : Nat
  output : List UInt8 := []

/-- `StreamNext`. -/
def streamNext {σ : Type} (st : BufferWriteState σ) : BufferWriteState σ :=
  let st :=
    if st.availOut = 0 then
      { st with availOut := min st.left uIntMax, left := st.left - min st.left uIntMax }
    else st
  if st.nextIn = [] then
    { st with nextIn := st.source.take uIntMax, source := st.source.drop uIntMax }
  else st

/-- The loop of `CompressDeflate`: the code and the output; `none` when `fuel` turns are not
enough. -/
def compressDeflateLoop : Nat → BufferWriteState Z.State → Option (ZRet × List UInt8)
  | 0, _ => none
  | fuel + 1, st =>
      let st := streamNext st
      let r := Z.deflate st.stream st.nextIn st.availOut
        (if st.source ≠ [] then .noFlush else .finish)
      let st := { st with
        stream := r.state
        nextIn := st.nextIn.drop r.consumed
        availOut := st.availOut - r.output.length
        output := st.output ++ r.output }
      if r.ret = .ok then compressDeflateLoop fuel st else some (r.ret, st.output)

/-- `CompressDeflate`; at its end `Z_STREAM_END` is `Z_OK`. -/
def compressDeflate (deflateInit2 : ZRet) (fuel destLen : Nat) (source : List UInt8) :
    Option (ZRet × List UInt8) :=
  if deflateInit2 ≠ .ok then some (deflateInit2, [])
  else
    (compressDeflateLoop Z fuel { stream := Z.reset, source, left := destLen }).map fun r =>
      (if r.1 = .streamEnd then .ok else r.1, r.2)

/-- `OH_Archive_BufferWrite`. Codes it does not know are no errors. -/
def bufferWrite (deflateInit2 : ZRet) (fuel : Nat) (dest : Option Nat) (source : Option (List UInt8))
    (method : CompressMethod) : Option (Except OhArchiveBufferErr (List UInt8)) :=
  match dest, source with
  | some destLen, some source =>
      if source.length = 0 ∨ method ≠ .deflate then some (.error .paramError)
      else
        (compressDeflate Z deflateInit2 fuel destLen source).map fun r =>
          match r.1 with
          | .bufError => .error .insufficientOutbufError
          | .memError => .error .memError
          | .streamError => .error .paramError
          | _ => .ok r.2
  | _, _ => some (.error .paramError)

/-- `DEFLATE_BUFFER_BLOCK_SIZE`. -/
def deflateBufferBlockSize : UInt64 := 64 * 1024

/-- `OH_Archive_BufferWriteCompressBound`. -/
def bufferWriteCompressBound (method : CompressMethod) (sourceLen : UInt64) : UInt64 :=
  if method = .deflate then
    let blockBound := compressBound deflateBufferBlockSize
    let blockCount := (sourceLen + deflateBufferBlockSize - 1) / deflateBufferBlockSize
    blockBound * blockCount
  else 0

end Write

end FileApi.Compress
