import FileApi.Zlib.Inflate

/-!
# The contract of `deflate`

An implementation of raw `deflate` for the streams of a decoder. Without a flush it takes input
and may hold output back; with `Z_FINISH` it gives output until the stream is complete. A stream
that is being finished (`FINISH_STATE`) takes no more input.

`ZStream` is the `z_stream` of a caller: the private state, gone after `deflateEnd`, the input
it points at, and a mark for a call that was made on a stream without its private state.
-/

namespace FileApi.Zlib

/-- The flush modes callers use. -/
inductive FlushMode where
  | noFlush | finish
  deriving DecidableEq

/-- One call with `Z_NO_FLUSH`. -/
structure DeflateWrite {σ : Type} (finishing : σ → Bool) (input : List UInt8) (room : Nat)
    (r : ZResult σ) : Prop where
  ret : r.ret = .ok
  consumed_le : r.consumed ≤ input.length
  output_le : r.output.length ≤ room
  finishing : finishing r.state = false

/-- One call with `Z_FINISH`, with `b` the input taken and `out` the output given before it. -/
structure DeflateFinish {σ : Type} (D : Decoder) (finishing : σ → Bool)
    (b out input : List UInt8) (room : Nat) (r : ZResult σ) : Prop where
  ret : r.ret = .ok ∨ r.ret = .streamEnd
  consumed_le : r.consumed ≤ input.length
  output_le : r.output.length ≤ room
  finishing : finishing r.state = true → r.consumed = input.length
  finished : r.ret = .streamEnd → r.consumed = input.length ∧ D.complete (out ++ r.output) ∧
    D.out (out ++ r.output) = b ++ input

/-- An implementation of raw `deflate`. `Holds s b out`: the stream has taken `b` and given
`out`. -/
structure Deflate (D : Decoder) where
  State : Type
  reset : State
  deflate : State → List UInt8 → Nat → FlushMode → ZResult State
  finishing : State → Bool
  Holds : State → List UInt8 → List UInt8 → Prop
  reset_holds : Holds reset [] []
  reset_finishing : finishing reset = false
  write : ∀ {s b out input room}, Holds s b out → finishing s = false → input ≠ [] → 0 < room →
    DeflateWrite finishing input room (deflate s input room .noFlush) ∧
      Holds (deflate s input room .noFlush).state
        (b ++ input.take (deflate s input room .noFlush).consumed)
        (out ++ (deflate s input room .noFlush).output)
  finish : ∀ {s b out input room}, Holds s b out → (finishing s = true → input = []) → 0 < room →
    DeflateFinish D finishing b out input room (deflate s input room .finish) ∧
      Holds (deflate s input room .finish).state
        (b ++ input.take (deflate s input room .finish).consumed)
        (out ++ (deflate s input room .finish).output)

/-- A call without room makes no progress. -/
def Deflate.NeedsRoom {D : Decoder} (Z : Deflate D) : Prop :=
  ∀ s input flush, (Z.deflate s input 0 flush).ret = .bufError

/-- A call without input and without a flush makes no progress, or gives some of what was held
back. -/
def Deflate.Idle {D : Decoder} (Z : Deflate D) : Prop :=
  ∀ {s b out room}, Z.Holds s b out → Z.finishing s = false → 0 < room →
    (Z.deflate s [] room .noFlush).ret = .bufError ∨
    DeflateWrite Z.finishing [] room (Z.deflate s [] room .noFlush) ∧
      Z.Holds (Z.deflate s [] room .noFlush).state b (out ++ (Z.deflate s [] room .noFlush).output)

/-- A `z_stream`: `state` is `none` once `deflateEnd` released it, `nextIn` is the input from
`next_in` on, `avail_in` bytes long. -/
structure ZStream (σ : Type) where
  state : Option σ
  nextIn : List UInt8 := []
  reused : Bool := false

section

variable {D : Decoder} (Z : Deflate D)

/-- `deflate` of the stream with room for `room` bytes: the code and the output. -/
def ZStream.deflate (strm : ZStream Z.State) (room : Nat) (flush : FlushMode) :
    ZRet × List UInt8 × ZStream Z.State :=
  match strm.state with
  | none => (.streamError, [], { strm with reused := true })
  | some s =>
      let r := Z.deflate s strm.nextIn room flush
      (r.ret, r.output, { strm with state := some r.state, nextIn := strm.nextIn.drop r.consumed })

/-- `deflateReset`; `next_in` and `avail_in` stay. -/
def ZStream.deflateReset (strm : ZStream Z.State) : ZRet × ZStream Z.State :=
  match strm.state with
  | none => (.streamError, { strm with reused := true })
  | some _ => (.ok, { strm with state := some Z.reset })

/-- `deflateEnd`. -/
def ZStream.deflateEnd (strm : ZStream Z.State) : ZStream Z.State :=
  match strm.state with
  | none => { strm with reused := true }
  | some _ => { strm with state := none }

end

end FileApi.Zlib
