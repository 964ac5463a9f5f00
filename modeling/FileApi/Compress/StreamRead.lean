import FileApi.Misc.Crc32
import FileApi.Zlib.Inflate

/-!
# Streaming decompression

`OH_Archive_StreamRead_*` (`oh_archive_reader.c:284-414`). The output handler of the caller is a
function of the buffers it was given before; `delivered` is the list of those buffers. `inflate`
is a parameter that keeps the contract of `Zlib.Inflate`.
-/

namespace FileApi.Compress

open Zlib

/-- The `OH_ARCHIVE_*` codes of the stream interfaces; `OH_ARCHIVE_OK` is `Except.ok`. -/
inductive OhArchiveErr where
  | paramError | cancelError | streamOutputError | deflateError | dataError
  deriving DecidableEq

/-- `OH_Archive_StreamChecksumAlg`. -/
inductive StreamChecksumAlg where
  | noChecksum | crc32
  deriving DecidableEq

/-- `OH_Archive_CompressMethod`. -/
inductive CompressMethod where
  | noCompression | deflate
  deriving DecidableEq

/-- `OH_Archive_Stream_Config`; the thread count is not used for reading. -/
structure StreamConfig where
  blockSize : UInt32
  checksum : StreamChecksumAlg
  method : CompressMethod
  deriving DecidableEq

/-- `OH_Archive_StreamInfo`. -/
structure StreamInfo where
  totalInSize : UInt64
  totalOutSize : UInt64
  checksum : UInt32
  deriving DecidableEq

/-- What an output handler answers to a buffer, given the buffers before it. -/
abbrev OutputHandler := List (List UInt8) → List UInt8 → UInt64

/-- A handler that takes every buffer. -/
def takeAll : OutputHandler := fun _ output => UInt64.ofNat output.length

/-- `struct ArchiveStreamReadCtx`. -/
structure StreamReadCtx (σ : Type) where
  zlibStream : σ
  outBlockSize : UInt32
  checksum : StreamChecksumAlg
  decompressCancel : Bool := false
  crc : UInt32 := 0
  totalInSize : UInt64 := 0
  totalOutSize : UInt64 := 0
  delivered : List (List UInt8) := []

section

variable {D : Decoder} (I : Inflate D) (handler : OutputHandler)

/-- `OH_Archive_StreamRead_Create`. -/
def streamReadCreate (config : StreamConfig) : Option (StreamReadCtx I.State) :=
  if config.method ≠ .deflate ∨ config.blockSize = 0 then none
  else some {
    zlibStream := I.reset, outBlockSize := config.blockSize, checksum := config.checksum }

/-- `OH_Archive_StreamRead_Start`; the handler starts a new list of buffers. -/
def streamReadStart (ctx : StreamReadCtx I.State) : StreamReadCtx I.State :=
  { ctx with
    zlibStream := I.reset, crc := 0, totalInSize := 0, totalOutSize := 0
    decompressCancel := false, delivered := [] }

/-- `OH_Archive_StreamRead_Cancel`. -/
def streamReadCancel (ctx : StreamReadCtx I.State) : StreamReadCtx I.State :=
  { ctx with decompressCancel := true }

variable {I}

/-- `StreamReadHandle` for the `output` that is in the buffer. -/
def streamReadHandle (ctx : StreamReadCtx I.State) (output : List UInt8) :
    Except OhArchiveErr Unit × StreamReadCtx I.State :=
  let handleRet := handler ctx.delivered output
  let ctx := { ctx with delivered := ctx.delivered ++ [output] }
  if handleRet ≠ UInt64.ofNat output.length then (.error .streamOutputError, ctx)
  else
    (.ok (), { ctx with
      crc := if ctx.checksum = .crc32 then FileApi.crc32 ctx.crc output else ctx.crc
      totalOutSize := ctx.totalOutSize + UInt64.ofNat output.length })

/-- The loop of `OH_Archive_StreamRead_Update` over the input that is left; `none` when `fuel`
turns are not enough. -/
def streamReadLoop : Nat → List UInt8 → StreamReadCtx I.State →
    Option (Except OhArchiveErr Unit × StreamReadCtx I.State)
  | 0, _, _ => none
  | fuel + 1, input, ctx =>
      if ctx.decompressCancel then some (.error .cancelError, ctx)
      else
        let r := I.inflate ctx.zlibStream input ctx.outBlockSize.toNat
        let ctx := { ctx with zlibStream := r.state }
        match r.ret with
        | .streamEnd => some (streamReadHandle handler ctx r.output)
        | .ok =>
            match streamReadHandle handler ctx r.output with
            | (.error err, ctx) => some (.error err, ctx)
            | (.ok (), ctx) =>
                -- strm->avail_in > 0 && strm->avail_out == 0
                if r.consumed < input.length ∧ r.output.length = ctx.outBlockSize.toNat then
                  streamReadLoop fuel (input.drop r.consumed) ctx
                else some (.ok (), ctx)
        | _ => some (.error .deflateError, ctx)

/-- `OH_Archive_StreamRead_Update` of the buffer `data`. `avail_in` has 32 bits. -/
def streamReadUpdate (fuel : Nat) (data : List UInt8) (ctx : StreamReadCtx I.State) :
    Option (Except OhArchiveErr Unit × StreamReadCtx I.State) :=
  if data.length = 0 then some (.error .paramError, ctx)
  else streamReadLoop handler fuel (data.take (data.length % 2 ^ 32))
    { ctx with totalInSize := ctx.totalInSize + UInt64.ofNat data.length }

/-- `OH_Archive_StreamRead_End`. -/
def streamReadEnd (ctx : StreamReadCtx I.State) : StreamInfo where
  totalInSize := ctx.totalInSize
  totalOutSize := ctx.totalOutSize
  checksum := ctx.crc

/-- Successive updates that all succeed. -/
def streamReadUpdates (fuel : Nat) : List (List UInt8) → StreamReadCtx I.State →
    Option (StreamReadCtx I.State)
  | [], ctx => some ctx
  | data :: chunks, ctx =>
      match streamReadUpdate handler fuel data ctx with
      | some (.ok (), ctx) => streamReadUpdates fuel chunks ctx
      | _ => none

variable (I)

/-- Create, start, update with each of `chunks`, end: `some` when every call succeeds. -/
def streamReadRun (fuel : Nat) (config : StreamConfig) (chunks : List (List UInt8)) :
    Option (List (List UInt8) × StreamInfo) := do
  let ctx ← streamReadCreate I config
  let ctx ← streamReadUpdates handler fuel chunks (streamReadStart I ctx)
  return (ctx.delivered, streamReadEnd ctx)

end

end FileApi.Compress
