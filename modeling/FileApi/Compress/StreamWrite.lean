import FileApi.Compress.StreamRead
import FileApi.Zlib.Deflate

/-!
# Streaming compression

`OH_Archive_StreamWrite_*` (`oh_archive_streamwrite.c:88-307`) without an accelerator plugin.
`deflate` is a parameter that keeps the contract of `Zlib.Deflate`. `handed` is the list of the
buffers the output handlers of the handle were given since it was created.
-/

namespace FileApi.Compress

open Zlib

/-- `WriteStreamState`. -/
inductive WriteStreamState where
  | created | started | canceled | ended
  deriving DecidableEq

/-- `struct ArchiveStreamWriteCtx`. `result` is `none` for `OH_ARCHIVE_OK`; `buf` is the part of
the output buffer that is filled, so `avail_out` is what is left of `bufSize`. -/
structure StreamWriteCtx (σ : Type) where
  checksum : StreamChecksumAlg
  bufSize : UInt32
  zstream : ZStream σ
  state : WriteStreamState := .created
  result : Option OhArchiveErr := none
  totalIn : UInt64 := 0
  totalOut : UInt64 := 0
  crc : UInt32 := 0
  buf : List UInt8 := []
  writeCallback : OutputHandler := fun _ _ => 0
  handed : List (List UInt8) := []

/-- `DEFLATE_BLOCK_SIZE_THRESHOLD`. -/
def deflateBlockSizeThreshold : UInt32 := 32 * 1024

section

variable {D : Decoder} (Z : Deflate D)

/-- `OH_Archive_StreamWrite_Create` with `CheckStreamWriteCreateParam` and
`InitStreamWriteCtx`. -/
def streamWriteCreate (config : StreamConfig) : Option (StreamWriteCtx Z.State) :=
  if config.method ≠ .deflate then none
  else if config.blockSize < deflateBlockSizeThreshold then none
  else some {
    checksum := config.checksum, bufSize := config.blockSize, zstream := ⟨some Z.reset, [], false⟩ }

/-- `ctx->writeCallback(ctx->buf, len, ctx->userData)` for the filled part of the buffer. -/
def streamWriteHandle {σ : Type} (ctx : StreamWriteCtx σ) :
    Except OhArchiveErr Unit × StreamWriteCtx σ :=
  let len := ctx.writeCallback ctx.handed ctx.buf
  let ctx := { ctx with handed := ctx.handed ++ [ctx.buf] }
  if len ≠ UInt64.ofNat ctx.buf.length then (.error .streamOutputError, ctx)
  else (.ok (), { ctx with totalOut := ctx.totalOut + UInt64.ofNat ctx.buf.length })

/-- The full buffer goes to the handler and starts again. -/
def streamWriteHandleFull {σ : Type} (ctx : StreamWriteCtx σ) :
    Except OhArchiveErr Unit × StreamWriteCtx σ :=
  if ctx.buf.length = ctx.bufSize.toNat then
    match streamWriteHandle ctx with
    | (.error err, ctx) => (.error err, ctx)
    | (.ok (), ctx) => (.ok (), { ctx with buf := [] })
  else (.ok (), ctx)

/-- `FlushInternalData`; `none` when `fuel` turns are not enough. -/
def flushInternalData (flushMode : FlushMode) : Nat → StreamWriteCtx Z.State →
    Option (Except OhArchiveErr Unit × StreamWriteCtx Z.State)
  | 0, _ => none
  | fuel + 1, ctx =>
      match ctx.result with
      | some err => some (.error err, ctx)
      | none =>
          match streamWriteHandleFull ctx with
          | (.error err, ctx) => some (.error err, ctx)
          | (.ok (), ctx) =>
              let (ret, output, zstream) :=
                ctx.zstream.deflate Z (ctx.bufSize.toNat - ctx.buf.length) flushMode
              let ctx := { ctx with zstream, buf := ctx.buf ++ output }
              match ret with
              | .streamEnd => some (.ok (), ctx)
              | .ok =>
                  if ctx.zstream.nextIn ≠ [] ∨ flushMode = .finish then
                    flushInternalData flushMode fuel ctx
                  else some (.ok (), ctx)
              | _ => some (.error .dataError, { ctx with zstream := ctx.zstream.deflateEnd Z })

/-- `PushDataSequential`. `avail_in` and the length of `crc32` have 32 bits. -/
def pushDataSequential (fuel : Nat) (data : List UInt8) (ctx : StreamWriteCtx Z.State) :
    Option (Except OhArchiveErr Unit × StreamWriteCtx Z.State) :=
  let seen := data.take (data.length % 2 ^ 32)
  flushInternalData Z .noFlush fuel { ctx with
    zstream := { ctx.zstream with nextIn := seen }
    totalIn := ctx.totalIn + UInt64.ofNat data.length
    crc := if ctx.checksum = .crc32 then FileApi.crc32 ctx.crc seen else ctx.crc }

/-- `OH_Archive_StreamWrite_Cancel`. -/
def streamWriteCancel (ctx : StreamWriteCtx Z.State) :
    Except OhArchiveErr Unit × StreamWriteCtx Z.State :=
  if ctx.state ≠ .started then (.error .paramError, ctx)
  else
    (.ok (), { ctx with
      result := some .cancelError
      zstream := (ctx.zstream.deflateReset Z).2
      state := .canceled })

/-- `OH_Archive_StreamWrite_Start`. -/
def streamWriteStart (writeCallback : Option OutputHandler) (ctx : StreamWriteCtx Z.State) :
    Except OhArchiveErr Unit × StreamWriteCtx Z.State :=
  match writeCallback with
  | none => (.error .paramError, ctx)
  | some writeCallback =>
      let ctx :=
        if ctx.state ≠ .created ∧ ctx.state ≠ .ended ∧ ctx.state ≠ .canceled then
          (streamWriteCancel Z ctx).2
        else ctx
      let (ret, zstream) := ctx.zstream.deflateReset Z
      let ctx := { ctx with zstream }
      if ret ≠ .ok then (.error .deflateError, ctx)
      else
        (.ok (), { ctx with
          buf := [], state := .started, result := none
          totalOut := 0, totalIn := 0, crc := 0, writeCallback })

/-- `OH_Archive_StreamWrite_Update`; `data` is `none` for a null pointer. -/
def streamWriteUpdate (fuel : Nat) (data : Option (List UInt8)) (ctx : StreamWriteCtx Z.State) :
    Option (Except OhArchiveErr Unit × StreamWriteCtx Z.State) :=
  match data with
  | none => some (.error .paramError, ctx)
  | some data =>
      match ctx.result with
      | some err => some (.error err, ctx)
      | none =>
          if ctx.state ≠ .started then some (.error .paramError, ctx)
          else pushDataSequential Z fuel data ctx

/-- `OH_Archive_StreamWrite_End`. -/
def streamWriteEnd (fuel : Nat) (ctx : StreamWriteCtx Z.State) :
    Option (Except OhArchiveErr StreamInfo × StreamWriteCtx Z.State) :=
  if ctx.state ≠ .started ∧ ctx.state ≠ .canceled then some (.error .paramError, ctx)
  else
    match flushInternalData Z .finish fuel ctx with
    | none => none
    | some (.error err, ctx) => some (.error err, ctx)
    | some (.ok (), ctx) =>
        match streamWriteHandle ctx with
        | (.error err, ctx) => some (.error err, ctx)
        | (.ok (), ctx) =>
            some (.ok ⟨ctx.totalIn, ctx.totalOut, ctx.crc⟩, { ctx with state := .ended })

/-- A call on a handle. -/
inductive StreamWriteCall where
  | start (writeCallback : Option OutputHandler)
  | update (data : Option (List UInt8))
  | «end»
  | cancel

/-- What a call returns: the error, or the stream info where it is `OH_Archive_StreamWrite_End`. -/
abbrev StreamWriteResult := Except OhArchiveErr (Option StreamInfo)

/-- One call. -/
def streamWriteCall (fuel : Nat) (call : StreamWriteCall) (ctx : StreamWriteCtx Z.State) :
    Option (StreamWriteResult × StreamWriteCtx Z.State) :=
  match call with
  | .start writeCallback =>
      let (ret, ctx) := streamWriteStart Z writeCallback ctx
      some (ret.map fun _ => none, ctx)
  | .update data =>
      (streamWriteUpdate Z fuel data ctx).map fun (ret, ctx) => (ret.map fun _ => none, ctx)
  | .end => (streamWriteEnd Z fuel ctx).map fun (ret, ctx) => (ret.map some, ctx)
  | .cancel =>
      let (ret, ctx) := streamWriteCancel Z ctx
      some (ret.map fun _ => none, ctx)

/-- A call that was made, with the handle before and after it. -/
structure StreamWriteEvent (σ : Type) where
  call : StreamWriteCall
  before : StreamWriteCtx σ
  result : StreamWriteResult
  after : StreamWriteCtx σ

/-- The buffers the handler was given during a call. -/
def StreamWriteEvent.given {σ : Type} (e : StreamWriteEvent σ) : List (List UInt8) :=
  e.after.handed.drop e.before.handed.length

/-- The runs of one handle: any calls, each with enough turns for its loop. -/
inductive StreamWriteRun : StreamWriteCtx Z.State → List (StreamWriteEvent Z.State) →
    StreamWriteCtx Z.State → Prop where
  | nil (ctx : StreamWriteCtx Z.State) : StreamWriteRun ctx [] ctx
  | cons {ctx mid last : StreamWriteCtx Z.State} {log : List (StreamWriteEvent Z.State)}
      {call : StreamWriteCall} {result : StreamWriteResult} {fuel : Nat}
      (made : streamWriteCall Z fuel call ctx = some (result, mid))
      (rest : StreamWriteRun mid log last) :
      StreamWriteRun ctx (⟨call, ctx, result, mid⟩ :: log) last

end

end FileApi.Compress
