import FileApi.Compress.StreamWrite

/-!
# Streaming compression: single calls

One lemma for each flush and each call: what it leaves alone, that the stream under the handle
can still be used, and, while everything succeeds, what was taken, given and counted since the
start.
-/

namespace FileApi.Compress

open Zlib

variable {D : Decoder} {Z : Deflate D}

/-! ## What a flush leaves alone -/

/-- What handing over data does not change; the buffers handed over only grow. -/
structure WriteKept {σ : Type} (ctx ctx' : StreamWriteCtx σ) : Prop where
  checksum : ctx'.checksum = ctx.checksum
  bufSize : ctx'.bufSize = ctx.bufSize
  state : ctx'.state = ctx.state
  result : ctx'.result = ctx.result
  totalIn : ctx'.totalIn = ctx.totalIn
  crc : ctx'.crc = ctx.crc
  handed : ctx.handed <+: ctx'.handed

theorem WriteKept.refl {σ : Type} (ctx : StreamWriteCtx σ) : WriteKept ctx ctx :=
  ⟨rfl, rfl, rfl, rfl, rfl, rfl, List.prefix_refl _⟩

theorem WriteKept.trans {σ : Type} {a b c : StreamWriteCtx σ} (h : WriteKept a b)
    (h' : WriteKept b c) : WriteKept a c :=
  ⟨h'.checksum.trans h.checksum, h'.bufSize.trans h.bufSize, h'.state.trans h.state,
    h'.result.trans h.result, h'.totalIn.trans h.totalIn, h'.crc.trans h.crc,
    h.handed.trans h'.handed⟩

theorem streamWriteHandle_kept {σ : Type} (ctx : StreamWriteCtx σ) :
    WriteKept ctx (streamWriteHandle ctx).2 ∧
      (streamWriteHandle ctx).2.zstream = ctx.zstream ∧
      (streamWriteHandle ctx).2.buf = ctx.buf := by
  unfold streamWriteHandle
  simp only
  split
  · exact ⟨⟨rfl, rfl, rfl, rfl, rfl, rfl, List.prefix_append _ _⟩, rfl, rfl⟩
  · exact ⟨⟨rfl, rfl, rfl, rfl, rfl, rfl, List.prefix_append _ _⟩, rfl, rfl⟩

variable {ret : Except OhArchiveErr Unit}

theorem streamWriteHandleFull_kept {σ : Type} {ctx ctx' : StreamWriteCtx σ}
    (h : streamWriteHandleFull ctx = (ret, ctx')) :
    WriteKept ctx ctx' ∧ ctx'.zstream = ctx.zstream ∧ ctx'.buf.length ≤ ctx.buf.length := by
  obtain ⟨hkept, hzstream, hbuf⟩ := streamWriteHandle_kept ctx
  unfold streamWriteHandleFull at h
  split at h
  · split at h
    · next hhandle =>
      rw [hhandle] at hkept hzstream hbuf
      cases h
      exact ⟨hkept, hzstream, by rw [hbuf]⟩
    · next hhandle =>
      rw [hhandle] at hkept hzstream
      cases h
      exact ⟨⟨hkept.checksum, hkept.bufSize, hkept.state, hkept.result, hkept.totalIn, hkept.crc,
        hkept.handed⟩, hzstream, by simp⟩
  · cases h
    exact ⟨WriteKept.refl _, rfl, Nat.le_refl _⟩

theorem flushInternalData_kept {flushMode : FlushMode} : ∀ (fuel : Nat)
    {ctx ctx' : StreamWriteCtx Z.State} {ret : Except OhArchiveErr Unit},
    flushInternalData Z flushMode fuel ctx = some (ret, ctx') → WriteKept ctx ctx'
  | 0, _, _, _, h => by cases h
  | fuel + 1, ctx, ctx', ret, h => by
      unfold flushInternalData at h
      split at h
      · cases h
        exact WriteKept.refl _
      split at h
      · next hfull =>
        cases h
        exact (streamWriteHandleFull_kept hfull).1
      next ctx1 hfull =>
      have hkept := (streamWriteHandleFull_kept hfull).1
      simp only at h
      split at h
      · cases h
        exact ⟨hkept.checksum, hkept.bufSize, hkept.state, hkept.result, hkept.totalIn, hkept.crc,
          hkept.handed⟩
      · split at h
        · have hkept' := flushInternalData_kept fuel h
          exact hkept.trans ⟨hkept'.checksum, hkept'.bufSize, hkept'.state, hkept'.result,
            hkept'.totalIn, hkept'.crc, hkept'.handed⟩
        · cases h
          exact ⟨hkept.checksum, hkept.bufSize, hkept.state, hkept.result, hkept.totalIn, hkept.crc,
            hkept.handed⟩
      · cases h
        exact ⟨hkept.checksum, hkept.bufSize, hkept.state, hkept.result, hkept.totalIn, hkept.crc,
          hkept.handed⟩

/-! ## The stream under the handle -/

/-- The stream is there, has taken `b` and given `out`, and was never used without its state. -/
structure WriteAt (Z : Deflate D) (ctx : StreamWriteCtx Z.State) (s : Z.State)
    (b out : List UInt8) : Prop where
  state : ctx.zstream.state = some s
  holds : Z.Holds s b out
  drained : Z.finishing s = true → ctx.zstream.nextIn = []
  reused : ctx.zstream.reused = false
  room : 0 < ctx.bufSize.toNat
  filled : ctx.buf.length ≤ ctx.bufSize.toNat

variable {ctx ctx' : StreamWriteCtx Z.State}

theorem WriteAt.of_same_stream {s : Z.State} {b out : List UInt8} (hat : WriteAt Z ctx s b out)
    (hzstream : ctx'.zstream = ctx.zstream) (hsize : ctx'.bufSize = ctx.bufSize)
    (hbuf : ctx'.buf.length ≤ ctx.buf.length) :
    WriteAt Z ctx' s b out := by
  refine ⟨?_, hat.holds, ?_, ?_, ?_, ?_⟩
  · rw [hzstream, hat.state]
  · rw [hzstream]
    exact hat.drained
  · rw [hzstream, hat.reused]
  · rw [hsize]
    exact hat.room
  · rw [hsize]
    exact hbuf.trans hat.filled

/-- The stream of the handle can be used. -/
def WriteLive (Z : Deflate D) (ctx : StreamWriteCtx Z.State) : Prop :=
  ∃ s b out, WriteAt Z ctx s b out

/-- The output `out` since `base` is what the handler was given and what is in the buffer. -/
structure WriteAccounts {σ : Type} (ctx : StreamWriteCtx σ) (base given : List (List UInt8))
    (out : List UInt8) : Prop where
  handed : ctx.handed = base ++ given
  out : out = given.flatten ++ ctx.buf
  totalOut : ctx.totalOut = UInt64.ofNat given.flatten.length

theorem streamWriteHandleFull_spec {s : Z.State} {b out : List UInt8} (hat : WriteAt Z ctx s b out)
    (h : streamWriteHandleFull ctx = (ret, ctx')) :
    WriteAt Z ctx' s b out ∧
    (ret = .ok () → ctx'.buf.length < ctx'.bufSize.toNat ∧
      ∀ {base given}, WriteAccounts ctx base given out →
        ∃ given', WriteAccounts ctx' base given' out) := by
  obtain ⟨hkept, hzstream, hbuf⟩ := streamWriteHandleFull_kept h
  refine ⟨hat.of_same_stream hzstream hkept.bufSize hbuf, ?_⟩
  rintro rfl
  unfold streamWriteHandleFull at h
  split at h
  · split at h
    · cases h
    next hhandle =>
    cases h
    unfold streamWriteHandle at hhandle
    simp only at hhandle
    split at hhandle
    · cases hhandle
    cases hhandle
    refine ⟨hat.room, fun {base given} hacc => ⟨given ++ [ctx.buf], ?_, ?_, ?_⟩⟩
    · rw [← List.append_assoc, ← hacc.handed]
    · simpa using hacc.out
    · simp [hacc.totalOut]
  · next hroom =>
    cases h
    have hfilled := hat.filled
    exact ⟨by omega, fun {base given} hacc => ⟨given, hacc⟩⟩

/-- Input without a flush: all of it is taken, or the handler refused a buffer and the stream is
as usable as before. -/
theorem flushInternalData_noFlush : ∀ (fuel : Nat) {ctx ctx' : StreamWriteCtx Z.State}
    {s : Z.State} {b out : List UInt8} {ret : Except OhArchiveErr Unit},
    WriteAt Z ctx s b out → Z.finishing s = false → ctx.zstream.nextIn ≠ [] →
    flushInternalData Z .noFlush fuel ctx = some (ret, ctx') →
    WriteLive Z ctx' ∧ (ret = .ok () → ∃ s' out', WriteAt Z ctx' s' (b ++ ctx.zstream.nextIn) out' ∧
      Z.finishing s' = false ∧ ctx'.zstream.nextIn = [] ∧
      ∀ {base given}, WriteAccounts ctx base given out →
        ∃ given', WriteAccounts ctx' base given' out')
  | 0, _, _, _, _, _, _, _, _, _, h => by cases h
  | fuel + 1, ctx, ctx', s, b, out, ret, hat, hgoing, hinput, h => by
      unfold flushInternalData at h
      split at h
      · cases h
        exact ⟨⟨s, b, out, hat⟩, fun hok => by cases hok⟩
      split at h
      · next hfull =>
        cases h
        exact ⟨⟨s, b, out, (streamWriteHandleFull_spec hat hfull).1⟩, fun hok => by cases hok⟩
      next ctx1 hfull =>
      obtain ⟨hat1, hroom⟩ := streamWriteHandleFull_spec hat hfull
      obtain ⟨hroom, hacc⟩ := hroom rfl
      have hnext := congrArg ZStream.nextIn (streamWriteHandleFull_kept hfull).2.1
      have hzstate := hat1.state
      rw [← hnext] at hinput
      obtain ⟨hstep, hholds⟩ := Z.write hat1.holds hgoing hinput
        (Nat.sub_pos_of_lt hroom)
      simp only [ZStream.deflate, hzstate] at h
      set r := Z.deflate s ctx1.zstream.nextIn (ctx1.bufSize.toNat - ctx1.buf.length) .noFlush
        with hr
      set ctx2 : StreamWriteCtx Z.State := { ctx1 with
        zstream := ⟨some r.state, ctx1.zstream.nextIn.drop r.consumed, ctx1.zstream.reused⟩
        buf := ctx1.buf ++ r.output } with hctx2
      have hat2 : WriteAt Z ctx2 r.state (b ++ ctx1.zstream.nextIn.take r.consumed)
          (out ++ r.output) := by
        refine ⟨rfl, hholds, fun hfin => ?_, hat1.reused, hat1.room, ?_⟩
        · rw [hstep.finishing] at hfin
          cases hfin
        · have hle := hstep.output_le
          simp only [hctx2, List.length_append]
          omega
      have hacc2 : ∀ {base given}, WriteAccounts ctx base given out →
          ∃ given', WriteAccounts ctx2 base given' (out ++ r.output) := by
        intro base given hctx
        obtain ⟨given', hctx1⟩ := hacc hctx
        exact ⟨given', hctx1.handed, by simp [hctx2, hctx1.out], hctx1.totalOut⟩
      rw [hstep.ret] at h
      simp only [reduceCtorEq, or_false] at h
      split at h
      · -- input is left: the next turn
        next hmore =>
        obtain ⟨hlive, hok⟩ := flushInternalData_noFlush fuel hat2 hstep.finishing hmore h
        refine ⟨hlive, fun hret => ?_⟩
        obtain ⟨s', out', hat', hgoing', hnext', hacc'⟩ := hok hret
        rw [← hnext]
        simp only [hctx2, List.append_assoc, List.take_append_drop] at hat'
        refine ⟨s', out', hat', hgoing', hnext', fun {base given} hctx => ?_⟩
        obtain ⟨given2, hctx2⟩ := hacc2 hctx
        exact hacc' hctx2
      · next hdone =>
        obtain ⟨-, rfl⟩ := Prod.mk.injEq .. ▸ Option.some.inj h
        have hdone : ctx1.zstream.nextIn.drop r.consumed = [] := by simpa using hdone
        have htake : ctx1.zstream.nextIn.take r.consumed = ctx1.zstream.nextIn := by
          conv_rhs => rw [← List.take_append_drop r.consumed ctx1.zstream.nextIn, hdone,
            List.append_nil]
        refine ⟨⟨_, _, _, hat2⟩, fun _ => ⟨r.state, _, ?_, hstep.finishing, hdone, hacc2⟩⟩
        rw [← hnext, ← htake]
        exact hat2

/-- Finishing the stream. -/
theorem flushInternalData_finish : ∀ (fuel : Nat) {ctx ctx' : StreamWriteCtx Z.State}
    {s : Z.State} {b out : List UInt8} {ret : Except OhArchiveErr Unit},
    WriteAt Z ctx s b out → flushInternalData Z .finish fuel ctx = some (ret, ctx') →
    WriteLive Z ctx' ∧ (ret = .ok () → ∃ out', D.complete out' ∧
      D.out out' = b ++ ctx.zstream.nextIn ∧
      ∀ {base given}, WriteAccounts ctx base given out →
        ∃ given', WriteAccounts ctx' base given' out')
  | 0, _, _, _, _, _, _, _, h => by cases h
  | fuel + 1, ctx, ctx', s, b, out, ret, hat, h => by
      unfold flushInternalData at h
      split at h
      · cases h
        exact ⟨⟨s, b, out, hat⟩, fun hok => by cases hok⟩
      split at h
      · next hfull =>
        cases h
        exact ⟨⟨s, b, out, (streamWriteHandleFull_spec hat hfull).1⟩, fun hok => by cases hok⟩
      next ctx1 hfull =>
      obtain ⟨hat1, hroom⟩ := streamWriteHandleFull_spec hat hfull
      obtain ⟨hroom, hacc⟩ := hroom rfl
      have hnext := congrArg ZStream.nextIn (streamWriteHandleFull_kept hfull).2.1
      have hzstate := hat1.state
      obtain ⟨hstep, hholds⟩ := Z.finish hat1.holds hat1.drained (Nat.sub_pos_of_lt hroom)
      simp only [ZStream.deflate, hzstate] at h
      set r := Z.deflate s ctx1.zstream.nextIn (ctx1.bufSize.toNat - ctx1.buf.length) .finish
        with hr
      set ctx2 : StreamWriteCtx Z.State := { ctx1 with
        zstream := ⟨some r.state, ctx1.zstream.nextIn.drop r.consumed, ctx1.zstream.reused⟩
        buf := ctx1.buf ++ r.output } with hctx2
      have hat2 : WriteAt Z ctx2 r.state (b ++ ctx1.zstream.nextIn.take r.consumed)
          (out ++ r.output) := by
        refine ⟨rfl, hholds, fun hfin => ?_, hat1.reused, hat1.room, ?_⟩
        · simp [hctx2, hstep.finishing hfin]
        · have hle := hstep.output_le
          simp only [hctx2, List.length_append]
          omega
      have hacc2 : ∀ {base given}, WriteAccounts ctx base given out →
          ∃ given', WriteAccounts ctx2 base given' (out ++ r.output) := by
        intro base given hctx
        obtain ⟨given', hctx1⟩ := hacc hctx
        exact ⟨given', hctx1.handed, by simp [hctx2, hctx1.out], hctx1.totalOut⟩
      rcases hstep.ret with hret | hret
      · rw [hret] at h
        simp only [or_true, if_true] at h
        obtain ⟨hlive, hok⟩ := flushInternalData_finish fuel hat2 h
        refine ⟨hlive, fun hret => ?_⟩
        obtain ⟨out', hcomplete, hout, hacc'⟩ := hok hret
        refine ⟨out', hcomplete, ?_, fun {base given} hctx => ?_⟩
        · rw [hout, ← hnext]
          simp [hctx2]
        · obtain ⟨given2, hctx2⟩ := hacc2 hctx
          exact hacc' hctx2
      · rw [hret] at h
        obtain ⟨-, rfl⟩ := Prod.mk.injEq .. ▸ Option.some.inj h
        obtain ⟨-, hcomplete, hout⟩ := hstep.finished hret
        exact ⟨⟨_, _, _, hat2⟩, fun _ => ⟨_, hcomplete, by rw [hout, hnext], hacc2⟩⟩

/-! ## Single calls -/

variable {ctx : StreamWriteCtx Z.State}

theorem streamWriteCreate_live {config : StreamConfig} (h : streamWriteCreate Z config = some ctx) :
    WriteLive Z ctx := by
  unfold streamWriteCreate at h
  split at h
  · cases h
  split at h
  · cases h
  next hblock =>
  cases h
  have hle : deflateBlockSizeThreshold.toNat ≤ config.blockSize.toNat :=
    UInt32.le_iff_toNat_le.mp (UInt32.not_lt.mp hblock)
  have hpos : 0 < deflateBlockSizeThreshold.toNat := by decide
  exact ⟨Z.reset, [], [], rfl, Z.reset_holds, fun _ => rfl, rfl, hpos.trans_le hle, Nat.zero_le _⟩

theorem WriteAt.deflateReset {s : Z.State} {b out : List UInt8} (hat : WriteAt Z ctx s b out) :
    ctx.zstream.deflateReset Z = (.ok, { ctx.zstream with state := some Z.reset }) := by
  simp only [ZStream.deflateReset, hat.state]

theorem streamWriteCancel_live (hlive : WriteLive Z ctx) :
    WriteLive Z (streamWriteCancel Z ctx).2 := by
  obtain ⟨s, b, out, hat⟩ := hlive
  unfold streamWriteCancel
  split
  · exact ⟨s, b, out, hat⟩
  · rw [hat.deflateReset]
    refine ⟨Z.reset, [], [], rfl, Z.reset_holds, fun hfin => ?_, hat.reused, hat.room, hat.filled⟩
    rw [Z.reset_finishing] at hfin
    cases hfin

/-- What a started handle looks like: `b` was taken since the handler was at `base`, and
everything is counted. -/
structure WriteSession (Z : Deflate D) (ctx : StreamWriteCtx Z.State) (base : List (List UInt8))
    (b : List UInt8) : Prop where
  at_ : ∃ s given out, WriteAt Z ctx s b out ∧ Z.finishing s = false ∧
    WriteAccounts ctx base given out
  state : ctx.state = .started
  result : ctx.result = none
  totalIn : ctx.totalIn = UInt64.ofNat b.length
  crc : ctx.crc = if ctx.checksum = .crc32 then FileApi.crc32 0 b else 0

theorem streamWriteStart_spec {cb : Option OutputHandler} (hlive : WriteLive Z ctx)
    (h : streamWriteStart Z cb ctx = (ret, ctx')) :
    WriteLive Z ctx' ∧ (ret = .ok () → WriteSession Z ctx' ctx.handed [] ∧
      ctx'.handed = ctx.handed) := by
  unfold streamWriteStart at h
  split at h
  · cases h
    exact ⟨hlive, fun hok => by cases hok⟩
  next writeCallback =>
  simp only at h
  set ctx1 := if ctx.state ≠ .created ∧ ctx.state ≠ .ended ∧ ctx.state ≠ .canceled then
    (streamWriteCancel Z ctx).2 else ctx with hctx1
  have hlive1 : WriteLive Z ctx1 := by
    rw [hctx1]
    split
    · exact streamWriteCancel_live hlive
    · exact hlive
  have hhanded : ctx1.handed = ctx.handed := by
    rw [hctx1]
    split
    · unfold streamWriteCancel
      split <;> rfl
    · rfl
  obtain ⟨s, b, out, hat⟩ := hlive1
  simp only [hat.deflateReset, ne_eq, not_true_eq_false, if_false] at h
  cases h
  have hat' : WriteAt Z { ctx1 with
      zstream := { ctx1.zstream with state := some Z.reset }
      buf := [], state := .started, result := none
      totalOut := 0, totalIn := 0, crc := 0, writeCallback } Z.reset [] [] := by
    refine ⟨rfl, Z.reset_holds, fun hfin => ?_, hat.reused, hat.room, Nat.zero_le _⟩
    rw [Z.reset_finishing] at hfin
    cases hfin
  refine ⟨⟨_, _, _, hat'⟩, fun _ => ⟨⟨⟨Z.reset, [], [], hat', Z.reset_finishing, ?_⟩, rfl, rfl,
    rfl, ?_⟩, hhanded⟩⟩
  · exact ⟨by simp [hhanded], rfl, rfl⟩
  · simp

theorem WriteAt.pushed {s : Z.State} {b out data : List UInt8} {totalIn : UInt64} {crc : UInt32}
    (hat : WriteAt Z ctx s b out) (hgoing : Z.finishing s = false) :
    WriteAt Z { ctx with zstream := { ctx.zstream with nextIn := data }, totalIn, crc } s b out := by
  refine ⟨hat.state, hat.holds, fun hfin => ?_, hat.reused, hat.room, hat.filled⟩
  rw [hgoing] at hfin
  cases hfin

/-- An update in a running session, of a size `deflate` can be given, while it is not being
finished. -/
theorem streamWriteUpdate_live {fuel : Nat} {data : List UInt8} (hlive : WriteLive Z ctx)
    (hok : ctx.result = none → ctx.state = .started → 0 < data.length ∧ data.length < 2 ^ 32 ∧
      ∀ s, ctx.zstream.state = some s → Z.finishing s = false)
    (h : streamWriteUpdate Z fuel (some data) ctx = some (ret, ctx')) : WriteLive Z ctx' := by
  unfold streamWriteUpdate at h
  simp only at h
  split at h
  · cases h
    exact hlive
  next hresult =>
  split at h
  · cases h
    exact hlive
  next hstate =>
  obtain ⟨hpos, hsize, hgoing⟩ := hok hresult (by simpa using hstate)
  obtain ⟨s, b, out, hat⟩ := hlive
  unfold pushDataSequential at h
  rw [Nat.mod_eq_of_lt hsize, List.take_length] at h
  have hne : data ≠ [] := List.ne_nil_of_length_pos hpos
  exact (flushInternalData_noFlush fuel (hat.pushed (hgoing s hat.state)) (hgoing s hat.state) hne
    h).1

theorem streamWriteUpdate_session {fuel : Nat} {data b : List UInt8} {base : List (List UInt8)}
    (hsession : WriteSession Z ctx base b) (hpos : 0 < data.length) (hsize : data.length < 2 ^ 32)
    (h : streamWriteUpdate Z fuel (some data) ctx = some (.ok (), ctx')) :
    WriteSession Z ctx' base (b ++ data) ∧ ctx'.zstream.nextIn = [] ∧
      ctx'.checksum = ctx.checksum := by
  obtain ⟨⟨s, given, out, hat, hgoing, hacc⟩, hstate, hresult, htotal, hcrc⟩ := hsession
  unfold streamWriteUpdate at h
  simp only [hresult, hstate, ne_eq, not_true_eq_false, if_false] at h
  unfold pushDataSequential at h
  rw [Nat.mod_eq_of_lt hsize, List.take_length] at h
  have hkept := flushInternalData_kept fuel h
  obtain ⟨-, hok⟩ := flushInternalData_noFlush fuel (hat.pushed hgoing) hgoing
    (List.ne_nil_of_length_pos hpos) h
  obtain ⟨s', out', hat', hgoing', hnext', hacc'⟩ := hok rfl
  obtain ⟨given', hacc'⟩ := hacc' ⟨hacc.handed, hacc.out, hacc.totalOut⟩
  refine ⟨⟨⟨s', given', out', hat', hgoing', hacc'⟩, hkept.state.trans hstate,
    hkept.result.trans hresult, ?_, ?_⟩, hnext', hkept.checksum⟩
  · rw [hkept.totalIn, htotal, List.length_append, UInt64.ofNat_add]
  · rw [hkept.crc, hkept.checksum]
    simp only
    split
    · next hcrc32 => rw [hcrc, if_pos hcrc32, crc32_append]
    · next hcrc32 => rw [hcrc, if_neg hcrc32]

theorem streamWriteEnd_live {fuel : Nat} {ret : Except OhArchiveErr StreamInfo}
    (hlive : WriteLive Z ctx) (h : streamWriteEnd Z fuel ctx = some (ret, ctx')) :
    WriteLive Z ctx' := by
  obtain ⟨s, b, out, hat⟩ := hlive
  unfold streamWriteEnd at h
  split at h
  · cases h
    exact ⟨s, b, out, hat⟩
  split at h
  · cases h
  · next hflush =>
    cases h
    exact (flushInternalData_finish fuel hat hflush).1
  · next ctx1 hflush =>
    obtain ⟨s1, b1, out1, hat1⟩ := (flushInternalData_finish fuel hat hflush).1
    obtain ⟨hkept, hzstream, hbuf⟩ := streamWriteHandle_kept ctx1
    split at h
    all_goals
      next hhandle =>
      rw [hhandle] at hkept hzstream hbuf
      cases h
      exact ⟨s1, b1, out1, hat1.of_same_stream hzstream hkept.bufSize (congrArg _ hbuf).le⟩

theorem streamWriteEnd_session {fuel : Nat} {b : List UInt8} {base : List (List UInt8)}
    {info : StreamInfo} (hsession : WriteSession Z ctx base b) (hnext : ctx.zstream.nextIn = [])
    (h : streamWriteEnd Z fuel ctx = some (.ok info, ctx')) :
    ∃ given, ctx'.handed = base ++ given ∧ D.complete given.flatten ∧ D.out given.flatten = b ∧
      info.totalInSize = UInt64.ofNat b.length ∧
      info.totalOutSize = UInt64.ofNat given.flatten.length ∧
      info.checksum = if ctx.checksum = .crc32 then FileApi.crc32 0 b else 0 := by
  obtain ⟨⟨s, given, out, hat, -, hacc⟩, hstate, hresult, htotal, hcrc⟩ := hsession
  unfold streamWriteEnd at h
  split at h
  · cases h
  split at h
  · cases h
  · cases h
  next ctx1 hflush =>
  have hkept := flushInternalData_kept fuel hflush
  obtain ⟨-, hok⟩ := flushInternalData_finish fuel hat hflush
  obtain ⟨out', hcomplete, hout, hacc'⟩ := hok rfl
  obtain ⟨given', hacc'⟩ := hacc' hacc
  rw [hnext, List.append_nil] at hout
  split at h
  · cases h
  next ctx2 hhandle =>
  unfold streamWriteHandle at hhandle
  simp only at hhandle
  split at hhandle
  · cases hhandle
  cases hhandle
  cases h
  -- what was in the buffer is the last one
  have hwhole : (given' ++ [ctx1.buf]).flatten = out' := by simp [hacc'.out]
  refine ⟨given' ++ [ctx1.buf], ?_, by rwa [hwhole], by rwa [hwhole], ?_, ?_, ?_⟩
  · rw [← List.append_assoc, ← hacc'.handed]
  · exact hkept.totalIn.trans htotal
  · simp [hacc'.totalOut]
  · exact hkept.crc.trans hcrc

end FileApi.Compress
