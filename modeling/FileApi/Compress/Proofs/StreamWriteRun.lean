import FileApi.Compress.Proofs.StreamWrite

/-!
# Streaming compression: whole runs

The handler is called only while the state is `W_STREAM_STARTED`, whatever the calls are. The
rest of the contract depends on `deflate` being asked for something it can do: an update of no
bytes is an error of `deflate`, and on every error the stream is released while the state stays.
-/

namespace FileApi.Compress

open Zlib

variable {D : Decoder} {Z : Deflate D}

/-- Whether a session is open after the calls of `log`: it was started and neither ended nor
cancelled since. -/
def sessionOpen {σ : Type} (log : List (StreamWriteEvent σ)) : Bool :=
  log.foldl (fun isOpen e =>
    match e.call, e.result with
    | .start _, .ok _ => true
    | .end, .ok _ => false
    | .cancel, .ok _ => false
    | _, _ => isOpen) false

/-- Whether the last call was a successful start. -/
def justStarted {σ : Type} (log : List (StreamWriteEvent σ)) : Bool :=
  log.getLast?.any fun e =>
    match e.call, e.result with
    | .start _, .ok _ => true
    | _, _ => false

/-- What a call must respect after the calls of `past`: an update that reaches `deflate` has a
size that is neither zero nor cut off at 32 bits and does not come while the stream is being
finished; an end right after a start finds no unread input of an older session. -/
def CallOk (Z : Deflate D) (past : List (StreamWriteEvent Z.State)) (ctx : StreamWriteCtx Z.State) :
    StreamWriteCall → Prop
  | .update (some data) => ctx.result = none → ctx.state = .started →
      0 < data.length ∧ data.length < 2 ^ 32 ∧
        ∀ s, ctx.zstream.state = some s → Z.finishing s = false
  | .end => justStarted past = true → ctx.zstream.nextIn = []
  | _ => True

/-- Every call of `log` respects `CallOk` after the calls of `past` and those before it. -/
def CallsOk (Z : Deflate D) (past log : List (StreamWriteEvent Z.State)) : Prop :=
  ∀ l₁ e l₂, log = l₁ ++ e :: l₂ → CallOk Z (past ++ l₁) e.before e.call

/-- A successful update with `data`. -/
def IsUpdate {σ : Type} (u : StreamWriteEvent σ) (data : List UInt8) : Prop :=
  u.call = .update (some data) ∧ u.result = .ok none

theorem callsOk_nil (past : List (StreamWriteEvent Z.State)) : CallsOk Z past [] := by
  intro l₁ e l₂ h
  simp at h

theorem callsOk_cons {past log : List (StreamWriteEvent Z.State)} {e : StreamWriteEvent Z.State} :
    CallsOk Z past (e :: log) ↔ CallOk Z past e.before e.call ∧ CallsOk Z (past ++ [e]) log := by
  refine ⟨fun h => ⟨by simpa using h [] e log rfl, fun l₁ e' l₂ hl => ?_⟩, ?_⟩
  · have hcallOk := h (e :: l₁) e' l₂ (by rw [hl]; rfl)
    simpa using hcallOk
  · rintro ⟨hcallOk, h⟩ l₁ e' l₂ hl
    cases l₁ with
    | nil =>
      obtain ⟨rfl, -⟩ := List.cons.inj hl
      simpa using hcallOk
    | cons e₁ l₁ =>
      obtain ⟨rfl, hlog⟩ := List.cons.inj hl
      simpa using h l₁ e' l₂ hlog

/-- The contract of the interface over the calls of `log`. -/
structure StreamWriteContract (D : Decoder) {σ : Type} (checksum : StreamChecksumAlg)
    (log : List (StreamWriteEvent σ)) : Prop where
  handlerBetween : ∀ l₁ e l₂, log = l₁ ++ e :: l₂ → e.given ≠ [] → sessionOpen l₁ = true
  zeroUpdate : ∀ e ∈ log, e.call = .update (some []) → e.after = e.before
  wholeStream : ∀ l₁ first updates last l₂ cb chunks info,
    log = l₁ ++ first :: (updates ++ last :: l₂) →
    first.call = .start cb → first.result = .ok none →
    List.Forall₂ IsUpdate updates chunks →
    last.call = .end → last.result = .ok (some info) →
    ∃ z, z = ((first :: (updates ++ [last])).flatMap StreamWriteEvent.given).flatten ∧
      D.complete z ∧ D.out z = chunks.flatten ∧
      info.totalInSize = UInt64.ofNat chunks.flatten.length ∧
      info.totalOutSize = UInt64.ofNat z.length ∧
      info.checksum = if checksum = .crc32 then FileApi.crc32 0 chunks.flatten else 0
  noReuse : ∀ e ∈ log, e.after.zstream.reused = false

/-- How the state of the handle follows the calls; a cancelled handle refuses to flush. -/
structure StateFollows {σ : Type} (alg : StreamChecksumAlg) (past : List (StreamWriteEvent σ))
    (ctx : StreamWriteCtx σ) : Prop where
  checksum : ctx.checksum = alg
  started : ctx.state = .started → sessionOpen past = true
  canceled : ctx.state = .canceled → ctx.result ≠ none

theorem sessionOpen_snoc {σ : Type} (past : List (StreamWriteEvent σ)) (e : StreamWriteEvent σ) :
    sessionOpen (past ++ [e]) =
      match e.call, e.result with
      | .start _, .ok _ => true
      | .end, .ok _ => false
      | .cancel, .ok _ => false
      | _, _ => sessionOpen past := by
  simp only [sessionOpen, List.foldl_append, List.foldl_cons, List.foldl_nil]

variable {alg : StreamChecksumAlg} {result : StreamWriteResult}

theorem StateFollows.of_kept {σ : Type} {past : List (StreamWriteEvent σ)}
    {ctx ctx' : StreamWriteCtx σ} {call : StreamWriteCall} (hfollows : StateFollows alg past ctx)
    (hchecksum : ctx'.checksum = ctx.checksum) (hstate : ctx'.state = ctx.state)
    (hresult : ctx'.result = ctx.result)
    (hopen : sessionOpen (past ++ [⟨call, ctx, result, ctx'⟩]) = sessionOpen past) :
    StateFollows alg (past ++ [⟨call, ctx, result, ctx'⟩]) ctx' := by
  refine ⟨hchecksum.trans hfollows.checksum, fun h => ?_, fun h => ?_⟩
  · rw [hopen]
    exact hfollows.started (hstate ▸ h)
  · rw [hresult]
    exact hfollows.canceled (hstate ▸ h)

/-- What one call does to the state and to the handler. -/
structure CallFollows {σ : Type} (alg : StreamChecksumAlg) (past : List (StreamWriteEvent σ))
    (call : StreamWriteCall) (ctx : StreamWriteCtx σ) (result : StreamWriteResult)
    (ctx' : StreamWriteCtx σ) : Prop where
  follows : StateFollows alg (past ++ [⟨call, ctx, result, ctx'⟩]) ctx'
  handed : ctx.handed <+: ctx'.handed
  between : ctx'.handed ≠ ctx.handed → sessionOpen past = true

variable {ctx ctx' : StreamWriteCtx Z.State} {past : List (StreamWriteEvent Z.State)}

variable {ret : Except OhArchiveErr Unit}

theorem streamWriteCancel_follows (hfollows : StateFollows alg past ctx)
    (h : streamWriteCancel Z ctx = (ret, ctx')) :
    CallFollows alg past .cancel ctx (ret.map fun _ => none) ctx' := by
  unfold streamWriteCancel at h
  split at h
  · cases h
    exact ⟨hfollows.of_kept rfl rfl rfl (by rw [sessionOpen_snoc]; rfl), List.prefix_refl _,
      fun hne => absurd rfl hne⟩
  · cases h
    refine ⟨⟨hfollows.checksum, fun hs => ?_, fun _ => ?_⟩, List.prefix_refl _,
      fun hne => absurd rfl hne⟩
    · cases hs
    · exact Option.some_ne_none _

theorem streamWriteStart_follows {cb : Option OutputHandler} (hfollows : StateFollows alg past ctx)
    (h : streamWriteStart Z cb ctx = (ret, ctx')) :
    CallFollows alg past (.start cb) ctx (ret.map fun _ => none) ctx' := by
  unfold streamWriteStart at h
  split at h
  · cases h
    exact ⟨hfollows.of_kept rfl rfl rfl (by rw [sessionOpen_snoc]; rfl), List.prefix_refl _,
      fun hne => absurd rfl hne⟩
  next writeCallback =>
  simp only at h
  set ctx1 := if ctx.state ≠ .created ∧ ctx.state ≠ .ended ∧ ctx.state ≠ .canceled then
    (streamWriteCancel Z ctx).2 else ctx with hctx1
  have hctx1 : ctx1.checksum = ctx.checksum ∧ ctx1.handed = ctx.handed ∧ ctx1.state ≠ .started ∧
      (ctx1.state = .canceled → ctx1.result ≠ none) := by
    rw [hctx1]
    split
    · next hstate =>
      unfold streamWriteCancel
      have hstarted : ctx.state = .started := by
        cases hs : ctx.state <;> simp_all
      simp [hstarted]
    · next hstate =>
      refine ⟨rfl, rfl, fun hs => ?_, hfollows.canceled⟩
      simp [hs] at hstate
  obtain ⟨hchecksum, hhanded, hstate, hresult⟩ := hctx1
  have hchecksum := hchecksum.trans hfollows.checksum
  split at h
  · cases h
    exact ⟨⟨hchecksum, fun hs => absurd hs hstate, hresult⟩, by simp [hhanded],
      fun hne => absurd hhanded hne⟩
  · cases h
    refine ⟨⟨hchecksum, fun _ => ?_, fun hs => ?_⟩, by simp [hhanded], fun hne => absurd hhanded hne⟩
    · rw [sessionOpen_snoc]
      rfl
    · cases hs

variable {fuel : Nat}

theorem streamWriteUpdate_follows {data : Option (List UInt8)}
    (hfollows : StateFollows alg past ctx)
    (h : streamWriteUpdate Z fuel data ctx = some (ret, ctx')) :
    CallFollows alg past (.update data) ctx (ret.map fun _ => none) ctx' := by
  have hsame : sessionOpen (past ++ [⟨.update data, ctx, ret.map fun _ => none, ctx'⟩]) =
      sessionOpen past := by
    rw [sessionOpen_snoc]
  unfold streamWriteUpdate at h
  split at h
  · cases h
    exact ⟨hfollows.of_kept rfl rfl rfl hsame, List.prefix_refl _, fun hne => absurd rfl hne⟩
  split at h
  · cases h
    exact ⟨hfollows.of_kept rfl rfl rfl hsame, List.prefix_refl _, fun hne => absurd rfl hne⟩
  split at h
  · cases h
    exact ⟨hfollows.of_kept rfl rfl rfl hsame, List.prefix_refl _, fun hne => absurd rfl hne⟩
  next hstate =>
  unfold pushDataSequential at h
  have hkept := flushInternalData_kept fuel h
  exact ⟨hfollows.of_kept hkept.checksum hkept.state hkept.result hsame, hkept.handed,
    fun _ => hfollows.started (by simpa using hstate)⟩

theorem streamWriteEnd_follows {ret : Except OhArchiveErr StreamInfo}
    (hfollows : StateFollows alg past ctx) (h : streamWriteEnd Z fuel ctx = some (ret, ctx')) :
    CallFollows alg past .end ctx (ret.map some) ctx' := by
  unfold streamWriteEnd at h
  split at h
  · cases h
    exact ⟨hfollows.of_kept rfl rfl rfl (by rw [sessionOpen_snoc]; rfl), List.prefix_refl _,
      fun hne => absurd rfl hne⟩
  next hstate =>
  by_cases hstarted : ctx.state = .started
  · split at h
    · cases h
    · next hflush =>
      cases h
      have hkept := flushInternalData_kept fuel hflush
      exact ⟨hfollows.of_kept hkept.checksum hkept.state hkept.result (by rw [sessionOpen_snoc]; rfl),
        hkept.handed, fun _ => hfollows.started hstarted⟩
    · next ctx1 hflush =>
      have hkept := flushInternalData_kept fuel hflush
      have hkept1 := (streamWriteHandle_kept ctx1).1
      split at h
      · next hhandle =>
        cases h
        rw [hhandle] at hkept1
        have hkept := hkept.trans hkept1
        exact ⟨hfollows.of_kept hkept.checksum hkept.state hkept.result (by rw [sessionOpen_snoc]; rfl),
          hkept.handed, fun _ => hfollows.started hstarted⟩
      · next hhandle =>
        cases h
        rw [hhandle] at hkept1
        exact ⟨⟨(hkept.trans hkept1).checksum.trans hfollows.checksum, nofun, nofun⟩,
          (hkept.trans hkept1).handed, fun _ => hfollows.started hstarted⟩
  · -- the handle is cancelled: the flush returns at once
    have hcanceled : ctx.state = .canceled := by
      by_contra hne
      exact hstate ⟨hstarted, hne⟩
    obtain ⟨err, herr⟩ := Option.ne_none_iff_exists'.mp (hfollows.canceled hcanceled)
    cases fuel with
    | zero => cases h
    | succ fuel =>
      simp only [flushInternalData, herr] at h
      cases h
      exact ⟨hfollows.of_kept rfl rfl rfl (by rw [sessionOpen_snoc]; rfl), List.prefix_refl _,
        fun hne => absurd rfl hne⟩

theorem streamWriteCall_follows {call : StreamWriteCall} (hfollows : StateFollows alg past ctx)
    (h : streamWriteCall Z fuel call ctx = some (result, ctx')) :
    CallFollows alg past call ctx result ctx' := by
  cases call with
  | start cb =>
    cases h
    exact streamWriteStart_follows hfollows rfl
  | update data =>
    obtain ⟨⟨ret, ctx1⟩, hupdate, hret⟩ := Option.map_eq_some_iff.mp h
    cases hret
    exact streamWriteUpdate_follows hfollows hupdate
  | «end» =>
    obtain ⟨⟨ret, ctx1⟩, hend, hret⟩ := Option.map_eq_some_iff.mp h
    cases hret
    exact streamWriteEnd_follows hfollows hend
  | cancel =>
    cases h
    exact streamWriteCancel_follows hfollows rfl

theorem streamWriteCall_live {call : StreamWriteCall} (hlive : WriteLive Z ctx)
    (hok : CallOk Z past ctx call) (h : streamWriteCall Z fuel call ctx = some (result, ctx')) :
    WriteLive Z ctx' := by
  cases call with
  | start cb =>
    cases h
    exact (streamWriteStart_spec hlive rfl).1
  | update data =>
    obtain ⟨⟨ret, ctx1⟩, hupdate, hret⟩ := Option.map_eq_some_iff.mp h
    cases hret
    cases data with
    | none =>
      cases hupdate
      exact hlive
    | some data => exact streamWriteUpdate_live hlive hok hupdate
  | «end» =>
    obtain ⟨⟨ret, ctx1⟩, hend, hret⟩ := Option.map_eq_some_iff.mp h
    cases hret
    exact streamWriteEnd_live hlive hend
  | cancel =>
    cases h
    exact streamWriteCancel_live hlive

theorem StreamWriteRun.invariant {log past : List (StreamWriteEvent Z.State)}
    {ctx last : StreamWriteCtx Z.State} (run : StreamWriteRun Z ctx log last)
    (hlive : WriteLive Z ctx) (hfollows : StateFollows alg past ctx) (hok : CallsOk Z past log) :
    ∀ (l₁ : List (StreamWriteEvent Z.State)) e l₂, log = l₁ ++ e :: l₂ →
      WriteLive Z e.before ∧ WriteLive Z e.after ∧
      CallFollows alg (past ++ l₁) e.call e.before e.result e.after ∧
      ∃ fuel, streamWriteCall Z fuel e.call e.before = some (e.result, e.after) := by
  induction run generalizing past with
  | nil ctx =>
    intro l₁ e l₂ h
    simp at h
  | @cons ctx mid last log call result fuel made rest ih =>
    intro l₁ e l₂ h
    obtain ⟨hcallOk, hrest⟩ := callsOk_cons.mp hok
    have hlive1 := streamWriteCall_live hlive hcallOk made
    have hcall := streamWriteCall_follows hfollows made
    cases l₁ with
    | nil =>
      obtain ⟨rfl, -⟩ := List.cons.inj h
      exact ⟨hlive, hlive1, by simpa using hcall, fuel, made⟩
    | cons e₁ l₁ =>
      obtain ⟨rfl, hlog⟩ := List.cons.inj h
      obtain ⟨hbefore, hafter, hcall', hmade⟩ := ih hlive1 hcall.follows hrest l₁ e l₂ hlog
      exact ⟨hbefore, hafter, by simpa using hcall', hmade⟩

theorem StreamWriteRun.drop : ∀ {l₁ l₂ : List (StreamWriteEvent Z.State)}
    {ctx last : StreamWriteCtx Z.State}, StreamWriteRun Z ctx (l₁ ++ l₂) last →
    ∃ mid, StreamWriteRun Z mid l₂ last
  | [], _, ctx, _, run => ⟨ctx, run⟩
  | _ :: _, _, _, _, .cons _ rest => rest.drop

theorem StreamWriteEvent.handed_eq {σ : Type} {e : StreamWriteEvent σ}
    (h : e.before.handed <+: e.after.handed) : e.after.handed = e.before.handed ++ e.given := by
  obtain ⟨given, hgiven⟩ := h
  rw [StreamWriteEvent.given, ← hgiven, List.drop_left]

theorem StreamWriteRun.updates_session {base chunks : List (List UInt8)}
    {updates tail : List (StreamWriteEvent Z.State)} {b : List UInt8}
    {ctx last : StreamWriteCtx Z.State} (run : StreamWriteRun Z ctx (updates ++ tail) last)
    (hupdates : List.Forall₂ IsUpdate updates chunks) (hsession : WriteSession Z ctx base b)
    (hok : ∀ u ∈ updates, (∃ past, CallOk Z past u.before u.call) ∧
      u.before.handed <+: u.after.handed) :
    ∃ mid, StreamWriteRun Z mid tail last ∧ WriteSession Z mid base (b ++ chunks.flatten) ∧
      mid.checksum = ctx.checksum ∧ (updates = [] ∧ mid = ctx ∨ mid.zstream.nextIn = []) ∧
      mid.handed = ctx.handed ++ updates.flatMap StreamWriteEvent.given := by
  induction hupdates generalizing ctx b with
  | nil => exact ⟨ctx, run, by simpa using hsession, rfl, .inl ⟨rfl, rfl⟩, by simp⟩
  | @cons u data updates chunks hu _ ih =>
    obtain ⟨⟨past, hcallOk⟩, hfront⟩ := hok u List.mem_cons_self
    have hhanded := StreamWriteEvent.handed_eq hfront
    cases run with
    | @cons _ mid _ _ call result fuel made rest =>
    obtain ⟨rfl, rfl⟩ : call = .update (some data) ∧ result = .ok none := hu
    obtain ⟨⟨ret, ctx1⟩, hupdate, hret⟩ := Option.map_eq_some_iff.mp made
    obtain ⟨hpos, hsize, -⟩ := hcallOk hsession.result hsession.state
    cases ret with
    | error err => cases hret
    | ok _ =>
    cases hret
    obtain ⟨hsession1, hnext1, hchecksum1⟩ := streamWriteUpdate_session hsession hpos hsize hupdate
    obtain ⟨mid', run', hsession', hchecksum', hnext', hhanded'⟩ := ih rest hsession1
      (fun u hu => hok u (List.mem_cons_of_mem _ hu))
    refine ⟨mid', run', ?_, hchecksum'.trans hchecksum1, .inr ?_, ?_⟩
    · rwa [List.flatten_cons, ← List.append_assoc]
    · rcases hnext' with ⟨-, rfl⟩ | hnext'
      · exact hnext1
      · exact hnext'
    · rw [hhanded', List.flatMap_cons, ← List.append_assoc, ← hhanded]

theorem streamWriteCreate_follows {config : StreamConfig} {ctx : StreamWriteCtx Z.State}
    (h : streamWriteCreate Z config = some ctx) : StateFollows config.checksum [] ctx := by
  unfold streamWriteCreate at h
  split at h
  · cases h
  split at h
  · cases h
  cases h
  exact ⟨rfl, nofun, nofun⟩

theorem streamWriteUpdate_empty (hidle : ctx.result = none → ctx.state ≠ .started)
    (made : streamWriteCall Z fuel (.update (some [])) ctx = some (result, ctx')) : ctx' = ctx := by
  obtain ⟨⟨ret, ctx1⟩, hupdate, hret⟩ := Option.map_eq_some_iff.mp made
  cases hret
  unfold streamWriteUpdate at hupdate
  simp only at hupdate
  split at hupdate
  · cases hupdate
    rfl
  · next hresult =>
    rw [if_pos (hidle hresult)] at hupdate
    cases hupdate
    rfl

/-- The whole session: a successful start, successful updates and a successful end. -/
theorem StreamWriteRun.whole_stream {chunks : List (List UInt8)}
    {first last : StreamWriteEvent Z.State} {past updates l₂ : List (StreamWriteEvent Z.State)}
    {cb : Option OutputHandler} {info : StreamInfo} {ctx end_ : StreamWriteCtx Z.State}
    (run : StreamWriteRun Z ctx (first :: (updates ++ last :: l₂)) end_)
    (hfirst : first.call = .start cb) (hfirstOk : first.result = .ok none)
    (hupdates : List.Forall₂ IsUpdate updates chunks) (hlast : last.call = .end)
    (hlastOk : last.result = .ok (some info)) (hlive : WriteLive Z first.before)
    (hfollows : CallFollows alg past first.call first.before first.result first.after)
    (hok : ∀ u ∈ updates, (∃ past, CallOk Z past u.before u.call) ∧
      u.before.handed <+: u.after.handed) (hend : updates = [] → last.before.zstream.nextIn = [])
    (hfront : last.before.handed <+: last.after.handed) :
    ∃ z, z = ((first :: (updates ++ [last])).flatMap StreamWriteEvent.given).flatten ∧
      D.complete z ∧ D.out z = chunks.flatten ∧
      info.totalInSize = UInt64.ofNat chunks.flatten.length ∧
      info.totalOutSize = UInt64.ofNat z.length ∧
      info.checksum = if alg = .crc32 then FileApi.crc32 0 chunks.flatten else 0 := by
  have hfirstHanded := StreamWriteEvent.handed_eq hfollows.handed
  have hlastHanded := StreamWriteEvent.handed_eq hfront
  cases run with
  | @cons _ mid _ _ call result fuel made rest =>
  obtain rfl : call = .start cb := hfirst
  obtain rfl : result = .ok none := hfirstOk
  cases hstart : streamWriteStart Z cb ctx with
  | mk ret mid' =>
  simp only [streamWriteCall, hstart, Option.some.injEq, Prod.mk.injEq] at made
  obtain ⟨hret, rfl⟩ := made
  cases ret with
  | error err => cases hret
  | ok _ =>
  obtain ⟨-, hsession⟩ := streamWriteStart_spec hlive hstart
  obtain ⟨hsession, -⟩ := hsession rfl
  obtain ⟨mid1, run1, hsession1, hchecksum1, hnext1, hhanded1⟩ :=
    rest.updates_session hupdates hsession hok
  cases run1 with
  | @cons _ mid2 _ _ call2 result2 fuel2 made2 rest2 =>
  obtain rfl : call2 = .end := hlast
  obtain rfl : result2 = .ok (some info) := hlastOk
  obtain ⟨⟨ret2, ctx2⟩, hendCall, hret2⟩ := Option.map_eq_some_iff.mp made2
  cases ret2 with
  | error err => cases hret2
  | ok info2 =>
  cases hret2
  have hnext : mid1.zstream.nextIn = [] := by
    rcases hnext1 with ⟨hnone, rfl⟩ | hnext1
    · exact hend hnone
    · exact hnext1
  obtain ⟨given, hgiven, hcomplete, hout, htotalIn, htotalOut, hcrc⟩ :=
    streamWriteEnd_session hsession1 hnext hendCall
  -- the buffers of the calls are the ones the handler got since the start
  have hall : (⟨.start cb, ctx, .ok none, mid'⟩ :: (updates ++ [⟨.end, mid1, .ok (some info), mid2⟩]) :
      List (StreamWriteEvent Z.State)).flatMap StreamWriteEvent.given = given := by
    simp only at hfirstHanded hlastHanded hgiven
    rw [hlastHanded, hhanded1, hfirstHanded, List.append_assoc, List.append_assoc,
      List.append_cancel_left_eq] at hgiven
    rw [← hgiven]
    simp
  refine ⟨given.flatten, by rw [hall], hcomplete, hout, htotalIn, htotalOut, ?_⟩
  rw [hcrc, hchecksum1, hfollows.follows.checksum]
  rfl

/-- In every run whose calls respect `CallOk`, the interface keeps its contract. -/
theorem streamWriteRun_contract {config : StreamConfig} {ctx last : StreamWriteCtx Z.State}
    {log : List (StreamWriteEvent Z.State)} (hcreate : streamWriteCreate Z config = some ctx)
    (run : StreamWriteRun Z ctx log last) (hok : CallsOk Z [] log) :
    StreamWriteContract D config.checksum log := by
  have hinv := run.invariant (streamWriteCreate_live hcreate) (streamWriteCreate_follows hcreate) hok
  have hcallOk : ∀ l₁ e l₂, log = l₁ ++ e :: l₂ → CallOk Z l₁ e.before e.call := by
    intro l₁ e l₂ h
    simpa using hok l₁ e l₂ h
  refine ⟨?_, ?_, ?_, ?_⟩
  · intro l₁ e l₂ h hgiven
    obtain ⟨-, -, hcall, -⟩ := hinv l₁ e l₂ h
    refine hcall.between fun hsame => hgiven ?_
    rw [StreamWriteEvent.given, hsame, List.drop_length]
  · intro e he hcall
    obtain ⟨l₁, l₂, h⟩ := List.append_of_mem he
    obtain ⟨-, -, -, fuel, made⟩ := hinv l₁ e l₂ h
    have hactive := hcallOk l₁ e l₂ h
    rw [hcall] at made hactive
    refine streamWriteUpdate_empty (fun hresult hstate => ?_) made
    exact absurd (hactive hresult hstate).1 (Nat.lt_irrefl 0)
  · intro l₁ first updates last₁ l₂ cb chunks info h hfirst hfirstOk hupdates hlast hlastOk
    obtain ⟨hlive, -, hfollows, -⟩ := hinv l₁ first _ h
    have hat : ∀ a u b, updates ++ last₁ :: l₂ = a ++ u :: b →
        log = (l₁ ++ first :: a) ++ u :: b := by
      intro a u b hsplit
      rw [h, hsplit]
      simp
    have hlastAt := hat updates last₁ l₂ rfl
    rw [h] at run
    obtain ⟨mid, run⟩ := run.drop
    refine run.whole_stream hfirst hfirstOk hupdates hlast hlastOk hlive hfollows ?_ ?_
      (hinv _ _ _ hlastAt).2.2.1.handed
    · intro u hu
      obtain ⟨a, b, rfl⟩ := List.append_of_mem hu
      have huAt := hat a u (b ++ last₁ :: l₂) (by simp)
      exact ⟨⟨_, hcallOk _ _ _ huAt⟩, (hinv _ _ _ huAt).2.2.1.handed⟩
    · rintro rfl
      have hstarted := hcallOk _ _ _ hlastAt
      rw [hlast] at hstarted
      refine hstarted ?_
      simp [justStarted, hfirst, hfirstOk]
  · intro e he
    obtain ⟨l₁, l₂, h⟩ := List.append_of_mem he
    obtain ⟨-, ⟨s, b, out, hat⟩, -⟩ := hinv l₁ e l₂ h
    exact hat.reused

/-! ### One letter

A `deflate` that holds everything back until the stream is finished, as `deflate` does with
inputs of a few bytes. -/

/-- A code of plain bytes: a zero in front of each, a one at the end. -/
def pairCode (b : List UInt8) : List UInt8 := b.flatMap (fun x => [0, x]) ++ [1]

def pairOut : List UInt8 → List UInt8
  | 0 :: x :: rest => x :: pairOut rest
  | _ => []

def pairDone : List UInt8 → Bool
  | [1] => true
  | 0 :: _ :: rest => pairDone rest
  | _ => false

theorem pairOut_pairCode : ∀ b : List UInt8, pairOut (pairCode b) = b
  | [] => rfl
  | x :: b => congrArg (x :: ·) (pairOut_pairCode b)

theorem pairDone_pairCode : ∀ b : List UInt8, pairDone (pairCode b) = true
  | [] => rfl
  | _ :: b => pairDone_pairCode b

theorem pairOut_append (p s : List UInt8) : pairOut p <+: pairOut (p ++ s) := by
  induction p using pairOut.induct with
  | case1 x rest ih => exact (List.prefix_cons_inj x).mpr ih
  | case2 p hp =>
    rw [pairOut]
    · exact List.nil_prefix
    · exact hp

theorem pairDone_append {p s : List UInt8} (hp : pairDone p = true)
    (hps : pairDone (p ++ s) = true) : s = [] := by
  induction p using pairDone.induct with
  | case1 =>
    cases s with
    | nil => rfl
    | cons y s => cases hps
  | case2 x rest ih => exact ih hp hps
  | case3 p h1 h2 =>
    rw [pairDone] at hp
    · cases hp
    · exact h1
    · exact h2

/-- The raw deflate stream of the letter `a`. -/
def letterStream : List UInt8 := [0x4b, 0x04, 0x00]

def letterOut : List UInt8 → List UInt8
  | 0x4b :: 0x04 :: _ => [0x61]
  | p => pairOut p

theorem letterOut_append (p s : List UInt8) : letterOut p <+: letterOut (p ++ s) := by
  unfold letterOut
  split
  · exact List.prefix_refl _
  · next hp =>
    split
    · next rest hps =>
      -- `p` is shorter than the two bytes that determine the letter
      cases p with
      | nil => exact List.nil_prefix
      | cons x p =>
        cases p with
        | nil =>
          obtain ⟨rfl, -⟩ := List.cons.inj hps
          exact List.nil_prefix
        | cons y p =>
          simp only [List.cons_append, List.cons.injEq] at hps
          obtain ⟨rfl, rfl, -⟩ := hps
          exact absurd rfl (hp p)
    · exact pairOut_append p s

def letterDecoder : Decoder where
  out := letterOut
  complete p := p = letterStream ∨ pairDone p = true
  out_nil := rfl
  out_mono := letterOut_append
  complete_append := by
    rintro p s (rfl | hp) (hps | hps)
    · simpa [letterStream] using hps
    · cases hps
    · cases p with
      | nil => cases hp
      | cons x p =>
        obtain ⟨rfl, -⟩ := List.cons.inj hps
        cases hp
    · exact pairDone_append hp hps

/-- The stream that is given for `b`. -/
def letterCode (b : List UInt8) : List UInt8 := if b = [0x61] then letterStream else pairCode b

theorem letterCode_complete (b : List UInt8) : letterDecoder.complete (letterCode b) := by
  unfold letterCode
  split
  · exact .inl rfl
  · exact .inr (pairDone_pairCode b)

theorem letterOut_letterCode (b : List UInt8) : letterDecoder.out (letterCode b) = b := by
  unfold letterCode
  split
  · next hb => rw [hb]; rfl
  · cases b with
    | nil => rfl
    | cons x b => exact pairOut_pairCode (x :: b)

/-- What was taken, how much of the stream was given, and whether it is being finished. -/
structure HoldingState where
  taken : List UInt8
  given : Nat
  finishing : Bool

def holdingDeflate (s : HoldingState) (input : List UInt8) (room : Nat) :
    FlushMode → ZResult HoldingState
  | .noFlush =>
      if s.finishing then ⟨.streamError, 0, [], s⟩
      else if input = [] then ⟨.bufError, 0, [], s⟩
      else ⟨.ok, input.length, [], { s with taken := s.taken ++ input }⟩
  | .finish =>
      if s.finishing ∧ input ≠ [] then ⟨.bufError, 0, [], s⟩
      else
        let rest := (letterCode (s.taken ++ input)).drop s.given
        ⟨if rest.length ≤ room then .streamEnd else .ok, input.length, rest.take room,
          ⟨s.taken ++ input, s.given + (rest.take room).length, true⟩⟩

def letterDeflate : Deflate letterDecoder where
  State := HoldingState
  reset := ⟨[], 0, false⟩
  deflate := holdingDeflate
  finishing s := s.finishing
  Holds s b out := s.taken = b ∧ out = (letterCode b).take s.given ∧
    (s.finishing = false → s.given = 0)
  reset_holds := ⟨rfl, rfl, fun _ => rfl⟩
  reset_finishing := rfl
  write := by
    rintro ⟨taken, given, finishing⟩ b out input room ⟨rfl, rfl, hgiven⟩ hgoing hinput hroom
    obtain rfl : finishing = false := hgoing
    obtain rfl : given = 0 := hgiven rfl
    simp only [holdingDeflate, Bool.false_eq_true, if_false, hinput]
    exact ⟨⟨rfl, Nat.le_refl _, Nat.zero_le _, rfl⟩, by simp⟩
  finish := by
    rintro ⟨taken, given, finishing⟩ b out input room ⟨rfl, rfl, hgiven⟩ hdrained hroom
    have hopen : ¬ (finishing = true ∧ input ≠ []) := fun h => h.2 (hdrained h.1)
    -- the code of what was taken does not change any more once some of it was given
    have htake : (letterCode taken).take given = (letterCode (taken ++ input)).take given := by
      cases finishing with
      | false =>
        obtain rfl : given = 0 := hgiven rfl
        rw [List.take_zero, List.take_zero]
      | true =>
        rw [hdrained rfl, List.append_nil]
    simp only [holdingDeflate, if_neg hopen]
    refine ⟨⟨?_, Nat.le_refl _, List.length_take_le _ _, fun _ => rfl, ?_⟩, ?_, ?_, nofun⟩
    · split
      · exact .inr rfl
      · exact .inl rfl
    · intro hret
      have hle : ((letterCode (taken ++ input)).drop given).length ≤ room := by
        by_contra hlt
        rw [if_neg hlt] at hret
        cases hret
      rw [htake, List.take_of_length_le hle, List.take_append_drop]
      exact ⟨rfl, letterCode_complete _, letterOut_letterCode _⟩
    · simp
    · rw [htake, List.take_length, List.take_add, List.length_take, ← List.take_eq_take_min]

/-- The handle after its creation, after a start, and after an update with the letter. -/
def letterCreated : StreamWriteCtx letterDeflate.State where
  checksum := .crc32
  bufSize := 32768
  zstream := ⟨some ⟨[], 0, false⟩, [], false⟩

def letterStarted : StreamWriteCtx letterDeflate.State :=
  { letterCreated with state := .started, writeCallback := takeAll }

def letterUpdated : StreamWriteCtx letterDeflate.State :=
  { letterStarted with
    zstream := ⟨some ⟨[0x61], 0, false⟩, [], false⟩, totalIn := 1, crc := 0xE8B7BE43 }

theorem letterStarted_eq : streamWriteCall letterDeflate 4 (.start (some takeAll)) letterCreated =
    some (.ok none, letterStarted) := rfl

theorem letterUpdated_eq : streamWriteCall letterDeflate 4 (.update (some [0x61])) letterStarted =
    some (.ok none, letterUpdated) := rfl

/-- The end gives the three bytes of the stream. -/
def letterEnded : StreamWriteCtx letterDeflate.State :=
  { letterUpdated with
    zstream := ⟨some ⟨[0x61], 3, true⟩, [], false⟩, state := .ended
    totalOut := 3, buf := letterStream, handed := [letterStream] }

def letterLog : List (StreamWriteEvent letterDeflate.State) :=
  [⟨.start (some takeAll), letterCreated, .ok none, letterStarted⟩,
    ⟨.update (some [0x61]), letterStarted, .ok none, letterUpdated⟩,
    ⟨.end, letterUpdated, .ok (some ⟨1, 3, 0xE8B7BE43⟩), letterEnded⟩]

theorem letterLog_run : StreamWriteRun letterDeflate letterCreated letterLog letterEnded := by
  have hend : streamWriteCall letterDeflate 4 .end letterUpdated =
      some (.ok (some ⟨1, 3, 0xE8B7BE43⟩), letterEnded) := rfl
  exact .cons letterStarted_eq (.cons letterUpdated_eq (.cons hend (.nil _)))

theorem streamWriteRun_contract_letterLog : StreamWriteContract letterDecoder .crc32 letterLog := by
  have hcreate : streamWriteCreate letterDeflate ⟨32768, .crc32, .deflate⟩ = some letterCreated := rfl
  refine streamWriteRun_contract hcreate letterLog_run ?_
  refine callsOk_cons.mpr ⟨trivial, callsOk_cons.mpr ⟨fun _ _ => ⟨by decide, by decide, ?_⟩,
    callsOk_cons.mpr ⟨fun _ => rfl, callsOk_nil _⟩⟩⟩
  rintro s hs
  cases hs
  rfl

/-- An update of no bytes behind it releases the stream, and the next one uses it all the same. -/
def letterReleased : StreamWriteCtx letterDeflate.State :=
  { letterUpdated with zstream := ⟨none, [], false⟩ }

def letterReused : StreamWriteCtx letterDeflate.State :=
  { letterReleased with
    zstream := ⟨none, [0x61], true⟩, totalIn := 2, crc := FileApi.crc32 0xE8B7BE43 [0x61] }

def emptyUpdateLog : List (StreamWriteEvent letterDeflate.State) :=
  [⟨.start (some takeAll), letterCreated, .ok none, letterStarted⟩,
    ⟨.update (some [0x61]), letterStarted, .ok none, letterUpdated⟩,
    ⟨.update (some []), letterUpdated, .error .dataError, letterReleased⟩,
    ⟨.update (some [0x61]), letterReleased, .error .dataError, letterReused⟩]

theorem emptyUpdateLog_not_contract :
    streamWriteCreate letterDeflate ⟨32768, .crc32, .deflate⟩ = some letterCreated ∧
    StreamWriteRun letterDeflate letterCreated emptyUpdateLog letterReused ∧
    ¬ StreamWriteContract letterDecoder .crc32 emptyUpdateLog := by
  have hempty : streamWriteCall letterDeflate 4 (.update (some [])) letterUpdated =
      some (.error .dataError, letterReleased) := rfl
  have hreuse : streamWriteCall letterDeflate 4 (.update (some [0x61])) letterReleased =
      some (.error .dataError, letterReused) := rfl
  refine ⟨rfl, .cons letterStarted_eq (.cons letterUpdated_eq (.cons hempty (.cons hreuse (.nil _)))),
    fun h => ?_⟩
  have hreused := h.noReuse ⟨.update (some [0x61]), letterReleased, .error .dataError, letterReused⟩
    (by simp [emptyUpdateLog])
  cases hreused

end FileApi.Compress
