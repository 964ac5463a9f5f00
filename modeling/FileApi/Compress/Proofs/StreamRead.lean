import FileApi.Compress.StreamRead

/-!
# Streaming decompression and chunking

One update hands the input to `inflate` until it is used up. The loop does not ask whether
output is still pending: an update that ends with a full block leaves the rest in the window,
and the next update starts with it. The end of the stream asks no more either, so the data is
complete exactly when the blocks of the remaining updates were enough at every point.
-/

namespace FileApi.Compress

open Zlib

variable {D : Decoder} {I : Inflate D} {handler : OutputHandler}

/-- A context between two updates, with `p` the input taken and `q` the output given. -/
structure ReadInv (ctx : StreamReadCtx I.State) (p q : List UInt8) : Prop where
  holds : I.Holds ctx.zlibStream p q
  sound : q <+: D.out p
  delivered : ctx.delivered.flatten = q
  totalOut : ctx.totalOutSize = UInt64.ofNat q.length
  crc : ctx.checksum = .crc32 → ctx.crc = FileApi.crc32 0 q

/-- What an update leaves alone. -/
structure SameSetup (ctx ctx' : StreamReadCtx I.State) : Prop where
  blockSize : ctx'.outBlockSize = ctx.outBlockSize
  checksum : ctx'.checksum = ctx.checksum
  totalIn : ctx'.totalInSize = ctx.totalInSize

theorem SameSetup.trans {a b c : StreamReadCtx I.State} (h : SameSetup a b) (h' : SameSetup b c) :
    SameSetup a c :=
  ⟨h'.blockSize.trans h.blockSize, h'.checksum.trans h.checksum, h'.totalIn.trans h.totalIn⟩

theorem streamReadHandle_ok {ctx ctx' : StreamReadCtx I.State} {p q output : List UInt8}
    (h : streamReadHandle handler ctx output = (.ok (), ctx'))
    (hdelivered : ctx.delivered.flatten = q)
    (htotal : ctx.totalOutSize = UInt64.ofNat q.length)
    (hcrc : ctx.checksum = .crc32 → ctx.crc = FileApi.crc32 0 q)
    (hholds : I.Holds ctx.zlibStream p (q ++ output)) (hsound : q ++ output <+: D.out p) :
    ReadInv ctx' p (q ++ output) ∧ SameSetup ctx ctx' := by
  unfold streamReadHandle at h
  simp only at h
  split at h
  · cases h
  · cases h
    refine ⟨⟨hholds, hsound, ?_, ?_, ?_⟩, rfl, rfl, rfl⟩
    · simp [hdelivered]
    · simp [htotal]
    · intro hchecksum
      simp only at hchecksum ⊢
      rw [if_pos hchecksum, hcrc hchecksum, crc32_append]

/-- One successful run of the loop takes all of the input, and either gives everything the
input determines or at least one block. -/
theorem streamReadLoop_ok : ∀ (fuel : Nat) {input p q : List UInt8} {ctx ctx' : StreamReadCtx I.State},
    ReadInv ctx p q → 0 < ctx.outBlockSize.toNat → D.Valid (p ++ input) →
    streamReadLoop handler fuel input ctx = some (.ok (), ctx') →
    ∃ q', ReadInv ctx' (p ++ input) q' ∧ SameSetup ctx ctx' ∧
      (q' = D.out (p ++ input) ∨ q.length + ctx.outBlockSize.toNat ≤ q'.length)
  | 0, _, _, _, _, _, _, _, _, h => by cases h
  | fuel + 1, input, p, q, ctx, ctx', inv, hroom, hvalid, h => by
      unfold streamReadLoop at h
      split at h
      · cases h
      set r := I.inflate ctx.zlibStream input ctx.outBlockSize.toNat with hr
      simp only at h
      split at h
      · -- the end of the stream
        next hret =>
        obtain ⟨hstep, hholds⟩ := I.step inv.holds hroom hvalid (.inr hret)
        obtain ⟨hcomplete, hout⟩ := hstep.finished hret
        have hall : input.take r.consumed = input := by
          obtain ⟨s, hs⟩ := hvalid
          have hsplit : p ++ input ++ s =
              (p ++ input.take r.consumed) ++ (input.drop r.consumed ++ s) := by
            simp only [List.append_assoc, List.append_cancel_left_eq]
            rw [← List.append_assoc, List.take_append_drop]
          rw [hsplit] at hs
          have hnil := D.complete_append hcomplete hs
          have hdrop : input.drop r.consumed = [] := (List.append_eq_nil_iff.mp hnil).1
          conv_rhs => rw [← List.take_append_drop r.consumed input, hdrop, List.append_nil]
        rw [← hr] at hholds hstep
        rw [hall] at hholds hout
        obtain ⟨inv', hsame⟩ := streamReadHandle_ok (Option.some.inj h) inv.delivered inv.totalOut
          inv.crc hholds (hout ▸ List.prefix_refl _)
        exact ⟨_, inv', ⟨hsame.blockSize, hsame.checksum, hsame.totalIn⟩, .inl hout⟩
      · next hret =>
        obtain ⟨hstep, hholds⟩ := I.step inv.holds hroom hvalid (.inl hret)
        rw [← hr] at hstep hholds
        split at h
        · cases h
        next ctx1 hhandle =>
        obtain ⟨inv1, hsame⟩ := streamReadHandle_ok hhandle inv.delivered inv.totalOut inv.crc hholds
          hstep.sound
        have hsame : SameSetup ctx ctx1 := ⟨hsame.blockSize, hsame.checksum, hsame.totalIn⟩
        rw [hsame.blockSize] at h
        split at h
        · -- a full block with input left: the loop goes on behind it
          next hmore =>
          have hvalid1 : D.Valid (p ++ input.take r.consumed ++ input.drop r.consumed) := by
            rwa [List.append_assoc, List.take_append_drop]
          obtain ⟨q', inv', hsame', hgot⟩ := streamReadLoop_ok fuel inv1
            (by rw [hsame.blockSize]; exact hroom) hvalid1 h
          rw [List.append_assoc, List.take_append_drop] at inv' hgot
          refine ⟨q', inv', hsame.trans hsame', ?_⟩
          rcases hgot with hgot | hgot
          · exact .inl hgot
          · rw [List.length_append] at hgot
            exact .inr (by omega)
        · -- the input is used up
          next hdone =>
          cases h
          by_cases hfull : r.output.length < ctx.outBlockSize.toNat
          · obtain ⟨hconsumed, hout⟩ := hstep.drained hret hfull
            rw [hconsumed, List.take_length] at inv1
            exact ⟨_, inv1, hsame, .inl hout⟩
          · have hlen : r.output.length = ctx.outBlockSize.toNat := by
              have hle := hstep.output_le
              omega
            have hconsumed : r.consumed = input.length := by
              have hle := hstep.consumed_le
              by_contra hne
              exact hdone ⟨by omega, hlen⟩
            rw [hconsumed, List.take_length] at inv1
            exact ⟨_, inv1, hsame, .inr (by rw [List.length_append]; omega)⟩
      · cases h

theorem streamReadUpdate_ok {fuel : Nat} {data p q : List UInt8} {ctx ctx' : StreamReadCtx I.State}
    (inv : ReadInv ctx p q) (hroom : 0 < ctx.outBlockSize.toNat) (hvalid : D.Valid (p ++ data))
    (hsize : data.length < 2 ^ 32) (h : streamReadUpdate handler fuel data ctx = some (.ok (), ctx')) :
    ∃ q', ReadInv ctx' (p ++ data) q' ∧ ctx'.outBlockSize = ctx.outBlockSize ∧
      ctx'.checksum = ctx.checksum ∧
      ctx'.totalInSize = ctx.totalInSize + UInt64.ofNat data.length ∧
      (q' = D.out (p ++ data) ∨ q.length + ctx.outBlockSize.toNat ≤ q'.length) := by
  unfold streamReadUpdate at h
  split at h
  · cases h
  rw [Nat.mod_eq_of_lt hsize, List.take_length] at h
  have inv0 : ReadInv { ctx with totalInSize := ctx.totalInSize + UInt64.ofNat data.length } p q :=
    ⟨inv.holds, inv.sound, inv.delivered, inv.totalOut, inv.crc⟩
  obtain ⟨q', inv', hsame, hgot⟩ := streamReadLoop_ok fuel inv0 hroom hvalid h
  exact ⟨q', inv', hsame.blockSize, hsame.checksum, hsame.totalIn, hgot⟩

/-- Successive updates: the output falls behind the input by no more than the blocks that were
there for it, counted from some point on. -/
theorem streamReadUpdates_ok {fuel : Nat} : ∀ (chunks : List (List UInt8)) {p q : List UInt8}
    {ctx ctx' : StreamReadCtx I.State}, ReadInv ctx p q → 0 < ctx.outBlockSize.toNat →
    D.Valid (p ++ chunks.flatten) → (∀ data ∈ chunks, data.length < 2 ^ 32) →
    streamReadUpdates handler fuel chunks ctx = some ctx' →
    ∃ q', ReadInv ctx' (p ++ chunks.flatten) q' ∧ ctx'.checksum = ctx.checksum ∧
      ctx'.totalInSize = ctx.totalInSize + UInt64.ofNat chunks.flatten.length ∧
      (q.length + chunks.length * ctx.outBlockSize.toNat ≤ q'.length ∨
        ∃ k ≤ chunks.length, (D.out (p ++ (chunks.take k).flatten)).length +
          (chunks.length - k) * ctx.outBlockSize.toNat ≤ q'.length)
  | [], p, q, ctx, ctx', inv, _, _, _, h => by
      cases h
      exact ⟨q, by simpa using inv, rfl, by simp, .inl (by simp)⟩
  | data :: chunks, p, q, ctx, ctx', inv, hroom, hvalid, hsize, h => by
      unfold streamReadUpdates at h
      split at h
      · next ctx1 hupdate =>
        rw [List.flatten_cons, ← List.append_assoc] at hvalid
        obtain ⟨q1, inv1, hblock, hchecksum, htotal, hgot⟩ := streamReadUpdate_ok inv hroom
          hvalid.left (hsize data List.mem_cons_self) hupdate
        obtain ⟨q', inv', hchecksum', htotal', hgot'⟩ := streamReadUpdates_ok chunks inv1
          (by rw [hblock]; exact hroom) hvalid
          (fun c hc => hsize c (List.mem_cons_of_mem data hc)) h
        rw [List.append_assoc, ← List.flatten_cons] at inv'
        refine ⟨q', inv', hchecksum'.trans hchecksum, ?_, ?_⟩
        · rw [htotal', htotal, List.flatten_cons, List.length_append, UInt64.ofNat_add,
            UInt64.add_assoc]
        · rw [hblock] at hgot'
          rw [List.length_cons]
          rcases hgot' with hgot' | ⟨k, hk, hgot'⟩
          · rcases hgot with hdrained | hgot
            · refine .inr ⟨1, by omega, ?_⟩
              rw [List.take_succ_cons, List.take_zero, List.flatten_cons, List.flatten_nil,
                List.append_nil, ← hdrained, Nat.add_sub_cancel]
              exact hgot'
            · refine .inl ?_
              rw [Nat.add_mul, Nat.one_mul]
              omega
          · refine .inr ⟨k + 1, by omega, ?_⟩
            rw [List.take_succ_cons, List.flatten_cons, ← List.append_assoc, Nat.add_sub_add_right]
            exact hgot'
      · cases h

/-! ## The implementation that falls behind most -/

section Greedy

variable [DecidablePred D.complete]

theorem greedy_update {data p q : List UInt8} {ctx : StreamReadCtx (Inflate.greedy D).State}
    (hstate : ctx.zlibStream = (p, q)) (hq : q <+: D.out p) (hrun : ctx.decompressCancel = false)
    (hne : data ≠ []) (hsize : data.length < 2 ^ 32) :
    ∃ ctx' q', streamReadUpdate takeAll 1 data ctx = some (.ok (), ctx') ∧
      ctx'.zlibStream = (p ++ data, q') ∧ q' <+: D.out (p ++ data) ∧
      ctx'.decompressCancel = false ∧ ctx'.outBlockSize = ctx.outBlockSize ∧
      ctx'.delivered.flatten.length ≤ ctx.delivered.flatten.length + ctx.outBlockSize.toNat ∧
      (ctx.delivered.flatten = q → ctx'.delivered.flatten = q') := by
  set r := greedyStep D (p, q) data ctx.outBlockSize.toNat with hr
  have hret : r.ret = .ok ∨ r.ret = .streamEnd := by
    simp only [hr, greedyStep, hne, false_and, if_false]
    split
    · exact .inr rfl
    · exact .inl rfl
  obtain ⟨hstep, hgiven⟩ := greedyStep_step D hq hret
  rw [← hr] at hstep hgiven
  have hconsumed : ¬ r.consumed < data.length := by simp [hr, greedyStep]
  have hnext : r.state = (p ++ data, q ++ r.output) := rfl
  have hcall : (Inflate.greedy D).inflate ctx.zlibStream data ctx.outBlockSize.toNat = r := by
    rw [hstate]
    rfl
  have hlen : data.length ≠ 0 := by simpa using hne
  have hroom := hstep.output_le
  unfold streamReadUpdate
  rw [if_neg hlen, Nat.mod_eq_of_lt hsize, List.take_length]
  unfold streamReadLoop
  simp only [hrun, Bool.false_eq_true, if_false, hcall, streamReadHandle, takeAll, ne_eq,
    not_true_eq_false, hconsumed, false_and]
  rcases hret with hret | hret <;> simp only [hret] <;>
    refine ⟨_, _, rfl, hnext, hgiven, rfl, rfl, ?_, ?_⟩
  all_goals first
    | (intro hdelivered; simp [hdelivered])
    | (simp only [List.flatten_append, List.flatten_cons, List.flatten_nil, List.append_nil,
        List.length_append]; omega)

theorem greedy_updates : ∀ (chunks : List (List UInt8)) {p q : List UInt8}
    {ctx : StreamReadCtx (Inflate.greedy D).State}, ctx.zlibStream = (p, q) → q <+: D.out p →
    ctx.decompressCancel = false → ctx.delivered.flatten = q →
    (∀ data ∈ chunks, data ≠ [] ∧ data.length < 2 ^ 32) →
    ∃ ctx' q', streamReadUpdates takeAll 1 chunks ctx = some ctx' ∧
      ctx'.zlibStream = (p ++ chunks.flatten, q') ∧ q' <+: D.out (p ++ chunks.flatten) ∧
      ctx'.decompressCancel = false ∧ ctx'.outBlockSize = ctx.outBlockSize ∧
      ctx'.delivered.flatten = q' ∧
      q'.length ≤ q.length + chunks.length * ctx.outBlockSize.toNat
  | [], p, q, ctx, hstate, hq, hrun, hdelivered, _ =>
      ⟨ctx, q, rfl, by simpa using hstate, by simpa using hq, hrun, rfl, hdelivered, by simp⟩
  | data :: chunks, p, q, ctx, hstate, hq, hrun, hdelivered, hsize => by
      obtain ⟨hne, hlen⟩ := hsize data List.mem_cons_self
      obtain ⟨ctx1, q1, hupdate, hstate1, hq1, hrun1, hblock1, hgrow, hdelivered1⟩ :=
        greedy_update hstate hq hrun hne hlen
      obtain ⟨ctx', q', hupdates, hstate', hq', hrun', hblock', hdelivered', hle⟩ :=
        greedy_updates chunks hstate1 hq1 hrun1 (hdelivered1 hdelivered)
          (fun c hc => hsize c (List.mem_cons_of_mem data hc))
      rw [hdelivered1 hdelivered, hdelivered] at hgrow
      rw [hblock1] at hle hblock'
      refine ⟨ctx', q', ?_, ?_, ?_, hrun', hblock', hdelivered', ?_⟩
      · rw [streamReadUpdates, hupdate]
        exact hupdates
      · rw [hstate', List.flatten_cons, List.append_assoc]
      · rw [List.flatten_cons, ← List.append_assoc]
        exact hq'
      · rw [List.length_cons, Nat.add_mul, Nat.one_mul]
        omega

end Greedy

theorem streamReadUpdates_append {fuel : Nat} : ∀ (front back : List (List UInt8))
    (ctx : StreamReadCtx I.State),
    streamReadUpdates handler fuel (front ++ back) ctx =
      (streamReadUpdates handler fuel front ctx).bind (streamReadUpdates handler fuel back)
  | [], _, _ => rfl
  | data :: front, back, ctx => by
      simp only [List.cons_append, streamReadUpdates]
      split
      · exact streamReadUpdates_append front back _
      · rfl

/-! ## Independence of chunking -/

/-- Whenever all calls succeed, the handler was given `d`, and the end reports its size, its
checksum if one was asked for, and the size of the input. -/
def ReadsWhole (D : Decoder) (config : StreamConfig) (chunks : List (List UInt8))
    (d : List UInt8) : Prop :=
  ∀ (I : Inflate D) (handler : OutputHandler) (fuel : Nat) (delivered : List (List UInt8))
    (info : StreamInfo), streamReadRun I handler fuel config chunks = some (delivered, info) →
    delivered.flatten = d ∧
    info.totalInSize = UInt64.ofNat chunks.flatten.length ∧
    info.totalOutSize = UInt64.ofNat d.length ∧
    (config.checksum = .crc32 → info.checksum = FileApi.crc32 0 d)

/-- From every point on, the blocks of the updates still to come hold what the input up to
there does not determine. -/
def BlocksSuffice (D : Decoder) (blockSize : Nat) (chunks : List (List UInt8)) (d : List UInt8) :
    Prop :=
  ∀ k ≤ chunks.length,
    d.length ≤ (D.out (chunks.take k).flatten).length + (chunks.length - k) * blockSize

section Chunking

variable {config : StreamConfig} {chunks : List (List UInt8)} {d : List UInt8}

theorem readsWhole_of_blocksSuffice (hcomplete : D.complete chunks.flatten)
    (hout : D.out chunks.flatten = d) (hsize : ∀ data ∈ chunks, data.length < 2 ^ 32)
    (hblocks : BlocksSuffice D config.blockSize.toNat chunks d) :
    ReadsWhole D config chunks d := by
  intro I handler fuel delivered info h
  unfold streamReadRun at h
  cases hcreate : streamReadCreate I config with
  | none => rw [hcreate] at h; cases h
  | some ctx0 =>
  rw [hcreate] at h
  cases hupdates : streamReadUpdates handler fuel chunks (streamReadStart I ctx0) with
  | none => simp [hupdates] at h
  | some ctx =>
  simp only [hupdates, Option.bind_eq_bind, Option.bind_some] at h
  cases h
  unfold streamReadCreate at hcreate
  split at hcreate
  · cases hcreate
  next hconfig =>
  cases hcreate
  have hroom : 0 < config.blockSize.toNat := by
    have hne : config.blockSize ≠ 0 := fun h => hconfig (.inr h)
    have hne : config.blockSize.toNat ≠ 0 := fun h => hne (UInt32.toNat_inj.mp h)
    omega
  obtain ⟨q, inv, hchecksum, htotal, hgot⟩ := streamReadUpdates_ok (p := []) (q := []) chunks
    ⟨I.reset_holds, List.nil_prefix, rfl, rfl, fun _ => rfl⟩ hroom
    ⟨[], by simpa using hcomplete⟩ hsize hupdates
  rw [List.nil_append] at inv
  simp only [streamReadStart, List.nil_append, List.length_nil, Nat.zero_add] at hgot
  have hfull : d.length ≤ q.length := by
    rcases hgot with hgot | ⟨k, hk, hgot⟩
    · have := hblocks 0 (Nat.zero_le _)
      simp [D.out_nil] at this
      omega
    · have := hblocks k hk
      omega
  have hqd : q = d := by
    have hsound := inv.sound
    rw [hout] at hsound
    exact hsound.eq_of_length_le hfull
  subst hqd
  refine ⟨inv.delivered, ?_, inv.totalOut, ?_⟩
  · simpa [streamReadEnd, streamReadStart] using htotal
  · intro hcrc
    exact inv.crc (by rw [hchecksum]; exact hcrc)

theorem blocksSuffice_of_readsWhole (hmethod : config.method = .deflate)
    (hblock : config.blockSize ≠ 0) (hsize : ∀ data ∈ chunks, data ≠ [] ∧ data.length < 2 ^ 32)
    (h : ReadsWhole D config chunks d) : BlocksSuffice D config.blockSize.toNat chunks d := by
  classical
  intro k hk
  by_contra hfew
  push Not at hfew
  set start : StreamReadCtx (Inflate.greedy D).State :=
    { zlibStream := ([], []), outBlockSize := config.blockSize, checksum := config.checksum }
    with hstart
  have hfresh : start.zlibStream = ([], []) := rfl
  -- up to the cut the output is no more than what the input determines, behind it a block each
  obtain ⟨ctx1, q1, hrun1, hstate1, hq1, hgo1, hblock1, hdelivered1, -⟩ :=
    greedy_updates (chunks.take k) hfresh List.nil_prefix rfl rfl
      (fun c hc => hsize c (List.mem_of_mem_take hc))
  obtain ⟨ctx2, q2, hrun2, -, -, -, -, hdelivered2, hle⟩ :=
    greedy_updates (chunks.drop k) hstate1 hq1 hgo1 hdelivered1
      (fun c hc => hsize c (List.mem_of_mem_drop hc))
  have hcreate : streamReadCreate (Inflate.greedy D) config = some start := by
    simp only [streamReadCreate, hmethod, hblock, ne_eq, not_true_eq_false, or_self, if_false]
    rfl
  have hupdates : streamReadUpdates takeAll 1 chunks (streamReadStart (Inflate.greedy D) start) =
      some ctx2 := by
    conv_lhs => rw [← List.take_append_drop k chunks]
    rw [streamReadUpdates_append]
    change (streamReadUpdates takeAll 1 (chunks.take k) start).bind _ = _
    rw [hrun1]
    exact hrun2
  obtain ⟨hwhole, -⟩ := h (Inflate.greedy D) takeAll 1 ctx2.delivered (streamReadEnd ctx2) (by
    unfold streamReadRun
    simp [hcreate, hupdates])
  rw [hdelivered2] at hwhole
  have hsound := hq1.length_le
  rw [List.nil_append] at hsound
  rw [hblock1, List.length_drop, hwhole] at hle
  change d.length ≤ q1.length + (chunks.length - k) * config.blockSize.toNat at hle
  omega

end Chunking

/-- For every stream, every way of cutting it and every block size: the data is whole for every
`inflate` that keeps its contract exactly when the blocks of the remaining updates suffice. -/
theorem readsWhole_iff_blocksSuffice {D : Decoder} {config : StreamConfig}
    {chunks : List (List UInt8)} {d : List UInt8} (hmethod : config.method = .deflate)
    (hblock : config.blockSize ≠ 0) (hcomplete : D.complete chunks.flatten)
    (hout : D.out chunks.flatten = d)
    (hsize : ∀ data ∈ chunks, data ≠ [] ∧ data.length < 2 ^ 32) :
    ReadsWhole D config chunks d ↔ BlocksSuffice D config.blockSize.toNat chunks d :=
  ⟨blocksSuffice_of_readsWhole hmethod hblock hsize,
    readsWhole_of_blocksSuffice hcomplete hout fun data hdata => (hsize data hdata).2⟩

/-! ### Twenty-one letters -/

/-- The raw deflate stream of 21 letters `a`. -/
def lettersStream : List UInt8 := [0x4b, 0x4c, 0xc4, 0x02, 0x00]

/-- How many of them a prefix determines: the stream is a literal, a literal and a match of
length 19 whose codes end in the fifth byte. -/
def lettersKnown (n : Nat) : Nat :=
  if n < 2 then 0 else if n < 3 then 1 else if n < 5 then 2 else 21

/-- The length of the common front of two strings. -/
def commonFront : List UInt8 → List UInt8 → Nat
  | a :: as, b :: bs => if a = b then commonFront as bs + 1 else 0
  | _, _ => 0

theorem commonFront_append_le : ∀ p s w : List UInt8,
    commonFront p w ≤ commonFront (p ++ s) w
  | [], _, _ => by simp [commonFront]
  | _ :: _, _, [] => by simp [commonFront]
  | a :: p, s, b :: w => by
      simp only [List.cons_append, commonFront]
      split
      · have := commonFront_append_le p s w
        omega
      · omega

theorem lettersKnown_mono {m n : Nat} (hmn : m ≤ n) : lettersKnown m ≤ lettersKnown n := by
  unfold lettersKnown
  split_ifs <;> omega

/-- The decoder of this one stream. -/
def lettersDecoder : Decoder where
  out p := List.replicate (lettersKnown (commonFront p lettersStream)) 0x61
  complete p := p = lettersStream
  out_nil := rfl
  out_mono p s := by
    have hle := lettersKnown_mono (commonFront_append_le p s lettersStream)
    exact ⟨List.replicate (lettersKnown (commonFront (p ++ s) lettersStream) -
      lettersKnown (commonFront p lettersStream)) 0x61, by
        rw [List.replicate_append_replicate, Nat.add_sub_cancel' hle]⟩
  complete_append := by
    intro p s hp hps
    rw [hp] at hps
    simpa using hps

/-- In one update with blocks of 8 bytes the handler is given 8 of the 21 letters, and every
call succeeds. -/
theorem letters_not_readsWhole :
    lettersDecoder.complete [lettersStream].flatten ∧
    lettersDecoder.out [lettersStream].flatten = List.replicate 21 0x61 ∧
    ¬ ReadsWhole lettersDecoder ⟨8, .crc32, .deflate⟩ [lettersStream] (List.replicate 21 0x61) := by
  refine ⟨rfl, rfl, fun h => ?_⟩
  have hblocks := blocksSuffice_of_readsWhole rfl (by decide) (by decide) h
  exact absurd (hblocks 0 (Nat.zero_le _)) (by decide)

/-- With blocks of 32 bytes it is given all of them. -/
theorem readsWhole_iff_letters :
    ReadsWhole lettersDecoder ⟨32, .crc32, .deflate⟩ [lettersStream] (List.replicate 21 0x61) :=
  (readsWhole_iff_blocksSuffice rfl (by decide) rfl rfl (by decide)).mpr (by
    intro k hk
    match k, hk with
    | 0, _ => decide
    | 1, _ => decide)

end FileApi.Compress
