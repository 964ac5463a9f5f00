import FileApi.Compress.Proofs.Buffer

/-!
# Room for all of it

`OH_Archive_BufferWriteCompressBound` takes a bound for each block that is begun. That is enough as
long as the product does not wrap, and for no source at all there is no block. In a buffer of the
worst case the loop of `CompressDeflate` is never out of room.
-/

namespace FileApi.Compress

open Zlib

/-! ## The bound -/

/-- The blocks of a source, the last one begun. -/
def blocks (sourceLen : Nat) : Nat := (sourceLen + 65535) / 65536

theorem compressBound_block : compressBound deflateBufferBlockSize = 65569 := rfl

/-- The bound is so many times the bound of a block, as long as the sum does not wrap; where it does,
there is no block. -/
theorem bufferWriteCompressBound_toNat (sourceLen : UInt64) :
    (bufferWriteCompressBound .deflate sourceLen).toNat =
      if sourceLen.toNat + 65535 < 2 ^ 64 then 65569 * blocks sourceLen.toNat % 2 ^ 64 else 0 := by
  have hlt := sourceLen.toNat_lt
  have hblock : deflateBufferBlockSize.toNat = 65536 := rfl
  have hone : (1 : UInt64).toNat = 1 := rfl
  have hbound : (65569 : UInt64).toNat = 65569 := rfl
  rw [bufferWriteCompressBound, if_pos rfl]
  dsimp only
  rw [compressBound_block, UInt64.toNat_mul, UInt64.toNat_div, UInt64.toNat_sub, UInt64.toNat_add,
    hblock, hone, hbound, blocks]
  split <;> omega

theorem worstCase_le_blocks {sourceLen : Nat} (h : 0 < sourceLen) :
    worstCase sourceLen ≤ 65569 * blocks sourceLen := by
  unfold worstCase blocks
  omega

theorem worstCase_le_bound_iff {sourceLen : UInt64} :
    worstCase sourceLen.toNat ≤ (bufferWriteCompressBound .deflate sourceLen).toNat ↔
      0 < sourceLen.toNat ∧ 65569 * blocks sourceLen.toNat < 2 ^ 64 := by
  have hlt := sourceLen.toNat_lt
  rw [bufferWriteCompressBound_toNat]
  constructor
  · intro h
    have hge : sourceLen.toNat + 13 ≤ worstCase sourceLen.toNat := by
      unfold worstCase
      omega
    split at h
    · -- where the product wraps, far less is left than the source itself
      by_contra hnot
      have hpos : 2 ^ 64 ≤ 65569 * blocks sourceLen.toNat := by
        unfold worstCase blocks at *
        omega
      have hwraps : 65569 * blocks sourceLen.toNat - 2 ^ 64 < sourceLen.toNat := by
        unfold blocks at hpos ⊢
        omega
      rw [Nat.mod_eq_sub_mod hpos, Nat.mod_eq_of_lt (by omega)] at h
      omega
    · omega
  · rintro ⟨hpos, hfits⟩
    have hle := worstCase_le_blocks hpos
    have hsum : sourceLen.toNat + 65535 < 2 ^ 64 := by
      unfold blocks at hfits
      omega
    rwa [if_pos hsum, Nat.mod_eq_of_lt hfits]

/-! ## The loop -/

variable {D : Decoder} {Z : Deflate D} {source : List UInt8} {destLen : Nat}
  {st : BufferWriteState Z.State}

/-- What holds between the turns: some of the room is left, and it is with the stream or behind
it. -/
structure RoomInv (Z : Deflate D) (source : List UInt8) (destLen : Nat)
    (st : BufferWriteState Z.State) : Prop where
  write : BufferWriteInv Z source st
  room : st.left + st.availOut + st.output.length = destLen
  more : st.output.length < destLen

theorem RoomInv.streamNext (inv : RoomInv Z source destLen st) :
    RoomInv Z source destLen (streamNext st) ∧ 0 < (streamNext st).availOut := by
  have hroom := inv.room
  have hmore := inv.more
  have hmax : 0 < uIntMax := by decide
  have hoff : (Compress.streamNext st).output = st.output := (streamNext_input st).2.1
  have hrooms : (Compress.streamNext st).left + (Compress.streamNext st).availOut =
      st.left + st.availOut ∧ 0 < (Compress.streamNext st).availOut := by
    by_cases hout : st.availOut = 0 <;> by_cases hin : st.nextIn = [] <;>
      simp only [Compress.streamNext, hout, hin, if_true, if_false, true_and] <;> omega
  refine ⟨⟨inv.write.streamNext, ?_, ?_⟩, hrooms.2⟩
  · rw [hoff]
    omega
  · rwa [hoff]

/-- A call that does not end the stream leaves room: with source to come the worst case of what was
taken is less, and without it the rest would have come to the end. -/
theorem RoomInv.turn (hbounded : Z.Bounded source) (hdest : worstCase source.length ≤ destLen)
    (inv : RoomInv Z source destLen st) (hpos : 0 < st.availOut)
    (hnext : st.source ≠ [] → st.nextIn ≠ []) (hret : (st.call Z).ret = .ok) :
    RoomInv Z source destLen (st.after (st.call Z)) := by
  have hturn := inv.write.turn hpos hnext
  have hafter := hturn.after hret
  have hgiven := hturn.output_le
  have hroom := inv.room
  have hlength : (st.after (st.call Z)).output.length =
      st.output.length + (st.call Z).output.length := List.length_append
  refine ⟨hafter, ?_, ?_⟩
  · rw [hlength]
    simp only [BufferWriteState.after]
    omega
  · by_cases hlast : st.source = []
    · obtain ⟨b, hholds, hsource⟩ := inv.write.holds
      rw [hlast, List.append_nil] at hsource
      by_contra hfull
      have hend := hbounded.ends hholds hsource (fun h => (inv.write.finishing h).1) hpos (by omega)
      rw [BufferWriteState.call, if_neg (not_not.mpr hlast), hend] at hret
      cases hret
    · obtain ⟨b, hholds, hsource⟩ := hafter.holds
      have hle := hbounded.within hholds (by rw [← List.append_assoc]; exact hsource)
      have hless : b.length < source.length := by
        have hpart := congrArg List.length hsource
        have hmore : 0 < (st.after (st.call Z)).source.length := List.length_pos_of_ne_nil hlast
        simp only [List.length_append] at hpart
        omega
      exact hle.trans_lt ((worstCase_lt hless).trans_le hdest)

theorem compressDeflateLoop_roomy (hbounded : Z.Bounded source)
    (hdest : worstCase source.length ≤ destLen) (fuel : Nat) :
    ∀ {st : BufferWriteState Z.State} {r : ZRet × List UInt8}, RoomInv Z source destLen st →
      compressDeflateLoop Z fuel st = some r → r.1 = .streamEnd := by
  induction fuel with
  | zero =>
    intro st r _ hrun
    cases hrun
  | succ fuel ih =>
    intro st r inv hrun
    rw [compressDeflateLoop_succ] at hrun
    have hnext := (streamNext_input st).2.2.2
    obtain ⟨inv, hpos⟩ := inv.streamNext
    generalize Compress.streamNext st = st' at hrun hnext inv hpos
    rcases (inv.write.turn hpos hnext).ret with hret | hret
    · rw [if_pos hret] at hrun
      exact ih (inv.turn hbounded hdest hpos hnext hret) hrun
    · rw [if_neg (by rw [hret]; decide)] at hrun
      injection hrun with hrun
      rw [← hrun]
      exact hret

/-- What there is to do: bytes to take and room to fill. -/
def remaining (destLen : Nat) (st : BufferWriteState Z.State) : Nat :=
  st.nextIn.length + st.source.length + (destLen - st.output.length)

theorem remaining_streamNext : remaining destLen (streamNext st) = remaining destLen st := by
  obtain ⟨-, houtput, hinput, -⟩ := streamNext_input st
  have hlength := congrArg List.length hinput
  simp only [List.length_append] at hlength
  rw [remaining, houtput, hlength, remaining]

theorem RoomInv.remaining_lt (hprogress : Z.Progresses source) (inv : RoomInv Z source destLen st)
    (hpos : 0 < st.availOut) (hturn : BufferWriteTurn Z source st) (hafter : RoomInv Z source destLen (st.after (st.call Z)))
    (hret : (st.call Z).ret = .ok) :
    remaining destLen (st.after (st.call Z)) < remaining destLen st := by
  obtain ⟨b, hholds, hsource⟩ := inv.write.holds
  have hflush : (if st.source ≠ [] then FlushMode.noFlush else .finish) = .finish →
      st.source = [] := by
    intro h
    split at h
    · cases h
    · next hlast => exact not_not.mp hlast
  have hstep := hprogress hholds hsource hflush hpos hret
  have htaken := hturn.consumed_le
  have hmore := hafter.more
  have hlength : (st.after (st.call Z)).output.length =
      st.output.length + (st.call Z).output.length := List.length_append
  have hnext : (st.after (st.call Z)).nextIn.length = st.nextIn.length - (st.call Z).consumed :=
    List.length_drop
  have hsource : (st.after (st.call Z)).source = st.source := rfl
  rw [hlength] at hmore
  rw [remaining, remaining, hlength, hnext, hsource]
  rw [← BufferWriteState.call] at hstep
  omega

theorem compressDeflateLoop_finishes (hbounded : Z.Bounded source) (hprogress : Z.Progresses source)
    (hdest : worstCase source.length ≤ destLen) (fuel : Nat) :
    ∀ {st : BufferWriteState Z.State}, RoomInv Z source destLen st →
      remaining destLen st < fuel → ∃ z, compressDeflateLoop Z fuel st = some (.streamEnd, z) := by
  induction fuel with
  | zero =>
    intro st _ hfuel
    omega
  | succ fuel ih =>
    intro st inv hfuel
    rw [compressDeflateLoop_succ]
    rw [← remaining_streamNext] at hfuel
    have hnext := (streamNext_input st).2.2.2
    obtain ⟨inv, hpos⟩ := inv.streamNext
    generalize Compress.streamNext st = st' at hfuel hnext inv hpos
    have hturn := inv.write.turn hpos hnext
    rcases hturn.ret with hret | hret
    · have hafter := inv.turn hbounded hdest hpos hnext hret
      have hless := inv.remaining_lt hprogress hpos hturn hafter hret
      rw [if_pos hret]
      exact ih hafter (by omega)
    · rw [if_neg (by rw [hret]; decide), hret]
      exact ⟨_, rfl⟩

/-! ## One call -/

variable {deflateInit2 : ZRet} {fuel : Nat} {method : CompressMethod}

theorem start_roomInv (hdest : 0 < destLen) :
    RoomInv Z source destLen { stream := Z.reset, source, left := destLen } :=
  ⟨start_bufferWriteInv Z source destLen, rfl, hdest⟩

theorem bufferWrite_ne_insufficient (hbounded : Z.Bounded source)
    (hdest : worstCase source.length ≤ destLen) (hinit : deflateInit2 ≠ .bufError) :
    bufferWrite Z deflateInit2 fuel (some destLen) (some source) method ≠
      some (.error .insufficientOutbufError) := by
  intro hwrite
  have hpos : 0 < destLen := by
    unfold worstCase at hdest
    omega
  simp only [bufferWrite] at hwrite
  split at hwrite
  · cases hwrite
  · obtain ⟨r, hr, hcode⟩ := Option.map_eq_some_iff.mp hwrite
    have hret : r.1 ≠ .bufError := by
      rw [compressDeflate] at hr
      split at hr
      · injection hr with hr
        rw [← hr]
        exact hinit
      · obtain ⟨r', hloop, rfl⟩ := Option.map_eq_some_iff.mp hr
        rw [compressDeflateLoop_roomy hbounded hdest fuel (start_roomInv hpos) hloop]
        rintro ⟨⟩
    cases hcase : r.1 with
    | bufError => exact hret hcase
    | ok => rw [hcase] at hcode; cases hcode
    | streamEnd => rw [hcase] at hcode; cases hcode
    | dataError => rw [hcase] at hcode; cases hcode
    | streamError => rw [hcase] at hcode; cases hcode
    | memError => rw [hcase] at hcode; cases hcode

theorem bufferWrite_returns (hbounded : Z.Bounded source) (hprogress : Z.Progresses source)
    (hdest : worstCase source.length ≤ destLen) (hsource : 0 < source.length)
    (hfuel : source.length + destLen < fuel) :
    ∃ z, bufferWrite Z .ok fuel (some destLen) (some source) .deflate = some (.ok z) := by
  have hpos : 0 < destLen := by
    unfold worstCase at hdest
    omega
  obtain ⟨z, hloop⟩ := compressDeflateLoop_finishes hbounded hprogress hdest fuel
    (start_roomInv hpos) (by simpa [remaining] using hfuel)
  refine ⟨z, ?_⟩
  simp only [bufferWrite]
  rw [if_neg (by simpa using List.ne_nil_of_length_pos hsource), compressDeflate,
    if_neg (not_not.mpr rfl), hloop]
  rfl

/-- The bound for a length: it covers zlib's own, and a buffer of that size is enough for every
source of the length, with any `deflate` that stays within zlib's. -/
structure Covers (sourceLen : UInt64) : Prop where
  bound : worstCase sourceLen.toNat ≤ (bufferWriteCompressBound .deflate sourceLen).toNat
  enough : ∀ {D : Decoder} (Z : Deflate D) (source : List UInt8) (deflateInit2 : ZRet) (fuel : Nat)
    (method : CompressMethod), source.length = sourceLen.toNat → Z.Bounded source →
    deflateInit2 ≠ .bufError →
    bufferWrite Z deflateInit2 fuel (some (bufferWriteCompressBound .deflate sourceLen).toNat)
      (some source) method ≠ some (.error .insufficientOutbufError)
  returns : ∀ {D : Decoder} (Z : Deflate D) (source : List UInt8) (fuel : Nat),
    source.length = sourceLen.toNat → Z.Bounded source → Z.Progresses source →
    source.length + (bufferWriteCompressBound .deflate sourceLen).toNat < fuel →
    ∃ z, bufferWrite Z .ok fuel (some (bufferWriteCompressBound .deflate sourceLen).toNat)
      (some source) .deflate = some (.ok z)

/-- The bound is one if there is a source and the product does not wrap. -/
theorem bufferWriteCompressBound_covers_iff (sourceLen : UInt64) :
    Covers sourceLen ↔ 0 < sourceLen.toNat ∧ 65569 * blocks sourceLen.toNat < 2 ^ 64 := by
  constructor
  · exact fun h => worstCase_le_bound_iff.mp h.bound
  · intro h
    have hbound := worstCase_le_bound_iff.mpr h
    refine ⟨hbound, ?_, ?_⟩
    · intro D Z source deflateInit2 fuel method hlength hbounded hinit
      exact bufferWrite_ne_insufficient hbounded (hlength ▸ hbound) hinit
    · intro D Z source fuel hlength hbounded hprogress hfuel
      exact bufferWrite_returns hbounded hprogress (hlength ▸ hbound) (hlength ▸ h.1) hfuel

/-! ### Twenty-one letters -/

/-- Where zlib's bound just fits, the product wraps, and for no bytes there is no block. -/
theorem bufferWriteCompressBound_short :
    worstCase (18437736874454810624 : UInt64).toNat < 2 ^ 64 ∧
      ¬ worstCase (18437736874454810624 : UInt64).toNat ≤
        (bufferWriteCompressBound .deflate 18437736874454810624).toNat ∧
      ¬ worstCase (0 : UInt64).toNat ≤ (bufferWriteCompressBound .deflate 0).toNat := by
  decide

end FileApi.Compress
