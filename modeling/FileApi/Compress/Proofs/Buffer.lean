import FileApi.Compress.Buffer
import FileApi.Compress.Proofs.StreamRead

/-!
# The round trip through a buffer

`OH_Archive_BufferRead` leaves its loop when all of the source is taken, although output may be
pending, or more of the stream to come. It gives `inflate` the source and the room in chunks of
`UINT_MAX` bytes. How much comes through them decides: least of it where `inflate` takes each chunk
at once, and most where it leaves what it may.
-/

namespace FileApi.Compress

open Zlib

/-! ## Chunks -/

/-- The end of the chunk that the byte behind `t` is in. -/
def chunkEnd (n t : Nat) : Nat := min n ((t / uIntMax + 1) * uIntMax)

theorem uIntMax_pos : 0 < uIntMax := by decide

theorem chunkEnd_le (n t : Nat) : chunkEnd n t ≤ n := Nat.min_le_left _ _

theorem lt_chunkEnd {n t : Nat} (h : t < n) : t < chunkEnd n t := by
  refine Nat.lt_min.mpr ⟨h, ?_⟩
  rw [Nat.add_one_mul]
  exact Nat.lt_div_mul_add uIntMax_pos

theorem chunkEnd_mono {n t t' : Nat} (h : t ≤ t') : chunkEnd n t ≤ chunkEnd n t' :=
  Nat.le_min.mpr ⟨Nat.min_le_left _ _, (Nat.min_le_right _ _).trans
    (Nat.mul_le_mul_right _ (Nat.succ_le_succ (Nat.div_le_div_right h)))⟩

/-- What is left of a chunk: nothing, at its end, or what is in front of it. -/
def ChunkLeft (n t left : Nat) : Prop :=
  left = 0 ∧ (uIntMax ∣ t ∨ t = n) ∨ 0 < left ∧ t + left = chunkEnd n t

theorem ChunkLeft.next {n t left : Nat} (h : ChunkLeft n t left) (ht : t < n) :
    (if left = 0 then min (n - t) uIntMax else left) = chunkEnd n t - t := by
  rcases h with ⟨rfl, ⟨k, rfl⟩ | rfl⟩ | ⟨hpos, hend⟩
  · rw [if_pos rfl, chunkEnd, Nat.mul_div_cancel_left k uIntMax_pos, Nat.add_one_mul,
      Nat.mul_comm k]
    omega
  · exact absurd ht (Nat.lt_irrefl _)
  · rw [if_neg (Nat.ne_of_gt hpos), ← hend, Nat.add_sub_cancel_left]

theorem chunkEnd_within {n t t' : Nat} (h : t ≤ t') (hlt : t' < chunkEnd n t) :
    chunkEnd n t' = chunkEnd n t := by
  have hdiv : t' / uIntMax = t / uIntMax := by
    refine Nat.le_antisymm ?_ (Nat.div_le_div_right h)
    exact Nat.le_of_lt_succ (Nat.div_lt_of_lt_mul
      (Nat.mul_comm uIntMax _ ▸ Nat.lt_of_lt_of_le hlt (Nat.min_le_right _ _)))
  rw [chunkEnd, chunkEnd, hdiv]

theorem ChunkLeft.move {n t k : Nat} (hk : t + k ≤ chunkEnd n t) :
    ChunkLeft n (t + k) (chunkEnd n t - t - k) := by
  rcases Nat.lt_or_eq_of_le hk with hlt | heq
  · refine .inr ⟨by omega, ?_⟩
    rw [chunkEnd_within (Nat.le_add_right t k) hlt]
    omega
  · refine .inl ⟨by omega, ?_⟩
    rw [heq, chunkEnd]
    rcases Nat.le_total n ((t / uIntMax + 1) * uIntMax) with hle | hle
    · exact .inr (Nat.min_eq_left hle)
    · rw [Nat.min_eq_right hle]
      exact .inl (Nat.dvd_mul_left _ _)

/-! ## What comes through -/

section

variable (D : Decoder) (src : List UInt8)

/-- How many chunks of the source are in front of the last one. -/
def lastChunk : Nat := (src.length - 1) / uIntMax

/-- How many bytes the first chunks of the source determine. -/
def givenBy (m : Nat) : Nat := (D.out (src.take (m * uIntMax))).length

/-- So many bytes are determined by the first `m` chunks, and from every chunk on there is a chunk of
room for each of them. -/
def Suffices (m n : Nat) : Prop :=
  n ≤ givenBy D src m ∧ ∀ j < m, n ≤ (givenBy D src j / uIntMax + (m - j)) * uIntMax

/-- All bytes of the stream may be in the buffer, which they fill, with a chunk of the source left. -/
def FillsEarly (maxDstLen : Nat) : Prop :=
  0 < lastChunk src ∧ (D.out src).length = maxDstLen ∧
    givenBy D src (lastChunk src) = maxDstLen ∧
    maxDstLen ≤ ((D.out (src.take (lastChunk src * uIntMax - 1))).length / uIntMax + 1) * uIntMax

/-- How many bytes come through the first chunks where each is taken at once. -/
def letThrough (maxDstLen : Nat) : Nat → Nat
  | 0 => 0
  | m + 1 => min (givenBy D src (m + 1)) (chunkEnd maxDstLen (letThrough maxDstLen m))

end

section

variable {D : Decoder} {src : List UInt8} {maxDstLen : Nat}

theorem out_take_mono (D : Decoder) (src : List UInt8) {a b : Nat} (h : a ≤ b) :
    (D.out (src.take a)).length ≤ (D.out (src.take b)).length := by
  have hsplit : src.take a ++ (src.drop a).take (b - a) = src.take b := by
    rw [← List.take_add, Nat.add_sub_cancel' h]
  rw [← hsplit]
  exact D.out_length_le _ _

theorem letThrough_le_givenBy (m : Nat) : letThrough D src maxDstLen m ≤ givenBy D src m := by
  cases m with
  | zero => exact Nat.zero_le _
  | succ m => exact Nat.min_le_left _ _

theorem letThrough_le (m : Nat) : letThrough D src maxDstLen m ≤ maxDstLen := by
  cases m with
  | zero => exact Nat.zero_le _
  | succ m => exact (Nat.min_le_right _ _).trans (chunkEnd_le _ _)

theorem letThrough_succ (m : Nat) :
    letThrough D src maxDstLen m ≤ letThrough D src maxDstLen (m + 1) := by
  refine Nat.le_min.mpr ⟨(letThrough_le_givenBy m).trans ?_, ?_⟩
  · exact out_take_mono D src (Nat.mul_le_mul_right _ (Nat.le_succ m))
  · rcases Nat.lt_or_ge (letThrough D src maxDstLen m) maxDstLen with hlt | hge
    · exact (lt_chunkEnd hlt).le
    · refine Nat.le_min.mpr ⟨letThrough_le m, ?_⟩
      rw [Nat.add_one_mul]
      exact (Nat.lt_div_mul_add uIntMax_pos).le

theorem letThrough_mono {m m' : Nat} (h : m ≤ m') :
    letThrough D src maxDstLen m ≤ letThrough D src maxDstLen m' := by
  induction h with
  | refl => exact Nat.le_refl _
  | step _ ih => exact ih.trans (letThrough_succ _)

theorem le_succ_mul_iff {n k : Nat} :
    n ≤ (k + 1) * uIntMax ↔ (n - 1) / uIntMax * uIntMax ≤ k * uIntMax := by
  have hpos : 0 < (k + 1) * uIntMax := Nat.mul_pos (Nat.succ_pos k) uIntMax_pos
  have hdiv : (n - 1) / uIntMax < k + 1 ↔ n - 1 < (k + 1) * uIntMax :=
    Nat.div_lt_iff_lt_mul uIntMax_pos
  rw [Nat.mul_le_mul_right_iff uIntMax_pos]
  omega

theorem le_chunk_iff {n x : Nat} :
    n ≤ (x / uIntMax + 1) * uIntMax ↔ (n - 1) / uIntMax * uIntMax ≤ x := by
  rw [le_succ_mul_iff, Nat.mul_le_mul_right_iff uIntMax_pos, Nat.le_div_iff_mul_le uIntMax_pos]

theorem le_letThrough_iff {m : Nat} : ∀ {n : Nat}, n ≤ maxDstLen →
    (n ≤ letThrough D src maxDstLen m ↔ Suffices D src m n) := by
  induction m with
  | zero =>
    intro n _
    simp [letThrough, Suffices, givenBy, D.out_nil]
  | succ m ih =>
    intro n hn
    have hless : (n - 1) / uIntMax * uIntMax ≤ maxDstLen :=
      (Nat.div_mul_le_self _ _).trans (by omega)
    have hchunk : n ≤ chunkEnd maxDstLen (letThrough D src maxDstLen m) ↔
        (n - 1) / uIntMax * uIntMax ≤ letThrough D src maxDstLen m := by
      rw [chunkEnd, Nat.le_min, le_chunk_iff]
      exact and_iff_right hn
    have hlater : ∀ j < m, n ≤ (givenBy D src j / uIntMax + (m + 1 - j)) * uIntMax ↔
        (n - 1) / uIntMax * uIntMax ≤ (givenBy D src j / uIntMax + (m - j)) * uIntMax := by
      intro j hj
      rw [← le_succ_mul_iff, Nat.add_assoc, ← Nat.sub_add_comm hj.le]
    rw [letThrough, Nat.le_min, hchunk, ih hless]
    refine and_congr_right fun _ => ⟨fun ⟨hlast, hbefore⟩ j hj => ?_, fun h => ⟨?_, ?_⟩⟩
    · rcases Nat.lt_succ_iff_lt_or_eq.mp hj with hj | rfl
      · exact (hlater j hj).mpr (hbefore j hj)
      · rw [Nat.add_sub_cancel_left]
        exact le_chunk_iff.mpr hlast
    · have hm := h m (Nat.lt_succ_self m)
      rw [Nat.add_sub_cancel_left] at hm
      exact le_chunk_iff.mp hm
    · exact fun j hj => (hlater j hj).mp (h j (Nat.lt_succ_of_lt hj))

end

variable {σ : Type}

section Read

variable {D : Decoder} {I : Inflate D} {src : List UInt8} {maxDstLen : Nat}
  {st : BufferReadState I.State}

/-! ## The calls -/

/-- Where the calls of `inflate` that return `Z_OK` lead. -/
inductive BufferCalls (I : Inflate D) (src : List UInt8) (maxDstLen : Nat) :
    BufferReadState I.State → Prop where
  | start : BufferCalls I src maxDstLen { stream := I.reset }
  | call {st : BufferReadState I.State} (before : BufferCalls I src maxDstLen st)
      (room : st.output.length < maxDstLen) (input : st.totalInProcessed < src.length)
      (ret : (bufferReadCall I src maxDstLen st).1 = .ok) :
      BufferCalls I src maxDstLen (bufferReadCall I src maxDstLen st).2

/-- All of the source is taken, with no call having reported the end. -/
def RunsDry (I : Inflate D) (src : List UInt8) (maxDstLen : Nat) : Prop :=
  ∃ st, BufferCalls I src maxDstLen st ∧ st.totalInProcessed = src.length

/-- The buffer is full, with source left and no call having reported the end. -/
def FillsUp (I : Inflate D) (src : List UInt8) (maxDstLen : Nat) : Prop :=
  ∃ st, BufferCalls I src maxDstLen st ∧ st.output.length = maxDstLen ∧
    st.totalInProcessed < src.length

/-- What holds between the calls. -/
structure BufferReadInv (I : Inflate D) (src : List UInt8) (maxDstLen : Nat)
    (st : BufferReadState I.State) : Prop where
  holds : I.Holds st.stream (src.take st.totalInProcessed) st.output
  taken : st.totalInProcessed ≤ src.length
  given : st.output.length ≤ maxDstLen
  sound : st.output <+: D.out (src.take st.totalInProcessed)
  availIn : ChunkLeft src.length st.totalInProcessed st.availIn
  availOut : ChunkLeft maxDstLen st.output.length st.availOut

theorem start_bufferReadInv (I : Inflate D) (src : List UInt8) (maxDstLen : Nat) :
    BufferReadInv I src maxDstLen { stream := I.reset } := by
  refine ⟨?_, Nat.zero_le _, Nat.zero_le _, List.nil_prefix, .inl ⟨rfl, .inl (Nat.dvd_zero _)⟩,
    .inl ⟨rfl, .inl (Nat.dvd_zero _)⟩⟩
  rw [List.take_zero]
  exact I.reset_holds

/-- The end of the chunk of the source that is next. -/
def BufferReadState.inEnd {σ : Type} (st : BufferReadState σ) (src : List UInt8) : Nat :=
  chunkEnd src.length st.totalInProcessed

/-- The end of the chunk of the buffer that is next. -/
def BufferReadState.outEnd {σ : Type} (st : BufferReadState σ) (maxDstLen : Nat) : Nat :=
  chunkEnd maxDstLen st.output.length

/-- The call of `inflate`: the rests of the two chunks. -/
def BufferReadState.call (I : Inflate D) (src : List UInt8) (maxDstLen : Nat)
    (st : BufferReadState I.State) : ZResult I.State :=
  I.inflate st.stream ((src.take (st.inEnd src)).drop st.totalInProcessed)
    (st.outEnd maxDstLen - st.output.length)

theorem BufferReadInv.call_eq (inv : BufferReadInv I src maxDstLen st)
    (hroom : st.output.length < maxDstLen) (hinput : st.totalInProcessed < src.length) :
    bufferReadCall I src maxDstLen st =
      ((st.call I src maxDstLen).ret,
        { stream := (st.call I src maxDstLen).state
          availIn := st.inEnd src - st.totalInProcessed - (st.call I src maxDstLen).consumed
          availOut := st.outEnd maxDstLen - st.output.length -
            (st.call I src maxDstLen).output.length
          totalInProcessed := st.totalInProcessed + (st.call I src maxDstLen).consumed
          output := st.output ++ (st.call I src maxDstLen).output }) := by
  rw [bufferReadCall, inv.availIn.next hinput, inv.availOut.next hroom, ← List.drop_take]
  rfl

/-- What a call does that does not fail. -/
structure BufferReadStep (I : Inflate D) (src : List UInt8) (maxDstLen : Nat)
    (st : BufferReadState I.State) (r : ZResult I.State) : Prop where
  inv : BufferReadInv I src maxDstLen (bufferReadCall I src maxDstLen st).2
  taken : (bufferReadCall I src maxDstLen st).2.totalInProcessed =
    st.totalInProcessed + r.consumed
  given : (bufferReadCall I src maxDstLen st).2.output = st.output ++ r.output
  taken_le : st.totalInProcessed + r.consumed ≤ st.inEnd src
  given_le : (st.output ++ r.output).length ≤ st.outEnd maxDstLen
  progress : r.ret = .ok → 0 < r.consumed ∨ 0 < r.output.length
  drained : r.ret = .ok → (st.output ++ r.output).length < st.outEnd maxDstLen →
    st.totalInProcessed + r.consumed = st.inEnd src ∧
      st.output ++ r.output = D.out (src.take (st.inEnd src))
  finished : r.ret = .streamEnd → D.complete (src.take (st.totalInProcessed + r.consumed)) ∧
    st.output ++ r.output = D.out (src.take (st.totalInProcessed + r.consumed))

theorem BufferReadState.take_call (st : BufferReadState σ) (src : List UInt8) {n : Nat}
    (hn : st.totalInProcessed + n ≤ st.inEnd src) :
    src.take st.totalInProcessed ++ ((src.take (st.inEnd src)).drop st.totalInProcessed).take n =
      src.take (st.totalInProcessed + n) := by
  rw [List.drop_take, List.take_take, List.take_add, Nat.min_eq_left (by omega)]

theorem BufferReadState.take_inEnd (st : BufferReadState σ) (src : List UInt8)
    (h : st.totalInProcessed ≤ st.inEnd src) :
    src.take st.totalInProcessed ++ (src.take (st.inEnd src)).drop st.totalInProcessed =
      src.take (st.inEnd src) := by
  conv_rhs => rw [← List.take_append_drop st.totalInProcessed (src.take (st.inEnd src))]
  rw [List.take_take, Nat.min_eq_left h]

theorem valid_take (hvalid : D.Valid src) (n : Nat) : D.Valid (src.take n) := by
  rw [← List.take_append_drop n src] at hvalid
  exact hvalid.left

theorem BufferReadState.valid_call (st : BufferReadState σ) (hvalid : D.Valid src)
    (h : st.totalInProcessed < src.length) :
    D.Valid (src.take st.totalInProcessed ++
      (src.take (st.inEnd src)).drop st.totalInProcessed) := by
  rw [st.take_inEnd src (lt_chunkEnd h).le]
  exact valid_take hvalid _

theorem BufferReadInv.step (inv : BufferReadInv I src maxDstLen st) (hvalid : D.Valid src)
    (hroom : st.output.length < maxDstLen) (hinput : st.totalInProcessed < src.length)
    (hret : (st.call I src maxDstLen).ret = .ok ∨ (st.call I src maxDstLen).ret = .streamEnd) :
    BufferReadStep I src maxDstLen st (st.call I src maxDstLen) := by
  have hin : st.totalInProcessed < st.inEnd src := lt_chunkEnd hinput
  have hout : st.output.length < st.outEnd maxDstLen := lt_chunkEnd hroom
  have hinEnd : st.inEnd src ≤ src.length := chunkEnd_le _ _
  have houtEnd : st.outEnd maxDstLen ≤ maxDstLen := chunkEnd_le _ _
  have hwhole := st.take_inEnd src hin.le
  obtain ⟨hstep, hholds⟩ := I.step inv.holds (Nat.sub_pos_of_lt hout)
    (st.valid_call hvalid hinput) hret
  change InflateStep _ _ _ _ _ (st.call I src maxDstLen) at hstep
  change I.Holds (st.call I src maxDstLen).state (_ ++ List.take (st.call I src maxDstLen).consumed _)
    (_ ++ (st.call I src maxDstLen).output) at hholds
  have hconsumed := hstep.consumed_le
  have houtput := hstep.output_le
  rw [List.length_drop, List.length_take_of_le hinEnd] at hconsumed
  have htaken : st.totalInProcessed + (st.call I src maxDstLen).consumed ≤ st.inEnd src := by omega
  have hgiven : (st.output ++ (st.call I src maxDstLen).output).length ≤ st.outEnd maxDstLen := by
    rw [List.length_append]
    omega
  have hsound := hstep.sound
  have hdrained := hstep.drained
  have hfinished := hstep.finished
  rw [st.take_call src htaken] at hholds hsound hfinished
  rw [hwhole, List.length_drop, List.length_take_of_le hinEnd] at hdrained
  have hcall := inv.call_eq hroom hinput
  refine ⟨?_, by rw [hcall], by rw [hcall], htaken, hgiven, hstep.progress, fun hok hless => ?_,
    hfinished⟩
  · rw [hcall]
    refine ⟨hholds, htaken.trans hinEnd, hgiven.trans houtEnd, hsound, .move htaken, ?_⟩
    simp only [List.length_append]
    rw [List.length_append] at hgiven
    exact .move hgiven
  · rw [List.length_append] at hless
    obtain ⟨hall, hdone⟩ := hdrained hok (by omega)
    exact ⟨by omega, hdone⟩

theorem BufferReadInv.goes (inv : BufferReadInv I src maxDstLen st) (hprompt : I.Prompt)
    (hvalid : D.Valid src) (hroom : st.output.length < maxDstLen)
    (hinput : st.totalInProcessed < src.length) :
    (st.call I src maxDstLen).ret = .ok ∨ (st.call I src maxDstLen).ret = .streamEnd := by
  have hin : st.totalInProcessed < st.inEnd src := lt_chunkEnd hinput
  refine hprompt.goes inv.holds (Nat.sub_pos_of_lt (lt_chunkEnd hroom)) (fun hnil => ?_)
    (st.valid_call hvalid hinput)
  have hlength := List.drop_eq_nil_iff.mp hnil
  rw [List.length_take_of_le (show st.inEnd src ≤ _ from chunkEnd_le _ _)] at hlength
  exact absurd hin (Nat.not_lt_of_le hlength)

theorem BufferCalls.inv (hvalid : D.Valid src) (h : BufferCalls I src maxDstLen st) :
    BufferReadInv I src maxDstLen st := by
  induction h with
  | start => exact start_bufferReadInv I src maxDstLen
  | call before room input ret ih =>
    rw [ih.call_eq room input] at ret
    exact (ih.step hvalid room input (.inl ret)).inv

theorem BufferCalls.step (hvalid : D.Valid src) (h : BufferCalls I src maxDstLen st)
    (hroom : st.output.length < maxDstLen) (hinput : st.totalInProcessed < src.length)
    (hret : (bufferReadCall I src maxDstLen st).1 = .ok) :
    (st.call I src maxDstLen).ret = .ok ∧
      BufferReadStep I src maxDstLen st (st.call I src maxDstLen) := by
  rw [(h.inv hvalid).call_eq hroom hinput] at hret
  exact ⟨hret, (h.inv hvalid).step hvalid hroom hinput (.inl hret)⟩

/-! ## The loop follows the calls -/

theorem bufferReadLoop_call {fuel : Nat} (room : st.output.length < maxDstLen)
    (ret : (bufferReadCall I src maxDstLen st).1 = .ok) :
    bufferReadLoop I src maxDstLen (fuel + 1) st =
      if (bufferReadCall I src maxDstLen st).2.totalInProcessed < src.length then
        bufferReadLoop I src maxDstLen fuel (bufferReadCall I src maxDstLen st).2
      else some (.ok (bufferReadCall I src maxDstLen st).2.output) := by
  have hne : maxDstLen - st.output.length ≠ 0 := by omega
  rw [bufferReadLoop, if_neg hne]
  cases hcall : bufferReadCall I src maxDstLen st with
  | mk code st' =>
    rw [hcall] at ret
    obtain rfl : code = .ok := ret
    rfl

theorem bufferReadLoop_streamEnd {fuel : Nat} (room : st.output.length < maxDstLen)
    (ret : (bufferReadCall I src maxDstLen st).1 = .streamEnd) :
    bufferReadLoop I src maxDstLen (fuel + 1) st =
      some (.ok (bufferReadCall I src maxDstLen st).2.output) := by
  have hne : maxDstLen - st.output.length ≠ 0 := by omega
  rw [bufferReadLoop, if_neg hne]
  cases hcall : bufferReadCall I src maxDstLen st with
  | mk code st' =>
    rw [hcall] at ret
    obtain rfl : code = .streamEnd := ret
    rfl

theorem bufferRead_eq (hne : src ≠ []) :
    bufferRead I .ok (some maxDstLen) (some src) .deflate =
      bufferReadLoop I src maxDstLen (src.length + maxDstLen + 1) { stream := I.reset } := by
  have hpos : src.length ≠ 0 := fun h => hne (List.length_eq_zero_iff.mp h)
  simp only [bufferRead, hpos, if_false, ne_eq, not_true_eq_false]

theorem bufferReadLoop_calls (hvalid : D.Valid src) (h : BufferCalls I src maxDstLen st)
    (hinput : st.totalInProcessed < src.length) :
    ∃ n ≤ st.totalInProcessed + st.output.length, ∀ fuel,
      bufferReadLoop I src maxDstLen (fuel + n) { stream := I.reset } =
        bufferReadLoop I src maxDstLen fuel st := by
  induction h with
  | start => exact ⟨0, Nat.zero_le _, fun _ => rfl⟩
  | @call st before room input ret ih =>
    obtain ⟨n, hn, hloop⟩ := ih input
    obtain ⟨hok, hstep⟩ := before.step hvalid room input ret
    have hprogress := hstep.progress hok
    rw [hstep.taken, hstep.given, List.length_append]
    refine ⟨n + 1, by omega, fun fuel => ?_⟩
    rw [show fuel + (n + 1) = fuel + 1 + n by omega, hloop, bufferReadLoop_call room ret,
      if_pos hinput]

theorem bufferReadLoop_of_dry (hvalid : D.Valid src) (hne : src ≠ [])
    (h : BufferCalls I src maxDstLen st) (hdry : st.totalInProcessed = src.length) :
    bufferReadLoop I src maxDstLen (src.length + maxDstLen + 1) { stream := I.reset } =
      some (.ok st.output) := by
  cases h with
  | start => exact absurd (List.length_eq_zero_iff.mp hdry.symm) hne
  | @call st before room input ret =>
    obtain ⟨n, hn, hloop⟩ := bufferReadLoop_calls hvalid before input
    obtain ⟨k, hk⟩ : ∃ k, src.length + maxDstLen + 1 = k + 1 + n :=
      ⟨src.length + maxDstLen - n, by omega⟩
    rw [hk, hloop, bufferReadLoop_call room ret, if_neg (by omega)]

theorem bufferReadLoop_of_full (hvalid : D.Valid src) (h : BufferCalls I src maxDstLen st)
    (hfull : st.output.length = maxDstLen) (hinput : st.totalInProcessed < src.length) :
    bufferReadLoop I src maxDstLen (src.length + maxDstLen + 1) { stream := I.reset } =
      some (.error .insufficientOutbufError) := by
  obtain ⟨n, hn, hloop⟩ := bufferReadLoop_calls hvalid h hinput
  obtain ⟨k, hk⟩ : ∃ k, src.length + maxDstLen + 1 = k + 1 + n :=
    ⟨src.length + maxDstLen - n, by omega⟩
  rw [hk, hloop, bufferReadLoop, if_pos (by omega)]

/-! ## Where the loop ends -/

theorem BufferReadStep.end (h : BufferReadStep I src maxDstLen st (st.call I src maxDstLen))
    (hvalid : D.Valid src) (hret : (st.call I src maxDstLen).ret = .streamEnd) :
    st.totalInProcessed + (st.call I src maxDstLen).consumed = src.length ∧ D.complete src ∧
      st.output ++ (st.call I src maxDstLen).output = D.out src ∧
      (D.out src).length ≤ maxDstLen := by
  obtain ⟨hcomplete, hout⟩ := h.finished hret
  have hle := h.inv.taken
  rw [h.taken] at hle
  obtain ⟨rest, hrest⟩ := hvalid
  -- a complete stream is the start of no other one
  have hdrop : src.drop (st.totalInProcessed + (st.call I src maxDstLen).consumed) = [] := by
    rw [← List.take_append_drop (st.totalInProcessed + (st.call I src maxDstLen).consumed) src,
      List.append_assoc] at hrest
    exact (List.append_eq_nil_iff.mp (D.complete_append hcomplete hrest)).1
  have hall := Nat.le_antisymm hle (List.drop_eq_nil_iff.mp hdrop)
  rw [hall, List.take_length] at hcomplete hout
  refine ⟨hall, hcomplete, hout, ?_⟩
  rw [← hout]
  exact h.given_le.trans (chunkEnd_le _ _)

theorem BufferCalls.pending (hprompt : I.Prompt) (hvalid : D.Valid src)
    (hne : src ≠ []) (h : BufferCalls I src maxDstLen st)
    (hdry : st.totalInProcessed = src.length) : ¬ (D.complete src ∧ st.output = D.out src) := by
  cases h with
  | start => exact absurd (List.length_eq_zero_iff.mp hdry.symm) hne
  | @call st before room input ret =>
    obtain ⟨hok, hstep⟩ := before.step hvalid room input ret
    have hends := hprompt.ends (before.inv hvalid).holds (Nat.sub_pos_of_lt (lt_chunkEnd room))
      (st.valid_call hvalid input) hok
    change ¬ (D.complete (_ ++ List.take (st.call I src maxDstLen).consumed _) ∧
      _ ++ (st.call I src maxDstLen).output =
        D.out (_ ++ List.take (st.call I src maxDstLen).consumed _)) at hends
    rw [st.take_call src hstep.taken_le, ← hstep.taken, ← hstep.given, hdry,
      List.take_length] at hends
    exact hends

/-- The three ways out of the loop. -/
inductive BufferReadEnd (I : Inflate D) (src : List UInt8) (maxDstLen : Nat) :
    Option (Except OhArchiveBufferErr (List UInt8)) → Prop where
  | dry {st : BufferReadState I.State} (calls : BufferCalls I src maxDstLen st)
      (taken : st.totalInProcessed = src.length) :
      BufferReadEnd I src maxDstLen (some (.ok st.output))
  | full (fills : FillsUp I src maxDstLen) :
      BufferReadEnd I src maxDstLen (some (.error .insufficientOutbufError))
  | streamEnd (complete : D.complete src) (fits : (D.out src).length ≤ maxDstLen) :
      BufferReadEnd I src maxDstLen (some (.ok (D.out src)))

theorem bufferReadLoop_end (hprompt : I.Prompt) (hvalid : D.Valid src) (fuel : Nat) :
    ∀ {st : BufferReadState I.State}, BufferCalls I src maxDstLen st →
      st.totalInProcessed < src.length →
      src.length + maxDstLen < fuel + (st.totalInProcessed + st.output.length) →
      BufferReadEnd I src maxDstLen (bufferReadLoop I src maxDstLen fuel st) := by
  induction fuel with
  | zero =>
    intro st hcalls hinput hfuel
    have hgiven := (hcalls.inv hvalid).given
    omega
  | succ fuel ih =>
    intro st hcalls hinput hfuel
    have hinv := hcalls.inv hvalid
    by_cases hroom : st.output.length < maxDstLen
    · have hcall := hinv.call_eq hroom hinput
      have hret := hinv.goes hprompt hvalid hroom hinput
      have hstep := hinv.step hvalid hroom hinput hret
      rcases hret with hret | hret
      · have hok : (bufferReadCall I src maxDstLen st).1 = .ok := by rw [hcall]; exact hret
        have hprogress := hstep.progress hret
        rw [bufferReadLoop_call hroom hok]
        split
        · next hmore =>
          refine ih (hcalls.call hroom hinput hok) hmore ?_
          rw [hstep.taken, hstep.given, List.length_append]
          omega
        · next hmore =>
          exact .dry (hcalls.call hroom hinput hok)
            (Nat.le_antisymm hstep.inv.taken (Nat.le_of_not_lt hmore))
      · obtain ⟨-, hcomplete, hout, hfits⟩ := hstep.end hvalid hret
        rw [bufferReadLoop_streamEnd hroom (by rw [hcall]; exact hret), hstep.given, hout]
        exact .streamEnd hcomplete hfits
    · have hgiven := hinv.given
      rw [bufferReadLoop, if_pos (by omega)]
      exact .full ⟨st, hcalls, by omega, hinput⟩

theorem bufferRead_end (hprompt : I.Prompt) (hvalid : D.Valid src) (hne : src ≠ []) :
    BufferReadEnd I src maxDstLen (bufferRead I .ok (some maxDstLen) (some src) .deflate) := by
  have hpos : 0 < src.length := List.length_pos_iff.mpr hne
  rw [bufferRead_eq hne]
  exact bufferReadLoop_end hprompt hvalid _ .start hpos (by simp)

theorem bufferRead_of_runsDry (hprompt : I.Prompt) (hvalid : D.Valid src) (hne : src ≠ [])
    (hdry : RunsDry I src maxDstLen) :
    ∃ output, bufferRead I .ok (some maxDstLen) (some src) .deflate = some (.ok output) ∧
      ¬ (D.complete src ∧ output = D.out src) := by
  obtain ⟨st, hcalls, htaken⟩ := hdry
  refine ⟨st.output, ?_, hcalls.pending hprompt hvalid hne htaken⟩
  rw [bufferRead_eq hne]
  exact bufferReadLoop_of_dry hvalid hne hcalls htaken

theorem bufferRead_of_fillsUp (hvalid : D.Valid src) (hfull : FillsUp I src maxDstLen) :
    bufferRead I .ok (some maxDstLen) (some src) .deflate =
      some (.error .insufficientOutbufError) := by
  obtain ⟨st, hcalls, hroom, hinput⟩ := hfull
  have hne : src ≠ [] := List.length_pos_iff.mp (Nat.zero_lt_of_lt hinput)
  rw [bufferRead_eq hne]
  exact bufferReadLoop_of_full hvalid hcalls hroom hinput

/-! ## What comes of a stream, by the way the calls go -/

theorem bufferRead_complete_iff (hprompt : I.Prompt) (hcomplete : D.complete src)
    (hne : src ≠ []) :
    bufferRead I .ok (some maxDstLen) (some src) .deflate = some (.ok (D.out src)) ↔
      ¬ RunsDry I src maxDstLen ∧ ¬ FillsUp I src maxDstLen := by
  have hvalid : D.Valid src := ⟨[], by rwa [List.append_nil]⟩
  constructor
  · intro hread
    constructor
    · intro hdry
      obtain ⟨output, houtput, hpending⟩ := bufferRead_of_runsDry hprompt hvalid hne hdry
      rw [hread] at houtput
      injection houtput with houtput
      injection houtput with houtput
      exact hpending ⟨hcomplete, houtput.symm⟩
    · intro hfull
      rw [bufferRead_of_fillsUp hvalid hfull] at hread
      cases hread
  · rintro ⟨hdry, hfull⟩
    have hend : BufferReadEnd I src maxDstLen _ := bufferRead_end hprompt hvalid hne
    generalize bufferRead I .ok (some maxDstLen) (some src) .deflate = r at hend ⊢
    cases hend with
    | dry calls taken => exact absurd ⟨_, calls, taken⟩ hdry
    | full fills => exact absurd fills hfull
    | streamEnd complete fits => rfl

theorem bufferRead_refuses_iff (hprompt : I.Prompt) (hvalid : D.Valid src) (hne : src ≠ [])
    (hnot : ¬ (D.complete src ∧ (D.out src).length ≤ maxDstLen)) :
    bufferRead I .ok (some maxDstLen) (some src) .deflate =
        some (.error .insufficientOutbufError) ↔ ¬ RunsDry I src maxDstLen := by
  constructor
  · intro hread hdry
    obtain ⟨output, houtput, -⟩ := bufferRead_of_runsDry hprompt hvalid hne hdry
    rw [hread] at houtput
    cases houtput
  · intro hdry
    have hend : BufferReadEnd I src maxDstLen _ := bufferRead_end hprompt hvalid hne
    generalize bufferRead I .ok (some maxDstLen) (some src) .deflate = r at hend ⊢
    cases hend with
    | dry calls taken => exact absurd ⟨_, calls, taken⟩ hdry
    | full fills => rfl
    | streamEnd complete fits => exact absurd ⟨complete, fits⟩ hnot

theorem bufferRead_truncated_iff (hprompt : I.Prompt) (hvalid : D.Valid src) (hne : src ≠ [])
    (hcut : ¬ D.complete src) :
    (∀ output, bufferRead I .ok (some maxDstLen) (some src) .deflate ≠ some (.ok output)) ↔
      ¬ RunsDry I src maxDstLen := by
  constructor
  · intro hread hdry
    obtain ⟨output, houtput, -⟩ := bufferRead_of_runsDry hprompt hvalid hne hdry
    exact hread output houtput
  · intro hdry output hread
    rw [(bufferRead_refuses_iff hprompt hvalid hne fun h => hcut h.1).mpr hdry] at hread
    cases hread

/-! ## Which way they go -/

theorem BufferCalls.reaches (hprompt : I.Prompt) (hvalid : D.Valid src) {k : Nat}
    (hk : k * uIntMax < src.length) (left : Nat) : ∀ {st : BufferReadState I.State},
      BufferCalls I src maxDstLen st → st.totalInProcessed ≤ k * uIntMax →
      src.length + maxDstLen ≤ left + (st.totalInProcessed + st.output.length) →
      (∃ st', BufferCalls I src maxDstLen st' ∧ st'.totalInProcessed = k * uIntMax) ∨
        FillsUp I src maxDstLen := by
  induction left with
  | zero =>
    intro st hcalls hle hleft
    have hgiven := (hcalls.inv hvalid).given
    omega
  | succ left ih =>
    intro st hcalls hle hleft
    have hinv := hcalls.inv hvalid
    have hinput : st.totalInProcessed < src.length := Nat.lt_of_le_of_lt hle hk
    by_cases hhere : st.totalInProcessed = k * uIntMax
    · exact .inl ⟨st, hcalls, hhere⟩
    by_cases hroom : st.output.length < maxDstLen
    · have hstep := hinv.step hvalid hroom hinput (hinv.goes hprompt hvalid hroom hinput)
      have hin : st.inEnd src ≤ k * uIntMax := by
        refine (Nat.min_le_right _ _).trans (Nat.mul_le_mul_right _ ?_)
        exact Nat.div_lt_of_lt_mul (Nat.mul_comm uIntMax k ▸ Nat.lt_of_le_of_ne hle hhere)
      have htaken := hstep.taken_le.trans hin
      rcases hinv.goes hprompt hvalid hroom hinput with hret | hret
      · have hprogress := hstep.progress hret
        refine ih (hcalls.call hroom hinput (by rw [hinv.call_eq hroom hinput]; exact hret)) ?_ ?_
        · rw [hstep.taken]
          exact htaken
        · rw [hstep.taken, hstep.given, List.length_append]
          omega
      · have hall := (hstep.end hvalid hret).1
        omega
    · exact .inr ⟨st, hcalls, Nat.le_antisymm hinv.given (Nat.le_of_not_lt hroom), hinput⟩

theorem inEnd_eq {st : BufferReadState I.State} {m : Nat} (hm : m ≤ lastChunk src + 1)
    (hinput : st.totalInProcessed < src.length)
    (hlt : st.totalInProcessed < min src.length (m * uIntMax))
    (hle : min src.length (m * uIntMax) ≤ st.inEnd src) :
    m = st.totalInProcessed / uIntMax + 1 ∧ st.inEnd src = min src.length (m * uIntMax) := by
  have hge : st.totalInProcessed / uIntMax + 1 ≤ m :=
    Nat.div_lt_of_lt_mul (Nat.mul_comm uIntMax m ▸ Nat.lt_of_lt_of_le hlt (Nat.min_le_right _ _))
  have heq : m = st.totalInProcessed / uIntMax + 1 := by
    refine Nat.le_antisymm (Nat.le_of_not_lt fun hgt => ?_) hge
    -- a chunk further would start behind the last one
    have hlast : (st.totalInProcessed / uIntMax + 1) * uIntMax ≤ src.length - 1 :=
      (Nat.mul_le_mul_right _ (Nat.le_of_succ_le_succ (hgt.trans_le hm))).trans
        (Nat.div_mul_le_self (src.length - 1) uIntMax)
    have hnext : (st.totalInProcessed / uIntMax + 1) * uIntMax < m * uIntMax :=
      (Nat.mul_lt_mul_right uIntMax_pos).mpr hgt
    rw [BufferReadState.inEnd, chunkEnd] at hle
    omega
  exact ⟨heq, by rw [heq]; rfl⟩

theorem givenBy_eq (D : Decoder) (src : List UInt8) (m : Nat) :
    givenBy D src m = (D.out (src.take (min src.length (m * uIntMax)))).length := by
  rw [givenBy, List.take_eq_take_iff.mpr]
  omega

theorem BufferCalls.letThrough_le (hvalid : D.Valid src) (h : BufferCalls I src maxDstLen st) :
    ∀ m ≤ lastChunk src + 1, min src.length (m * uIntMax) ≤ st.totalInProcessed →
      letThrough D src maxDstLen m ≤ st.output.length := by
  induction h with
  | start =>
    intro m _ hm
    refine (letThrough_le_givenBy m).trans ?_
    rw [givenBy_eq, Nat.le_zero.mp hm, List.take_zero, D.out_nil]
  | @call st before room input ret ih =>
    intro m hm hend
    obtain ⟨hok, hstep⟩ := before.step hvalid room input ret
    rw [hstep.taken] at hend
    rw [hstep.given]
    by_cases hbefore : min src.length (m * uIntMax) ≤ st.totalInProcessed
    · refine (ih m hm hbefore).trans ?_
      rw [List.length_append]
      exact Nat.le_add_right _ _
    · obtain ⟨rfl, hinEnd⟩ := inEnd_eq hm input (Nat.lt_of_not_le hbefore) (hend.trans hstep.taken_le)
      rw [letThrough]
      by_cases hfull : (st.output ++ (st.call I src maxDstLen).output).length < st.outEnd maxDstLen
      · obtain ⟨-, hdone⟩ := hstep.drained hok hfull
        refine (Nat.min_le_left _ _).trans ?_
        rw [hdone, hinEnd, givenBy_eq]
      · refine (Nat.min_le_right _ _).trans ((chunkEnd_mono ?_).trans (Nat.le_of_not_lt hfull))
        refine ih _ (by omega) ((Nat.min_le_right _ _).trans (Nat.div_mul_le_self _ _))

theorem lastChunk_mul_lt (hne : src ≠ []) : lastChunk src * uIntMax < src.length :=
  Nat.lt_of_le_of_lt (Nat.div_mul_le_self (src.length - 1) uIntMax)
    (Nat.sub_lt (List.length_pos_iff.mpr hne) Nat.one_pos)

theorem le_lastChunk_mul : src.length ≤ (lastChunk src + 1) * uIntMax :=
  le_chunk_iff.mpr (Nat.le_refl _) |>.trans (by
    rw [Nat.mul_div_cancel _ uIntMax_pos]
    exact Nat.le_refl _)

theorem RunsDry.room (hvalid : D.Valid src) (hne : src ≠ []) (h : RunsDry I src maxDstLen) :
    letThrough D src maxDstLen (lastChunk src) < maxDstLen ∧
      ∃ st, BufferCalls I src maxDstLen st ∧ st.totalInProcessed = src.length ∧
        letThrough D src maxDstLen (lastChunk src + 1) ≤ st.output.length := by
  obtain ⟨st', hcalls, hall⟩ := h
  have hpos : 0 < src.length := List.length_pos_iff.mpr hne
  refine ⟨?_, st', hcalls, hall, ?_⟩
  · cases hcalls with
    | start => exact absurd hall hpos.ne
    | @call st before room input ret =>
      obtain ⟨hok, hstep⟩ := before.step hvalid room input ret
      rw [hstep.taken] at hall
      refine Nat.lt_of_le_of_lt (before.letThrough_le hvalid _ (Nat.le_succ _) ?_) room
      have hend : src.length ≤ (st.totalInProcessed / uIntMax + 1) * uIntMax :=
        hall.ge.trans (hstep.taken_le.trans (Nat.min_le_right _ _))
      exact (Nat.min_le_right _ _).trans (le_chunk_iff.mp hend)
  · refine hcalls.letThrough_le hvalid _ (Nat.le_refl _) ?_
    rw [hall]
    exact Nat.min_le_left _ _

/-! ### Each chunk at once -/

section Greedy

variable [DecidablePred D.complete]

theorem greedyStep_call {st : BufferReadState σ} (hroom : st.output.length < maxDstLen)
    (hinput : st.totalInProcessed < src.length)
    (hsound : st.output <+: D.out (src.take st.totalInProcessed)) :
    st.totalInProcessed + (greedyStep D (src.take st.totalInProcessed, st.output)
        ((src.take (st.inEnd src)).drop st.totalInProcessed)
        (st.outEnd maxDstLen - st.output.length)).consumed = st.inEnd src ∧
      (st.output ++ (greedyStep D (src.take st.totalInProcessed, st.output)
        ((src.take (st.inEnd src)).drop st.totalInProcessed)
        (st.outEnd maxDstLen - st.output.length)).output).length =
        min (D.out (src.take (st.inEnd src))).length (st.outEnd maxDstLen) := by
  have hin : st.totalInProcessed < st.inEnd src := lt_chunkEnd hinput
  have hout : st.output.length < st.outEnd maxDstLen := lt_chunkEnd hroom
  have hinEnd : st.inEnd src ≤ src.length := chunkEnd_le _ _
  have hgiven := hsound.length_le.trans (out_take_mono D src hin.le)
  simp only [greedyStep, st.take_inEnd src hin.le, List.length_append, List.length_take,
    List.length_drop]
  omega

theorem greedy_call {st : BufferReadState (Inflate.greedy D).State}
    (inv : BufferReadInv (Inflate.greedy D) src maxDstLen st)
    (hroom : st.output.length < maxDstLen) (hinput : st.totalInProcessed < src.length) :
    st.totalInProcessed + (st.call (Inflate.greedy D) src maxDstLen).consumed = st.inEnd src ∧
      (st.output ++ (st.call (Inflate.greedy D) src maxDstLen).output).length =
        min (D.out (src.take (st.inEnd src))).length (st.outEnd maxDstLen) := by
  obtain ⟨hstream, hsound⟩ := inv.holds
  rw [BufferReadState.call, hstream]
  exact greedyStep_call hroom hinput hsound

theorem greedy_letThrough (hvalid : D.Valid src) {st : BufferReadState (Inflate.greedy D).State}
    (h : BufferCalls (Inflate.greedy D) src maxDstLen st) :
    ∃ m, st.totalInProcessed = min src.length (m * uIntMax) ∧
      st.output.length = letThrough D src maxDstLen m := by
  induction h with
  | start => exact ⟨0, by simp, rfl⟩
  | @call st before room input ret ih =>
    obtain ⟨m, htaken, hgiven⟩ := ih
    obtain ⟨-, hstep⟩ := before.step hvalid room input ret
    obtain ⟨hall, hlength⟩ := greedy_call (before.inv hvalid) room input
    have hm : st.totalInProcessed = m * uIntMax := by omega
    have hinEnd : st.inEnd src = min src.length ((m + 1) * uIntMax) := by
      rw [BufferReadState.inEnd, chunkEnd, hm, Nat.mul_div_cancel _ uIntMax_pos]
    refine ⟨m + 1, ?_, ?_⟩
    · rw [hstep.taken, hall, hinEnd]
    · rw [hstep.given, hlength, hinEnd, ← givenBy_eq, BufferReadState.outEnd, hgiven, letThrough]

theorem greedy_runsDry (hvalid : D.Valid src) (hne : src ≠ [])
    (hroom : letThrough D src maxDstLen (lastChunk src) < maxDstLen)
    (hmore : D.complete src → letThrough D src maxDstLen (lastChunk src + 1) < (D.out src).length) :
    RunsDry (Inflate.greedy D) src maxDstLen := by
  have hlast := lastChunk_mul_lt hne
  rcases BufferCalls.reaches (I := Inflate.greedy D) (Inflate.greedy_prompt D) hvalid hlast _ .start
    (Nat.zero_le _) (Nat.le_refl (src.length + maxDstLen)) with ⟨st, hcalls, htaken⟩ |
      ⟨st, hcalls, hfull, hinput⟩
  · obtain ⟨m, hm, hgiven⟩ := greedy_letThrough hvalid hcalls
    obtain rfl : m = lastChunk src :=
      Nat.eq_of_mul_eq_mul_right uIntMax_pos (by omega)
    rw [← hgiven] at hroom
    have hinput : st.totalInProcessed < src.length := htaken ▸ hlast
    have hinv := hcalls.inv hvalid
    have hret := hinv.goes (Inflate.greedy_prompt D) hvalid hroom hinput
    have hstep := hinv.step hvalid hroom hinput hret
    obtain ⟨hall, hlength⟩ := greedy_call hinv hroom hinput
    have hinEnd : st.inEnd src = src.length := by
      rw [BufferReadState.inEnd, chunkEnd, htaken, Nat.mul_div_cancel _ uIntMax_pos]
      exact Nat.min_eq_left le_lastChunk_mul
    rcases hret with hret | hret
    · refine ⟨_, hcalls.call hroom hinput (by rw [hinv.call_eq hroom hinput]; exact hret), ?_⟩
      rw [hstep.taken, hall, hinEnd]
    · obtain ⟨-, hcomplete, hout, -⟩ := hstep.end hvalid hret
      have hless := hmore hcomplete
      rw [letThrough, ← hgiven, givenBy_eq, Nat.min_eq_left le_lastChunk_mul, ← hinEnd, ← hout] at hless
      exact absurd hlength hless.ne'
  · obtain ⟨m, hm, hgiven⟩ := greedy_letThrough hvalid hcalls
    have hle : m ≤ lastChunk src := by
      refine (Nat.le_div_iff_mul_le uIntMax_pos).mpr ?_
      omega
    have hmono : letThrough D src maxDstLen m ≤ letThrough D src maxDstLen (lastChunk src) :=
      letThrough_mono hle
    omega

end Greedy

/-! ### A buffer that is full too early -/

/-- A buffer that has room for all bytes and is full with source left has all of them at the end of a
chunk. -/
theorem FillsUp.early (hprompt : I.Prompt) (hvalid : D.Valid src)
    (hfits : (D.out src).length ≤ maxDstLen) (hpos : 0 < maxDstLen)
    (h : FillsUp I src maxDstLen) : FillsEarly D src maxDstLen := by
  obtain ⟨st', hcalls, hfull, hmore⟩ := h
  cases hcalls with
  | start => exact absurd hfull hpos.ne
  | @call st before room input ret =>
    obtain ⟨hok, hstep⟩ := before.step hvalid room input ret
    have hinv := before.inv hvalid
    have hsound := hstep.inv.sound.length_le
    rw [hfull, hstep.taken] at hsound
    rw [hstep.given] at hfull
    rw [hstep.taken] at hmore
    have hwhole : ∀ n, (D.out (src.take n)).length ≤ (D.out src).length := by
      intro n
      have hle := D.out_length_le (src.take n) (src.drop n)
      rwa [List.take_append_drop] at hle
    -- nothing of the chunk is left, since nothing more is determined
    have hend : st.totalInProcessed + (st.call I src maxDstLen).consumed = st.inEnd src := by
      refine Nat.le_antisymm hstep.taken_le (Nat.le_of_not_lt fun hlt => ?_)
      have hleaves := hprompt.leaves hinv.holds (Nat.sub_pos_of_lt (lt_chunkEnd room))
        (st.valid_call hvalid input) hok
      rw [List.length_drop, List.length_take_of_le (show st.inEnd src ≤ _ from chunkEnd_le _ _),
        st.take_inEnd src (lt_chunkEnd input).le] at hleaves
      have hless := hleaves (Nat.lt_sub_of_add_lt (Nat.add_comm _ _ ▸ hlt))
      change (_ ++ (st.call I src maxDstLen).output).length < _ at hless
      have := hwhole (st.inEnd src)
      omega
    rw [hend] at hsound hmore
    have hchunk : st.inEnd src = (st.totalInProcessed / uIntMax + 1) * uIntMax := by
      rw [BufferReadState.inEnd, chunkEnd] at hmore ⊢
      omega
    have hlast : st.totalInProcessed / uIntMax + 1 ≤ lastChunk src :=
      (Nat.le_div_iff_mul_le uIntMax_pos).mpr (by omega)
    have hmul : st.inEnd src ≤ lastChunk src * uIntMax := by
      rw [hchunk]
      exact Nat.mul_le_mul_right _ hlast
    have hgiven := hsound.trans (out_take_mono D src hmul)
    have hall := hwhole (lastChunk src * uIntMax)
    refine ⟨Nat.lt_of_lt_of_le (Nat.succ_pos _) hlast, by omega,
      Nat.le_antisymm (hall.trans hfits) hgiven, ?_⟩
    have hbefore : st.output.length ≤
        (D.out (src.take (lastChunk src * uIntMax - 1))).length := by
      refine hinv.sound.length_le.trans (out_take_mono D src ?_)
      have : st.totalInProcessed < st.inEnd src := lt_chunkEnd input
      omega
    have houtEnd := hstep.given_le
    rw [hfull] at houtEnd
    refine houtEnd.trans ((Nat.min_le_right _ _).trans ?_)
    exact Nat.mul_le_mul_right _ (Nat.succ_le_succ (Nat.div_le_div_right hbefore))

/-- An implementation that leaves what it may does so. -/
theorem reluctant_fillsUp [DecidablePred D.complete] (hvalid : D.Valid src)
    (h : FillsEarly D src maxDstLen) : FillsUp (Inflate.reluctant D) src maxDstLen := by
  obtain ⟨hchunks, hfits, hgivenBy, hroom⟩ := h
  have hne : src ≠ [] := by
    rintro rfl
    exact absurd hchunks (by decide)
  have hlast := lastChunk_mul_lt hne
  have hfull : ∀ {st}, BufferCalls (Inflate.reluctant D) src maxDstLen st →
      lastChunk src * uIntMax ≤ st.totalInProcessed → st.output.length = maxDstLen := by
    intro st hcalls
    induction hcalls with
    | start =>
      intro hle
      exact absurd (Nat.mul_pos hchunks uIntMax_pos) (Nat.not_lt_of_le hle)
    | @call st before room input ret ih =>
      intro hle
      obtain ⟨hok, hstep⟩ := before.step hvalid room input ret
      have hbefore : st.totalInProcessed < lastChunk src * uIntMax :=
        Nat.lt_of_not_le fun hge => room.ne (ih hge)
      have hchunk : st.inEnd src ≤ lastChunk src * uIntMax := by
        refine (Nat.min_le_right _ _).trans (Nat.mul_le_mul_right _ ?_)
        exact Nat.div_lt_of_lt_mul (Nat.mul_comm uIntMax _ ▸ hbefore)
      rw [hstep.taken] at hle
      have hend : st.inEnd src = lastChunk src * uIntMax :=
        Nat.le_antisymm hchunk (hle.trans hstep.taken_le)
      have hin : st.totalInProcessed < st.inEnd src := lt_chunkEnd input
      obtain ⟨hstream, hsound⟩ := (before.inv hvalid).holds
      have hcall : st.call (Inflate.reluctant D) src maxDstLen =
          reluctantStep D (src.take st.totalInProcessed, st.output)
            ((src.take (st.inEnd src)).drop st.totalInProcessed)
            (st.outEnd maxDstLen - st.output.length) := by
        rw [BufferReadState.call, hstream]
        rfl
      have houtEnd : st.output.length < st.outEnd maxDstLen := lt_chunkEnd room
      have hlength : ((src.take (st.inEnd src)).drop st.totalInProcessed).length =
          st.inEnd src - st.totalInProcessed := by
        rw [List.length_drop, List.length_take_of_le (show st.inEnd src ≤ _ from chunkEnd_le _ _)]
      rw [hcall, reluctantStep] at hle
      by_cases hleaves : LeavesLast D (src.take st.totalInProcessed, st.output)
          ((src.take (st.inEnd src)).drop st.totalInProcessed)
          (st.outEnd maxDstLen - st.output.length)
      · -- then the chunk would not be at its end
        rw [if_pos hleaves] at hle
        simp only [greedyStep, List.length_dropLast, hlength] at hle
        omega
      · rw [hstep.given, hcall, reluctantStep, if_neg hleaves, (greedyStep_call room input hsound).2,
          hend, ← givenBy, hgivenBy]
        have hone : src.take st.totalInProcessed ++
            ((src.take (st.inEnd src)).drop st.totalInProcessed).dropLast =
              src.take (lastChunk src * uIntMax - 1) := by
          rw [List.dropLast_eq_take, hlength, st.take_call src (by omega), ← hend]
          congr 1
          omega
        refine Nat.min_eq_left (Nat.le_of_not_lt fun hless => hleaves ⟨?_, ?_, ?_⟩)
        · exact fun hnil => by
            rw [hnil, List.length_nil] at hlength
            omega
        · rw [hone]
          refine Nat.le_of_not_lt fun hmore => ?_
          rw [Nat.add_sub_cancel' houtEnd.le] at hmore
          have hwhole : st.outEnd maxDstLen = (st.output.length / uIntMax + 1) * uIntMax := by
            rw [BufferReadState.outEnd, chunkEnd] at hless ⊢
            omega
          rw [hwhole] at hmore hless
          have hdiv := (Nat.div_lt_iff_lt_mul uIntMax_pos).mpr hmore
          exact absurd hless (Nat.not_lt_of_le (hroom.trans (Nat.mul_le_mul_right uIntMax hdiv)))
        · rw [st.take_inEnd src hin.le, hend, ← givenBy, hgivenBy]
          simp only
          omega
  rcases BufferCalls.reaches (I := Inflate.reluctant D) (Inflate.reluctant_prompt D) hvalid hlast _
    .start (Nat.zero_le _) (Nat.le_refl (src.length + maxDstLen)) with ⟨st, hcalls, htaken⟩ | hfills
  · exact ⟨st, hcalls, hfull hcalls htaken.ge, htaken ▸ hlast⟩
  · exact hfills

end Read

section Write

variable {D : Decoder} {Z : Deflate D} {source : List UInt8}

/-! ## Compression -/

/-- What holds between the turns of `CompressDeflate`: what is taken, what is next and what is
behind it are the source; once the stream is being finished nothing is left of it. -/
structure BufferWriteInv (Z : Deflate D) (source : List UInt8) (st : BufferWriteState Z.State) :
    Prop where
  holds : ∃ b, Z.Holds st.stream b st.output ∧ b ++ st.nextIn ++ st.source = source
  finishing : Z.finishing st.stream = true → st.nextIn = [] ∧ st.source = []

theorem start_bufferWriteInv (Z : Deflate D) (source : List UInt8) (left : Nat) :
    BufferWriteInv Z source { stream := Z.reset, source, left } := by
  refine ⟨⟨[], Z.reset_holds, rfl⟩, fun hfinishing => ?_⟩
  rw [Z.reset_finishing] at hfinishing
  cases hfinishing

theorem streamNext_input (st : BufferWriteState σ) :
    (streamNext st).stream = st.stream ∧ (streamNext st).output = st.output ∧
      (streamNext st).nextIn ++ (streamNext st).source = st.nextIn ++ st.source ∧
      ((streamNext st).source ≠ [] → (streamNext st).nextIn ≠ []) := by
  by_cases hnext : st.nextIn = []
  · by_cases hroom : st.availOut = 0 <;>
      simp only [streamNext, hnext, hroom, if_true, if_false, true_and, List.take_append_drop,
        List.nil_append]
    all_goals
      intro hsource htake
      rcases List.take_eq_nil_iff.mp htake with hmax | hnil
      · exact absurd hmax (by decide)
      · exact hsource (by rw [hnil, List.drop_nil])
  · by_cases hroom : st.availOut = 0 <;> simp [streamNext, hnext, hroom]

theorem BufferWriteInv.streamNext {st : BufferWriteState Z.State}
    (inv : BufferWriteInv Z source st) : BufferWriteInv Z source (streamNext st) := by
  obtain ⟨hstream, houtput, hinput, -⟩ := streamNext_input st
  obtain ⟨b, hholds, hsource⟩ := inv.holds
  refine ⟨⟨b, ?_, ?_⟩, fun hfinishing => ?_⟩
  · rw [hstream, houtput]
    exact hholds
  · rw [List.append_assoc, hinput, ← List.append_assoc]
    exact hsource
  · rw [hstream] at hfinishing
    obtain ⟨hnext, hleft⟩ := inv.finishing hfinishing
    rw [hnext, hleft, List.nil_append] at hinput
    exact List.append_eq_nil_iff.mp hinput

/-- The call of `deflate` in a turn of `CompressDeflate`. -/
def BufferWriteState.call (Z : Deflate D) (st : BufferWriteState Z.State) : ZResult Z.State :=
  Z.deflate st.stream st.nextIn st.availOut (if st.source ≠ [] then .noFlush else .finish)

/-- What the call leaves. -/
def BufferWriteState.after {σ : Type} (st : BufferWriteState σ) (r : ZResult σ) :
    BufferWriteState σ :=
  { st with
    stream := r.state
    nextIn := st.nextIn.drop r.consumed
    availOut := st.availOut - r.output.length
    output := st.output ++ r.output }

theorem compressDeflateLoop_succ (fuel : Nat) (st : BufferWriteState Z.State) :
    compressDeflateLoop Z (fuel + 1) st =
      if ((streamNext st).call Z).ret = .ok then
        compressDeflateLoop Z fuel ((streamNext st).after ((streamNext st).call Z))
      else some (((streamNext st).call Z).ret, (streamNext st).output ++ ((streamNext st).call Z).output) :=
  rfl

/-- What one call with room does: it goes on along the source, or it has come to its end. -/
structure BufferWriteTurn (Z : Deflate D) (source : List UInt8) (st : BufferWriteState Z.State) :
    Prop where
  ret : (st.call Z).ret = .ok ∨ (st.call Z).ret = .streamEnd
  consumed_le : (st.call Z).consumed ≤ st.nextIn.length
  output_le : (st.call Z).output.length ≤ st.availOut
  after : (st.call Z).ret = .ok → BufferWriteInv Z source (st.after (st.call Z))
  finished : (st.call Z).ret = .streamEnd →
    D.complete (st.output ++ (st.call Z).output) ∧ D.out (st.output ++ (st.call Z).output) = source

theorem BufferWriteInv.turn {st : BufferWriteState Z.State} (inv : BufferWriteInv Z source st)
    (hpos : 0 < st.availOut) (hnext : st.source ≠ [] → st.nextIn ≠ []) :
    BufferWriteTurn Z source st := by
  obtain ⟨b, hholds, hsource⟩ := inv.holds
  by_cases hlast : st.source = []
  · have hcall : st.call Z = Z.deflate st.stream st.nextIn st.availOut .finish := by
      rw [BufferWriteState.call, if_neg (not_not.mpr hlast)]
    rw [hlast, List.append_nil] at hsource
    obtain ⟨hstep, hnow⟩ := Z.finish hholds (fun h => (inv.finishing h).1) hpos
    rw [← hcall] at hstep hnow
    refine ⟨hstep.ret, hstep.consumed_le, hstep.output_le, fun _ => ?_, fun hret => ?_⟩
    · refine ⟨⟨_, hnow, ?_⟩, fun hfinishing => ⟨?_, hlast⟩⟩
      · simp only [BufferWriteState.after, hlast, List.append_nil, List.append_assoc,
          List.take_append_drop]
        exact hsource
      · simp only [BufferWriteState.after, hstep.finishing hfinishing, List.drop_length]
    · obtain ⟨-, hcomplete, hout⟩ := hstep.finished hret
      exact ⟨hcomplete, hout.trans hsource⟩
  · have hcall : st.call Z = Z.deflate st.stream st.nextIn st.availOut .noFlush := by
      rw [BufferWriteState.call, if_pos hlast]
    have hnot : Z.finishing st.stream = false := by
      by_contra hfinishing
      exact hlast (inv.finishing (Bool.not_eq_false _ ▸ hfinishing)).2
    obtain ⟨hstep, hnow⟩ := Z.write hholds hnot (hnext hlast) hpos
    rw [← hcall] at hstep hnow
    refine ⟨.inl hstep.ret, hstep.consumed_le, hstep.output_le, fun _ => ?_, fun hret => ?_⟩
    · refine ⟨⟨_, hnow, ?_⟩, fun hfinishing => ?_⟩
      · simp only [BufferWriteState.after]
        rw [List.append_assoc b, List.take_append_drop]
        exact hsource
      · rw [BufferWriteState.after, hstep.finishing] at hfinishing
        cases hfinishing
    · rw [hstep.ret] at hret
      cases hret

theorem compressDeflateLoop_end (hroom : Z.NeedsRoom) (fuel : Nat) :
    ∀ {st : BufferWriteState Z.State} {r : ZRet × List UInt8}, BufferWriteInv Z source st →
      compressDeflateLoop Z fuel st = some r →
      r.1 = .bufError ∨ r.1 = .streamEnd ∧ D.complete r.2 ∧ D.out r.2 = source := by
  induction fuel with
  | zero =>
    intro st r _ hrun
    cases hrun
  | succ fuel ih =>
    intro st r hinv hrun
    rw [compressDeflateLoop_succ] at hrun
    have hnext := (streamNext_input st).2.2.2
    have hinv := hinv.streamNext
    generalize Compress.streamNext st = st' at hrun hinv hnext
    by_cases hzero : st'.availOut = 0
    · have hret : (st'.call Z).ret = .bufError := by
        rw [BufferWriteState.call, hzero]
        exact hroom _ _ _
      rw [if_neg (by rw [hret]; decide)] at hrun
      injection hrun with hrun
      left
      rw [← hrun, hret]
    · have hturn := hinv.turn (Nat.pos_of_ne_zero hzero) hnext
      rcases hturn.ret with hret | hret
      · rw [if_pos hret] at hrun
        exact ih (hturn.after hret) hrun
      · rw [if_neg (by rw [hret]; decide)] at hrun
        injection hrun with hrun
        right
        rw [← hrun]
        exact ⟨hret, hturn.finished hret⟩

theorem bufferWrite_spec (hroom : Z.NeedsRoom) {deflateInit2 : ZRet} {fuel destLen : Nat}
    {method : CompressMethod} {z : List UInt8}
    (hinit : deflateInit2 = .ok ∨ deflateInit2 = .memError ∨ deflateInit2 = .streamError)
    (hwrite : bufferWrite Z deflateInit2 fuel (some destLen) (some source) method = some (.ok z)) :
    D.complete z ∧ D.out z = source := by
  simp only [bufferWrite] at hwrite
  split at hwrite
  · cases hwrite
  · obtain ⟨r, hr, hz⟩ := Option.map_eq_some_iff.mp hwrite
    rw [compressDeflate] at hr
    rcases hinit with rfl | rfl | rfl
    · rw [if_neg (not_not.mpr rfl)] at hr
      obtain ⟨r', hloop, rfl⟩ := Option.map_eq_some_iff.mp hr
      rcases compressDeflateLoop_end hroom fuel (start_bufferWriteInv Z source destLen) hloop with
        hret | ⟨hret, hcomplete, hout⟩
      · rw [hret] at hz
        cases hz
      · rw [hret] at hz
        injection hz with hz
        rw [← hz]
        exact ⟨hcomplete, hout⟩
    · rw [if_pos (by decide)] at hr
      injection hr with hr
      rw [← hr] at hz
      cases hz
    · rw [if_pos (by decide)] at hr
      injection hr with hr
      rw [← hr] at hz
      cases hz

end Write

/-! ## The round trip -/

section RoundTrip

variable {D : Decoder} {Z : Deflate D} {source z p : List UInt8} {maxDstLen : Nat}

/-- No implementation takes the last of the source with `Z_OK` exactly if the buffer is full in front
of the last chunk however the chunks are taken. -/
theorem neverDry_iff (hvalid : D.Valid z) (hne : z ≠ [])
    (hmore : D.complete z → maxDstLen < (D.out z).length) :
    (∀ I : Inflate D, I.Prompt → ¬ RunsDry I z maxDstLen) ↔
      Suffices D z (lastChunk z) maxDstLen := by
  classical
  rw [← le_letThrough_iff (Nat.le_refl maxDstLen)]
  constructor
  · intro h
    refine Nat.le_of_not_lt fun hroom => h (Inflate.greedy D) (Inflate.greedy_prompt D) ?_
    exact greedy_runsDry hvalid hne hroom fun hcomplete =>
      Nat.lt_of_le_of_lt (letThrough_le _) (hmore hcomplete)
  · exact fun h I _ hdry => absurd h (Nat.not_le_of_lt (hdry.room hvalid hne).1)

/-- A complete stream that fits is read back by every implementation exactly if its bytes come through
the chunks, and do not fill the buffer in front of its end. -/
theorem readsBack_iff (hcomplete : D.complete z) (hne : z ≠ []) (hsome : D.out z ≠ [])
    (hfits : (D.out z).length ≤ maxDstLen) :
    (∀ I : Inflate D, I.Prompt →
        bufferRead I .ok (some maxDstLen) (some z) .deflate = some (.ok (D.out z))) ↔
      Suffices D z (lastChunk z + 1) (D.out z).length ∧ ¬ FillsEarly D z maxDstLen := by
  classical
  have hvalid : D.Valid z := ⟨[], by rwa [List.append_nil]⟩
  have hpos : 0 < (D.out z).length := List.length_pos_iff.mpr hsome
  rw [← le_letThrough_iff hfits]
  constructor
  · intro h
    refine ⟨Nat.le_of_not_lt fun hless => ?_, fun hearly => ?_⟩
    · refine ((bufferRead_complete_iff (Inflate.greedy_prompt D) hcomplete hne).mp
        (h _ (Inflate.greedy_prompt D))).1 (greedy_runsDry hvalid hne ?_ fun _ => hless)
      exact (letThrough_succ _).trans_lt (hless.trans_le hfits)
    · exact ((bufferRead_complete_iff (Inflate.reluctant_prompt D) hcomplete hne).mp
        (h _ (Inflate.reluctant_prompt D))).2 (reluctant_fillsUp hvalid hearly)
  · rintro ⟨hsuffices, hearly⟩ I hprompt
    refine (bufferRead_complete_iff hprompt hcomplete hne).mpr ⟨fun hdry => ?_, fun hfills => ?_⟩
    · obtain ⟨st, hcalls, hall, hgiven⟩ := (hdry.room hvalid hne).2
      refine hcalls.pending hprompt hvalid hne hall ⟨hcomplete, ?_⟩
      have hsound := (hcalls.inv hvalid).sound
      rw [hall, List.take_length] at hsound
      exact hsound.eq_of_length (Nat.le_antisymm hsound.length_le (hsuffices.trans hgiven))
    · exact hearly (hfills.early hprompt hvalid hfits (hpos.trans_le hfits))

/-- For every `inflate` that keeps its contract: what is written is read back where it fits, is
refused where it does not, and a truncated stream is no stream, each exactly if the chunks of
source and room let it. -/
theorem bufferRead_bufferWrite_iff (hneeds : Z.NeedsRoom)
    {deflateInit2 : ZRet} {fuel destLen : Nat} {method : CompressMethod}
    (hinit : deflateInit2 = .ok ∨ deflateInit2 = .memError ∨ deflateInit2 = .streamError)
    (hwrite : bufferWrite Z deflateInit2 fuel (some destLen) (some source) method = some (.ok z))
    (maxDstLen : Nat) :
    (source.length ≤ maxDstLen →
      ((∀ I : Inflate D, I.Prompt →
          bufferRead I .ok (some maxDstLen) (some z) .deflate = some (.ok source)) ↔
        Suffices D z (lastChunk z + 1) source.length ∧ ¬ FillsEarly D z maxDstLen)) ∧
    (maxDstLen < source.length →
      ((∀ I : Inflate D, I.Prompt →
          bufferRead I .ok (some maxDstLen) (some z) .deflate =
            some (.error .insufficientOutbufError)) ↔
        Suffices D z (lastChunk z) maxDstLen)) ∧
    ∀ whole p : List UInt8, D.complete whole → p <+: whole → p ≠ whole →
      ((∀ I : Inflate D, I.Prompt →
          ∀ output, bufferRead I .ok (some maxDstLen) (some p) .deflate ≠ some (.ok output)) ↔
        p = [] ∨ Suffices D p (lastChunk p) maxDstLen) := by
  obtain ⟨hcomplete, rfl⟩ := bufferWrite_spec hneeds hinit hwrite
  have hsource : D.out z ≠ [] := by
    intro hnil
    simp [bufferWrite, hnil] at hwrite
  have hz : z ≠ [] := by
    rintro rfl
    exact hsource D.out_nil
  refine ⟨readsBack_iff hcomplete hz hsource, fun hroom => ?_, ?_⟩
  · have hvalid : D.Valid z := ⟨[], by rwa [List.append_nil]⟩
    rw [← neverDry_iff hvalid hz fun _ => hroom]
    refine forall₂_congr fun I hprompt => bufferRead_refuses_iff hprompt hvalid hz fun h => ?_
    exact absurd hroom (Nat.not_lt_of_le h.2)
  · rintro whole p hwhole ⟨rest, rfl⟩ hcut
    have hnot : ¬ D.complete p := by
      intro hp
      rw [D.complete_append hp hwhole, List.append_nil] at hcut
      exact hcut rfl
    by_cases hempty : p = []
    · refine ⟨fun _ => .inl hempty, fun _ I _ output hread => ?_⟩
      rw [hempty] at hread
      cases hread
    · rw [or_iff_right hempty, ← neverDry_iff ⟨rest, hwhole⟩ hempty fun h => absurd h hnot]
      exact forall₂_congr fun I hprompt =>
        bufferRead_truncated_iff hprompt ⟨rest, hwhole⟩ hempty hnot

end RoundTrip

/-! ### Twenty-one letters -/

instance : DecidablePred lettersDecoder.complete := fun p =>
  inferInstanceAs (Decidable (p = lettersStream))

def letters : List UInt8 := List.replicate 21 0x61

/-- The state is what was taken and what was given. The stream of the letters comes at once; for
anything else there is none. -/
def lettersDeflateStep (s : List UInt8 × List UInt8) (input : List UInt8) (room : Nat)
    (flush : FlushMode) : ZResult (List UInt8 × List UInt8) :=
  if room = 0 then ⟨.bufError, 0, [], s⟩
  else if flush = .finish ∧ s.2 = [] ∧ s.1 ++ input = letters ∧ lettersStream.length ≤ room then
    ⟨.streamEnd, input.length, lettersStream, (s.1 ++ input, lettersStream)⟩
  else ⟨.ok, input.length, [], (s.1 ++ input, s.2)⟩

def lettersDeflate : Deflate lettersDecoder where
  State := List UInt8 × List UInt8
  reset := ([], [])
  deflate := lettersDeflateStep
  finishing _ := false
  Holds s b out := s = (b, out)
  reset_holds := rfl
  reset_finishing := rfl
  write := by
    rintro s b out input room rfl _ _ hroom
    have hzero : room ≠ 0 := Nat.ne_of_gt hroom
    simp only [lettersDeflateStep, hzero, if_false, reduceCtorEq, false_and]
    exact ⟨⟨rfl, Nat.le_refl _, Nat.zero_le _, rfl⟩, by simp⟩
  finish := by
    rintro s b out input room rfl _ hroom
    have hzero : room ≠ 0 := Nat.ne_of_gt hroom
    simp only [lettersDeflateStep, hzero, if_false]
    split
    · next h =>
      obtain ⟨-, rfl, htaken, hfits⟩ := h
      refine ⟨⟨.inr rfl, Nat.le_refl _, hfits, nofun, fun _ => ⟨rfl, rfl, ?_⟩⟩, ?_⟩
      · rw [htaken]
        rfl
      · simp
    · exact ⟨⟨.inl rfl, Nat.le_refl _, Nat.zero_le _, nofun, nofun⟩, by simp⟩

theorem lettersDeflate_needsRoom : lettersDeflate.NeedsRoom := fun _ _ _ => rfl

theorem bufferWrite_letters :
    bufferWrite lettersDeflate .ok 1 (some 32) (some letters) .deflate =
      some (.ok lettersStream) := rfl

/-- Twenty-one letters are read back as eight where there is room for eight, and as the first two
where the last byte of the stream is missing. -/
theorem letters_read_short :
    bufferWrite lettersDeflate .ok 1 (some 32) (some letters) .deflate =
      some (.ok lettersStream) ∧
    8 < letters.length ∧
    bufferRead (.greedy lettersDecoder) .ok (some 8) (some lettersStream) .deflate =
      some (.ok (letters.take 8)) ∧
    lettersStream.take 4 <+: lettersStream ∧ lettersStream.take 4 ≠ lettersStream ∧
    bufferRead (.greedy lettersDecoder) .ok (some 32) (some (lettersStream.take 4)) .deflate =
      some (.ok (letters.take 2)) :=
  ⟨rfl, by decide, rfl, List.take_prefix _ _, by decide, rfl⟩

/-- Every implementation reads them back where there is room for them all. Not every one refuses a
buffer of eight, or the stream without its last byte; each refuses a buffer of none. -/
theorem bufferRead_bufferWrite_iff_letters :
    (∀ I : Inflate lettersDecoder, I.Prompt →
      bufferRead I .ok (some 21) (some lettersStream) .deflate = some (.ok letters)) ∧
    (¬ ∀ I : Inflate lettersDecoder, I.Prompt →
      bufferRead I .ok (some 8) (some lettersStream) .deflate =
        some (.error .insufficientOutbufError)) ∧
    (∀ I : Inflate lettersDecoder, I.Prompt →
      bufferRead I .ok (some 0) (some lettersStream) .deflate =
        some (.error .insufficientOutbufError)) ∧
    ¬ ∀ I : Inflate lettersDecoder, I.Prompt → ∀ output,
      bufferRead I .ok (some 32) (some (lettersStream.take 4)) .deflate ≠ some (.ok output) := by
  have h := bufferRead_bufferWrite_iff lettersDeflate_needsRoom (.inl rfl) bufferWrite_letters
  refine ⟨((h 21).1 (by decide)).mpr ⟨⟨by decide, by decide⟩, fun hearly => ?_⟩, fun hall => ?_,
    ((h 0).2.1 (by decide)).mpr ⟨Nat.zero_le _, nofun⟩, fun hall => ?_⟩
  · exact absurd hearly.1 (by decide)
  · exact absurd (((h 8).2.1 (by decide)).mp hall).1 (by decide)
  · rcases ((h 32).2.2 lettersStream _ rfl (List.take_prefix 4 _) (by decide)).mp hall with
      hnil | hsuffices
    · cases hnil
    · exact absurd hsuffices.1 (by decide)

end FileApi.Compress
