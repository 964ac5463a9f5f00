import FileApi.Compress.Stream.Deflate
import FileApi.Compress.Proofs.Buffer
import FileApi.Compress.Proofs.StreamWriteRun

/-!
# The deflate write stream sends the whole encoding

A negative result of a write of the full buffer is taken for success. Where there is none, the
stream below has the encoding of everything when all calls succeed.
-/

namespace FileApi.Compress

open Zlib

variable {D : Decoder} {Z : Deflate D} {b : List UInt8}

/-- How to see what a stream has received: a write that takes everything appends to it. -/
structure SinkView (B : Type) [StreamSink B] where
  Sound : B → Prop
  received : B → List UInt8
  write : ∀ {base : B} {buf : List UInt8}, Sound base →
    (StreamSink.write base buf).1 = (buf.length : Int) →
      Sound (StreamSink.write base buf).2 ∧
        received (StreamSink.write base buf).2 = received base ++ buf

variable {flush : FlushMode} {fuel : Nat} {data : List UInt8}

section

variable {B : Type} [StreamSink B] {V : SinkView B} {st st' : DeflateStream Z.State B}

/-- The stream has taken `b`; what it gave is below or in the buffer. -/
structure DeflateAt (V : SinkView B) (Z : Deflate D) (b : List UInt8)
    (st : DeflateStream Z.State B) : Prop where
  sound : V.Sound st.base
  holds : Z.Holds st.zstream b (V.received st.base ++ st.buf)
  room : st.buf.length + st.availOut = st.len
  len_pos : 0 < st.len
  going : Z.finishing st.zstream = true → st.nextIn = []

/-- What flushing leaves alone. -/
structure SameStream (V : SinkView B) (st st' : DeflateStream Z.State B) : Prop where
  zstream : st'.zstream = st.zstream
  nextIn : st'.nextIn = st.nextIn
  len : st'.len = st.len
  totalIn : st'.totalIn = st.totalIn
  totalOut : st'.totalOut = st.totalOut
  given : V.received st'.base ++ st'.buf = V.received st.base ++ st.buf

/-- The stream where the function was left with success: a write of the full buffer has returned a
negative result. -/
def FlushLeft (st' : DeflateStream Z.State B) : Prop :=
  ∃ st : DeflateStream Z.State B, st.buf.length + st.availOut = st.len ∧
    st.flushFull = (.error (.ok ()), st')

/-! ## The buffer -/

theorem flushFull_ok (hat : DeflateAt V Z b st) {flushed : Nat}
    (h : st.flushFull = (.ok flushed, st')) :
    SameStream V st st' ∧ DeflateAt V Z b st' ∧ 0 < st'.availOut ∧
      (V.received st'.base).length = (V.received st.base).length + flushed := by
  rw [DeflateStream.flushFull] at h
  by_cases hfull : st.availOut = 0
  · have hbuf := hat.room
    rw [hfull, Nat.add_zero] at hbuf
    rw [if_neg (not_not.mpr hfull)] at h
    dsimp only at h
    by_cases hlen : (StreamSink.write st.base st.buf).1 = (st.len : Int)
    · rw [if_neg (not_not.mpr hlen)] at h
      cases h
      rw [← hbuf] at hlen
      obtain ⟨hsound, hall⟩ := V.write hat.sound hlen
      refine ⟨⟨rfl, rfl, rfl, rfl, rfl, ?_⟩, ⟨hsound, ?_, ?_, hat.len_pos, hat.going⟩,
        hat.len_pos, ?_⟩
      · simp only [hall, List.append_nil]
      · simp only [hall, List.append_nil]
        exact hat.holds
      · simp only [List.length_nil, Nat.zero_add]
      · simp only [hall, List.length_append, hbuf]
    · rw [if_pos hlen] at h
      cases h
  · rw [if_pos hfull] at h
    cases h
    exact ⟨⟨rfl, rfl, rfl, rfl, rfl, rfl⟩, hat, Nat.pos_of_ne_zero hfull, rfl⟩

/-! ## The loop of `DeflateWriteBuf` -/

theorem deflateWriteLoop_left {fuel flushed : Nat} {status : Except ArchiveErr Unit}
    (hflush : st.flushFull = (.error status, st')) :
    deflateWriteLoop Z flush (fuel + 1) flushed st = some (.left status, st') := by
  rw [deflateWriteLoop, hflush]

theorem deflateWriteLoop_finish {fuel flushed sent : Nat} {mid : DeflateStream Z.State B}
    (hflush : st.flushFull = (.ok sent, mid)) (hdeflate : mid.deflate Z .finish = (.ok, st')) :
    deflateWriteLoop Z .finish (fuel + 1) flushed st =
      deflateWriteLoop Z .finish fuel (flushed + sent) st' := by
  rw [deflateWriteLoop, hflush]
  dsimp only
  rw [hdeflate]
  exact if_pos (.inr rfl)

/-- What the loop has done when it comes to its end. -/
structure DeflateWriteDone (V : SinkView B) (Z : Deflate D) (flush : FlushMode) (b : List UInt8)
    (st : DeflateStream Z.State B) (flushed : Nat) (st' : DeflateStream Z.State B) : Prop where
  at_ : DeflateAt V Z (b ++ st.nextIn) st'
  nextIn : st'.nextIn = []
  len : st'.len = st.len
  totalIn : st'.totalIn = st.totalIn
  totalOut : st'.totalOut = st.totalOut
  received : (V.received st'.base).length = (V.received st.base).length + flushed
  grows : (V.received st.base).length + st.buf.length ≤
    (V.received st'.base).length + st'.buf.length
  open_ : flush = .noFlush → Z.finishing st'.zstream = false
  finished : flush = .finish → D.complete (V.received st'.base ++ st'.buf) ∧
    D.out (V.received st'.base ++ st'.buf) = b ++ st.nextIn

/-- What one call of `deflate` does that makes progress. -/
structure DeflateCall (V : SinkView B) (Z : Deflate D) (flush : FlushMode) (b : List UInt8)
    (st : DeflateStream Z.State B) (code : ZRet) (st' : DeflateStream Z.State B) (taken : Nat) :
    Prop where
  at_ : DeflateAt V Z (b ++ st.nextIn.take taken) st'
  nextIn : st'.nextIn = st.nextIn.drop taken
  len : st'.len = st.len
  totalIn : st'.totalIn = st.totalIn
  totalOut : st'.totalOut = st.totalOut
  base : st'.base = st.base
  grows : st.buf.length ≤ st'.buf.length
  ret : code = .ok ∨ code = .streamEnd
  open_ : flush = .noFlush → code = .ok ∧ Z.finishing st'.zstream = false
  finished : code = .streamEnd → st'.nextIn = [] ∧
    D.complete (V.received st'.base ++ st'.buf) ∧
    D.out (V.received st'.base ++ st'.buf) = b ++ st.nextIn

theorem room_deflate (hat : DeflateAt V Z b st) {output : List UInt8}
    (houtput : output.length ≤ st.availOut) :
    (st.buf ++ output).length + (st.availOut - output.length) = st.len := by
  have hroom := hat.room
  rw [List.length_append]
  omega

theorem deflate_write (hat : DeflateAt V Z b st) (hidle : Z.Idle) (hroom : 0 < st.availOut)
    (hopen : Z.finishing st.zstream = false) :
    (st.deflate Z .noFlush).1 = .bufError ∨ ∃ taken,
      DeflateCall V Z .noFlush b st (st.deflate Z .noFlush).1 (st.deflate Z .noFlush).2 taken := by
  rw [DeflateStream.deflate]
  have hcall : (Z.deflate st.zstream st.nextIn st.availOut .noFlush).ret = .bufError ∨
      DeflateWrite Z.finishing st.nextIn st.availOut
        (Z.deflate st.zstream st.nextIn st.availOut .noFlush) ∧
      Z.Holds (Z.deflate st.zstream st.nextIn st.availOut .noFlush).state
        (b ++ st.nextIn.take (Z.deflate st.zstream st.nextIn st.availOut .noFlush).consumed)
        (V.received st.base ++ st.buf ++
          (Z.deflate st.zstream st.nextIn st.availOut .noFlush).output) := by
    by_cases hinput : st.nextIn = []
    · rw [hinput, List.take_nil, List.append_nil]
      exact hidle hat.holds hopen hroom
    · exact .inr (Z.write hat.holds hopen hinput hroom)
  generalize Z.deflate st.zstream st.nextIn st.availOut .noFlush = r at hcall ⊢
  rcases hcall with hbuf | ⟨hwrite, hholds⟩
  · exact .inl hbuf
  · refine .inr ⟨r.consumed, ⟨hat.sound, ?_, room_deflate hat hwrite.output_le, hat.len_pos, ?_⟩, rfl, rfl,
      rfl, rfl, rfl, ?_, .inl hwrite.ret, fun _ => ⟨hwrite.ret, hwrite.finishing⟩, ?_⟩
    · rw [List.append_assoc] at hholds
      exact hholds
    · intro hfinishing
      rw [hwrite.finishing] at hfinishing
      cases hfinishing
    · simp only [List.length_append]
      omega
    · intro hend
      rw [hwrite.ret] at hend
      cases hend

theorem deflate_finish (hat : DeflateAt V Z b st) (hroom : 0 < st.availOut) :
    ∃ taken, DeflateCall V Z .finish b st (st.deflate Z .finish).1 (st.deflate Z .finish).2 taken := by
  rw [DeflateStream.deflate]
  obtain ⟨hfinish, hholds⟩ := Z.finish hat.holds hat.going hroom
  generalize Z.deflate st.zstream st.nextIn st.availOut .finish = r at hfinish hholds ⊢
  rw [List.append_assoc] at hholds
  refine ⟨r.consumed, ⟨hat.sound, hholds, room_deflate hat hfinish.output_le, hat.len_pos, ?_⟩, rfl, rfl,
    rfl, rfl, rfl, ?_, hfinish.ret, nofun, ?_⟩
  · intro hfinishing
    simp only [hfinish.finishing hfinishing, List.drop_length]
  · simp only [List.length_append]
    omega
  · intro hend
    obtain ⟨htaken, hcomplete, hout⟩ := hfinish.finished hend
    rw [List.append_assoc] at hcomplete hout
    exact ⟨by simp only [htaken, List.drop_length], hcomplete, hout⟩

theorem deflate_cases (flush : FlushMode) (hat : DeflateAt V Z b st) (hidle : Z.Idle)
    (hroom : 0 < st.availOut) (hopen : flush = .noFlush → Z.finishing st.zstream = false) :
    (st.deflate Z flush).1 = .bufError ∨ ∃ taken,
      DeflateCall V Z flush b st (st.deflate Z flush).1 (st.deflate Z flush).2 taken := by
  cases flush with
  | noFlush => exact deflate_write hat hidle hroom (hopen rfl)
  | finish => exact .inr (deflate_finish hat hroom)

theorem DeflateWriteDone.step {mid next last : DeflateStream Z.State B} {flushed more taken : Nat}
    {ret : ZRet} (hsame : SameStream V st mid)
    (hreceived : (V.received mid.base).length = (V.received st.base).length + flushed)
    (hcall : DeflateCall V Z flush b mid ret next taken)
    (hdone : DeflateWriteDone V Z flush (b ++ mid.nextIn.take taken) next more last) :
    DeflateWriteDone V Z flush b st (flushed + more) last := by
  have hinput : b ++ mid.nextIn.take taken ++ next.nextIn = b ++ st.nextIn := by
    rw [hcall.nextIn, List.append_assoc, List.take_append_drop, hsame.nextIn]
  have hgiven := congrArg List.length hsame.given
  have hgrows := hdone.grows
  have hcallGrows := hcall.grows
  have hlast := hdone.received
  rw [hcall.base] at hgrows hlast
  rw [List.length_append, List.length_append] at hgiven
  refine ⟨?_, hdone.nextIn, ?_, ?_, ?_, by omega, by omega, hdone.open_, fun hflush => ?_⟩
  · rw [← hinput]
    exact hdone.at_
  · rw [hdone.len, hcall.len, hsame.len]
  · rw [hdone.totalIn, hcall.totalIn, hsame.totalIn]
  · rw [hdone.totalOut, hcall.totalOut, hsame.totalOut]
  · rw [← hinput]
    exact hdone.finished hflush

theorem DeflateCall.done {next : DeflateStream Z.State B} {taken : Nat} {ret : ZRet}
    (hcall : DeflateCall V Z flush b st ret next taken) (hrest : next.nextIn = [])
    (hend : flush = .finish → ret = .streamEnd) :
    DeflateWriteDone V Z flush (b ++ st.nextIn.take taken) next 0 next := by
  refine ⟨?_, hrest, rfl, rfl, rfl, rfl, Nat.le_refl _, fun h => (hcall.open_ h).2, fun h => ?_⟩
  · rw [hrest, List.append_nil]
    exact hcall.at_
  · obtain ⟨-, hcomplete, hout⟩ := hcall.finished (hend h)
    rw [hcall.nextIn, List.append_assoc, List.take_append_drop]
    exact ⟨hcomplete, hout⟩

theorem deflateWriteLoop_spec (hidle : Z.Idle) (fuel : Nat) :
    ∀ {b : List UInt8} {st st' : DeflateStream Z.State B} {flushed : Nat} {e : DeflateWriteEnd},
      DeflateAt V Z b st → (flush = .noFlush → Z.finishing st.zstream = false) →
      deflateWriteLoop Z flush fuel flushed st = some (e, st') →
      (e = .left (.ok ()) ∧ FlushLeft st') ∨ (∃ err, e = .left (.error err)) ∨
        ∃ more, e = .done (flushed + more) ∧ DeflateWriteDone V Z flush b st more st' := by
  induction fuel with
  | zero => exact fun _ _ h => absurd h (by simp [deflateWriteLoop])
  | succ fuel ih =>
    intro b st st' flushed e hat hopen h
    rw [deflateWriteLoop] at h
    cases hflush : st.flushFull with
    | mk status mid =>
      rw [hflush] at h
      cases status with
      | error status =>
        cases h
        cases status with
        | error err => exact .inr (.inl ⟨err, rfl⟩)
        | ok u => exact .inl ⟨rfl, st, hat.room, hflush⟩
      | ok sent =>
        obtain ⟨hsame, hmid, hroom, hreceived⟩ := flushFull_ok hat hflush
        have hmidOpen : flush = .noFlush → Z.finishing mid.zstream = false := by
          rw [hsame.zstream]
          exact hopen
        have hcases := deflate_cases flush hmid hidle hroom hmidOpen
        dsimp only at h
        generalize mid.deflate Z flush = call at h hcases
        obtain ⟨ret, next⟩ := call
        rcases hcases with hbuf | ⟨taken, hcall⟩
        · obtain rfl : ret = .bufError := hbuf
          cases h
          exact .inr (.inl ⟨_, rfl⟩)
        · rcases hcall.ret with hret | hret
          · obtain rfl : ret = .ok := hret
            dsimp only at h
            by_cases hmore : next.nextIn ≠ [] ∨ flush = .finish
            · rw [if_pos hmore] at h
              rcases ih hcall.at_ (fun hf => (hcall.open_ hf).2) h with hleft | herr | hdone
              · exact .inl hleft
              · exact .inr (.inl herr)
              · obtain ⟨more, rfl, hdone⟩ := hdone
                exact .inr (.inr ⟨sent + more, by rw [Nat.add_assoc],
                  hdone.step hsame hreceived hcall⟩)
            · rw [if_neg hmore] at h
              cases h
              obtain ⟨hrest, hnoFinish⟩ := not_or.mp hmore
              have hdone := hcall.done (not_not.mp hrest) fun hf => absurd hf hnoFinish
              exact .inr (.inr ⟨sent, rfl, hdone.step hsame hreceived hcall⟩)
          · obtain rfl : ret = .streamEnd := hret
            cases h
            have hdone := hcall.done (hcall.finished rfl).1 fun _ => rfl
            exact .inr (.inr ⟨sent, rfl, hdone.step hsame hreceived hcall⟩)

/-! ## The calls -/

/-- Between the calls: the counters are those of what was taken and given. -/
structure DeflateSession (V : SinkView B) (Z : Deflate D) (b : List UInt8)
    (st : DeflateStream Z.State B) : Prop where
  at_ : DeflateAt V Z b st
  nextIn : st.nextIn = []
  open_ : Z.finishing st.zstream = false
  totalIn : st.totalIn = b.length
  totalOut : st.totalOut = (V.received st.base).length + st.buf.length

theorem deflateWriteBuf_spec (hidle : Z.Idle) (hat : DeflateAt V Z b st)
    (hopen : flush = .noFlush → Z.finishing st.zstream = false) (htotalIn : st.totalIn = b.length)
    (htotalOut : st.totalOut = (V.received st.base).length + st.buf.length)
    (h : deflateWriteBuf Z fuel st flush = some (.ok (), st')) :
    FlushLeft st' ∨
      DeflateAt V Z (b ++ st.nextIn) st' ∧ st'.nextIn = [] ∧
      (flush = .noFlush → Z.finishing st'.zstream = false) ∧
      (flush = .finish → D.complete (V.received st'.base ++ st'.buf) ∧
        D.out (V.received st'.base ++ st'.buf) = b ++ st.nextIn) ∧
      st'.totalIn = (b ++ st.nextIn).length ∧
      st'.totalOut = (V.received st'.base).length + st'.buf.length := by
  obtain ⟨⟨e, last⟩, hloop, heq⟩ := Option.map_eq_some_iff.mp h
  rcases deflateWriteLoop_spec hidle fuel hat hopen hloop with
    ⟨rfl, hnegative⟩ | ⟨err, rfl⟩ | ⟨more, rfl, hdone⟩
  · cases heq
    exact .inl hnegative
  · cases heq
  · cases heq
    have hroom := hat.room
    have hlastRoom := hdone.at_.room
    have hlen := hdone.len
    have hreceived := hdone.received
    have hgrows := hdone.grows
    refine .inr ⟨⟨hdone.at_.sound, hdone.at_.holds, hdone.at_.room, hdone.at_.len_pos, hdone.at_.going⟩,
      hdone.nextIn, hdone.open_, hdone.finished, ?_, ?_⟩
    · simp only [hdone.totalIn, htotalIn, hdone.nextIn, List.length_append, List.length_nil,
        Nat.sub_zero]
    · simp only [hdone.totalOut, htotalOut, Nat.zero_add]
      omega

theorem deflateStreamWrite_session {n : Nat} (hidle : Z.Idle) (hsession : DeflateSession V Z b st)
    (h : deflateStreamWrite Z fuel st data = some (.ok n, st')) :
    FlushLeft st' ∨ DeflateSession V Z (b ++ data.take (data.length % 2 ^ 32)) st' := by
  obtain ⟨⟨status, last⟩, hbuf, heq⟩ := Option.map_eq_some_iff.mp h
  cases status with
  | error err => cases heq
  | ok u =>
    cases heq
    have hat : DeflateAt V Z b { st with nextIn := data.take (data.length % 2 ^ 32) } := by
      refine ⟨hsession.at_.sound, hsession.at_.holds, hsession.at_.room, hsession.at_.len_pos,
        fun hfinishing => ?_⟩
      rw [hsession.open_] at hfinishing
      cases hfinishing
    refine (deflateWriteBuf_spec hidle hat (fun _ => hsession.open_) hsession.totalIn
      hsession.totalOut hbuf).imp_right ?_
    rintro ⟨hat', hnext, hopen, -, hin, hout⟩
    exact ⟨hat', hnext, hopen rfl, hin, hout⟩

theorem take_length_mod (h : data.length < 2 ^ 32) :
    data.take (data.length % 2 ^ 32) = data := by
  rw [Nat.mod_eq_of_lt h, List.take_length]

/-- A successful close has sent the end of the encoding, unless a negative result of a write of the
full buffer was taken for success before. -/
theorem deflateStreamClose_session (hidle : Z.Idle) (hsession : DeflateSession V Z b st)
    (h : deflateStreamClose Z fuel st = some (.ok (), st')) :
    (∃ last : DeflateStream Z.State B, FlushLeft last ∧
      (StreamSink.write last.base (last.buf.take (last.len - last.availOut))).1 =
        ((last.len - last.availOut : Nat) : Int) ∧
      st'.base = (StreamSink.write last.base (last.buf.take (last.len - last.availOut))).2) ∨
    V.Sound st'.base ∧ D.complete (V.received st'.base) ∧ D.out (V.received st'.base) = b ∧
      st'.totalIn = b.length ∧ st'.totalOut = (V.received st'.base).length := by
  obtain ⟨⟨status, last⟩, hbuf, heq⟩ := Option.map_eq_some_iff.mp h
  cases status with
  | error err => cases heq
  | ok u =>
    have hdone := deflateWriteBuf_spec hidle hsession.at_ (fun _ => hsession.open_)
      hsession.totalIn hsession.totalOut hbuf
    dsimp only at heq
    split at heq
    · cases heq
    · next hall =>
      cases heq
      rcases hdone with hnegative | ⟨hat, -, -, hfinished, hin, hout⟩
      · exact .inl ⟨last, hnegative, not_not.mp hall, rfl⟩
      · right
        have hroom := hat.room
        have hlen : last.len - last.availOut = last.buf.length := by omega
        rw [hlen, List.take_length] at hall ⊢
        rw [hsession.nextIn, List.append_nil] at hfinished hin
        obtain ⟨hcomplete, hplain⟩ := hfinished rfl
        obtain ⟨hsound, hsent⟩ := V.write hat.sound (not_not.mp hall)
        simp only [hsent]
        refine ⟨hsound, hcomplete, hplain, hin, ?_⟩
        rw [hout, List.length_append]

end

/-! ## Below a stream whose writes may fail -/

section

variable {st st' : DeflateStream Z.State BaseStream}

/-- A negative result was returned by one of the writes made. -/
def SomeNegative (base : BaseStream) : Prop :=
  ∃ k < base.calls, ∃ code, base.results k = .negative code

/-- Later in the same sequence of writes. -/
structure BaseStream.Later (base base' : BaseStream) : Prop where
  results : base'.results = base.results
  calls : base.calls ≤ base'.calls

theorem BaseStream.Later.refl (base : BaseStream) : base.Later base := ⟨rfl, Nat.le_refl _⟩

theorem BaseStream.Later.trans {base mid last : BaseStream} (h : base.Later mid)
    (h' : mid.Later last) : base.Later last :=
  ⟨h'.results.trans h.results, Nat.le_trans h.calls h'.calls⟩

theorem SomeNegative.later {base base' : BaseStream} (h : SomeNegative base)
    (hlater : base.Later base') : SomeNegative base' := by
  obtain ⟨k, hk, code, hcode⟩ := h
  refine ⟨k, Nat.lt_of_lt_of_le hk hlater.calls, code, ?_⟩
  rw [hlater.results]
  exact hcode

theorem BaseStream.streamWrite_cases (base : BaseStream) (buf : List UInt8) :
    (base.streamWrite buf).2.calls = base.calls + 1 ∧
      (base.streamWrite buf).2.results = base.results ∧
      ((base.streamWrite buf).1 = buf.length →
        (base.streamWrite buf).2.received = base.received ++ buf) ∧
      ((base.streamWrite buf).1 < 0 → ∃ code, base.results base.calls = .negative code) := by
  rw [BaseStream.streamWrite]
  cases hres : base.results base.calls with
  | full => exact ⟨rfl, rfl, fun _ => rfl, fun h => absurd h (by simp)⟩
  | short count =>
    refine ⟨rfl, rfl, fun h => ?_, fun h => absurd h (by simp)⟩
    have hlen : (buf.take count).length = buf.length := by
      dsimp only at h
      exact_mod_cast h
    simp only [(List.take_prefix count buf).eq_of_length hlen]
  | negative code =>
    refine ⟨rfl, rfl, fun h => absurd h ?_, fun _ => ⟨code, rfl⟩⟩
    dsimp only
    omega

theorem BaseStream.streamWrite_later (base : BaseStream) (buf : List UInt8) :
    base.Later (base.streamWrite buf).2 := by
  obtain ⟨hcalls, hresults, -, -⟩ := base.streamWrite_cases buf
  exact ⟨hresults, by omega⟩

theorem flushFull_later (st : DeflateStream Z.State BaseStream) : st.base.Later st.flushFull.2.base := by
  rw [DeflateStream.flushFull]
  split
  · exact .refl _
  · have hlater := st.base.streamWrite_later st.buf
    dsimp only
    split
    · exact hlater
    · exact hlater

/-- What `BaseStream` has received. -/
def BaseStream.view : SinkView BaseStream where
  Sound _ := True
  received := BaseStream.received
  write {base buf} _ h := ⟨trivial, (base.streamWrite_cases buf).2.2.1 h⟩

theorem FlushLeft.someNegative (h : FlushLeft st') : SomeNegative st'.base := by
  obtain ⟨st, -, h⟩ := h
  simp only [DeflateStream.flushFull, BaseStream.write_eq] at h
  split at h
  · cases h
  · obtain ⟨hcalls, hresults, -, hnegative⟩ := st.base.streamWrite_cases st.buf
    split at h
    · by_cases hneg : (st.base.streamWrite st.buf).1 < 0
      · rw [if_pos hneg] at h
        cases h
        obtain ⟨code, hcode⟩ := hnegative hneg
        refine ⟨st.base.calls, ?_, code, ?_⟩
        · simp only [hcalls]
          omega
        · simp only [hresults]
          exact hcode
      · rw [if_neg hneg] at h
        cases h
    · cases h

theorem deflateWriteLoop_later (fuel : Nat) :
    ∀ {st st' : DeflateStream Z.State BaseStream} {flushed : Nat} {e : DeflateWriteEnd},
      deflateWriteLoop Z flush fuel flushed st = some (e, st') → st.base.Later st'.base := by
  induction fuel with
  | zero => exact fun h => absurd h (by simp [deflateWriteLoop])
  | succ fuel ih =>
    intro st st' flushed e h
    rw [deflateWriteLoop] at h
    have hlater := flushFull_later st
    cases hflush : st.flushFull with
    | mk status mid =>
      rw [hflush] at h hlater
      cases status with
      | error status =>
        cases h
        exact hlater
      | ok sent =>
        refine hlater.trans ?_
        have hbase : (mid.deflate Z flush).2.base = mid.base := rfl
        dsimp only at h ⊢
        rw [← hbase]
        generalize mid.deflate Z flush = call at h ⊢
        obtain ⟨ret, next⟩ := call
        split at h
        · next heq =>
          cases heq
          cases h
          exact .refl _
        · next heq =>
          cases heq
          split at h
          · exact ih h
          · cases h
            exact .refl _
        · next heq =>
          cases heq
          cases h
          exact .refl _

theorem deflateWriteBuf_later {status : Except ArchiveErr Unit}
    (h : deflateWriteBuf Z fuel st flush = some (status, st')) : st.base.Later st'.base := by
  obtain ⟨⟨e, last⟩, hloop, heq⟩ := Option.map_eq_some_iff.mp h
  have hlater := deflateWriteLoop_later fuel hloop
  cases e with
  | left _ =>
    cases heq
    exact hlater
  | done flushed =>
    cases heq
    exact hlater

theorem deflateStreamWrite_later {r : Except ArchiveErr Nat}
    (h : deflateStreamWrite Z fuel st data = some (r, st')) : st.base.Later st'.base := by
  obtain ⟨⟨status, last⟩, hbuf, heq⟩ := Option.map_eq_some_iff.mp h
  cases heq
  have hlater := deflateWriteBuf_later hbuf
  exact hlater

theorem deflateStreamClose_later {r : Except ArchiveErr Unit}
    (h : deflateStreamClose Z fuel st = some (r, st')) : st.base.Later st'.base := by
  obtain ⟨⟨status, last⟩, hbuf, heq⟩ := Option.map_eq_some_iff.mp h
  refine (deflateWriteBuf_later hbuf).trans ?_
  have hlater := last.base.streamWrite_later (last.buf.take (last.len - last.availOut))
  cases status with
  | error err =>
    cases heq
    exact .refl _
  | ok u =>
    dsimp only at heq
    split at heq
    · cases heq
      exact hlater
    · cases heq
      exact hlater

theorem deflateStreamRun_later : ∀ {datas : List (List UInt8)}
    {st st' : DeflateStream Z.State BaseStream}, deflateStreamRun Z fuel st datas = some st' →
      st.base.Later st'.base := by
  intro datas
  induction datas with
  | nil =>
    intro st st' h
    rw [deflateStreamRun] at h
    split at h
    · next hclose =>
      cases h
      exact deflateStreamClose_later hclose
    · cases h
  | cons data rest ih =>
    intro st st' h
    rw [deflateStreamRun] at h
    split at h
    · next hwrite => exact (deflateStreamWrite_later hwrite).trans (ih h)
    · cases h

theorem deflateStreamOpen_session (Z : Deflate D) (results : Nat → BaseWrite) :
    DeflateSession BaseStream.view Z [] (deflateStreamOpen Z { results }) := by
  refine ⟨⟨trivial, Z.reset_holds, Nat.zero_add _, ?_, fun _ => rfl⟩, rfl, Z.reset_finishing, rfl, rfl⟩
  show 0 < Zip.ZIP_BUF_INTERNAL
  decide

/-- Writes and a close that all succeed have sent the encoding of everything, and counted it,
unless a write below returned a negative result. -/
theorem deflateStreamRun_session (hidle : Z.Idle) : ∀ {datas : List (List UInt8)}
    {st st' : DeflateStream Z.State BaseStream} {b : List UInt8}, DeflateSession BaseStream.view Z b st →
      (∀ data ∈ datas, data.length < 2 ^ 32) →
      deflateStreamRun Z fuel st datas = some st' → SomeNegative st'.base ∨
        D.complete st'.base.received ∧ D.out st'.base.received = b ++ datas.flatten ∧
        st'.totalIn = (b ++ datas.flatten).length ∧
        st'.totalOut = st'.base.received.length := by
  intro datas
  induction datas with
  | nil =>
    intro st st' b hsession _ h
    rw [deflateStreamRun] at h
    split at h
    · next hclose =>
      cases h
      rw [List.flatten_nil, List.append_nil]
      rcases deflateStreamClose_session hidle hsession hclose with ⟨last, hleft, -, hbase⟩ | hdone
      · have hlater := last.base.streamWrite_later (last.buf.take (last.len - last.availOut))
        rw [← BaseStream.write_eq, ← hbase] at hlater
        exact .inl (hleft.someNegative.later hlater)
      · exact .inr hdone.2
    · cases h
  | cons data rest ih =>
    intro st st' b hsession hsize h
    rw [deflateStreamRun] at h
    split at h
    · next mid hwrite =>
      have hdata := hsize data List.mem_cons_self
      have hwritten := deflateStreamWrite_session hidle hsession hwrite
      rw [take_length_mod hdata] at hwritten
      rcases hwritten with hnegative | hsession'
      · exact .inl (hnegative.someNegative.later (deflateStreamRun_later h))
      · have hrest := ih hsession' (fun d hd => hsize d (List.mem_cons_of_mem data hd)) h
        rw [List.flatten_cons, ← List.append_assoc]
        exact hrest
    · cases h

theorem deflateStreamRun_single {fuel n : Nat} {mid : DeflateStream Z.State BaseStream}
    (hwrite : deflateStreamWrite Z fuel st data = some (.ok n, mid))
    (hclose : deflateStreamClose Z fuel mid = some (.ok (), st')) :
    deflateStreamRun Z fuel st [data] = some st' := by
  rw [deflateStreamRun, hwrite]
  dsimp only
  rw [deflateStreamRun, hclose]

/-- The stream below has received the complete encoding of everything that was written. -/
theorem deflateStreamRun_complete (hidle : Z.Idle) {results : Nat → BaseWrite} {fuel : Nat}
    {datas : List (List UInt8)} (hsize : ∀ data ∈ datas, data.length < 2 ^ 32)
    (h : deflateStreamRun Z fuel (deflateStreamOpen Z { results }) datas = some st')
    (hresults : ∀ k < st'.base.calls, ∀ code, results k ≠ .negative code) :
    D.complete st'.base.received ∧ D.out st'.base.received = datas.flatten ∧
      st'.totalIn = datas.flatten.length ∧ st'.totalOut = st'.base.received.length := by
  have hlater := deflateStreamRun_later h
  rcases deflateStreamRun_session hidle (deflateStreamOpen_session Z results) hsize h with
    ⟨k, hk, code, hcode⟩ | hdone
  · rw [hlater.results] at hcode
    exact absurd hcode (hresults k hk code)
  · exact hdone

end

/-! ### A stream that fills the buffer -/

theorem lettersDeflate_idle : lettersDeflate.Idle := by
  rintro s b out room rfl _ hroom
  right
  have hzero : room ≠ 0 := Nat.ne_of_gt hroom
  simp only [lettersDeflate, lettersDeflateStep, hzero, if_false, reduceCtorEq, false_and]
  exact ⟨⟨rfl, Nat.le_refl _, Nat.zero_le _, rfl⟩, by simp⟩

/-- Twenty-one letters, with writes that take everything. -/
theorem deflateStreamRun_complete_letters :
    ∃ st', deflateStreamRun lettersDeflate 2
        (deflateStreamOpen lettersDeflate (BaseStream.mk (fun _ => .full) 0 [])) [letters] = some st' ∧
      lettersDecoder.complete st'.base.received ∧
      lettersDecoder.out st'.base.received = [letters].flatten ∧
      st'.totalIn = [letters].flatten.length ∧ st'.totalOut = st'.base.received.length :=
  ⟨_, rfl, deflateStreamRun_complete lettersDeflate_idle (by decide)
    (show deflateStreamRun lettersDeflate 2 (deflateStreamOpen lettersDeflate
      (BaseStream.mk (fun _ => .full) 0 [])) [letters] = some _ from rfl) (fun _ _ _ => nofun)⟩

/-- One byte more than the buffer holds. -/
def longStream : List UInt8 := List.replicate (Zip.ZIP_BUF_INTERNAL + 1) 0

theorem longStream_length : longStream.length = Zip.ZIP_BUF_INTERNAL + 1 := List.length_replicate

/-- The decoder of this one stream, whose letter is known at its end. -/
def longDecoder : Decoder where
  out p := if longStream <+: p then [0x61] else []
  complete p := p = longStream
  out_nil := by
    refine if_neg fun h => ?_
    have hle := h.length_le
    rw [longStream_length] at hle
    cases hle
  out_mono p s := by
    by_cases h : longStream <+: p
    · rw [if_pos h, if_pos (h.trans (List.prefix_append p s))]
    · rw [if_neg h]
      exact List.nil_prefix
  complete_append := by
    rintro p s rfl h
    exact List.self_eq_append_right.mp h.symm

theorem longDecoder_out : longDecoder.out longStream = [0x61] := by
  simp only [longDecoder, List.prefix_refl, if_true]

/-- The stream of the letter comes with `Z_FINISH`; for anything else there is none. -/
def longDeflateStep (s : HoldingState) (input : List UInt8) (room : Nat) :
    FlushMode → ZResult HoldingState
  | .noFlush => ⟨.ok, input.length, [], { s with taken := s.taken ++ input }⟩
  | .finish =>
      if s.taken ++ input = [0x61] then
        let rest := longStream.drop s.given
        ⟨if rest.length ≤ room then .streamEnd else .ok, input.length, rest.take room,
          ⟨s.taken ++ input, s.given + (rest.take room).length, true⟩⟩
      else ⟨.ok, input.length, [], ⟨s.taken ++ input, s.given, true⟩⟩

def longDeflate : Deflate longDecoder where
  State := HoldingState
  reset := ⟨[], 0, false⟩
  deflate := longDeflateStep
  finishing s := s.finishing
  Holds s b out := s.taken = b ∧ out = longStream.take s.given
  reset_holds := ⟨rfl, rfl⟩
  reset_finishing := letterDeflate.reset_finishing
  write := by
    rintro ⟨taken, given, finishing⟩ b out input room ⟨rfl, rfl⟩ hgoing _ _
    exact ⟨⟨rfl, Nat.le_refl _, Nat.zero_le _, hgoing⟩, by simp [longDeflateStep]⟩
  finish := by
    rintro ⟨taken, given, finishing⟩ b out input room ⟨rfl, rfl⟩ _ _
    simp only [longDeflateStep]
    split
    · next htaken =>
      refine ⟨⟨?_, Nat.le_refl _, List.length_take_le _ _, fun _ => rfl, ?_⟩, ?_, ?_⟩
      · split
        · exact .inr rfl
        · exact .inl rfl
      · intro hret
        have hle : (longStream.drop given).length ≤ room := by
          by_contra hlt
          rw [if_neg hlt] at hret
          cases hret
        rw [List.take_of_length_le hle, List.take_append_drop, htaken]
        exact ⟨rfl, rfl, longDecoder_out⟩
      · simp
      · rw [List.take_add, List.length_take, ← List.take_eq_take_min]
    · exact ⟨⟨.inl rfl, Nat.le_refl _, Nat.zero_le _, fun _ => rfl, nofun⟩, by simp, by simp⟩

/-- The first write below fails, and the others take everything. -/
def firstNegative : Nat → BaseWrite
  | 0 => .negative 21
  | _ => .full

/-- The stream after the letter. -/
def longWritten : DeflateStream longDeflate.State BaseStream where
  zstream := ⟨[0x61], 0, false⟩
  totalIn := 1
  base := { results := firstNegative }

/-- The stream when the buffer is full. -/
def longFull : DeflateStream longDeflate.State BaseStream :=
  { longWritten with
    zstream := ⟨[0x61], Zip.ZIP_BUF_INTERNAL, true⟩
    buf := longStream.take Zip.ZIP_BUF_INTERNAL
    availOut := 0 }

theorem longStream_take :
    (longStream.take Zip.ZIP_BUF_INTERNAL).length = Zip.ZIP_BUF_INTERNAL := by
  rw [List.length_take, longStream_length]
  omega

theorem longWritten_deflate : longWritten.deflate longDeflate .finish = (.ok, longFull) := by
  have hlong : ¬ longStream.length ≤ Zip.ZIP_BUF_INTERNAL := by
    rw [longStream_length]
    omega
  simp only [DeflateStream.deflate, longWritten, longDeflate, longDeflateStep, List.append_nil,
    if_true, List.drop_zero, hlong, if_false, longStream_take, Nat.zero_add, List.drop_nil,
    List.nil_append, Nat.sub_self, longFull]

theorem longWritten_close : deflateStreamClose longDeflate 2 longWritten = some (.ok (),
    { longFull with base := ⟨firstNegative, 2, longStream.take Zip.ZIP_BUF_INTERNAL⟩ }) := by
  have hempty : longWritten.flushFull = (.ok 0, longWritten) := rfl
  have hfull : longFull.flushFull =
      (.error (.ok ()), { longFull with base := ⟨firstNegative, 1, []⟩ }) := rfl
  have hbuf : deflateWriteBuf longDeflate 2 longWritten .finish =
      some (.ok (), { longFull with base := ⟨firstNegative, 1, []⟩ }) := by
    rw [deflateWriteBuf, deflateWriteLoop_finish hempty longWritten_deflate,
      deflateWriteLoop_left hfull]
    rfl
  have hlast : (BaseStream.mk firstNegative 1 []).streamWrite
      (longStream.take Zip.ZIP_BUF_INTERNAL) =
      ((Zip.ZIP_BUF_INTERNAL : Int), ⟨firstNegative, 2, longStream.take Zip.ZIP_BUF_INTERNAL⟩) := by
    simp only [BaseStream.streamWrite, firstNegative, longStream_take, List.nil_append]
  rw [deflateStreamClose, hbuf]
  have hlen : longFull.len - longFull.availOut = Zip.ZIP_BUF_INTERNAL := rfl
  have htake : longFull.buf.take Zip.ZIP_BUF_INTERNAL = longStream.take Zip.ZIP_BUF_INTERNAL :=
    List.take_of_length_le (Nat.le_of_eq longStream_take)
  simp only [Option.map_some, BaseStream.write_eq, hlen, htake, hlast, ne_eq, not_true_eq_false, if_false]

/-- The letter is written and the stream closed with success, and the last byte is missing. -/
theorem deflateStreamRun_truncated :
    ∃ st', deflateStreamRun longDeflate 2
        (deflateStreamOpen longDeflate (BaseStream.mk firstNegative 0 [])) [[0x61]] = some st' ∧
      st'.base.received = longStream.take Zip.ZIP_BUF_INTERNAL ∧
      ¬ longDecoder.complete st'.base.received := by
  have hwrite : deflateStreamWrite longDeflate 2
      (deflateStreamOpen longDeflate (BaseStream.mk firstNegative 0 [])) [0x61] =
      some (.ok 1, longWritten) := rfl
  refine ⟨_, deflateStreamRun_single hwrite longWritten_close, rfl, fun hcomplete => ?_⟩
  have hlen := congrArg List.length hcomplete
  rw [longStream_take, longStream_length] at hlen
  omega

end FileApi.Compress
