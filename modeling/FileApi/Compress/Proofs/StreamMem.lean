import FileApi.Compress.Stream.Mem

/-!
# The memory stream is a byte array with a cursor

The assertion of `MemStreamRead` (`stream_mem.c:112`) says what the three counters have to each
other: the cursor is not behind the bytes that were written. A seek is checked against the capacity
instead (`stream_mem.c:190`), and every other operation keeps the assertion.
-/

namespace FileApi.Compress

/-! ## A byte array with a cursor -/

/-- Where a seek in a byte array goes. -/
def ByteFile.memTarget (f : ByteFile) (offset : Int) : Option SeekOrigin → Option Int
  | some .set => some offset
  | some .cur => some (f.pos + offset)
  | some .fromEnd => some (f.data.length + offset)
  | none => none

/-- What a call does to a byte array with a cursor. The cursor stays on the array. -/
def ByteFile.memCall (f : ByteFile) : MemCall → MemAnswer × ByteFile
  | .open _ => (.ok, f.seekTo 0)
  | .read len => (.read (f.read (len % 2 ^ 64).toNat).1, (f.read (len % 2 ^ 64).toNat).2)
  | .write bytes _ => (.written bytes.length, if bytes = [] then f else f.write bytes)
  | .seek offset origin =>
      match ByteFile.memTarget f offset origin with
      | none => (.error .seekError, f)
      | some newPos =>
          if newPos < 0 ∨ f.data.length < newPos then (.error .seekError, f)
          else (.ok, f.seekTo newPos.toNat)
  | .tell => (.at f.pos, f)

/-- What is left of the array where there was no memory for a call. -/
def ByteFile.refused (f : ByteFile) : MemCall → Option ByteFile
  | .open none => some (f.seekTo 0)
  | .write _ none => some f
  | _ => none

/-- The answers to a sequence of calls. A call that asked for memory in vain leaves the bytes. -/
inductive ByteArrayRun : ByteFile → List MemCall → List MemAnswer → ByteFile → Prop
  | nil {f : ByteFile} : ByteArrayRun f [] [] f
  | call {f g h : ByteFile} {c : MemCall} {a : MemAnswer} {cs : List MemCall}
      {as : List MemAnswer} : ByteFile.memCall f c = (a, g) → ByteArrayRun g cs as h →
      ByteArrayRun f (c :: cs) (a :: as) h
  | refused {f g h : ByteFile} {c : MemCall} {cs : List MemCall} {as : List MemAnswer} :
      ByteFile.refused f c = some g → ByteArrayRun g cs as h →
      ByteArrayRun f (c :: cs) (.error .memError :: as) h

/-! ## The stream holds an array -/

/-- The bytes up to the size, with the cursor among them. -/
structure MemStream.Holds (s : MemStream) (f : ByteFile) : Prop where
  buffer : s.buffer.length = s.capacity.toNat
  data : f.data = s.buffer.take s.size.toNat
  pos : f.pos = s.position.toNat
  inside : s.position.toNat ≤ s.size.toNat
  room : s.size.toNat ≤ s.capacity.toNat
  init : s.memInitSize = MEM_INIT_SIZE

variable {s : MemStream} {f : ByteFile}

theorem MemStream.Holds.length (h : s.Holds f) :
    f.data.length = s.size.toNat := by
  rw [h.data, List.length_take, h.buffer]
  exact Nat.min_eq_left h.room

/-- A stream that was opened may be opened again while it is no longer than a new one is large;
it is opened before it is written, and never longer than half of what a counter can count; and no
seek goes behind its bytes, except behind its buffer. -/
def MemCallOk (s : MemStream) : MemCall → Prop
  | .open _ => s.size ≤ s.memInitSize
  | .write bytes _ =>
      bytes = [] ∨ s.capacity ≠ 0 ∧ s.position.toNat + bytes.length ≤ 2 ^ 63
  | .seek offset origin => ∀ newPos ∈ memSeekTarget s offset origin,
      newPos ≤ s.size.toNat ∨ s.capacity.toNat < newPos
  | _ => True

instance (s : MemStream) : ∀ c, Decidable (MemCallOk s c)
  | .open _ => inferInstanceAs (Decidable (_ ≤ _))
  | .write _ _ => inferInstanceAs (Decidable (_ ∨ _ ∧ _))
  | .seek offset origin => inferInstanceAs (Decidable (∀ newPos ∈ memSeekTarget s offset origin,
      newPos ≤ s.size.toNat ∨ s.capacity.toNat < newPos))
  | .read _ => isTrue trivial
  | .tell => isTrue trivial

/-- Every call of a sequence is one. -/
def MemCallsOk : MemStream → List MemCall → Prop
  | _, [] => True
  | s, c :: cs => MemCallOk s c ∧ MemCallsOk (memCall s c).2 cs

instance decidableMemCallsOk : ∀ (s : MemStream) (cs : List MemCall), Decidable (MemCallsOk s cs)
  | _, [] => isTrue trivial
  | s, c :: cs =>
      have : Decidable (MemCallsOk (memCall s c).2 cs) := decidableMemCallsOk _ cs
      inferInstanceAs (Decidable (MemCallOk s c ∧ MemCallsOk (memCall s c).2 cs))

/-! ## Growing -/

theorem toNat_shiftLeft_one {x : UInt64} (h : x.toNat < 2 ^ 63) :
    (x <<< 1).toNat = 2 * x.toNat := by
  rw [UInt64.toNat_shiftLeft, show (1 : UInt64).toNat % 64 = 1 by decide, Nat.shiftLeft_eq]
  omega

/-- The loop ends with room for the bytes. The induction is on the turns that are left: there are
enough to come to the end of the 64-bit numbers. -/
theorem growCapacity_room (len position : UInt64) (hlen : position.toNat + len.toNat ≤ 2 ^ 63)
    (turns : Nat) : ∀ newCap : UInt64, position ≤ newCap → 2 ^ 64 ≤ newCap.toNat * 2 ^ turns →
    ∃ cap, growCapacity len position turns newCap = some cap ∧ newCap ≤ cap ∧
      position.toNat + len.toNat ≤ cap.toNat := by
  induction turns with
  | zero =>
    intro newCap _ hmany
    have hlt := newCap.toNat_lt
    omega
  | succ turns ih =>
    intro newCap hpos hmany
    have hsub := UInt64.toNat_sub_of_le newCap position hpos
    rw [growCapacity]
    split
    · next hgrow =>
      have hgrow' : (newCap - position).toNat < len.toNat := UInt64.lt_iff_toNat_lt.mp hgrow
      have hpos' := UInt64.le_iff_toNat_le.mp hpos
      have hdouble : (newCap <<< 1).toNat = 2 * newCap.toNat := toNat_shiftLeft_one (by omega)
      have hle : newCap ≤ newCap <<< 1 := by
        rw [UInt64.le_iff_toNat_le]
        omega
      obtain ⟨cap, hcap, hge, hroom⟩ := ih (newCap <<< 1) (UInt64.le_trans hpos hle) (by
        rw [hdouble, Nat.mul_comm 2, Nat.mul_assoc, ← Nat.pow_succ']
        exact hmany)
      exact ⟨cap, hcap, UInt64.le_trans hle hge, hroom⟩
    · next hroom =>
      have hroom' := UInt64.le_iff_toNat_le.mp (UInt64.not_lt.mp hroom)
      have hpos' := UInt64.le_iff_toNat_le.mp hpos
      exact ⟨newCap, rfl, UInt64.le_refl _, by omega⟩

theorem memStreamResize_holds (hs : s.Holds f) {size : UInt64} (hsize : size ≠ 0)
    (hle : s.size ≤ size) (garbage : Nat → UInt8) :
    ∃ t, memStreamResize s size (some garbage) = .ok t ∧ t.Holds f ∧ t.capacity = size ∧
      t.position = s.position := by
  have hle' := UInt64.le_iff_toNat_le.mp hle
  have hcopy : (if s.buffer = [] then 0 else if s.size < size then s.size else size) = s.size := by
    split
    · next hnull =>
      have hbuffer := hs.buffer
      rw [hnull, List.length_nil] at hbuffer
      have hroom := hs.room
      exact UInt64.toNat_inj.mp (by rw [UInt64.toNat_zero]; omega)
    · split
      · rfl
      · next hnlt => exact UInt64.le_antisymm (UInt64.not_lt.mp hnlt) hle
  have hfit : s.size.toNat ≤ s.buffer.length := hs.buffer ▸ hs.room
  have htake : (s.buffer.take s.size.toNat).length = s.size.toNat := by
    rw [List.length_take]
    omega
  refine ⟨{ s with
    buffer := s.buffer.take s.size.toNat ++
      ((List.range size.toNat).map garbage).drop s.size.toNat
    capacity := size }, by simp only [memStreamResize, if_neg hsize, hcopy], ?_, rfl, rfl⟩
  refine { pos := hs.pos, inside := hs.inside, room := hle', init := hs.init, buffer := ?_
           data := ?_ }
  · dsimp only
    rw [List.length_append, htake, List.length_drop, List.length_map, List.length_range]
    omega
  · dsimp only
    rw [List.take_left' htake]
    exact hs.data

/-! ## The operations -/

theorem memStreamCopy_holds (hs : s.Holds f) (bytes : List UInt8)
    (hroom : s.position.toNat + bytes.length ≤ s.capacity.toNat) :
    ∃ t, memStreamCopy s bytes = (.written bytes.length, t) ∧ t.Holds (f.write bytes) := by
  have hcap := s.capacity.toNat_lt
  have hbuffer := hs.buffer
  have hinside := hs.inside
  have hsize := hs.room
  have hposition : (s.position + UInt64.ofNat bytes.length).toNat =
      s.position.toNat + bytes.length := by
    rw [UInt64.toNat_add, UInt64.toNat_ofNat']
    omega
  have htake : (s.buffer.take s.position.toNat).length = s.position.toNat := by
    rw [List.length_take]
    omega
  have hfront : f.data.take f.pos = s.buffer.take s.position.toNat := by
    rw [hs.data, hs.pos, List.take_take, Nat.min_eq_left hinside]
  have hgap : f.gap bytes = [] := by
    refine ByteFile.gap_of_le ?_ bytes
    rw [hs.length, hs.pos]
    exact hinside
  refine ⟨_, by rw [memStreamCopy, if_neg (by omega)], ?_⟩
  refine { buffer := ?_, data := ?_, pos := ?_, inside := ?_, room := ?_, init := hs.init }
  · dsimp only
    rw [List.length_append, List.length_append, htake, List.length_drop]
    omega
  · show f.data.take f.pos ++ f.gap bytes ++ bytes ++ f.data.drop (f.pos + bytes.length) = _
    rw [hgap, List.append_nil, hfront, hs.data, hs.pos, List.drop_take]
    dsimp only
    have hjoin : (s.buffer.take s.position.toNat ++ bytes).length =
        s.position.toNat + bytes.length := by rw [List.length_append, htake]
    split
    · next hgt =>
      have hgt' := UInt64.lt_iff_toNat_lt.mp hgt
      rw [hposition, List.take_left' hjoin, Nat.sub_eq_zero_of_le (by omega), List.take_zero,
        List.append_nil]
    · next hle =>
      have hle' := UInt64.le_iff_toNat_le.mp (UInt64.not_lt.mp hle)
      have hkept : (s.buffer.take s.position.toNat ++ bytes).take s.size.toNat =
          s.buffer.take s.position.toNat ++ bytes := List.take_of_length_le (by omega)
      rw [List.take_append, hkept, hjoin]
  · show f.pos + bytes.length = _
    rw [hposition, hs.pos]
  · dsimp only
    split
    · exact Nat.le_refl _
    · next hle => exact UInt64.le_iff_toNat_le.mp (UInt64.not_lt.mp hle)
  · dsimp only
    split
    · rw [hposition]
      exact hroom
    · exact hsize

theorem memStreamRead_holds (hs : s.Holds f) (len : Int) :
    ∃ t, memStreamRead s len = (.read (f.read (len % 2 ^ 64).toNat).1, t) ∧
      t.Holds (f.read (len % 2 ^ 64).toNat).2 := by
  have hinside := hs.inside
  have hroom := hs.room
  have hbuffer := hs.buffer
  have hcap := s.capacity.toNat_lt
  have hsub := UInt64.toNat_sub_of_le s.size s.position (UInt64.le_iff_toNat_le.mpr hinside)
  obtain ⟨n, hn⟩ : ∃ n, n = (len % 2 ^ 64).toNat := ⟨_, rfl⟩
  have hlen : (UInt64.ofNat n).toNat = n := by
    rw [UInt64.toNat_ofNat']
    omega
  -- as many bytes as there are, if more are asked for
  obtain ⟨count, hcount⟩ : ∃ count : UInt64, count =
    if UInt64.ofNat n > s.size - s.position then s.size - s.position else UInt64.ofNat n := ⟨_, rfl⟩
  have hmin : count.toNat = min n (s.size.toNat - s.position.toNat) := by
    rw [hcount]
    split
    · next hgt =>
      have hgt' := UInt64.lt_iff_toNat_lt.mp hgt
      omega
    · next hle =>
      have hle' := UInt64.le_iff_toNat_le.mp (UInt64.not_lt.mp hle)
      omega
  have hread : (f.read n).1 = (s.buffer.drop s.position.toNat).take count.toNat := by
    rw [ByteFile.read, hs.data, hs.pos, List.drop_take, List.take_take, hmin]
  have hgot : (f.read n).1.length = count.toNat := by
    rw [hread, List.length_take, List.length_drop]
    omega
  simp only [memStreamRead, ← hn, ← hcount]
  split
  · next hzero =>
    rw [hzero, UInt64.toNat_zero] at hgot
    have hnil := List.length_eq_zero_iff.mp hgot
    refine ⟨s, by rw [hnil], ?_⟩
    have hsame : (f.read n).2 = f := by
      show ({ f with pos := f.pos + (f.read n).1.length } : ByteFile) = f
      rw [hgot, Nat.add_zero]
    rw [hsame]
    exact hs
  · rw [if_neg (by omega)]
    have hposition : (s.position + count).toNat = s.position.toNat + count.toNat := by
      rw [UInt64.toNat_add]
      omega
    refine ⟨{ s with position := s.position + count }, by rw [hread],
      { hs with pos := ?_, inside := ?_ }⟩
    · show f.pos + (f.read n).1.length = _
      rw [hgot, hposition, hs.pos]
    · show (s.position + count).toNat ≤ s.size.toNat
      rw [hposition]
      omega

/-- A write has room for its bytes, or makes it, or finds no memory. -/
theorem memStreamWrite_holds (hs : s.Holds f) {bytes : List UInt8} (hne : bytes ≠ [])
    (hopen : s.capacity ≠ 0) (hroom : s.position.toNat + bytes.length ≤ 2 ^ 63) (block : Malloc) :
    (∃ t, memStreamWrite s bytes block = (.written bytes.length, t) ∧ t.Holds (f.write bytes)) ∨
      block = none ∧ memStreamWrite s bytes block = (.error .memError, s) := by
  have hcap := s.capacity.toNat_lt
  have hinside := hs.inside
  have hsize := hs.room
  have hlen : (UInt64.ofNat bytes.length).toNat = bytes.length := by
    rw [UInt64.toNat_ofNat']
    omega
  have hle : s.position ≤ s.capacity := UInt64.le_iff_toNat_le.mpr (Nat.le_trans hinside hsize)
  have hsub := UInt64.toNat_sub_of_le s.capacity s.position hle
  rw [memStreamWrite]
  simp only [if_neg hne]
  split
  · next hgrow =>
    have hgrow' : (s.capacity - s.position).toNat < bytes.length := by
      rw [← hlen]
      exact UInt64.lt_iff_toNat_lt.mp hgrow
    have hdouble : (s.capacity <<< 1).toNat = 2 * s.capacity.toNat :=
      toNat_shiftLeft_one (by omega)
    have hpositive : 0 < s.capacity.toNat :=
      Nat.pos_of_ne_zero fun hzero => hopen (UInt64.toNat_inj.mp hzero)
    have hmore : s.capacity ≤ s.capacity <<< 1 := by
      rw [UInt64.le_iff_toNat_le]
      omega
    obtain ⟨cap, hcapEq, hge, hfits⟩ := growCapacity_room (UInt64.ofNat bytes.length)
      s.position (by omega) 64 (s.capacity <<< 1) (UInt64.le_trans hle hmore)
      (by omega)
    rw [hcapEq]
    have hcapLe := UInt64.le_trans hmore hge
    have hcapPos : cap ≠ 0 := by
      rintro rfl
      exact hopen (UInt64.le_antisymm hcapLe UInt64.zero_le)
    cases block with
    | none => exact .inr ⟨rfl, by simp only [memStreamResize, if_neg hcapPos]⟩
    | some garbage =>
      have hsizeLe : s.size ≤ cap :=
        UInt64.le_trans (UInt64.le_iff_toNat_le.mpr hsize) hcapLe
      obtain ⟨t, ht, hholds, htcap, htpos⟩ := memStreamResize_holds hs hcapPos hsizeLe garbage
      obtain ⟨u, hu, hwritten⟩ := memStreamCopy_holds hholds bytes
        (by rw [htcap, htpos]; omega)
      dsimp only
      rw [ht]
      exact .inl ⟨u, hu, hwritten⟩
  · next hfits =>
    have hfits' := UInt64.le_iff_toNat_le.mp (UInt64.not_lt.mp hfits)
    exact .inl (memStreamCopy_holds hs bytes (by omega))

theorem memStreamOpen_holds (hs : s.Holds f) (hle : s.size ≤ s.memInitSize) (block : Malloc) :
    (∃ t, memStreamOpen s block = (.ok, t) ∧ t.Holds (f.seekTo 0)) ∨
      block = none ∧ ∃ t, memStreamOpen s block = (.error .memError, t) ∧ t.Holds (f.seekTo 0) := by
  have hrewound : ({ s with position := 0 } : MemStream).Holds (f.seekTo 0) :=
    { hs with pos := rfl, inside := Nat.zero_le _ }
  have hinit : s.memInitSize ≠ 0 := by
    rw [hs.init]
    decide
  rw [memStreamOpen]
  cases block with
  | none => exact .inr ⟨rfl, _, by simp only [memStreamResize, if_neg hinit], hrewound⟩
  | some garbage =>
    obtain ⟨t, ht, hholds, -, -⟩ := memStreamResize_holds hrewound hinit hle garbage
    dsimp only at ht ⊢
    rw [ht]
    exact .inl ⟨t, rfl, hholds⟩

theorem memStreamSeek_holds (hs : s.Holds f) {offset : Int} {origin : Option SeekOrigin}
    (hok : ∀ newPos ∈ memSeekTarget s offset origin,
      newPos ≤ s.size.toNat ∨ s.capacity.toNat < newPos) :
    ∃ t g, memStreamSeek s offset origin = ((ByteFile.memCall f (.seek offset origin)).1, t) ∧
      (ByteFile.memCall f (.seek offset origin)).2 = g ∧ t.Holds g := by
  have hcap := s.capacity.toNat_lt
  have hroom := hs.room
  have hlength := hs.length
  have htarget : ByteFile.memTarget f offset origin = memSeekTarget s offset origin := by
    cases origin with
    | none => rfl
    | some origin =>
      cases origin with
      | set => rfl
      | cur => rw [ByteFile.memTarget, memSeekTarget, hs.pos]
      | fromEnd => rw [ByteFile.memTarget, memSeekTarget, hlength]
  simp only [ByteFile.memCall, htarget, memStreamSeek]
  cases hseek : memSeekTarget s offset origin with
  | none => exact ⟨s, f, rfl, rfl, hs⟩
  | some newPos =>
    have hnewPos := hok newPos hseek
    dsimp only
    by_cases hbad : newPos < 0 ∨ (s.capacity.toNat : Int) < newPos
    · rw [if_pos hbad, if_pos (by omega)]
      exact ⟨s, f, rfl, rfl, hs⟩
    · rw [if_neg hbad, if_neg (by omega)]
      have hposition : (UInt64.ofNat newPos.toNat).toNat = newPos.toNat := by
        rw [UInt64.toNat_ofNat']
        omega
      refine ⟨_, _, rfl, rfl, { hs with pos := ?_, inside := ?_ }⟩
      · dsimp only
        rw [hposition]
        rfl
      · dsimp only
        rw [hposition]
        omega

/-! ## Sequences of calls -/

theorem memCall_holds (hs : s.Holds f) {c : MemCall} (hok : MemCallOk s c) :
    (∃ g, ByteFile.memCall f c = ((memCall s c).1, g) ∧ (memCall s c).2.Holds g) ∨
      ∃ g, ByteFile.refused f c = some g ∧ (memCall s c).1 = .error .memError ∧
        (memCall s c).2.Holds g := by
  cases c with
  | «open» block =>
    rcases memStreamOpen_holds hs hok block with ⟨t, ht, hholds⟩ | ⟨rfl, t, ht, hholds⟩
    · rw [memCall, ht]
      exact .inl ⟨_, rfl, hholds⟩
    · rw [memCall, ht]
      exact .inr ⟨_, rfl, rfl, hholds⟩
  | read len =>
    obtain ⟨t, ht, hholds⟩ := memStreamRead_holds hs len
    rw [memCall, ht]
    exact .inl ⟨_, rfl, hholds⟩
  | write bytes block =>
    by_cases hnil : bytes = []
    · rw [memCall, memStreamWrite, ByteFile.memCall]
      simp only [hnil, if_true]
      exact .inl ⟨f, rfl, hs⟩
    · obtain ⟨hopen, hroom⟩ := hok.resolve_left hnil
      rcases memStreamWrite_holds hs hnil hopen hroom block with ⟨t, ht, hholds⟩ | ⟨rfl, ht⟩
      · rw [memCall, ht, ByteFile.memCall, if_neg hnil]
        exact .inl ⟨_, rfl, hholds⟩
      · rw [memCall, ht]
        exact .inr ⟨f, rfl, rfl, hs⟩
  | seek offset origin =>
    obtain ⟨t, g, ht, hg, hholds⟩ := memStreamSeek_holds hs hok
    rw [memCall, ht]
    exact .inl ⟨g, Prod.ext rfl hg, hholds⟩
  | tell =>
    refine .inl ⟨f, ?_, hs⟩
    rw [memCall, memStreamTell, ← hs.pos]
    rfl

theorem memRun_holds {calls : List MemCall} : ∀ {s : MemStream} {f : ByteFile}, s.Holds f →
    MemCallsOk s calls →
    ∃ g, ByteArrayRun f calls (memRun s calls).1 g ∧ (memRun s calls).2.Holds g := by
  induction calls with
  | nil => exact fun hs _ => ⟨_, .nil, hs⟩
  | cons c calls ih =>
    intro s f hs hok
    rcases memCall_holds hs hok.1 with ⟨g, hcall, hholds⟩ | ⟨g, hrefused, herror, hholds⟩
    · obtain ⟨h, hrun, hend⟩ := ih hholds hok.2
      exact ⟨h, .call hcall hrun, hend⟩
    · obtain ⟨h, hrun, hend⟩ := ih hholds hok.2
      have hanswers := ByteArrayRun.refused hrefused hrun
      rw [← herror] at hanswers
      exact ⟨h, hanswers, hend⟩

/-- The stream of `MemStreamCreate` is a byte array with a cursor: every sequence of calls has the
answers an empty array gives to it, and leaves what it leaves in the array. -/
theorem memStream_refines {calls : List MemCall} (hok : MemCallsOk {} calls) :
    ∃ f, ByteArrayRun ⟨[], 0⟩ calls (memRun {} calls).1 f ∧ (memRun {} calls).2.Holds f :=
  memRun_holds ⟨rfl, rfl, rfl, Nat.le_refl _, Nat.le_refl _, rfl⟩ hok

/-- Two writes, one of them in the middle, and a read. -/
def overwriteCalls : List MemCall :=
  [.open (some fun _ => 0xaa), .write [1, 2, 3] none, .seek (-2) (some .fromEnd), .write [4] none,
    .seek 0 (some .set), .read (-1), .tell]

theorem memStream_refines_overwriteCalls :
    (memRun {} overwriteCalls).1 =
      [.ok, .written 3, .ok, .written 1, .ok, .read [1, 4, 3], .at 3] ∧
    ∃ f, ByteArrayRun ⟨[], 0⟩ overwriteCalls (memRun {} overwriteCalls).1 f ∧
      (memRun {} overwriteCalls).2.Holds f :=
  ⟨by decide +kernel, memStream_refines (by decide +kernel)⟩

/-- A seek behind the bytes and in front of the end of the buffer. -/
def seekBehindCalls : List MemCall :=
  [.open (some fun _ => 0xaa), .write [1] none, .seek 10 (some .set), .read 1]

/-- The read returns a byte that was never written. -/
theorem memStream_not_refines :
    (memRun {} seekBehindCalls).1 = [.ok, .written 1, .ok, .read [0xaa]] ∧
      ¬ ∃ f, ByteArrayRun ⟨[], 0⟩ seekBehindCalls (memRun {} seekBehindCalls).1 f ∧
        (memRun {} seekBehindCalls).2.Holds f := by
  refine ⟨by decide +kernel, ?_⟩
  rintro ⟨f, -, hholds⟩
  have hbehind : ¬ (memRun {} seekBehindCalls).2.position.toNat ≤
      (memRun {} seekBehindCalls).2.size.toNat := by decide +kernel
  exact hbehind hholds.inside

end FileApi.Compress
