import FileApi.ModFs.RandomAccessFile

/-!
# A random access file is a byte array with a cursor

The cursor of the array is a number without a bound. A call on the object does what it does to the
array, as long as there is memory for the request and the place that it asks for is one of a file.
-/

namespace FileApi.ModFs

/-! ## The array -/

structure ByteCursor where
  data : List UInt8
  pointer : Int

/-- What a request can transfer when it ends like this. -/
def UvEnd.most : UvEnd → Nat
  | .moves most => most
  | _ => 0

/-- A place that a file can have. -/
def InRange (place : Int) : Prop := 0 ≤ place ∧ place < 2 ^ 63

instance (place : Int) : Decidable (InRange place) := inferInstanceAs (Decidable (_ ∧ _))

/-- The place that the options of a transfer ask for. -/
def ByteCursor.place (c : ByteCursor) (options : IoOptions) : Int :=
  c.pointer + (options.offset.getD 0).toInt

/-- What a call may do to the array and return. -/
inductive CursorStep (c : ByteCursor) : RafCall → RafAnswer → ByteCursor → Prop where
  | setFilePointer (fp : Int64) :
      CursorStep c (.setFilePointer fp) ⟨.ok 0, []⟩ ⟨c.data, fp.toInt⟩
  | failed (call : RafCall) (e : Int) : CursorStep c call ⟨.error e, []⟩ c
  | readNowhere (bufLen : Nat) (options : IoOptions) (uv : UvEnd) (n : Int64)
      (h : ¬ InRange (c.place options)) : CursorStep c (.read bufLen options uv) ⟨.ok n, []⟩ c
  | writeNowhere (buffer : List UInt8) (options : IoOptions) (uv : UvEnd) (n : Int64)
      (h : ¬ InRange (c.place options)) : CursorStep c (.write buffer options uv) ⟨.ok n, []⟩ c
  | read (bufLen : Nat) (options : IoOptions) (uv : UvEnd) (n : Int64) (count : Nat)
      (h : InRange (c.place options)) (hn : n.toInt = count)
      (hcount : count ≤ bufLen ∧ count ≤ uv.most)
      (hdata : (c.place options).toNat + count ≤ c.data.length ∨ count = 0) :
      CursorStep c (.read bufLen options uv)
        ⟨.ok n, (c.data.drop (c.place options).toNat).take count⟩ ⟨c.data, c.place options + count⟩
  | write (buffer : List UInt8) (options : IoOptions) (uv : UvEnd) (n : Int64) (count : Nat)
      (h : InRange (c.place options)) (hn : n.toInt = count)
      (hcount : count ≤ buffer.length ∧ count ≤ uv.most) :
      CursorStep c (.write buffer options uv) ⟨.ok n, []⟩
        ⟨writtenAt c.data (c.place options).toNat (buffer.take count), c.place options + count⟩

namespace RandomAccessFile

/-- The array that an object stands for. -/
def cursor (raf : RandomAccessFile) : ByteCursor := ⟨raf.file.data, raf.filePointer.toInt⟩

/-- A call does what it may do to the array. -/
def Refines (raf : RandomAccessFile) (call : RafCall) : Prop :=
  CursorStep raf.cursor call (raf.exec call).1 (raf.exec call).2.cursor

/-- Each call of some holds with the object it is made on. -/
def EveryCall (P : RandomAccessFile → RafCall → Prop) : RandomAccessFile → List RafCall → Prop
  | _, [] => True
  | raf, call :: calls => P raf call ∧ EveryCall P (raf.exec call).2 calls

/-- The bytes that a read finds. -/
def readBytes (file : ByteFile) (len : Nat) (offset : Int64) (most : Nat) : List UInt8 :=
  (file.data.drop (uvPosition file offset)).take (uvRoom file len offset most)

/-- The bytes that a write takes from its buffer. -/
def writeBytes (file : ByteFile) (buf : List UInt8) (len : Nat) (offset : Int64) (most : Nat) :
    List UInt8 :=
  buf.take (uvRoom file len offset most)

/-- A request that asks for no place of a file does nothing when it fails, or when no offset was
given with it and there is nothing to transfer at the position of the descriptor. -/
def Idle (options : IoOptions) (nothing : Nat → Prop) : UvEnd → Prop
  | .noRequest => False
  | .fails _ _ => True
  | .moves most => options.offset.getD 0 = 0 ∧ nothing most

/-- There is memory for the request, and its place is one of a file or it is idle. -/
def SoundTransfer (raf : RandomAccessFile) (options : IoOptions) (nothing : Nat → Prop)
    (uv : UvEnd) : Prop :=
  uv ≠ .noRequest ∧ (InRange (raf.cursor.place options) ∨ Idle options nothing uv)

/-- A call with valid arguments is a sound transfer. -/
def Sound (raf : RandomAccessFile) : RafCall → Prop
  | .setFilePointer _ => True
  | .read bufLen options uv =>
      ∀ len offset, validArg bufLen options = some (len, offset) →
        SoundTransfer raf options (fun most => readBytes raf.file len (-1) most = []) uv
  | .write buffer options uv =>
      ∀ len offset, validArg buffer.length options = some (len, offset) →
        SoundTransfer raf options (fun most => writeBytes raf.file buffer len (-1) most = []) uv

/-! ## Offsets -/

variable {raf : RandomAccessFile} {options : IoOptions} {bufLen len count : Nat}
  {offset fPointer : Int64}

theorem validArg_some (h : validArg bufLen options = some (len, offset)) :
    len ≤ bufLen ∧
      (options.offset = none ∧ offset = -1 ∨ options.offset = some offset ∧ ¬ offset < 0) := by
  unfold validArg at h
  split at h
  · cases h
  · split at h
    · cases h
    · next found hfound =>
      have hlen : found ≤ bufLen := by
        unfold getActualLen at hfound
        split at hfound
        · cases hfound
          exact Nat.le_refl _
        · split at hfound
          · cases hfound
          · next hno =>
            cases hfound
            exact Nat.le_of_not_lt fun hlt => hno (.inr hlt)
      split at h
      · next hnone =>
        cases h
        exact ⟨hlen, .inl ⟨hnone, rfl⟩⟩
      · next given hgiven =>
        split at h
        · cases h
        · next hneg =>
          cases h
          exact ⟨hlen, .inr ⟨hgiven, hneg⟩⟩

theorem calculateOffset_eq (fPointer : Int64) (h : validArg bufLen options = some (len, offset)) :
    calculateOffset offset fPointer = options.offset.getD 0 + fPointer ∧
      0 ≤ options.offset.getD 0 := by
  unfold calculateOffset
  rcases (validArg_some h).2 with ⟨hnone, rfl⟩ | ⟨hsome, hneg⟩
  · rw [if_pos (by decide), hnone]
    exact ⟨(Int64.zero_add fPointer).symm, by decide⟩
  · rw [if_neg hneg, hsome]
    exact ⟨rfl, Int64.not_lt.mp hneg⟩

theorem toInt_add_pointer (hoffset : 0 ≤ offset) :
    (InRange (fPointer.toInt + offset.toInt) →
      (offset + fPointer).toInt = fPointer.toInt + offset.toInt) ∧
    (¬ InRange (fPointer.toInt + offset.toInt) → offset + fPointer < 0) := by
  have hlt := fPointer.toInt_lt
  have hge := fPointer.le_toInt
  have hlt' := offset.toInt_lt
  rw [Int64.le_iff_toInt_le, Int64.toInt_zero] at hoffset
  have hsum : (offset + fPointer).toInt = (fPointer.toInt + offset.toInt).bmod (2 ^ 64) := by
    rw [Int64.toInt_add, Int.add_comm]
  rw [Int64.lt_iff_toInt_lt, hsum, Int64.toInt_zero, Int.bmod_def]
  unfold InRange
  refine ⟨fun hin => ?_, fun hout => ?_⟩
  · split <;> omega
  · split <;> omega

theorem toInt_ofInt_count (hcount : count < 2 ^ 63) : (Int64.ofInt count).toInt = count :=
  Int64.toInt_ofInt_of_le (by omega) (by omega)

theorem add_count_eq_pointer (hoffset : 0 ≤ offset) (hcount : count < 2 ^ 63) :
    offset + fPointer + Int64.ofInt count = fPointer ↔ offset = 0 ∧ count = 0 := by
  have hlt := offset.toInt_lt
  rw [Int64.le_iff_toInt_le, Int64.toInt_zero] at hoffset
  have hcomm : offset + fPointer + Int64.ofInt count = offset + Int64.ofInt count + fPointer := by
    rw [Int64.add_assoc, Int64.add_comm fPointer, Int64.add_assoc]
  rw [hcomm, Int64.add_eq_right, ← Int64.toInt_inj, ← Int64.toInt_inj, Int64.toInt_add,
    toInt_ofInt_count hcount, Int64.toInt_zero, Int.bmod_def]
  split <;> omega

/-! ## Requests -/

variable {file : ByteFile} {buf : List UInt8} {most : Nat}

theorem uvPosition_of_neg (h : offset < 0) : uvPosition file offset = uvPosition file (-1) := by
  unfold uvPosition
  rw [if_pos h, if_pos (by decide)]

theorem uvRoom_of_neg (h : offset < 0) : uvRoom file len offset most = uvRoom file len (-1) most := by
  unfold uvRoom
  rw [uvPosition_of_neg h]

theorem uvPosition_of_place {place : Int} (hplace : InRange place) (h : offset.toInt = place) :
    uvPosition file offset = place.toNat := by
  unfold uvPosition
  rw [if_neg fun hneg => ?_, h]
  rw [Int64.lt_iff_toInt_lt, h] at hneg
  exact absurd hplace.1 (Int.not_le.mpr hneg)

theorem uvRoom_le (file : ByteFile) (len : Nat) (offset : Int64) (most : Nat) :
    uvRoom file len offset most ≤ len ∧ uvRoom file len offset most ≤ most ∧
    uvRoom file len offset most < 2 ^ 63 ∧
      uvPosition file offset + uvRoom file len offset most ≤
        max maxOffset (uvPosition file offset) := by
  unfold uvRoom maxRwCount
  omega

theorem length_readBytes_le :
    (readBytes file len offset most).length ≤ uvRoom file len offset most := by
  rw [readBytes, List.length_take]
  exact Nat.min_le_left _ _

theorem readBytes_of_neg (h : offset < 0) :
    readBytes file len offset most = readBytes file len (-1) most := by
  rw [readBytes, uvPosition_of_neg h, uvRoom_of_neg h, readBytes]

theorem readBytes_eq :
    readBytes file len offset most =
      (file.data.drop (uvPosition file offset)).take (readBytes file len offset most).length := by
  rw [readBytes, List.length_take, List.take_eq_take_min]

theorem position_add_length_readBytes :
    uvPosition file offset + (readBytes file len offset most).length ≤ file.data.length ∨
      (readBytes file len offset most).length = 0 := by
  rw [readBytes, List.length_take, List.length_drop]
  omega

theorem length_writeBytes_le :
    (writeBytes file buf len offset most).length ≤ uvRoom file len offset most := by
  rw [writeBytes, List.length_take]
  exact Nat.min_le_left _ _

theorem writeBytes_of_neg (h : offset < 0) :
    writeBytes file buf len offset most = writeBytes file buf len (-1) most := by
  rw [writeBytes, uvRoom_of_neg h, writeBytes]

theorem writeBytes_eq :
    writeBytes file buf len offset most =
      buf.take (writeBytes file buf len offset most).length := by
  rw [writeBytes, List.length_take, List.take_eq_take_min]

/-! ## Calls -/

theorem finishTransfer_count (bytes : List UInt8) :
    raf.finishTransfer offset count bytes file =
      (⟨.ok (Int64.ofInt count), bytes⟩, ⟨offset + Int64.ofInt count, file⟩) :=
  if_neg (Int.not_lt.mpr (Int.natCast_nonneg count))

theorem finishTransfer_fails {errno : Nat} (h : 0 < errno) (bytes : List UInt8) :
    raf.finishTransfer offset (-errno) bytes file =
      (⟨.error (-errno), bytes⟩, ⟨raf.filePointer, file⟩) :=
  if_pos (by omega)

theorem cursor_eq_iff {pointer : Int64} :
    cursor ⟨pointer, file⟩ = raf.cursor ↔ file.data = raf.file.data ∧ pointer = raf.filePointer := by
  unfold cursor
  rw [ByteCursor.mk.injEq, Int64.toInt_inj]

/-- A read that returns a number is out of range and does nothing, or the number is what it was
possible to read. -/
theorem read_ok {c c' : ByteCursor} {uv : UvEnd} {n : Int64} {bytes : List UInt8}
    (h : CursorStep c (.read bufLen options uv) ⟨.ok n, bytes⟩ c') :
    ¬ InRange (c.place options) ∧ c' = c ∨ InRange (c.place options) ∧ n.toInt ≤ uv.most := by
  cases h with
  | readNowhere _ _ _ _ hout => exact .inl ⟨hout, rfl⟩
  | read _ _ _ _ count hin hn hcount => exact .inr ⟨hin, hn ▸ Int.ofNat_le.mpr hcount.2⟩

theorem write_ok {c c' : ByteCursor} {uv : UvEnd} {n : Int64} {bytes : List UInt8}
    (h : CursorStep c (.write buf options uv) ⟨.ok n, bytes⟩ c') :
    ¬ InRange (c.place options) ∧ c' = c ∨ InRange (c.place options) ∧ n.toInt ≤ uv.most := by
  cases h with
  | writeNowhere _ _ _ _ hout => exact .inl ⟨hout, rfl⟩
  | write _ _ _ _ count hin hn hcount => exact .inr ⟨hin, hn ▸ Int.ofNat_le.mpr hcount.2⟩

theorem place_spec (h : validArg bufLen options = some (len, offset)) :
    (InRange (raf.cursor.place options) →
      (calculateOffset offset raf.filePointer).toInt = raf.cursor.place options) ∧
    (¬ InRange (raf.cursor.place options) → calculateOffset offset raf.filePointer < 0) := by
  obtain ⟨heq, hoffset⟩ := calculateOffset_eq raf.filePointer h
  rw [heq]
  exact toInt_add_pointer hoffset

theorem moves_eq_iff (h : validArg bufLen options = some (len, offset)) (hcount : count < 2 ^ 63) :
    calculateOffset offset raf.filePointer + Int64.ofInt count = raf.filePointer ↔
      options.offset.getD 0 = 0 ∧ count = 0 := by
  obtain ⟨heq, hoffset⟩ := calculateOffset_eq raf.filePointer h
  rw [heq]
  exact add_count_eq_pointer hoffset hcount

theorem toInt_behind (hin : InRange offset.toInt) (hcount : count ≤ uvRoom file len offset most) :
    (offset + Int64.ofInt count).toInt = offset.toInt + count := by
  have hposition : uvPosition file offset = offset.toInt.toNat := uvPosition_of_place hin rfl
  obtain ⟨-, -, hsmall, hroom⟩ := uvRoom_le file len offset most
  rw [hposition] at hroom
  unfold maxOffset at hroom
  obtain ⟨hnonneg, hlt⟩ := hin
  rw [Int64.toInt_add, toInt_ofInt_count (Nat.lt_of_le_of_lt hcount hsmall), Int.bmod_def]
  split <;> omega

theorem exec_read (harg : validArg bufLen options = some (len, offset)) (uv : UvEnd) :
    raf.exec (.read bufLen options uv) =
      raf.finishTransfer (calculateOffset offset raf.filePointer)
        (doReadRAF raf.file len (calculateOffset offset raf.filePointer) uv).1
        (doReadRAF raf.file len (calculateOffset offset raf.filePointer) uv).2.1
        (doReadRAF raf.file len (calculateOffset offset raf.filePointer) uv).2.2 := by
  rw [exec, readSync, harg]

theorem exec_write (harg : validArg buf.length options = some (len, offset)) (uv : UvEnd) :
    raf.exec (.write buf options uv) =
      raf.finishTransfer (calculateOffset offset raf.filePointer)
        (doWriteRAF raf.file buf len (calculateOffset offset raf.filePointer) uv).1 []
        (doWriteRAF raf.file buf len (calculateOffset offset raf.filePointer) uv).2 := by
  rw [exec, writeSync, harg]

theorem moved_cursor (harg : validArg bufLen options = some (len, offset))
    (hin : InRange (raf.cursor.place options))
    (hcount : count ≤ uvRoom raf.file len (calculateOffset offset raf.filePointer) most) :
    (Int64.ofInt count).toInt = count ∧
      cursor ⟨calculateOffset offset raf.filePointer + Int64.ofInt count, file⟩ =
        ⟨file.data, raf.cursor.place options + count⟩ := by
  have hplace := (place_spec harg).1 hin
  have hsmall := (uvRoom_le raf.file len (calculateOffset offset raf.filePointer) most).2.2.1
  refine ⟨toInt_ofInt_count (Nat.lt_of_le_of_lt hcount hsmall), ?_⟩
  rw [cursor, toInt_behind (hplace ▸ hin) hcount, hplace]

theorem refines_read_moves (harg : validArg bufLen options = some (len, offset))
    (hin : InRange (raf.cursor.place options)) (most : Nat) :
    Refines raf (.read bufLen options (.moves most)) := by
  let o := calculateOffset offset raf.filePointer
  let got := readBytes raf.file len o most
  have hplace : o.toInt = raf.cursor.place options := (place_spec harg).1 hin
  have hposition : uvPosition raf.file o = (raf.cursor.place options).toNat :=
    uvPosition_of_place hin hplace
  have hroom := uvRoom_le raf.file len o most
  have hcount : got.length ≤ uvRoom raf.file len o most := length_readBytes_le
  have hexec : raf.exec (.read bufLen options (.moves most)) =
      (⟨.ok (Int64.ofInt got.length), got⟩,
        ⟨o + Int64.ofInt got.length, { raf.file with pos := uvMoved raf.file o got.length }⟩) := by
    rw [exec_read harg]
    exact finishTransfer_count got
  obtain ⟨hn, hcursor⟩ := moved_cursor harg hin hcount
  have hgot : got = (raf.cursor.data.drop (raf.cursor.place options).toNat).take got.length := by
    rw [← hposition]
    exact readBytes_eq
  have hdata : (raf.cursor.place options).toNat + got.length ≤ raf.cursor.data.length ∨
      got.length = 0 := by
    rw [← hposition]
    exact position_add_length_readBytes
  rw [Refines, hexec]
  dsimp only
  rw [hcursor]
  have hstep := @CursorStep.read raf.cursor bufLen options (.moves most) _ got.length hin hn
    ⟨Nat.le_trans hcount (Nat.le_trans hroom.1 (validArg_some harg).1),
      Nat.le_trans hcount hroom.2.1⟩ hdata
  rw [← hgot] at hstep
  exact hstep

theorem refines_write_moves (harg : validArg buf.length options = some (len, offset))
    (hin : InRange (raf.cursor.place options)) (most : Nat) :
    Refines raf (.write buf options (.moves most)) := by
  let o := calculateOffset offset raf.filePointer
  let bytes := writeBytes raf.file buf len o most
  have hplace : o.toInt = raf.cursor.place options := (place_spec harg).1 hin
  have hposition : uvPosition raf.file o = (raf.cursor.place options).toNat :=
    uvPosition_of_place hin hplace
  have hroom := uvRoom_le raf.file len o most
  have hcount : bytes.length ≤ uvRoom raf.file len o most := length_writeBytes_le
  have hexec : raf.exec (.write buf options (.moves most)) =
      (⟨.ok (Int64.ofInt bytes.length), []⟩,
        ⟨o + Int64.ofInt bytes.length,
          ⟨writtenAt raf.file.data (uvPosition raf.file o) bytes,
            uvMoved raf.file o bytes.length⟩⟩) := by
    rw [exec_write harg]
    exact finishTransfer_count []
  obtain ⟨hn, hcursor⟩ := moved_cursor harg hin hcount
  have hbytes : bytes = buf.take bytes.length := writeBytes_eq
  rw [Refines, hexec]
  dsimp only
  rw [hcursor, hposition]
  have hstep := @CursorStep.write raf.cursor buf options (.moves most) _ bytes.length hin hn
    ⟨Nat.le_trans hcount (Nat.le_trans hroom.1 (validArg_some harg).1),
      Nat.le_trans hcount hroom.2.1⟩
  rw [← hbytes] at hstep
  exact hstep

theorem refines_read_nowhere (harg : validArg bufLen options = some (len, offset))
    (hout : ¬ InRange (raf.cursor.place options)) (most : Nat) :
    Refines raf (.read bufLen options (.moves most)) ↔
      options.offset.getD 0 = 0 ∧ readBytes raf.file len (-1) most = [] := by
  let o := calculateOffset offset raf.filePointer
  let got := readBytes raf.file len o most
  have hgot : got = readBytes raf.file len (-1) most := readBytes_of_neg ((place_spec harg).2 hout)
  have hsmall : got.length < 2 ^ 63 :=
    Nat.lt_of_le_of_lt length_readBytes_le (uvRoom_le raf.file len o most).2.2.1
  have hexec : raf.exec (.read bufLen options (.moves most)) =
      (⟨.ok (Int64.ofInt got.length), got⟩,
        ⟨o + Int64.ofInt got.length, { raf.file with pos := uvMoved raf.file o got.length }⟩) := by
    rw [exec_read harg]
    exact finishTransfer_count got
  rw [← hgot, ← List.length_eq_zero_iff, ← moves_eq_iff harg hsmall, Refines, hexec]
  constructor
  · intro hstep
    rcases read_ok hstep with ⟨-, hcursor⟩ | ⟨hin, -⟩
    · exact (cursor_eq_iff.mp hcursor).2
    · exact absurd hin hout
  · intro hpointer
    have hnil : got = [] :=
      List.length_eq_zero_iff.mp ((moves_eq_iff harg hsmall).mp hpointer).2
    have hcursor : cursor ⟨o + Int64.ofInt got.length,
        { raf.file with pos := uvMoved raf.file o got.length }⟩ = raf.cursor :=
      cursor_eq_iff.mpr ⟨rfl, hpointer⟩
    dsimp only
    rw [hcursor, hnil]
    exact .readNowhere bufLen options _ _ hout

theorem refines_write_nowhere (harg : validArg buf.length options = some (len, offset))
    (hout : ¬ InRange (raf.cursor.place options)) (most : Nat) :
    Refines raf (.write buf options (.moves most)) ↔
      options.offset.getD 0 = 0 ∧ writeBytes raf.file buf len (-1) most = [] := by
  let o := calculateOffset offset raf.filePointer
  let bytes := writeBytes raf.file buf len o most
  have hbytes : bytes = writeBytes raf.file buf len (-1) most :=
    writeBytes_of_neg ((place_spec harg).2 hout)
  have hsmall : bytes.length < 2 ^ 63 :=
    Nat.lt_of_le_of_lt length_writeBytes_le (uvRoom_le raf.file len o most).2.2.1
  have hexec : raf.exec (.write buf options (.moves most)) =
      (⟨.ok (Int64.ofInt bytes.length), []⟩,
        ⟨o + Int64.ofInt bytes.length,
          ⟨writtenAt raf.file.data (uvPosition raf.file o) bytes,
            uvMoved raf.file o bytes.length⟩⟩) := by
    rw [exec_write harg]
    exact finishTransfer_count []
  rw [← hbytes, ← List.length_eq_zero_iff, ← moves_eq_iff harg hsmall, Refines, hexec]
  constructor
  · intro hstep
    rcases write_ok hstep with ⟨-, hcursor⟩ | ⟨hin, -⟩
    · exact (cursor_eq_iff.mp hcursor).2
    · exact absurd hin hout
  · intro hpointer
    have hnil : bytes = [] :=
      List.length_eq_zero_iff.mp ((moves_eq_iff harg hsmall).mp hpointer).2
    have hdata : writtenAt raf.file.data (uvPosition raf.file o) bytes = raf.file.data :=
      if_pos hnil
    have hcursor : cursor ⟨o + Int64.ofInt bytes.length,
        ⟨writtenAt raf.file.data (uvPosition raf.file o) bytes,
          uvMoved raf.file o bytes.length⟩⟩ = raf.cursor :=
      cursor_eq_iff.mpr ⟨hdata, hpointer⟩
    dsimp only
    rw [hcursor]
    exact .writeNowhere buf options _ _ hout

theorem not_enomem (harg : validArg bufLen options = some (len, offset)) {c' : ByteCursor}
    (hcursor : c' = raf.cursor →
      calculateOffset offset raf.filePointer + Int64.ofInt enomemCode = raf.filePointer)
    (h : ¬ InRange (raf.cursor.place options) ∧ c' = raf.cursor ∨
      InRange (raf.cursor.place options) ∧
        (Int64.ofInt enomemCode).toInt ≤ UvEnd.noRequest.most) : False := by
  rcases h with ⟨-, heq⟩ | ⟨-, hle⟩
  · have hcode := ((moves_eq_iff harg (by decide : (12 : Nat) < 2 ^ 63)).mp (hcursor heq)).2
    exact absurd hcode (by decide)
  · exact absurd hle (by decide)

theorem not_refines_read_noRequest (harg : validArg bufLen options = some (len, offset)) :
    ¬ Refines raf (.read bufLen options .noRequest) := by
  intro h
  have hexec : raf.exec (.read bufLen options .noRequest) =
      (⟨.ok (Int64.ofInt enomemCode), []⟩,
        ⟨calculateOffset offset raf.filePointer + Int64.ofInt enomemCode, raf.file⟩) := by
    rw [exec_read harg]
    exact finishTransfer_count []
  rw [Refines, hexec] at h
  exact not_enomem harg (fun heq => (cursor_eq_iff.mp heq).2) (read_ok h)

theorem not_refines_write_noRequest (harg : validArg buf.length options = some (len, offset)) :
    ¬ Refines raf (.write buf options .noRequest) := by
  intro h
  have hexec : raf.exec (.write buf options .noRequest) =
      (⟨.ok (Int64.ofInt enomemCode), []⟩,
        ⟨calculateOffset offset raf.filePointer + Int64.ofInt enomemCode, raf.file⟩) := by
    rw [exec_write harg]
    exact finishTransfer_count []
  rw [Refines, hexec] at h
  exact not_enomem harg (fun heq => (cursor_eq_iff.mp heq).2) (write_ok h)

theorem refines_read_iff (harg : validArg bufLen options = some (len, offset)) (uv : UvEnd) :
    Refines raf (.read bufLen options uv) ↔
      SoundTransfer raf options (fun most => readBytes raf.file len (-1) most = []) uv := by
  cases uv with
  | noRequest => exact iff_of_false (not_refines_read_noRequest harg) fun h => h.1 rfl
  | fails errno positive =>
    refine iff_of_true ?_ ⟨nofun, .inr trivial⟩
    have hexec : raf.exec (.read bufLen options (.fails errno positive)) =
        (⟨.error (-errno), []⟩, raf) := by
      rw [exec_read harg]
      exact finishTransfer_fails positive []
    rw [Refines, hexec]
    exact .failed _ _
  | moves most =>
    by_cases hin : InRange (raf.cursor.place options)
    · exact iff_of_true (refines_read_moves harg hin most) ⟨nofun, .inl hin⟩
    · rw [refines_read_nowhere harg hin most]
      exact ⟨fun h => ⟨nofun, .inr h⟩, fun h => h.2.resolve_left hin⟩

theorem refines_write_iff (harg : validArg buf.length options = some (len, offset)) (uv : UvEnd) :
    Refines raf (.write buf options uv) ↔
      SoundTransfer raf options (fun most => writeBytes raf.file buf len (-1) most = []) uv := by
  cases uv with
  | noRequest => exact iff_of_false (not_refines_write_noRequest harg) fun h => h.1 rfl
  | fails errno positive =>
    refine iff_of_true ?_ ⟨nofun, .inr trivial⟩
    have hexec : raf.exec (.write buf options (.fails errno positive)) =
        (⟨.error (-errno), []⟩, raf) := by
      rw [exec_write harg]
      exact finishTransfer_fails positive []
    rw [Refines, hexec]
    exact .failed _ _
  | moves most =>
    by_cases hin : InRange (raf.cursor.place options)
    · exact iff_of_true (refines_write_moves harg hin most) ⟨nofun, .inl hin⟩
    · rw [refines_write_nowhere harg hin most]
      exact ⟨fun h => ⟨nofun, .inr h⟩, fun h => h.2.resolve_left hin⟩

theorem refines_iff_sound (raf : RandomAccessFile) (call : RafCall) :
    Refines raf call ↔ Sound raf call := by
  cases call with
  | setFilePointer fp => exact iff_of_true (.setFilePointer fp) trivial
  | read bufLen options uv =>
    cases harg : validArg bufLen options with
    | none =>
      refine iff_of_true ?_ fun len offset h => nomatch harg.symm.trans h
      rw [Refines, exec, readSync, harg]
      exact .failed _ _
    | some arg =>
      rw [refines_read_iff harg]
      constructor
      · intro h len offset harg'
        cases harg.symm.trans harg'
        exact h
      · intro h
        exact h arg.1 arg.2 harg
  | write buffer options uv =>
    cases harg : validArg buffer.length options with
    | none =>
      refine iff_of_true ?_ fun len offset h => nomatch harg.symm.trans h
      rw [Refines, exec, writeSync, harg]
      exact .failed _ _
    | some arg =>
      rw [refines_write_iff harg]
      constructor
      · intro h len offset harg'
        cases harg.symm.trans harg'
        exact h
      · intro h
        exact h arg.1 arg.2 harg

/-! ## Runs -/

/-- Every call of a run does what it may do to the array exactly when every call is sound. -/
theorem run_refines_iff (raf : RandomAccessFile) (calls : List RafCall) :
    EveryCall Refines raf calls ↔ EveryCall Sound raf calls := by
  induction calls generalizing raf with
  | nil => exact Iff.rfl
  | cons call calls ih => exact and_congr (refines_iff_sound raf call) (ih _)

/-- A pointer of -1 reads at the position of the descriptor. -/
theorem run_not_refines :
    ¬ EveryCall Refines ⟨0, ⟨[1, 2, 3, 4], 0⟩⟩
      [.setFilePointer (-1), .read 2 {} (.moves 2)] := by
  intro h
  have hread := (refines_iff_sound _ _).mp h.2.1 2 (-1) rfl
  rcases hread.2 with hin | hidle
  · exact absurd hin (by decide)
  · exact absurd hidle.2 (by decide)

end RandomAccessFile

end FileApi.ModFs
