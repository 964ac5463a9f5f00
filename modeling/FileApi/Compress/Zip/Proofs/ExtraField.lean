import FileApi.Compress.Zip.ExtraField

/-!
# Extra fields stay in bounds

Every parser touches its own record, as far as it is there, and the arrays it writes to. So the
cursor goes from record to record and never beyond the extra field, and what it is at fits in 16
bits.
-/

namespace FileApi.Compress.Zip.ExtraField

open Program

variable {extraField : List UInt8} {extraFieldLength : UInt16}

/-! ## What is kept -/

/-- What is read of the extra field is between two places, and what is read and written otherwise is
in the arrays. -/
def Access.Inside (lo hi : Nat) (a : Access) : Prop :=
  match a.region with
  | .extraField => a.write = false ∧ lo ≤ a.pos ∧ a.pos + a.len ≤ hi
  | .entryName => a.pos + a.len ≤ ZIP_FILE_NAME_LEN_MAX + 1
  | .strongEncryptHeader => a.pos + a.len ≤ strongEncryptionHeaderSize

/-- A record has the size its header says, as far as it is there, and is read inside. -/
structure ExtraRecord.Within (extraField : List UInt8) (extraFieldLength : UInt16)
    (r : ExtraRecord) : Prop where
  size : r.dataSize.toNat = min (getLittleEndianValue extraField (r.pos.toNat + 2) 2)
    (extraFieldLength.toNat - (r.pos.toNat + 4))
  fits : r.pos.toNat + 4 + r.dataSize.toNat ≤ extraFieldLength.toNat
  header : ∀ a ∈ r.header, a.Inside r.pos.toNat (r.pos.toNat + 4)
  accesses : ∀ a ∈ r.accesses, a.Inside (r.pos.toNat + 4) (r.pos.toNat + 4 + r.dataSize.toNat)

/-- The records, the last one first, are behind each other up to the cursor. -/
def Consecutive : List ExtraRecord → Nat → Prop
  | [], cur => cur = 0
  | r :: rs, cur => cur = r.pos.toNat + 4 + r.dataSize.toNat ∧ Consecutive rs r.pos.toNat

/-- The arrays have their sizes. -/
structure Arrays (c : ExtractContext) : Prop where
  entryName : c.entry.entryInfo.entryName.length = ZIP_FILE_NAME_LEN_MAX + 1
  strongEncryptHeader : c.strongEncryptHeader.length = strongEncryptionHeaderSize

/-- There is a terminator in the name. -/
def Terminated (c : ExtractContext) : Prop := 0 ∈ c.entry.entryInfo.entryName

/-- What holds between the turns, and where the loop ends. -/
structure InBounds (extraField : List UInt8) (extraFieldLength : UInt16) (cur : Nat)
    (c : ExtractContext) : Prop where
  within : ∀ r ∈ c.records, r.Within extraField extraFieldLength
  consecutive : Consecutive c.records cur
  cur_le : cur ≤ extraFieldLength.toNat
  arrays : Arrays c
  terminated : Terminated c

/-! ## A record -/

/-- The record that is read, with those in front of it. -/
structure Turn where
  pos : UInt16
  dataSize : UInt16
  passed : List ExtraRecord

/-- What holds while a record is read. -/
structure Reading (extraField : List UInt8) (extraFieldLength : UInt16) (t : Turn)
    (c : ExtractContext) : Prop where
  records : ∃ r, c.records = r :: t.passed ∧ r.pos = t.pos ∧ r.dataSize = t.dataSize ∧
    r.Within extraField extraFieldLength
  arrays : Arrays c

/-- The same, with the name as a string. -/
structure Named (extraField : List UInt8) (extraFieldLength : UInt16) (t : Turn)
    (c : ExtractContext) : Prop extends Reading extraField extraFieldLength t c where
  terminated : Terminated c

variable {t : Turn} {c : ExtractContext}

theorem Reading.touch {a : Access} (h : Reading extraField extraFieldLength t c)
    (ha : a.Inside (t.pos.toNat + 4) (t.pos.toNat + 4 + t.dataSize.toNat)) :
    Reading extraField extraFieldLength t (c.touch a) := by
  obtain ⟨r, hrecords, hpos, hsize, hwithin⟩ := h.records
  rw [← hpos, ← hsize] at ha
  refine ⟨⟨{ r with accesses := r.accesses ++ [a] }, ?_, hpos, hsize, hwithin.size, hwithin.fits,
    hwithin.header, fun b hb => ?_⟩, h.arrays.entryName, h.arrays.strongEncryptHeader⟩
  · rw [ExtractContext.touch, ExtractContext.record, hrecords]
  · rcases List.mem_append.mp hb with hb | hb
    · exact hwithin.accesses b hb
    · exact List.mem_singleton.mp hb ▸ ha

theorem Named.touch {a : Access} (h : Named extraField extraFieldLength t c)
    (ha : a.Inside (t.pos.toNat + 4) (t.pos.toNat + 4 + t.dataSize.toNat)) :
    Named extraField extraFieldLength t (c.touch a) :=
  ⟨h.toReading.touch ha, h.terminated⟩

/-- A parser keeps what holds, and where it fails it does so with an error. -/
abbrev Parses {α : Type} (extraField : List UInt8) (extraFieldLength : UInt16) (t : Turn)
    (x : Run ExtractContext α) : Prop :=
  Triple (Named extraField extraFieldLength t) x (fun _ => Named extraField extraFieldLength t)
    fun stop c => stop ≠ .fuel ∧ Named extraField extraFieldLength t c

theorem throw_parses {α : Type} (err : ArchiveErr) :
    Parses extraField extraFieldLength t (throw (.error err) : Run ExtractContext α) :=
  .throw fun _ h => ⟨nofun, h⟩

theorem pure_parses {α : Type} (a : α) :
    Parses extraField extraFieldLength t (pure a : Run ExtractContext α) :=
  .pure fun _ h => h

theorem getValue_parses {p len : Nat} (hlo : t.pos.toNat + 4 ≤ p)
    (hhi : p + len ≤ t.pos.toNat + 4 + t.dataSize.toNat) :
    Parses extraField extraFieldLength t (getValue extraField p len) :=
  .call fun _ h => h.touch ⟨rfl, hlo, hhi⟩

theorem crcName_parses {filenameSize : Nat} (h : filenameSize ≤ ZIP_FILE_NAME_LEN_MAX) :
    Parses extraField extraFieldLength t (crcName filenameSize) :=
  .call fun _ hc => hc.touch (show 0 + filenameSize ≤ ZIP_FILE_NAME_LEN_MAX + 1 by omega)

theorem Reading.writeName {p : Nat} {bytes : List UInt8}
    (h : Reading extraField extraFieldLength t c)
    (hfits : p + bytes.length ≤ ZIP_FILE_NAME_LEN_MAX + 1) :
    Reading extraField extraFieldLength t
      ((c.touch ⟨.entryName, true, p, bytes.length⟩).setEntryName
        (splice c.entry.entryInfo.entryName p bytes)) := by
  have htouched := h.touch (a := ⟨.entryName, true, p, bytes.length⟩) hfits
  have hlength := length_splice (h.arrays.entryName ▸ hfits)
  exact ⟨htouched.records, hlength.trans h.arrays.entryName, h.arrays.strongEncryptHeader⟩

variable {E : Stop → ExtractContext → Prop}

theorem writeName_reading {p : Nat} {bytes : List UInt8}
    (hfits : p + bytes.length ≤ ZIP_FILE_NAME_LEN_MAX + 1) :
    Triple (Reading extraField extraFieldLength t) (ExtraField.writeName p bytes)
      (fun _ => Reading extraField extraFieldLength t) E :=
  .call fun _ h => h.writeName hfits

theorem writeName_terminator {p : Nat} (hp : p ≤ ZIP_FILE_NAME_LEN_MAX) :
    Triple (Reading extraField extraFieldLength t) (ExtraField.writeName p [0])
      (fun _ => Named extraField extraFieldLength t) E := by
  refine .call fun c h => ⟨h.writeName (Nat.succ_le_succ hp), ?_⟩
  exact List.mem_append_left _ (List.mem_append_right _ (List.mem_singleton_self 0))

theorem memcpyName_triple {p count : Nat} (hlo : t.pos.toNat + 4 ≤ p)
    (hhi : p + count ≤ t.pos.toNat + 4 + t.dataSize.toNat) :
    Triple (Named extraField extraFieldLength t) (memcpyName extraField p count)
      (fun _ => Reading extraField extraFieldLength t) E := by
  unfold memcpyName
  split
  · have hclear : Triple (Named extraField extraFieldLength t)
        (ExtraField.writeName 0 (List.replicate ZIP_FILE_NAME_LEN_MAX 0))
        (fun _ => Reading extraField extraFieldLength t) E :=
      (writeName_reading (by simp)).weaken (fun _ h => h.toReading) (fun _ _ h => h) fun _ _ h => h
    exact hclear.bind fun _ => .pure fun _ h => h
  · next hcount =>
    refine .bind (Q := fun bytes c => bytes.length ≤ count ∧ Reading extraField extraFieldLength t c)
      (.call fun c h => ⟨List.length_take_le _ _, ?_⟩) fun bytes => .assume fun hlength => ?_
    · exact h.toReading.touch ⟨rfl, hlo, hhi⟩
    · exact (writeName_reading (by omega)).bind fun _ => .pure fun _ h => h

/-! ## The parsers -/

variable {cur dataSize : UInt16}

/-- The parser of a record is called with the cursor behind the header, and with its size. -/
structure AtData (t : Turn) (cur dataSize : UInt16) : Prop where
  cur : cur.toNat = t.pos.toNat + 4
  dataSize : dataSize = t.dataSize

theorem readZip64Value_parses (hdata : AtData t cur dataSize) {pos : UInt16} {value : UInt64}
    (hroom : ¬ pos.toNat + 8 > dataSize.toNat) :
    Parses extraField extraFieldLength t (readZip64Value extraField cur pos value) := by
  have hcur := hdata.cur
  rw [hdata.dataSize] at hroom
  unfold readZip64Value
  split
  · exact .bind (getValue_parses (by omega) (by omega)) fun _ => pure_parses _
  · exact pure_parses _

theorem zipReadZip64ExtraField_parses (hdata : AtData t cur dataSize) (field : ReadZip64ExtraField) :
    Parses extraField extraFieldLength t
      (zipReadZip64ExtraField extraField cur dataSize field) := by
  unfold zipReadZip64ExtraField
  split
  · exact pure_parses _
  next hfirst =>
  refine .bind (readZip64Value_parses hdata hfirst) fun ⟨uncompressedSize, pos⟩ => ?_
  dsimp only
  split
  · exact pure_parses _
  next hsecond =>
  refine .bind (readZip64Value_parses hdata hsecond) fun ⟨compressedSize, pos⟩ => ?_
  dsimp only
  split
  · exact pure_parses _
  next hthird =>
  refine .bind (readZip64Value_parses hdata hthird) fun ⟨relativeOffsetOfLocalHeader, pos⟩ => ?_
  dsimp only
  split
  · exact pure_parses _
  next hlast =>
  split
  · have hcur := hdata.cur
    rw [hdata.dataSize] at hlast
    exact .bind (getValue_parses (by omega) (by omega)) fun _ => pure_parses _
  · exact pure_parses _

theorem zipReaderProcessZip64ExtraField_parses (hdata : AtData t cur dataSize) :
    Parses extraField extraFieldLength t
      (zipReaderProcessZip64ExtraField extraField cur dataSize) := by
  refine .bind (.call fun _ h => h) fun header =>
    .bind (zipReadZip64ExtraField_parses hdata _) fun field => .call fun c h => ?_
  exact ⟨⟨h.records, h.arrays.entryName, h.arrays.strongEncryptHeader⟩, h.terminated⟩

theorem writeHeader_parses {p : Nat} {bytes : List UInt8}
    (hfits : p + bytes.length ≤ strongEncryptionHeaderSize) :
    Parses extraField extraFieldLength t (writeHeader p bytes) := by
  refine .call fun c h => ?_
  have htouched := h.touch (a := ⟨.strongEncryptHeader, true, p, bytes.length⟩) hfits
  have hlength := length_splice (h.arrays.strongEncryptHeader ▸ hfits)
  exact ⟨⟨htouched.records, h.arrays.entryName, hlength.trans h.arrays.strongEncryptHeader⟩,
    h.terminated⟩

theorem zipReaderProcessStrongEncryptExtraField_parses (hdata : AtData t cur dataSize) :
    Parses extraField extraFieldLength t
      (zipReaderProcessStrongEncryptExtraField extraField cur dataSize) := by
  have hcur := hdata.cur
  unfold zipReaderProcessStrongEncryptExtraField
  split
  · exact throw_parses _
  · next hroom =>
    rw [hdata.dataSize] at hroom
    refine Triple.bind (Q := fun bytes c => bytes.length ≤ strongEncryptionExtraFieldsSize ∧
      Named extraField extraFieldLength t c) (.call fun c h => ⟨List.length_take_le _ _, ?_⟩)
      fun bytes => .assume fun hlength => ?_
    · exact h.touch ⟨rfl, show t.pos.toNat + 4 ≤ cur.toNat by omega,
        show cur.toNat + strongEncryptionExtraFieldsSize ≤ _ by omega⟩
    · have hbytes : EXTRA_FIELD_HEADER_BYTES + bytes.length ≤ strongEncryptionHeaderSize := by
        simp only [strongEncryptionExtraFieldsSize] at hlength
        simp only [EXTRA_FIELD_HEADER_BYTES, strongEncryptionHeaderSize]
        omega
      exact .bind (writeHeader_parses hbytes) fun _ =>
        .bind (writeHeader_parses (by decide)) fun _ => writeHeader_parses (by simp; decide)

/-- The name record is long enough for its version and its checksum; what is left of it is copied,
and a terminator is put behind it. -/
theorem zipReadUnicodePathExtraField_parses (hdata : AtData t cur dataSize)
    (hsize : EXTRA_FIELD_UNICODE_PATH_MIN_LEN ≤ dataSize.toNat) {filenameSize : Nat}
    (hname : filenameSize ≤ ZIP_FILE_NAME_LEN_MAX) :
    Parses extraField extraFieldLength t
      (zipReadUnicodePathExtraField extraField cur dataSize filenameSize) := by
  have hcur := hdata.cur
  rw [hdata.dataSize] at hsize ⊢
  have hmin : EXTRA_FIELD_UNICODE_PATH_MIN_LEN = 5 := rfl
  have hpos : ((0 + 1 : UInt16) + 4).toNat = 5 := rfl
  have hleft : (t.dataSize - (0 + 1 + 4)).toNat = t.dataSize.toNat - 5 :=
    UInt16.toNat_sub_of_le _ _ (UInt16.le_iff_toNat_le.mpr (by rw [hpos]; omega))
  have hstop : ∀ {α : Type} (err : ArchiveErr) (x : α → Run ExtractContext Unit),
      Parses extraField extraFieldLength t (throw (.error err) >>= x) := fun err x =>
    .bind (Q := fun _ _ => False) (.throw fun _ h => ⟨nofun, h⟩) fun _ _ h => h.elim
  refine .bind (getValue_parses (by omega) (by omega)) fun version => .ite (hstop _ _) ?_
  refine .bind (getValue_parses ?_ ?_) fun fileNameCrc => .bind (crcName_parses hname) fun crc =>
    .ite (hstop _ _) ?_
  · rw [hcur]
    omega
  · rw [hcur, show (0 + 1 : UInt16).toNat = 1 from rfl]
    omega
  refine Triple.bind (memcpyName_triple ?_ ?_) fun ok =>
    Triple.bind (writeName_terminator (Nat.min_le_right _ _)) fun _ => ?_
  · rw [hcur]
    omega
  · rw [hcur, hpos, hleft]
    omega
  · exact .ite (throw_parses _) (pure_parses _)

theorem zipReaderProcessOneExtraField_parses (hdata : AtData t cur dataSize) (headerID : Nat) :
    Parses extraField extraFieldLength t
      (zipReaderProcessOneExtraField extraField headerID cur dataSize) := by
  unfold zipReaderProcessOneExtraField
  split
  · exact zipReaderProcessZip64ExtraField_parses hdata
  · exact zipReaderProcessStrongEncryptExtraField_parses hdata
  · split
    · exact pure_parses _
    · next hsize =>
      refine Triple.bind (Q := fun n c => n ≤ ZIP_FILE_NAME_LEN_MAX ∧
        Named extraField extraFieldLength t c) (.call fun c h => ⟨Nat.min_le_right _ _, h⟩)
        fun fileNameSize => .assume fun hname => ?_
      refine .bind (zipReadUnicodePathExtraField_parses hdata (by omega) hname) fun _ =>
        .call fun c h => ?_
      exact ⟨⟨h.records, h.arrays.entryName, h.arrays.strongEncryptHeader⟩, h.terminated⟩
  · exact pure_parses _

/-! ## The loop -/

theorem Named.inBounds (h : Named extraField extraFieldLength t c)
    (hpassed : ∀ r ∈ t.passed, r.Within extraField extraFieldLength)
    (hconsecutive : Consecutive t.passed t.pos.toNat) :
    InBounds extraField extraFieldLength (t.pos.toNat + 4 + t.dataSize.toNat) c := by
  obtain ⟨r, hrecords, hpos, hsize, hwithin⟩ := h.records
  rw [← hpos] at hconsecutive
  rw [← hpos, ← hsize]
  refine ⟨fun q hq => ?_, ?_, hwithin.fits, h.arrays, h.terminated⟩
  · rw [hrecords] at hq
    rcases List.mem_cons.mp hq with rfl | hq
    · exact hwithin
    · exact hpassed q hq
  · rw [hrecords]
    exact ⟨rfl, hconsecutive⟩

/-- The context with a record begun, its header read and its size clamped. -/
def begun (c : ExtractContext) (t : Turn) : ExtractContext :=
  { c with records :=
      { pos := t.pos
        dataSize := t.dataSize
        header := [⟨.extraField, false, t.pos.toNat, 2⟩, ⟨.extraField, false, t.pos.toNat + 2, 2⟩] } ::
        t.passed }

/-- The size of a record as its header says, as far as it is there. -/
def clampedSize (extraField : List UInt8) (extraFieldLength cur : UInt16) : UInt16 :=
  UInt16.ofNat (min (getLittleEndianValue extraField (cur.toNat + 2) 2)
    (extraFieldLength.toNat - (cur.toNat + 4)))

theorem toNat_clampedSize (extraField : List UInt8) (extraFieldLength cur : UInt16) :
    (clampedSize extraField extraFieldLength cur).toNat =
      min (getLittleEndianValue extraField (cur.toNat + 2) 2)
        (extraFieldLength.toNat - (cur.toNat + 4)) := by
  have hlt := extraFieldLength.toNat_lt
  rw [clampedSize, UInt16.toNat_ofNat']
  omega

theorem zipReaderProcessExtraField_succ (extraField : List UInt8) (fuel : Nat)
    (hroom : cur.toNat + EXTRA_FIELD_HEADER_BYTES ≤ extraFieldLength.toNat) (c : ExtractContext) :
    ∃ next after : UInt16, next.toNat = cur.toNat + 4 ∧
      after.toNat = cur.toNat + 4 + (clampedSize extraField extraFieldLength cur).toNat ∧
      zipReaderProcessExtraField extraField extraFieldLength (fuel + 1) cur c =
        (zipReaderProcessOneExtraField extraField (getLittleEndianValue extraField cur.toNat 2) next
            (clampedSize extraField extraFieldLength cur) >>= fun _ =>
          zipReaderProcessExtraField extraField extraFieldLength fuel after)
          (begun c ⟨cur, clampedSize extraField extraFieldLength cur, c.records⟩) := by
  have hlt := extraFieldLength.toNat_lt
  have hfour : EXTRA_FIELD_HEADER_BYTES = 4 := rfl
  have hnext : (cur + UInt16.ofNat EXTRA_FIELD_HEADER_BYTES).toNat = cur.toNat + 4 := by
    rw [UInt16.toNat_add, hfour, show (UInt16.ofNat 4).toNat = 4 from rfl]
    omega
  have hsize := toNat_clampedSize extraField extraFieldLength cur
  have hclamp : UInt16.ofNat
      (if getLittleEndianValue extraField (cur.toNat + 2) 2 >
          extraFieldLength.toNat - (cur + UInt16.ofNat EXTRA_FIELD_HEADER_BYTES).toNat then
        extraFieldLength.toNat - (cur + UInt16.ofNat EXTRA_FIELD_HEADER_BYTES).toNat
      else getLittleEndianValue extraField (cur.toNat + 2) 2) =
      clampedSize extraField extraFieldLength cur := by
    rw [hnext, clampedSize]
    congr 1
    split <;> omega
  refine ⟨cur + UInt16.ofNat EXTRA_FIELD_HEADER_BYTES,
    cur + UInt16.ofNat EXTRA_FIELD_HEADER_BYTES + clampedSize extraField extraFieldLength cur,
    hnext, ?_, ?_⟩
  · rw [UInt16.toNat_add, hnext, hsize]
    omega
  · rw [zipReaderProcessExtraField, if_pos hroom, ← hclamp]
    rfl

theorem begun_named (h : InBounds extraField extraFieldLength cur.toNat c)
    (hroom : cur.toNat + EXTRA_FIELD_HEADER_BYTES ≤ extraFieldLength.toNat) :
    Named extraField extraFieldLength
      ⟨cur, clampedSize extraField extraFieldLength cur, c.records⟩
      (begun c ⟨cur, clampedSize extraField extraFieldLength cur, c.records⟩) := by
  have hfour : EXTRA_FIELD_HEADER_BYTES = 4 := rfl
  have hsize := toNat_clampedSize extraField extraFieldLength cur
  refine ⟨⟨⟨_, rfl, rfl, rfl, hsize, ?_, ?_, nofun⟩, h.arrays.entryName,
    h.arrays.strongEncryptHeader⟩, h.terminated⟩
  · dsimp only
    omega
  · intro a ha
    rcases List.mem_cons.mp ha with rfl | ha
    · exact ⟨rfl, Nat.le_refl _, show cur.toNat + 2 ≤ cur.toNat + 4 by omega⟩
    · rw [List.mem_singleton.mp ha]
      exact ⟨rfl, show cur.toNat ≤ cur.toNat + 2 by omega, Nat.le_refl _⟩

theorem zipReaderProcessExtraField_triple (fuel : Nat) :
    ∀ cur : UInt16, extraFieldLength.toNat < cur.toNat + 4 * (fuel + 1) →
      Triple (InBounds extraField extraFieldLength cur.toNat)
        (zipReaderProcessExtraField extraField extraFieldLength fuel cur)
        (fun _ c => ∃ behind, InBounds extraField extraFieldLength behind c)
        (fun stop c => stop ≠ .fuel ∧ ∃ behind, InBounds extraField extraFieldLength behind c) := by
  have hfour : EXTRA_FIELD_HEADER_BYTES = 4 := rfl
  induction fuel with
  | zero =>
    intro cur hfuel
    rw [zipReaderProcessExtraField, if_neg (by omega)]
    exact .pure fun _ h => ⟨_, h⟩
  | succ fuel ih =>
    intro cur hfuel
    by_cases hroom : cur.toNat + EXTRA_FIELD_HEADER_BYTES ≤ extraFieldLength.toNat
    · intro c h
      obtain ⟨next, after, hnext, hafter, hturn⟩ :=
        zipReaderProcessExtraField_succ extraField fuel hroom c
      have hparses : Parses extraField extraFieldLength
          ⟨cur, clampedSize extraField extraFieldLength cur, c.records⟩
          (zipReaderProcessOneExtraField extraField (getLittleEndianValue extraField cur.toNat 2)
            next (clampedSize extraField extraFieldLength cur)) :=
        zipReaderProcessOneExtraField_parses ⟨hnext, rfl⟩ _
      have hrest := ih after (by omega)
      rw [hafter] at hrest
      rw [hturn]
      refine Triple.bind (hparses.weaken (fun _ h => h) (fun _ _ hnamed => ?_)
        fun stop c' hstop => ⟨hstop.1, _, hstop.2.inBounds h.within h.consecutive⟩)
        (fun _ => hrest) _ (begun_named h hroom)
      exact hnamed.inBounds h.within h.consecutive
    · rw [zipReaderProcessExtraField, if_neg hroom]
      exact .pure fun _ h => ⟨_, h⟩

/-- What the parser starts with: no records yet, and the arrays as they are set up. -/
structure Prepared (c : ExtractContext) : Prop where
  records : c.records = []
  arrays : Arrays c
  terminated : Terminated c

theorem zipReaderProcessExtraField_prepared (extraField : List UInt8) {fuel : Nat}
    (hfuel : extraFieldLength.toNat / 4 ≤ fuel) :
    Triple Prepared (zipReaderProcessExtraField extraField extraFieldLength fuel 0)
      (fun _ c => ∃ behind, InBounds extraField extraFieldLength behind c)
      (fun stop c => stop ≠ .fuel ∧ ∃ behind, InBounds extraField extraFieldLength behind c) := by
  intro c h
  refine zipReaderProcessExtraField_triple fuel 0 ?_ c
    ⟨?_, ?_, Nat.zero_le _, h.arrays, h.terminated⟩
  · rw [show (0 : UInt16).toNat = 0 from rfl]
    omega
  · rw [h.records]
    nofun
  · rw [h.records]
    rfl

/-- The extra field is gone through to its end, or to the first record that is refused: the cursor
never wraps, each parser reads in its record only, and the arrays are never left. -/
theorem zipReaderProcessExtraField_inBounds (extraField : List UInt8) (extraFieldLength : UInt16)
    {c : ExtractContext} (hrecords : c.records = []) (harrays : Arrays c)
    (hterminated : Terminated c) {fuel : Nat} (hfuel : extraFieldLength.toNat / 4 ≤ fuel) :
    (∀ c', zipReaderProcessExtraField extraField extraFieldLength fuel 0 c ≠ .error .fuel c') ∧
      ∃ behind, InBounds extraField extraFieldLength behind
        (after (zipReaderProcessExtraField extraField extraFieldLength fuel 0) c) := by
  have hrun := zipReaderProcessExtraField_prepared extraField hfuel c
    ⟨hrecords, harrays, hterminated⟩
  unfold after
  cases hend : zipReaderProcessExtraField extraField extraFieldLength fuel 0 c with
  | ok u c' =>
    rw [hend] at hrun
    exact ⟨nofun, hrun⟩
  | error stop c' =>
    rw [hend] at hrun
    refine ⟨fun c'' heq => ?_, hrun.2⟩
    injection heq with hstop
    exact hrun.1 hstop

/-- A name record that says it has 65535 bytes, of which there are five. -/
def brokenOffRecord : List UInt8 := [0x75, 0x70, 0xff, 0xff, 1, 0, 0, 0, 0]

/-- An entry whose header is all zeros, with a name of no characters. -/
def zeroContext : ExtractContext where
  entry := {
    centralDirHeader := ReadCentralDirHeader.ofBytes (List.replicate 42 0)
    entryInfo := {
      (zipReaderInitEntry (ReadCentralDirHeader.ofBytes (List.replicate 42 0))).entryInfo with
      entryName := List.replicate (ZIP_FILE_NAME_LEN_MAX + 1) 0 } }
  strongEncryptHeader := List.replicate strongEncryptionHeaderSize 0

theorem zeroContext_prepared : Prepared zeroContext :=
  ⟨rfl, ⟨List.length_replicate, List.length_replicate⟩, List.mem_replicate.mpr ⟨by decide, rfl⟩⟩

theorem brokenOffRecord_inBounds :
    (∀ c', zipReaderProcessExtraField brokenOffRecord 9 2 0 zeroContext ≠ .error .fuel c') ∧
      ∃ behind, InBounds brokenOffRecord 9 behind
        (after (zipReaderProcessExtraField brokenOffRecord 9 2 0) zeroContext) :=
  zipReaderProcessExtraField_inBounds brokenOffRecord 9 rfl zeroContext_prepared.arrays
    zeroContext_prepared.terminated (by decide)

end FileApi.Compress.Zip.ExtraField
