import FileApi.Compress.Zip.Proofs.ExtraField

/-!
# The entry that extra fields leave

What the parsers with the recorded accesses do to the current entry is what the reader's do.
-/

namespace FileApi.Compress.Zip.ExtraField

open Program

variable {extraField : List UInt8} {entry : ZipReaderEntry}

@[simp] theorem ExtractContext.entry_touch (a : Access) (c : ExtractContext) :
    (c.touch a).entry = c.entry := rfl

/-- The entry with another name. -/
abbrev named (entry : ZipReaderEntry) (entryName : List UInt8) : ZipReaderEntry :=
  { entry with entryInfo := { entry.entryInfo with entryName } }

@[simp] theorem ExtractContext.entry_setEntryName (entryName : List UInt8) (c : ExtractContext) :
    (c.setEntryName entryName).entry = named c.entry entryName := rfl

/-- A parser reads something and leaves the entry. -/
abbrev Reads {α : Type} (entry : ZipReaderEntry) (x : Run ExtractContext α) (Q : α → Prop) : Prop :=
  Triple (fun c => c.entry = entry) x (fun a c => Q a ∧ c.entry = entry) fun _ _ => False

/-- A parser leaves the entry the reader does, or gives up where the reader does. -/
abbrev Follows (entry : ZipReaderEntry) (x : Run ExtractContext Unit)
    (status : Except ArchiveErr ZipReaderEntry) : Prop :=
  Triple (fun c => c.entry = entry) x (fun _ c => status = .ok c.entry)
    fun stop _ => ∀ err, stop = .error err → status = .error err

theorem Reads.bind {α β : Type} {x : Run ExtractContext α} {Q : α → Prop}
    {f : α → Run ExtractContext β} {R : β → ExtractContext → Prop}
    {E : Stop → ExtractContext → Prop} (hx : Reads entry x Q)
    (hf : ∀ a, Q a → Triple (fun c => c.entry = entry) (f a) R E) :
    Triple (fun c => c.entry = entry) (x >>= f) R E :=
  Triple.bind (hx.weaken (fun _ h => h) (fun _ _ h => h) fun _ _ h => h.elim)
    fun a => .assume fun ha => hf a ha

theorem reads_pure {α : Type} {Q : α → Prop} {a : α} (h : Q a) :
    Reads entry (pure a : Run ExtractContext α) Q :=
  .pure fun _ hc => ⟨h, hc⟩

theorem throw_follows {α β : Type} {status : Except ArchiveErr α} {err : ArchiveErr}
    {Q : β → ExtractContext → Prop} (h : status = .error err) :
    Triple (fun c => c.entry = entry) (throw (.error err) : Run ExtractContext β) Q
      fun stop _ => ∀ err, stop = .error err → status = .error err := by
  refine .throw fun _ _ other hother => ?_
  injection hother with hother
  rw [h, hother]

theorem getValue_reads (p len : Nat) :
    Reads entry (getValue extraField p len) (· = getLittleEndianValue extraField p len) :=
  .call fun _ h => ⟨rfl, h⟩

/-! ## The parsers -/

variable {cur dataSize : UInt16}

theorem readZip64Value_reads {pos : UInt16} (hpos : pos.toNat ≤ 16) (value : UInt64) :
    Reads entry (readZip64Value extraField cur pos value) fun read =>
      read.1 = (Zip.readZip64Value extraField cur.toNat pos.toNat value).1 ∧
      read.2.toNat = (Zip.readZip64Value extraField cur.toNat pos.toNat value).2 := by
  unfold readZip64Value Zip.readZip64Value
  split
  · refine (getValue_reads _ _).bind fun read hread => reads_pure ⟨by rw [hread], ?_⟩
    rw [UInt16.toNat_add, show (8 : UInt16).toNat = 8 from rfl]
    omega
  · exact reads_pure ⟨rfl, rfl⟩

theorem readZip64Value_pos_le (extraField : List UInt8) (cur pos : Nat) (value : UInt64) :
    (Zip.readZip64Value extraField cur pos value).2 ≤ pos + 8 := by
  unfold Zip.readZip64Value
  split
  · exact Nat.le_refl _
  · omega

theorem zipReadZip64ExtraField_reads (field : ReadZip64ExtraField) :
    Reads entry (zipReadZip64ExtraField extraField cur dataSize field)
      (· = Zip.zipReadZip64ExtraField extraField cur.toNat dataSize.toNat field) := by
  unfold zipReadZip64ExtraField Zip.zipReadZip64ExtraField
  have hfirst := readZip64Value_pos_le extraField cur.toNat 0 field.uncompressedSize
  rw [show (0 : UInt16).toNat + 8 = 8 from rfl]
  split
  · exact reads_pure rfl
  refine (readZip64Value_reads (by decide) _).bind fun ⟨uncompressedSize, pos⟩ ⟨hvalue, hpos⟩ => ?_
  rw [show (0 : UInt16).toNat = 0 from rfl] at hvalue hpos
  dsimp only at hvalue hpos ⊢
  rw [← hvalue, ← hpos]
  rw [← hpos] at hfirst
  split
  · exact reads_pure rfl
  have hsecond := readZip64Value_pos_le extraField cur.toNat pos.toNat
    field.compressedSize
  refine (readZip64Value_reads (by omega) _).bind fun ⟨compressedSize, pos⟩ ⟨hvalue, hpos⟩ => ?_
  dsimp only at hvalue hpos ⊢
  rw [← hvalue, ← hpos]
  rw [← hpos] at hsecond
  split
  · exact reads_pure rfl
  refine (readZip64Value_reads (by omega) _).bind
    fun ⟨relativeOffsetOfLocalHeader, pos⟩ ⟨hvalue, hpos⟩ => ?_
  dsimp only at hvalue hpos ⊢
  rw [← hvalue, ← hpos]
  split
  · exact reads_pure rfl
  split
  · exact (getValue_reads _ _).bind fun read hread => reads_pure (by rw [hread])
  · exact reads_pure rfl

theorem zipReaderProcessZip64ExtraField_follows :
    Follows entry (zipReaderProcessZip64ExtraField extraField cur dataSize)
      (.ok (Zip.zipReaderProcessZip64ExtraField entry extraField cur.toNat dataSize.toNat)) := by
  refine Reads.bind (Q := (· = entry.centralDirHeader)) (.call fun c h => ⟨by rw [h], h⟩)
    fun header hheader => (zipReadZip64ExtraField_reads _).bind fun field hfield =>
      .call fun c h => ?_
  rw [hfield, hheader, h]
  rfl

theorem zipReaderProcessStrongEncryptExtraField_follows :
    Follows entry (zipReaderProcessStrongEncryptExtraField extraField cur dataSize)
      (if dataSize.toNat < 8 then .error .readError else .ok entry) := by
  unfold zipReaderProcessStrongEncryptExtraField
  have hkeeps (p : Nat) (bytes : List UInt8) : Reads entry (writeHeader p bytes) fun _ => True :=
    .call fun c h => ⟨trivial, h⟩
  rw [strongEncryptionExtraFieldsSize]
  split
  · exact throw_follows rfl
  · refine Reads.bind (Q := fun _ => True) (.call fun c h => ⟨trivial, h⟩) fun bytes _ =>
      (hkeeps _ _).bind fun _ _ => (hkeeps _ _).bind fun _ _ => ?_
    exact .call fun c h => congrArg _ h.symm

theorem splice_terminator (buffer bytes : List UInt8) :
    splice (splice buffer 0 bytes) bytes.length [0] = putString buffer bytes := by
  simp [splice, putString, List.drop_append]

theorem writeName_leaves (p : Nat) (bytes : List UInt8) :
    Triple (fun c => c.entry = entry) (writeName p bytes)
      (fun _ c => c.entry = named entry (splice entry.entryInfo.entryName p bytes))
      fun _ _ => False := by
  refine .call fun c h => ?_
  subst h
  rfl

theorem memcpyName_leaves (p count : Nat) :
    Triple (fun c => c.entry = entry) (memcpyName extraField p count)
      (fun ok c => ok = decide (count ≤ ZIP_FILE_NAME_LEN_MAX) ∧ (ok = true →
        c.entry = named entry (splice entry.entryInfo.entryName 0
          ((extraField.drop p).take count)))) fun _ _ => False := by
  unfold memcpyName
  split
  · next hcount =>
    exact (writeName_leaves _ _).bind fun _ => .pure fun _ _ =>
      ⟨(decide_eq_false (by omega)).symm, nofun⟩
  · next hcount =>
    refine Reads.bind (Q := (· = (extraField.drop p).take count))
      (.call fun c h => ⟨rfl, h⟩) fun bytes hbytes => (writeName_leaves _ _).bind fun _ =>
      .pure fun c h => ⟨(decide_eq_true (by omega)).symm, fun _ => ?_⟩
    rw [h, hbytes]

theorem zipReadUnicodePathExtraField_leaves
    (hfits : cur.toNat + dataSize.toNat ≤ extraField.length)
    (hsize : EXTRA_FIELD_UNICODE_PATH_MIN_LEN ≤ dataSize.toNat) (filenameSize : Nat) :
    Triple (fun c => c.entry = entry)
      (zipReadUnicodePathExtraField extraField cur dataSize filenameSize)
      (fun _ c => ∃ entryName, Zip.zipReadUnicodePathExtraField extraField cur.toNat
        dataSize.toNat entry.entryInfo.entryName filenameSize = .ok entryName ∧
        c.entry = named entry entryName)
      fun stop _ => ∀ err, stop = .error err → Zip.zipReadUnicodePathExtraField extraField
        cur.toNat dataSize.toNat entry.entryInfo.entryName filenameSize = .error err := by
  have hmin : EXTRA_FIELD_UNICODE_PATH_MIN_LEN = 5 := rfl
  have hpos : ((0 + 1 : UInt16) + 4).toNat = 5 := rfl
  have hleft : (dataSize - (0 + 1 + 4)).toNat = dataSize.toNat - 5 :=
    UInt16.toNat_sub_of_le _ _ (UInt16.le_iff_toNat_le.mpr (by rw [hpos]; omega))
  unfold zipReadUnicodePathExtraField Zip.zipReadUnicodePathExtraField
  refine Reads.bind (getValue_reads _ _) fun version hversion => ?_
  rw [← hversion]
  split
  · exact Triple.bind (Q := fun _ _ => False) (throw_follows rfl) fun _ _ h => h.elim
  refine Reads.bind (getValue_reads _ _) fun fileNameCrc hfileNameCrc => ?_
  rw [show (0 + 1 : UInt16).toNat = 1 from rfl] at hfileNameCrc
  refine Reads.bind (Q := (· = crc32 0 (entry.entryInfo.entryName.take filenameSize)))
    (.call fun c h => ⟨by rw [h], h⟩) fun crc hcrc => ?_
  rw [← hfileNameCrc, ← hcrc]
  split
  · exact Triple.bind (Q := fun _ _ => False) (throw_follows rfl) fun _ _ h => h.elim
  dsimp only
  rw [hpos, hleft]
  refine Triple.bind ((memcpyName_leaves _ _).weaken (fun _ h => h) (fun _ _ h => h)
    fun _ _ h => h.elim) fun ok => .assume fun hok => ?_
  by_cases hroom : dataSize.toNat - 5 ≤ ZIP_FILE_NAME_LEN_MAX
  · rw [decide_eq_true hroom] at hok
    rw [if_neg (Nat.not_lt.mpr hroom), Nat.min_eq_left hroom, hok]
    refine Triple.bind (Q := fun _ c => c.entry = named entry _) (.call fun c h => ?_) fun _ =>
      .pure fun c h => ⟨_, rfl, h⟩
    have hcopied : ((extraField.drop (cur.toNat + 5)).take (dataSize.toNat - 5)).length =
        dataSize.toNat - 5 := by
      rw [List.length_take, List.length_drop]
      omega
    rw [← splice_terminator, hcopied, ExtractContext.entry_setEntryName,
      ExtractContext.entry_touch, h rfl]
  · rw [decide_eq_false hroom] at hok
    rw [if_pos (Nat.lt_of_not_le hroom), hok]
    exact Triple.bind (Q := fun _ _ => True) (.call fun _ _ => trivial) fun _ =>
      .throw fun _ _ other hother => by
        injection hother with hother
        rw [hother]

theorem zipReaderProcessOneExtraField_other {headerID cur dataSize : Nat}
    (hzip64 : headerID ≠ 0x0001) (hencrypt : headerID ≠ 0x0017) (hname : headerID ≠ 0x7075) :
    Zip.zipReaderProcessOneExtraField entry extraField headerID cur dataSize = .ok entry := by
  unfold Zip.zipReaderProcessOneExtraField
  split
  · contradiction
  · contradiction
  · contradiction
  · rfl

theorem zipReaderProcessOneExtraField_follows
    (hfits : cur.toNat + dataSize.toNat ≤ extraField.length) (headerID : Nat) :
    Follows entry (zipReaderProcessOneExtraField extraField headerID cur dataSize)
      (Zip.zipReaderProcessOneExtraField entry extraField headerID cur.toNat dataSize.toNat) := by
  unfold zipReaderProcessOneExtraField
  split
  · exact zipReaderProcessZip64ExtraField_follows
  · exact zipReaderProcessStrongEncryptExtraField_follows
  · simp only [Zip.zipReaderProcessOneExtraField]
    split
    · exact .pure fun c h => congrArg _ h.symm
    · next hsize =>
      refine Reads.bind (Q := (· = readNameLen entry.centralDirHeader))
        (.call fun c h => ⟨by rw [h], h⟩) fun fileNameSize hname => ?_
      rw [hname]
      refine Triple.bind ((zipReadUnicodePathExtraField_leaves hfits (by omega) _).weaken
        (fun _ h => h) (fun _ _ h => h) fun _ _ h => ?_) fun _ => .call fun c h => ?_
      · intro err herr
        rw [h err herr]
        rfl
      · obtain ⟨entryName, hread, hentry⟩ := h
        rw [hread, hentry]
        rfl
  · rw [zipReaderProcessOneExtraField_other ‹_› ‹_› ‹_›]
    exact .pure fun c h => congrArg _ h.symm

/-! ## The loop -/

theorem zipReaderProcessExtraField_follows {extraFieldLength : UInt16}
    (hlength : extraField.length = extraFieldLength.toNat) (fuel : Nat) :
    ∀ (cur : UInt16) (entry : ZipReaderEntry),
      Follows entry (zipReaderProcessExtraField extraField extraFieldLength fuel cur)
        (Zip.zipReaderProcessExtraField extraField fuel cur.toNat entry) := by
  induction fuel with
  | zero =>
    intro cur entry
    unfold zipReaderProcessExtraField Zip.zipReaderProcessExtraField
    split
    · exact .throw fun _ _ _ => by rintro ⟨⟩
    · exact .pure fun c h => congrArg _ h.symm
  | succ fuel ih =>
    intro cur entry c hentry
    by_cases hroom : cur.toNat + EXTRA_FIELD_HEADER_BYTES ≤ extraFieldLength.toNat
    · obtain ⟨next, after, hnext, hafter, hturn⟩ :=
        zipReaderProcessExtraField_succ extraField fuel hroom c
      have hsize := toNat_clampedSize extraField extraFieldLength cur
      have hfour : EXTRA_FIELD_HEADER_BYTES = 4 := rfl
      have hfits : next.toNat + (clampedSize extraField extraFieldLength cur).toNat ≤
          extraField.length := by
        omega
      have hone : Follows entry _ _ := zipReaderProcessOneExtraField_follows hfits
        (getLittleEndianValue extraField cur.toNat 2)
      rw [hturn, Zip.zipReaderProcessExtraField, hlength, if_pos hroom, hfour, ← hnext]
      dsimp only
      rw [hnext, ← hsize, ← hafter, ← hnext]
      refine Triple.bind (hone.weaken (fun _ h => h) (fun _ _ h => h) fun stop c' h err herr => ?_)
        (fun _ c' h => ?_) _ hentry
      · rw [h err herr]
        rfl
      · rw [h]
        exact ih after c'.entry c' rfl
    · rw [zipReaderProcessExtraField, if_neg hroom, Zip.zipReaderProcessExtraField,
        if_neg (by rwa [hlength])]
      exact congrArg _ hentry.symm

/-- A run of the parser ended, and left the entry the reader does or gave up with its error. -/
def Decodes (result : EStateM.Result Stop ExtractContext Unit)
    (status : Except ArchiveErr ZipReaderEntry) : Prop :=
  match result with
  | .ok _ c => status = .ok c.entry
  | .error (.error err) _ => status = .error err
  | .error .fuel _ => False

/-- Both parsers decode every extra field to the same entry, or give up with the same error. -/
theorem zipReaderProcessExtraField_decodes {extraFieldLength : UInt16}
    (hlength : extraField.length = extraFieldLength.toNat) {c : ExtractContext} (h : Prepared c)
    {fuel : Nat} (hfuel : extraFieldLength.toNat / 4 ≤ fuel) :
    Decodes (zipReaderProcessExtraField extraField extraFieldLength fuel 0 c)
      (Zip.zipReaderProcessExtraField extraField fuel 0 c.entry) := by
  have hends := zipReaderProcessExtraField_prepared extraField hfuel c h
  have hfollows := zipReaderProcessExtraField_follows hlength fuel 0 c.entry c rfl
  generalize zipReaderProcessExtraField extraField extraFieldLength fuel 0 c = result at *
  match result with
  | .ok _ c' => exact hfollows
  | .error (.error err) c' => exact hfollows err rfl
  | .error .fuel c' => exact hends.1 rfl

theorem zipReaderProcessExtraField_decodes_brokenOff :
    Decodes (zipReaderProcessExtraField brokenOffRecord 9 2 0 zeroContext)
      (Zip.zipReaderProcessExtraField brokenOffRecord 2 0 zeroContext.entry) :=
  zipReaderProcessExtraField_decodes rfl zeroContext_prepared (by decide)

end FileApi.Compress.Zip.ExtraField
