import FileApi.Compress.Zip.WriterEntry

/-!
# The bytes of one entry

What the header writers of `WriterEntry` leave behind when they append to a stream: one local
record and one central record, each a plain concatenation. Every writer is shown equal to a
single `streamWrite` of its record, and the patch of the local header to replacing the local
record by that of the final entry.
-/

namespace FileApi.Compress.Zip

/-- The bytes `zipWriteFileName` emits. -/
def nameField (e : ZipWriterEntryInfo) : List UInt8 := e.filename.bytes.take e.filenameSize.toNat

/-- The zip64 values of the central record. -/
def zip64Values (e : ZipWriterEntryInfo) : List UInt8 :=
  zip64Value e.uncompressedSize ++ (zip64Value e.compressedSize ++ zip64Value e.localHeaderOffset)

/-- The extra field of the central record. -/
def centralExtra (e : ZipWriterEntryInfo) : List UInt8 :=
  if getCdExtraFieldZip64DataSize e = 0 then []
  else putU16 ZIP_EXTRAFIELD_ZIP64_HEADER ++ putU16 (getCdExtraFieldZip64DataSize e) ++ zip64Values e

/-- One record of the central directory. -/
def centralRecord (e : ZipWriterEntryInfo) : List UInt8 :=
  putU32 ZIP_MAGIC_CENTRALHEADER ++
    (centralDirHeader e (getCdExtraFieldZip64DataSize e)).toBytes ++ (nameField e ++ centralExtra e)

/-- The local header with name and zip64 extra field. -/
def localRecord (e : ZipWriterEntryInfo) : List UInt8 :=
  (localFileHeader e).toBytes ++
    (nameField e ++ if e.zip64 then localExtraDataZIP64 e else [])

@[simp] theorem localExtraDataZIP64_length (e : ZipWriterEntryInfo) :
    (localExtraDataZIP64 e).length = 20 := by simp [localExtraDataZIP64]

theorem nameField_of_le {e : ZipWriterEntryInfo} (h : e.filename.bytes.length < 2 ^ 16) :
    nameField e = e.filename.bytes := by
  rw [nameField, ZipWriterEntryInfo.filenameSize, UInt16.toNat_ofNat_of_lt' h, List.take_length]

theorem nameField_length_le (e : ZipWriterEntryInfo) :
    (nameField e).length ≤ e.filename.bytes.length := by
  simp [nameField]

theorem zip64Value_length (value : UInt64) :
    (zip64Value value).length = if value > UINT32_MAX.toUInt64 then 8 else 0 := by
  unfold zip64Value
  split <;> simp

theorem zip64Values_length (e : ZipWriterEntryInfo) :
    (zip64Values e).length = (getCdExtraFieldZip64DataSize e).toNat := by
  simp only [zip64Values, List.length_append, zip64Value_length, getCdExtraFieldZip64DataSize]
  split <;> split <;> split <;> rfl

theorem zip64Values_length_le (e : ZipWriterEntryInfo) : (zip64Values e).length ≤ 24 := by
  simp only [zip64Values, List.length_append, zip64Value_length]
  split <;> split <;> split <;> omega

theorem centralExtra_length_le (e : ZipWriterEntryInfo) : (centralExtra e).length ≤ 28 := by
  have hvalues := zip64Values_length_le e
  unfold centralExtra
  split <;> simp
  omega

theorem centralRecord_length (e : ZipWriterEntryInfo) :
    (centralRecord e).length = 46 + ((nameField e).length + (centralExtra e).length) := by
  simp [centralRecord]
  omega

theorem localRecord_length (e : ZipWriterEntryInfo) :
    (localRecord e).length = 30 + ((nameField e).length + if e.zip64 then 20 else 0) := by
  unfold localRecord
  cases e.zip64 <;> simp

/-! ## The writers append their records -/

variable {f : ByteFile}

theorem zipWriteFileName_eq (hend : f.AtEnd) (hpos : f.pos < offLimit) (e : ZipWriterEntryInfo) :
    zipWriteFileName f e.filename e.filenameSize = streamWrite f (nameField e) := by
  unfold zipWriteFileName nameField
  split
  · rfl
  · next hzero =>
      have hzero : e.filenameSize = 0 := by
        simpa [UInt16.lt_iff_toNat_lt, ← UInt16.toNat_inj] using hzero
      simp [hzero, streamWrite_nil hend hpos]

theorem writeZip64Value_eq (hend : f.AtEnd) (hpos : f.pos < offLimit) (value : UInt64) :
    writeZip64Value f value = streamWrite f (zip64Value value) := by
  unfold writeZip64Value zip64Value
  split
  · rfl
  · rw [streamWrite_nil hend hpos]

theorem zipWriteExtraFieldZip64Cd_eq (hend : f.AtEnd) (hpos : f.pos < offLimit)
    (e : ZipWriterEntryInfo) :
    zipWriteExtraFieldZip64Cd f e (getCdExtraFieldZip64DataSize e) =
      streamWrite f (centralExtra e) := by
  unfold zipWriteExtraFieldZip64Cd centralExtra
  by_cases hzero : getCdExtraFieldZip64DataSize e = 0
  · simp [hzero, streamWrite_nil hend hpos]
  · simp only [hzero, if_false, ne_eq, not_true_eq_false]
    refine streamWrite_bind hend _ _ _ ?_
    intro g hgend hgpos
    -- The three optional values; the size check behind them cannot fail.
    rw [writeZip64Value_eq hgend hgpos]
    refine streamWrite_bind hgend _ _ _ ?_
    intro g hgend hgpos
    rw [writeZip64Value_eq hgend hgpos]
    refine streamWrite_bind hgend _ _ _ ?_
    intro g hgend hgpos
    rw [writeZip64Value_eq hgend hgpos]
    cases streamWrite g (zip64Value e.localHeaderOffset) <;> rfl

theorem zipEntryWriteCdHeader_eq (hend : f.AtEnd) (e : ZipWriterEntryInfo) :
    zipEntryWriteCdHeader f e = streamWrite f (centralRecord e) := by
  unfold zipEntryWriteCdHeader zipWritePartCentralDirHeader centralRecord
  refine streamWrite_bind hend _ _ _ ?_
  intro g hgend hgpos
  rw [zipWriteFileName_eq hgend hgpos]
  refine streamWrite_bind hgend _ _ _ ?_
  intro g hgend hgpos
  split
  · exact zipWriteExtraFieldZip64Cd_eq hgend hgpos e
  · next hzero =>
      have hzero : getCdExtraFieldZip64DataSize e = 0 := by
        simpa [UInt16.lt_iff_toNat_lt, ← UInt16.toNat_inj] using hzero
      simp [centralExtra, hzero, streamWrite_nil hgend hgpos]

/-- The entry once its local header is out: the place of the zip64 extra field is known. -/
def openedEntry (headerPos : Nat) (e : ZipWriterEntryInfo) : ZipWriterEntryInfo :=
  if e.zip64 then
    { e with zip64extraInLocalHeaderPos := UInt64.ofNat (headerPos + (30 + (nameField e).length)) }
  else e

@[simp] theorem openedEntry_zip64 (headerPos : Nat) (e : ZipWriterEntryInfo) :
    (openedEntry headerPos e).zip64 = e.zip64 := by
  unfold openedEntry
  split <;> rfl

@[simp] theorem openedEntry_localHeaderOffset (headerPos : Nat) (e : ZipWriterEntryInfo) :
    (openedEntry headerPos e).localHeaderOffset = e.localHeaderOffset := by
  unfold openedEntry
  split <;> rfl

@[simp] theorem openedEntry_filename (headerPos : Nat) (e : ZipWriterEntryInfo) :
    (openedEntry headerPos e).filename = e.filename := by
  unfold openedEntry
  split <;> rfl

@[simp] theorem nameField_openedEntry (headerPos : Nat) (e : ZipWriterEntryInfo) :
    nameField (openedEntry headerPos e) = nameField e := by
  simp [nameField, ZipWriterEntryInfo.filenameSize]

@[simp] theorem localRecord_openedEntry (headerPos : Nat) (e : ZipWriterEntryInfo) :
    localRecord (openedEntry headerPos e) = localRecord e := by
  unfold openedEntry
  split <;> rfl

theorem zipEntryWriteLocalHeader_eq (hend : f.AtEnd) (e : ZipWriterEntryInfo) :
    zipEntryWriteLocalHeader f e =
      (streamWrite f (localRecord e) >>= fun g => .ok (g, openedEntry f.pos e)) := by
  unfold zipEntryWriteLocalHeader localRecord
  refine streamWrite_bind_then hend _ _ _ _ ?_
  intro g hgend hgpos hg
  rw [zipWriteFileName_eq hgend hgpos]
  refine streamWrite_bind_then hgend _ _ _ _ ?_
  intro g' hgend' hgpos' hg'
  have hplace : streamTell g' = f.pos + (30 + (nameField e).length) := by
    simp only [streamTell, hg', hg, LocalFileHeader.toBytes_length, Nat.add_assoc]
  cases hzip : e.zip64 with
  | true =>
      simp only [if_true, openedEntry, hzip, hplace, localExtraDataZIP64]
      cases streamWrite g' _ <;> rfl
  | false => simp [openedEntry, hzip, streamWrite_nil hgend' hgpos']

/-! ## The patch of the local header -/

/-- The fields that are only known once the data is out. -/
def withSizes (e : ZipWriterEntryInfo) (crc : UInt32) (compressedSize uncompressedSize : UInt64) :
    ZipWriterEntryInfo :=
  { e with crc, compressedSize, uncompressedSize }

/-- The three patched words, in the order of the header. -/
def sizeWords (e : ZipWriterEntryInfo) : List UInt8 :=
  putU32 e.crc ++ (putU32 (clampU32 e.compressedSize) ++ putU32 (clampU32 e.uncompressedSize))

/-- The header in front of the patched words. -/
def headerFront (e : ZipWriterEntryInfo) : List UInt8 :=
  putU32 ZIP_MAGIC_LOCALHEADER ++ (putU16 (localFileHeader e).versionNeeded ++ (putU16 e.flag ++
    (putU16 (headerMethod e) ++ putU32 e.dosModDateTime)))

/-- The header behind the patched words, and the name. -/
def headerBack (e : ZipWriterEntryInfo) : List UInt8 :=
  putU16 e.filenameSize ++ (putU16 (localFileHeader e).extraFieldLength ++ nameField e)

/-- The sizes in the zip64 extra field of the local header. -/
def extraWords (e : ZipWriterEntryInfo) : List UInt8 :=
  putU64 e.uncompressedSize ++ putU64 e.compressedSize

@[simp] theorem sizeWords_length (e : ZipWriterEntryInfo) : (sizeWords e).length = 12 := by
  simp [sizeWords]

@[simp] theorem headerFront_length (e : ZipWriterEntryInfo) : (headerFront e).length = 14 := by
  simp [headerFront]

@[simp] theorem headerBack_length (e : ZipWriterEntryInfo) :
    (headerBack e).length = 4 + (nameField e).length := by
  simp [headerBack]
  omega

@[simp] theorem extraWords_length (e : ZipWriterEntryInfo) : (extraWords e).length = 16 := by
  simp [extraWords]

section WithSizes

variable (e : ZipWriterEntryInfo) (crc : UInt32) (c u : UInt64)

@[simp] theorem withSizes_zip64 : (withSizes e crc c u).zip64 = e.zip64 := rfl
@[simp] theorem withSizes_zip64extraInLocalHeaderPos :
    (withSizes e crc c u).zip64extraInLocalHeaderPos = e.zip64extraInLocalHeaderPos := rfl
@[simp] theorem withSizes_localHeaderOffset :
    (withSizes e crc c u).localHeaderOffset = e.localHeaderOffset := rfl
@[simp] theorem withSizes_compressedSize : (withSizes e crc c u).compressedSize = c := rfl
@[simp] theorem withSizes_uncompressedSize : (withSizes e crc c u).uncompressedSize = u := rfl
@[simp] theorem withSizes_crc : (withSizes e crc c u).crc = crc := rfl
@[simp] theorem withSizes_filename : (withSizes e crc c u).filename = e.filename := rfl
@[simp] theorem nameField_withSizes : nameField (withSizes e crc c u) = nameField e := rfl
@[simp] theorem headerFront_withSizes : headerFront (withSizes e crc c u) = headerFront e := rfl
@[simp] theorem headerBack_withSizes : headerBack (withSizes e crc c u) = headerBack e := rfl

end WithSizes

/-- The front of the zip64 extra field. -/
def extraFront : List UInt8 :=
  putU16 ZIP_EXTRAFIELD_ZIP64_HEADER ++ putU16 ZIP_LOCAL_EXTRAFILED_ZIP64_LENGTH

theorem localRecord_split (e : ZipWriterEntryInfo) :
    localRecord e = headerFront e ++ (sizeWords e ++ (headerBack e ++
      if e.zip64 then extraFront ++ extraWords e else [])) := by
  unfold localRecord LocalFileHeader.toBytes localExtraDataZIP64
  simp only [headerFront, sizeWords, headerBack, extraFront, extraWords, localFileHeader,
    List.append_assoc]

private theorem patchSizes {pre post : List UInt8} (e : ZipWriterEntryInfo) (crc : UInt32)
    (c u : UInt64) {pos : Nat} (hpos : pos = pre.length)
    (hlim : (pre ++ sizeWords e ++ post).length < offLimit)
    (k : ByteFile → Except ArchiveErr ByteFile) :
    (do
      let f ← streamWrite ⟨pre ++ sizeWords e ++ post, pos⟩ (putU32 crc)
      let f ← streamWrite f (putU32 (clampU32 c))
      let f ← streamWrite f (putU32 (clampU32 u))
      k f) = k ⟨pre ++ sizeWords (withSizes e crc c u) ++ post, pos + 12⟩ := by
  simp only [List.length_append, sizeWords_length] at hlim
  rw [streamWrite_of_lt (by simp only [putU32_length]; omega), ok_bind,
    streamWrite_of_lt (by simp only [ByteFile.write_pos, putU32_length]; omega), ok_bind,
    streamWrite_of_lt (by simp only [ByteFile.write_pos, putU32_length]; omega), ok_bind,
    ByteFile.write_write, ByteFile.write_write,
    ByteFile.write_mid _ _ _ _ _ hpos (by simp)]
  simp [sizeWords, withSizes]

private theorem patchExtra {pre post : List UInt8} (e : ZipWriterEntryInfo) (crc : UInt32)
    (c u : UInt64) {pos : Nat} (hpos : pos = pre.length)
    (hlim : (pre ++ extraWords e ++ post).length < offLimit) :
    (do
      let f ← streamWrite ⟨pre ++ extraWords e ++ post, pos⟩ (putU64 u)
      streamWrite f (putU64 c)) =
        .ok ⟨pre ++ extraWords (withSizes e crc c u) ++ post, pos + 16⟩ := by
  simp only [List.length_append, extraWords_length] at hlim
  rw [streamWrite_of_lt (by simp only [putU64_length]; omega), ok_bind,
    streamWrite_of_lt (by simp only [ByteFile.write_pos, putU64_length]; omega),
    ByteFile.write_write, ByteFile.write_mid _ _ _ _ _ hpos (by simp)]
  simp [extraWords, withSizes]

/-- Patching turns the local record of the opened entry into that of the finished one and puts
the cursor back. -/
theorem zipEntryUpdateLocalHeader_eq {pre payload : List UInt8} {e : ZipWriterEntryInfo}
    (crc : UInt32) {c u : UInt64} {pos : Nat} (hoff : e.localHeaderOffset.toNat = pre.length)
    (hplace : e.zip64 = true →
      e.zip64extraInLocalHeaderPos.toNat = pre.length + (30 + (nameField e).length))
    (hlim : (pre ++ (localRecord e ++ payload)).length < offLimit) (hpos : pos < offLimit)
    (hfits : e.zip64 = false → ¬ (c > UINT32_MAX.toUInt64 ∨ u > UINT32_MAX.toUInt64)) :
    zipEntryUpdateLocalHeader ⟨pre ++ (localRecord e ++ payload), pos⟩ (withSizes e crc c u) =
      .ok ⟨pre ++ (localRecord (withSizes e crc c u) ++ payload), pos⟩ := by
  have hprelt : pre.length + 30 ≤ offLimit := by
    simp only [List.length_append, localRecord_length] at hlim
    omega
  have hseek : toInt64 e.localHeaderOffset + (CRC_POS_IN_LOCAL_HEADER : Int) =
      ((pre.length + 14 : Nat) : Int) := by
    rw [toInt64_of_lt (by omega), hoff]
    simp [CRC_POS_IN_LOCAL_HEADER]
  have hguard : ¬ ((c > UINT32_MAX.toUInt64 ∨ u > UINT32_MAX.toUInt64) ∧ (!e.zip64) = true) := by
    rintro ⟨hbig, hzip⟩
    exact hfits (by simpa using hzip) hbig
  unfold zipEntryUpdateLocalHeader
  simp only [withSizes_localHeaderOffset, withSizes_crc, withSizes_compressedSize,
    withSizes_uncompressedSize, withSizes_zip64, withSizes_zip64extraInLocalHeaderPos, streamTell]
  rw [hseek, streamSeek_set (by omega), ok_bind]
  simp only [hguard, if_false, ByteFile.seekTo]
  set extra : ZipWriterEntryInfo → List UInt8 :=
    fun e => if e.zip64 then extraFront ++ extraWords e else [] with hextra
  have hsplit : ∀ e : ZipWriterEntryInfo, pre ++ (localRecord e ++ payload) =
      (pre ++ headerFront e) ++ sizeWords e ++ (headerBack e ++ (extra e ++ payload)) := by
    intro e
    simp only [localRecord_split, List.append_assoc, hextra]
  rw [hsplit e] at hlim
  rw [hsplit, hsplit]
  have hwords : pre.length + 14 = (pre ++ headerFront e).length := by simp
  refine (patchSizes e crc c u hwords hlim _).trans ?_
  by_cases hzip : e.zip64 = true
  · have hplace := hplace hzip
    have hwords : ∀ e', e'.zip64 = e.zip64 → extra e' = extraFront ++ extraWords e' := by
      intro e' he'
      simp [hextra, he', hzip]
    have hfront : extraFront.length = 4 := by simp [extraFront]
    simp only [hwords e rfl, List.length_append, headerFront_length, sizeWords_length,
      headerBack_length, extraWords_length, hfront] at hlim
    have hsum : (e.zip64extraInLocalHeaderPos + EXTRA_FIELD_HEADER_BYTES.toUInt64).toNat =
        pre.length + (34 + (nameField e).length) := by
      have hfour : (EXTRA_FIELD_HEADER_BYTES.toUInt64).toNat = 4 := rfl
      unfold offLimit at hlim
      rw [UInt64.toNat_add, hfour, hplace, Nat.mod_eq_of_lt (by omega)]
      omega
    have hpositive : e.zip64extraInLocalHeaderPos > 0 := by
      rw [gt_iff_lt, UInt64.lt_iff_toNat_lt, hplace]
      simp only [UInt64.toNat_zero]
      omega
    simp only [hzip, hpositive, and_self, if_true]
    rw [toInt64_of_lt (by rw [hsum]; omega), hsum, streamSeek_set (by omega), ok_bind,
      hwords e rfl, hwords _ (withSizes_zip64 e crc c u)]
    simp only [ByteFile.seekTo, headerFront_withSizes, headerBack_withSizes]
    -- The words of the extra field, with everything in front of them and behind them.
    set front := pre ++ headerFront e ++ sizeWords (withSizes e crc c u) ++ headerBack e ++
      extraFront with hfrontdef
    have hfrontlen : front.length = pre.length + (34 + (nameField e).length) := by
      simp only [hfrontdef, List.length_append, headerFront_length, sizeWords_length,
        headerBack_length, hfront]
      omega
    have harrange : ∀ words : List UInt8, pre ++ headerFront e ++
        sizeWords (withSizes e crc c u) ++ (headerBack e ++ (extraFront ++ words ++ payload)) =
        front ++ words ++ payload := by
      intro words
      simp only [hfrontdef, List.append_assoc]
    rw [harrange, harrange, ← bind_assoc, patchExtra e crc c u hfrontlen.symm, ok_bind,
      streamSeek_set hpos]
    · rfl
    · simp only [List.length_append, hfrontlen, extraWords_length]
      omega
  · have hzip : e.zip64 = false := by simpa using hzip
    have hnone : ∀ e', e'.zip64 = e.zip64 → extra e' = [] := by
      intro e' he'
      simp [hextra, he', hzip]
    simp only [hzip, Bool.false_eq_true, false_and, if_false, pure_eq_ok, ok_bind,
      streamSeek_set hpos, ByteFile.seekTo, hnone e rfl, hnone _ (withSizes_zip64 e crc c u),
      headerFront_withSizes, headerBack_withSizes]

theorem zipEntryUpdateLocalHeader_fits {f g : ByteFile} {e : ZipWriterEntryInfo}
    (h : zipEntryUpdateLocalHeader f e = .ok g) (hzip : e.zip64 = false) :
    ¬ (e.compressedSize > UINT32_MAX.toUInt64 ∨ e.uncompressedSize > UINT32_MAX.toUInt64) := by
  intro hbig
  unfold zipEntryUpdateLocalHeader at h
  obtain ⟨f1, -, h⟩ := bind_eq_ok.mp h
  obtain ⟨f2, -, h⟩ := bind_eq_ok.mp h
  rw [if_pos ⟨hbig, by rw [hzip]; rfl⟩] at h
  cases h

end FileApi.Compress.Zip
