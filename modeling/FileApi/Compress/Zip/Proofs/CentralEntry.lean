import FileApi.Compress.Zip.ReaderEntry
import FileApi.Compress.Zip.Proofs.EndRecords

/-!
# A central record and its reader

The record the writer buffers for an entry, read by `zipReaderGoToCentralDirHeader`. The zip64
extra field is positional: the writer adds a number when it exceeds 32 bits, the reader takes
one whenever the 32-bit field is all ones. A number that equals the all-ones value in front of
one that exceeds it therefore takes the other's place.
-/

namespace FileApi.Compress.Zip

/-- A number is all ones in front of a number that needs the extra field. -/
def Zip64Shift (u c o : UInt64) : Prop :=
  (u = UINT32_MAX.toUInt64 ∧ (c > UINT32_MAX.toUInt64 ∨ o > UINT32_MAX.toUInt64)) ∨
    (c = UINT32_MAX.toUInt64 ∧ o > UINT32_MAX.toUInt64)

instance (u c o : UInt64) : Decidable (Zip64Shift u c o) := by
  unfold Zip64Shift
  infer_instance

/-- A number that is not all ones is read back: from the extra field when it needs it, from
the header otherwise. -/
theorem readZip64Value_eq {extraField rest : List UInt8} {cur pos : Nat} {value : UInt64}
    (hne : value ≠ UINT32_MAX.toUInt64)
    (hdrop : extraField.drop (cur + pos) = zip64Value value ++ rest) :
    readZip64Value extraField cur pos (clampU32 value).toUInt64 =
      (value, pos + (zip64Value value).length) := by
  by_cases hvalue : value > UINT32_MAX.toUInt64
  · have hclamp : clampU32 value = UINT32_MAX := by rw [clampU32, if_pos hvalue]
    have hbytes : zip64Value value = putU64 value := by rw [zip64Value, if_pos hvalue]
    have hword : getLittleEndianValue extraField (cur + pos) 8 = value.toNat := by
      rw [getLittleEndianValue, hdrop, hbytes, List.take_left' (putU64_length value),
        leValue_putU64]
    rw [readZip64Value, hclamp, if_pos rfl, hword, UInt64.ofNat_toNat, hbytes, putU64_length]
  · rw [readZip64Value, clampU32_of_le (by rwa [gt_iff_lt, UInt64.not_lt] at hvalue), if_neg hne,
      zip64Value, if_neg hvalue, List.length_nil, Nat.add_zero]

/-- The extra field restores the three numbers unless one of them takes another's place. -/
theorem zipReadZip64ExtraField_values {extraField : List UInt8} {cur size : Nat} {u c o : UInt64}
    (disk : UInt32)
    (hdrop : extraField.drop cur = zip64Value u ++ (zip64Value c ++ zip64Value o))
    (hsize : size = (zip64Value u ++ (zip64Value c ++ zip64Value o)).length) (hsome : 0 < size)
    (hshift : ¬ Zip64Shift u c o) :
    zipReadZip64ExtraField extraField cur size
        ⟨(clampU32 u).toUInt64, (clampU32 c).toUInt64, (clampU32 o).toUInt64, disk⟩ =
      ⟨u, c, o, disk⟩ := by
  have hsmall : ∀ {v : UInt64}, ¬ v > UINT32_MAX.toUInt64 → (clampU32 v).toUInt64 = v :=
    fun hv => clampU32_of_le (by rwa [gt_iff_lt, UInt64.not_lt] at hv)
  unfold Zip64Shift at hshift
  push Not at hshift
  obtain ⟨hshiftU, hshiftC⟩ := hshift
  rw [List.length_append, List.length_append] at hsize
  have hlenU := zip64Value_length u
  have hlenC := zip64Value_length c
  have hlenO := zip64Value_length o
  have hu : u ≠ UINT32_MAX.toUInt64 := by
    intro hu
    obtain ⟨hc, ho⟩ := hshiftU hu
    rw [if_neg (by rw [hu]; exact UInt64.lt_irrefl _)] at hlenU
    rw [if_neg hc] at hlenC
    rw [if_neg ho] at hlenO
    omega
  have hdropC : extraField.drop (cur + (0 + (zip64Value u).length)) =
      zip64Value c ++ zip64Value o := by
    rw [← List.drop_drop, hdrop, Nat.zero_add, List.drop_left]
  unfold zipReadZip64ExtraField
  rw [if_neg (by split at hlenU <;> split at hlenC <;> split at hlenO <;> omega),
    readZip64Value_eq hu (show extraField.drop (cur + 0) = _ from hdrop)]
  simp only
  split
  · -- neither of the other two is in the extra field
    next hdone =>
      have hc : ¬ c > UINT32_MAX.toUInt64 := fun hc => by rw [if_pos hc] at hlenC; omega
      have ho : ¬ o > UINT32_MAX.toUInt64 := fun ho => by rw [if_pos ho] at hlenO; omega
      rw [hsmall hc, hsmall ho]
  next hmore =>
  have hc : c ≠ UINT32_MAX.toUInt64 := by
    intro hc
    have ho := hshiftC hc
    rw [if_neg (by rw [hc]; exact UInt64.lt_irrefl _)] at hlenC
    rw [if_neg ho] at hlenO
    omega
  have hdropO : extraField.drop (cur + (0 + (zip64Value u).length + (zip64Value c).length)) =
      zip64Value o ++ [] := by
    rw [← Nat.add_assoc, ← List.drop_drop, hdropC, List.drop_left, List.append_nil]
  rw [readZip64Value_eq hc hdropC]
  simp only
  split
  · next hdone =>
      have ho : ¬ o > UINT32_MAX.toUInt64 := fun ho => by rw [if_pos ho] at hlenO; omega
      rw [hsmall ho]
  next hlast =>
  have ho : o > UINT32_MAX.toUInt64 := by
    by_contra ho
    rw [if_neg ho] at hlenO
    omega
  rw [readZip64Value_eq (fun heq => UInt64.lt_irrefl _ (heq ▸ ho)) hdropO]
  simp only
  rw [if_pos (by omega)]

/-! ## The pieces of a record -/

/-- The header of the record of `e`. -/
def recordHeader (e : ZipWriterEntryInfo) : ReadCentralDirHeader :=
  centralDirHeader e (getCdExtraFieldZip64DataSize e)

/-- What is known of the entry before its extra fields are read. -/
def headerEntry (e : ZipWriterEntryInfo) : ZipReaderEntry :=
  let entry := zipReaderInitEntry (recordHeader e)
  { entry with entryInfo := { entry.entryInfo with entryName := nameField e ++ [0] } }

/-- The entry with the numbers of `e`. -/
def restoredEntry (e : ZipWriterEntryInfo) : ZipReaderEntry :=
  { headerEntry e with entryInfo := { (headerEntry e).entryInfo with
      uncompressedSize := e.uncompressedSize
      compressedSize := e.compressedSize
      relativeOffsetOfLocalHeader := e.localHeaderOffset } }

theorem recordHeader_extraFieldLength (e : ZipWriterEntryInfo) :
    (recordHeader e).extraFieldLength.toNat = (centralExtra e).length := by
  have hsize := zip64Values_length e
  have hle := zip64Values_length_le e
  unfold recordHeader centralDirHeader centralExtra
  by_cases hzero : getCdExtraFieldZip64DataSize e = 0
  · simp [hzero]
  · have hpos : getCdExtraFieldZip64DataSize e > 0 := by
      rw [gt_iff_lt, UInt16.lt_iff_toNat_lt]
      have hne : (getCdExtraFieldZip64DataSize e).toNat ≠ 0 :=
        fun h => hzero (UInt16.toNat_inj.mp h)
      simp only [UInt16.toNat_zero]
      omega
    simp only [hpos, hzero, if_true, if_false, List.length_append, putU16_length, hsize,
      UInt16.toNat_add]
    rw [show (4 : UInt16).toNat = 4 from rfl, Nat.mod_eq_of_lt (by omega)]

/-- The extra field of a record restores its numbers. -/
theorem zipReaderProcessExtraField_centralExtra {e : ZipWriterEntryInfo}
    (hshift : ¬ Zip64Shift e.uncompressedSize e.compressedSize e.localHeaderOffset) :
    zipReaderProcessExtraField (centralExtra e) (centralExtra e).length 0 (headerEntry e) =
      .ok (restoredEntry e) := by
  have hsize := zip64Values_length e
  by_cases hzero : getCdExtraFieldZip64DataSize e = 0
  · -- no extra field: all three numbers are in the header
    rw [hzero, UInt16.toNat_zero, zip64Values, List.length_append, List.length_append,
      zip64Value_length, zip64Value_length, zip64Value_length] at hsize
    have hsmall : ∀ v : UInt64, (if v > UINT32_MAX.toUInt64 then 8 else 0) = 0 →
        (clampU32 v).toUInt64 = v := by
      intro v hv
      refine clampU32_of_le ?_
      rw [← UInt64.not_lt]
      intro hlarge
      rw [if_pos hlarge] at hv
      omega
    have hextra : centralExtra e = [] := by rw [centralExtra, if_pos hzero]
    rw [hextra]
    simp only [List.length_nil, zipReaderProcessExtraField, restoredEntry, headerEntry,
      zipReaderInitEntry, recordHeader, centralDirHeader, hsmall e.uncompressedSize (by omega),
      hsmall e.compressedSize (by omega), hsmall e.localHeaderOffset (by omega)]
  · set size := (getCdExtraFieldZip64DataSize e).toNat with hsizedef
    have hpos : 0 < size := by
      have hne : size ≠ 0 := fun h => hzero (UInt16.toNat_inj.mp h)
      omega
    have hextra : centralExtra e = putU16 ZIP_EXTRAFIELD_ZIP64_HEADER ++
        (putU16 (getCdExtraFieldZip64DataSize e) ++ zip64Values e) := by
      rw [centralExtra, if_neg hzero, List.append_assoc]
    have hlength : (centralExtra e).length = 4 + size := by
      rw [hextra]
      simp only [List.length_append, putU16_length, hsize]
      omega
    have hid : getLittleEndianValue (centralExtra e) 0 2 = 1 := by
      rw [getLittleEndianValue, List.drop_zero, hextra, List.take_left' (putU16_length _),
        leValue_putU16]
      rfl
    have hdata : getLittleEndianValue (centralExtra e) (0 + 2) 2 = size := by
      rw [getLittleEndianValue, Nat.zero_add, hextra, List.drop_left' (putU16_length _),
        List.take_left' (putU16_length _), leValue_putU16]
    have hdrop : (centralExtra e).drop 4 = zip64Values e := by
      rw [hextra, show (4 : Nat) = 2 + 2 from rfl, ← List.drop_drop,
        List.drop_left' (putU16_length _), List.drop_left' (putU16_length _)]
    have hfield := zipReadZip64ExtraField_values (recordHeader e).diskNumberStart.toUInt32
      hdrop hsize.symm hpos hshift
    obtain ⟨fuel, hfuel⟩ : ∃ fuel, (centralExtra e).length = fuel + 1 + 1 :=
      ⟨(centralExtra e).length - 2, by omega⟩
    rw [hfuel]
    unfold zipReaderProcessExtraField
    rw [if_pos (by simp only [EXTRA_FIELD_HEADER_BYTES]; omega)]
    simp only [hid, hdata, EXTRA_FIELD_HEADER_BYTES, Nat.zero_add, hlength, Nat.add_sub_cancel_left,
      Nat.min_self, zipReaderProcessOneExtraField, ok_bind]
    unfold zipReaderProcessExtraField
    rw [if_neg (by simp only [EXTRA_FIELD_HEADER_BYTES]; omega)]
    have hfield : zipReadZip64ExtraField (centralExtra e) 4 size
        { uncompressedSize := (headerEntry e).centralDirHeader.uncompressedSize.toUInt64
          compressedSize := (headerEntry e).centralDirHeader.compressedSize.toUInt64
          relativeOffsetOfLocalHeader :=
            (headerEntry e).centralDirHeader.relativeOffsetOfLocalHeader.toUInt64
          diskNumberStart := (headerEntry e).centralDirHeader.diskNumberStart.toUInt32 } = _ :=
      hfield
    unfold zipReaderProcessZip64ExtraField
    rw [hfield]
    rfl

section Reading

variable {e : ZipWriterEntryInfo} {pre post : List UInt8}

theorem zipReadCentralDirHeader_record {f : ByteFile} {tail : List UInt8}
    (hdata : f.data = pre ++ (putU32 ZIP_MAGIC_CENTRALHEADER ++ ((recordHeader e).toBytes ++ tail)))
    (hpre : pre.length < offLimit) :
    zipReadCentralDirHeader f (UInt64.ofNat pre.length) =
      .ok (recordHeader e, ⟨f.data, pre.length + 46⟩) := by
  have hdrop : f.data.drop pre.length =
      putU32 ZIP_MAGIC_CENTRALHEADER ++ ((recordHeader e).toBytes ++ tail) := by
    rw [hdata, List.drop_left]
  have hsig : (f.data.drop pre.length).take 4 = putU32 ZIP_MAGIC_CENTRALHEADER := by
    rw [hdrop]
    exact List.take_left' (putU32_length _)
  have hheader : (f.data.drop (pre.length + 4)).take 42 = (recordHeader e).toBytes := by
    rw [← List.drop_drop, hdrop, List.drop_left' (putU32_length _)]
    exact List.take_left' (recordHeader e).toBytes_length
  have hparsed : ReadCentralDirHeader.ofBytes (recordHeader e).toBytes = recordHeader e := by
    simpa using ReadCentralDirHeader.ofBytes_toBytes (recordHeader e) []
  have hoff : (UInt64.ofNat pre.length).toNat = pre.length := toNat_ofNat_of_offLimit hpre
  unfold zipReadCentralDirHeader
  rw [toInt64_of_lt (by omega), hoff, streamSeek_set hpre, ok_bind]
  simp only [streamRead, ByteFile.read, ByteFile.seekTo, ZIP_SIZE_SIGNATURE, hsig, putU32_length,
    leValue_putU32, ne_eq, not_true_eq_false, if_false, hheader, hparsed,
    ReadCentralDirHeader.toBytes_length, Nat.add_assoc]

theorem zipReadExtraFieldBuffer_record {f : ByteFile} {front : List UInt8}
    (hdata : f.data = front ++ (centralExtra e ++ post)) (hfront : front.length < offLimit) :
    zipReadExtraFieldBuffer f (UInt64.ofNat front.length)
      (recordHeader e).extraFieldLength.toNat = .ok (centralExtra e) := by
  have hoff : (UInt64.ofNat front.length).toNat = front.length := toNat_ofNat_of_offLimit hfront
  rw [recordHeader_extraFieldLength, zipReadExtraFieldBuffer]
  split
  · next hzero => rw [List.length_eq_zero_iff.mp hzero]
  · rw [toInt64_of_lt (by omega), hoff, streamSeek_set hfront, ok_bind]
    simp only [streamRead, ByteFile.read, ByteFile.seekTo, hdata, List.drop_left, List.take_left,
      ne_eq, not_true_eq_false, if_false]

/-- The record as far as the name, which is still to be decoded. -/
theorem zipReaderGoToCentralDirHeader_record (convert : List UInt8 → Option CString)
    {reader : ZipReader} (hname : e.filename.bytes.length ≤ ZIP_FILE_NAME_LEN_MAX)
    (hshift : ¬ Zip64Shift e.uncompressedSize e.compressedSize e.localHeaderOffset)
    (hdata : reader.baseStream.data = pre ++ (centralRecord e ++ post))
    (hlim : reader.baseStream.data.length < offLimit)
    (hinside : UInt64.ofNat pre.length < reader.offsetOfCentralDir + reader.sizeOfCentralDir) :
    zipReaderGoToCentralDirHeader convert reader (UInt64.ofNat pre.length) = (do
      let entryName ← zipReaderNameEncoding convert (restoredEntry e)
      return { restoredEntry e with entryInfo := { (restoredEntry e).entryInfo with
        entryName := zipReaderConvertPathSlash (recordHeader e) entryName } }) := by
  have hnamelen : e.filename.bytes.length < 2 ^ 16 := by
    unfold ZIP_FILE_NAME_LEN_MAX at hname
    omega
  have hfield : nameField e = e.filename.bytes := nameField_of_le hnamelen
  have hnameLength : (recordHeader e).fileNameLength.toNat = (nameField e).length := by
    rw [hfield]
    exact UInt16.toNat_ofNat_of_lt' hnamelen
  have hreadLen : readNameLen (recordHeader e) = (nameField e).length := by
    rw [readNameLen, hnameLength, hfield, Nat.min_eq_left hname]
  -- The archive cut behind the header, and cut in front of the extra field.
  set header := putU32 ZIP_MAGIC_CENTRALHEADER ++ (recordHeader e).toBytes with hheader
  have hatName : reader.baseStream.data = pre ++ (putU32 ZIP_MAGIC_CENTRALHEADER ++
      ((recordHeader e).toBytes ++ (nameField e ++ (centralExtra e ++ post)))) := by
    rw [hdata]
    simp only [centralRecord, recordHeader, List.append_assoc]
  have hatExtra : reader.baseStream.data =
      (pre ++ header ++ nameField e) ++ (centralExtra e ++ post) := by
    rw [hatName]
    simp only [hheader, List.append_assoc]
  have hfront : (pre ++ header ++ nameField e).length = pre.length + 46 + (nameField e).length := by
    simp [hheader]
    omega
  have hpos : UInt64.ofNat pre.length + 46 + (recordHeader e).fileNameLength.toUInt64 =
      UInt64.ofNat (pre ++ header ++ nameField e).length := by
    rw [hfront, UInt64.ofNat_add, UInt64.ofNat_add, ← hnameLength]
    simp
  have hname46 : (reader.baseStream.data.drop (pre.length + 46)).take (nameField e).length =
      nameField e := by
    have hlen : (pre ++ header).length = pre.length + 46 := by simp [hheader]
    rw [hatExtra, List.append_assoc, ← hlen, List.drop_left, List.take_left]
  unfold zipReaderGoToCentralDirHeader
  rw [if_neg (by rw [ge_iff_le, UInt64.not_le]; exact hinside)]
  have hlim' := hlim
  rw [hatExtra, List.length_append, hfront] at hlim'
  rw [zipReadCentralDirHeader_record hatName (by omega), ok_bind]
  simp only [hreadLen, streamRead, ByteFile.read, hname46, ne_eq, not_true_eq_false, if_false, hpos]
  rw [zipReadExtraFieldBuffer_record hatExtra (by omega), ok_bind]
  have hextra := zipReaderProcessExtraField_centralExtra hshift
  rw [headerEntry] at hextra
  rw [hextra, ok_bind]

end Reading

/-! ## Entries of the writer -/

/-- The entry of `saveName` at its close. -/
def writtenEntry (method : UInt16) (level : Int) (emptyDir : Bool) (st : PathStat)
    (saveName : CString) (crc : UInt32) (c u offset : UInt64) : ZipWriterEntryInfo :=
  withSizes (zipWriterOpenInitEntryInfo method level emptyDir st offset saveName) crc c u

/-- The name a reader finds for a name the writer stored: the same bytes for what either side
takes for UTF-8, and otherwise what GBK makes of them. -/
def readBackName (convert : List UInt8 → Option CString) (name : CString) :
    Except ArchiveErr CString :=
  if isUtf8Encoded name.bytes false ∨ isUTF8Str name.bytes then .ok name
  else match convert name.bytes with
    | none => .ok name
    | some utf8Name =>
        if min (name.bytes.length * 4 + 1) ZIP_FILE_NAME_LEN_MAX ≤ utf8Name.bytes.length then
          .error .internalError
        else .ok utf8Name

/-- The fields of `e` under the name `name`. -/
structure ReadBackAs (e : ZipWriterEntryInfo) (name : CString) (entry : ZipReaderEntry) : Prop where
  compressedSize : entry.entryInfo.compressedSize = e.compressedSize
  uncompressedSize : entry.entryInfo.uncompressedSize = e.uncompressedSize
  offset : entry.entryInfo.relativeOffsetOfLocalHeader = e.localHeaderOffset
  crc : entry.centralDirHeader.crc32 = e.crc
  method : entry.entryInfo.compressionMethod = e.compressionMethod
  name : entry.entryInfo.name = name.bytes

section Written

variable (method : UInt16) (level : Int) (emptyDir : Bool) (st : PathStat) (saveName : CString)
  (crc : UInt32) (c u offset : UInt64)

theorem writtenEntry_flag :
    (writtenEntry method level emptyDir st saveName crc c u offset).flag &&& ZIP_FLAG_ENCRYPTED = 0 ∧
    ((writtenEntry method level emptyDir st saveName crc c u offset).flag &&& ZIP_FLAG_UTF8 = 0 ↔
      isUtf8Encoded saveName.bytes false = false) := by
  unfold writtenEntry withSizes zipWriterOpenInitEntryInfo zipGetFlag
  cases isUtf8Encoded saveName.bytes false <;>
    by_cases hmethod : method = OH_ARCHIVE_COMPRESS_DEFLATE <;>
    by_cases hbest : level = 9 <;> by_cases hfast : level = 1 <;>
    simp only [hmethod, hbest, hfast, if_true, if_false] <;> decide

theorem zipReaderConvertPathSlash_written (entryName : List UInt8) :
    zipReaderConvertPathSlash
      (recordHeader (writtenEntry method level emptyDir st saveName crc c u offset)) entryName =
        entryName := by
  rw [zipReaderConvertPathSlash, if_neg]
  change zipHostSystem ZIP_VERSION_MADEBY ∉ _
  decide

/-- The name behind the encoding step is `readBackName`. -/
theorem zipReaderNameEncoding_written (convert : List UInt8 → Option CString)
    (hname : saveName.bytes.length ≤ ZIP_FILE_NAME_LEN_MAX) :
    (zipReaderNameEncoding convert
        (restoredEntry (writtenEntry method level emptyDir st saveName crc c u offset))).map cstr =
      (readBackName convert saveName).map CString.bytes := by
  set e := writtenEntry method level emptyDir st saveName crc c u offset with he
  have hlen : saveName.bytes.length < 2 ^ 16 := by
    unfold ZIP_FILE_NAME_LEN_MAX at hname
    omega
  have hfile : e.filename = saveName := rfl
  have hfield : nameField e = saveName.bytes := nameField_of_le (by rw [hfile]; exact hlen)
  have hsize : readNameLen (recordHeader e) = saveName.bytes.length := by
    have hlength : (recordHeader e).fileNameLength.toNat = saveName.bytes.length :=
      UInt16.toNat_ofNat_of_lt' hlen
    rw [readNameLen, hlength, Nat.min_eq_left hname]
  have hbuffer : (restoredEntry e).entryInfo.entryName = saveName.bytes ++ [0] := by
    rw [← hfield]
    rfl
  have hcstr : cstr (saveName.bytes ++ [0]) = saveName.bytes := by
    simpa using cstr_append_zero saveName.noNul []
  have hflag : (restoredEntry e).centralDirHeader.flag &&& ZIP_FLAG_UTF8 = 0 ↔
      isUtf8Encoded saveName.bytes false = false :=
    (writtenEntry_flag method level emptyDir st saveName crc c u offset).2
  have huni : (restoredEntry e).entryInfo.useUnicodePath = false := rfl
  have hheader : (restoredEntry e).centralDirHeader = recordHeader e := rfl
  unfold zipReaderNameEncoding readBackName
  rw [hbuffer, huni, hheader, hsize]
  rw [hheader] at hflag
  cases hutf8 : isUtf8Encoded saveName.bytes false with
  | true =>
      rw [hutf8] at hflag
      simp [hflag, hcstr, Except.map]
  | false =>
      rw [hutf8] at hflag
      simp only [hflag, and_self, if_true, Bool.false_eq_true, false_or]
      unfold zipReaderConvertFileNameEncoding
      rw [hcstr]
      by_cases hstr : isUTF8Str saveName.bytes = true
      · simp [hstr, hcstr, Except.map]
      · simp only [hstr, Bool.false_eq_true, if_false]
        cases convert saveName.bytes with
        | none => simp [hcstr, Except.map]
        | some utf8Name =>
            simp only
            split
            · rfl
            · simp only [Except.map, putString, cstr_append_zero utf8Name.noNul]

end Written

/-- The record the writer buffers, read wherever the buffered directory ends up in an archive:
sizes, offset, checksum and method come back as they are, and the name as `readBackName` says,
unless an all-ones number stands in front of a larger one. -/
theorem zipReaderGoToCentralDirHeader_zipEntryWriteCdHeader
    {convert : List UInt8 → Option CString} {method : UInt16} {level : Int} {emptyDir : Bool}
    {st : PathStat} {saveName : CString} {crc : UInt32} {c u offset : UInt64}
    {cd cd' : ByteFile} {pre post : List UInt8} {reader : ZipReader}
    (hname : saveName.bytes.length ≤ ZIP_FILE_NAME_LEN_MAX) (hshift : ¬ Zip64Shift u c offset)
    (hend : cd.AtEnd)
    (hwrite : zipEntryWriteCdHeader cd
      (writtenEntry method level emptyDir st saveName crc c u offset) = .ok cd')
    (hdata : reader.baseStream.data = pre ++ cd'.data ++ post)
    (hlim : reader.baseStream.data.length < offLimit)
    (hinside : UInt64.ofNat (pre.length + cd.data.length) <
      reader.offsetOfCentralDir + reader.sizeOfCentralDir) :
    match readBackName convert saveName with
    | .ok name => ∃ entry,
        zipReaderGoToCentralDirHeader convert reader (UInt64.ofNat (pre.length + cd.data.length)) =
          .ok entry ∧
        ReadBackAs (writtenEntry method level emptyDir st saveName crc c u offset) name entry
    | .error err =>
        zipReaderGoToCentralDirHeader convert reader (UInt64.ofNat (pre.length + cd.data.length)) =
          .error err := by
  set e := writtenEntry method level emptyDir st saveName crc c u offset with he
  rw [zipEntryWriteCdHeader_eq hend] at hwrite
  obtain ⟨-, rfl⟩ := streamWrite_ok hwrite
  rw [ByteFile.write_atEnd hend] at hdata
  have hdata : reader.baseStream.data = (pre ++ cd.data) ++ (centralRecord e ++ post) := by
    rw [hdata]
    simp only [List.append_assoc]
  have hread := zipReaderGoToCentralDirHeader_record convert (e := e) hname hshift
    hdata hlim (by rwa [List.length_append])
  rw [List.length_append] at hread
  have hmethod : headerMethod e = e.compressionMethod := by
    rw [headerMethod, if_neg (not_not.mpr
      (writtenEntry_flag method level emptyDir st saveName crc c u offset).1)]
  have hencoding := zipReaderNameEncoding_written method level emptyDir st saveName crc c u offset
    convert hname
  rw [← he] at hencoding
  simp only [he, zipReaderConvertPathSlash_written] at hread
  rw [← he] at hread
  cases hback : readBackName convert saveName with
  | error err =>
      rw [hback] at hencoding
      cases hname' : zipReaderNameEncoding convert (restoredEntry e) with
      | error err' =>
          rw [hname'] at hencoding hread
          cases hencoding
          exact hread
      | ok entryName =>
          rw [hname'] at hencoding
          cases hencoding
  | ok name =>
      rw [hback] at hencoding
      cases hname' : zipReaderNameEncoding convert (restoredEntry e) with
      | error err' =>
          rw [hname'] at hencoding
          cases hencoding
      | ok entryName =>
          rw [hname'] at hencoding hread
          refine ⟨_, hread, rfl, rfl, rfl, rfl, hmethod, ?_⟩
          exact Except.ok.inj hencoding

/-- A directory of one record, opened. -/
def oneRecordReader (cd : ByteFile) : ZipReader where
  baseStream := ⟨cd.data, 0⟩
  offsetOfEOCD := UInt64.ofNat cd.pos
  offsetOfEOCD64 := 0
  offsetOfCentralDir := 0
  sizeOfCentralDir := UInt64.ofNat cd.pos
  offsetCorrection := 0
  isZip64 := false
  totalNumberOfEntries := 1

/-- Write the record of an entry and read it back. -/
def readBackRecord (convert : List UInt8 → Option CString) (e : ZipWriterEntryInfo) :
    Except ArchiveErr ZipReaderEntry := do
  let cd ← zipEntryWriteCdHeader ⟨[], 0⟩ e
  zipReaderGoToCentralDirHeader convert (oneRecordReader cd) 0

/-- The name `a.b`. -/
def plainName : CString := ⟨[0x61, 0x2e, 0x62], by decide⟩

/-- A deflated file of 8 GiB, packed into 5 GiB, at offset 7. -/
def largeEntry : ZipWriterEntryInfo :=
  writtenEntry OH_ARCHIVE_COMPRESS_DEFLATE 6 false ⟨0x81a4, 0x200000000, 0⟩ plainName 0x12345678
    0x140000000 0x200000000 7

theorem zipReaderGoToCentralDirHeader_largeEntry :
    ∃ cd, zipEntryWriteCdHeader ⟨[], 0⟩ largeEntry = .ok cd ∧ ∃ entry,
      zipReaderGoToCentralDirHeader (fun _ => none) (oneRecordReader cd) 0 = .ok entry ∧
        ReadBackAs largeEntry plainName entry := by
  have hend : ByteFile.AtEnd ⟨[], 0⟩ := rfl
  set cd : ByteFile := ⟨centralRecord largeEntry, (centralRecord largeEntry).length⟩ with hcd
  have hwrite : zipEntryWriteCdHeader ⟨[], 0⟩ largeEntry = .ok cd := by
    rw [zipEntryWriteCdHeader_eq hend, streamWrite_of_lt (by decide +kernel),
      ByteFile.write_atEnd hend]
    simp [hcd]
  have hdata : (oneRecordReader cd).baseStream.data = [] ++ cd.data ++ [] := by
    simp [oneRecordReader]
  have hback : readBackName (fun _ => none) plainName = .ok plainName := by decide +kernel
  have hread := @zipReaderGoToCentralDirHeader_zipEntryWriteCdHeader (fun _ => none) _ _ _ _ _ _ _
    _ _ _ _ _ _ _ (by decide) (by decide) hend hwrite hdata (by decide +kernel) (by decide +kernel)
  simp only [hback] at hread
  exact ⟨cd, hwrite, hread⟩

/-- The GBK spelling of U+554A. -/
def gbkName : CString := ⟨[0xb0, 0xa1], by decide⟩

/-- What `iconv` makes of it. -/
def gbkConvert (name : List UInt8) : Option CString :=
  if name = gbkName.bytes then some ⟨[0xe5, 0x95, 0x8a], by decide⟩ else none

/-- Neither every name nor every number comes back: a name that is not UTF-8 is converted, and
the uncompressed size `0xFFFFFFFF` of an entry packed into 4 GiB is read as the packed size. -/
theorem readBackRecord_ne :
    (readBackRecord gbkConvert
        (writtenEntry 0 0 false ⟨0x81a4, 0, 0⟩ gbkName 0 0 0 0)).map
      (fun entry => entry.entryInfo.name) = .ok [0xe5, 0x95, 0x8a] ∧
    (readBackRecord gbkConvert
        (writtenEntry 0 0 false ⟨0x81a4, 0xffffffff, 0⟩ ⟨[0x61], by decide⟩ 0 0x100000000
          0xffffffff 0)).map
      (fun entry => entry.entryInfo.uncompressedSize) = .ok 0x100000000 := by
  decide +kernel

end FileApi.Compress.Zip
