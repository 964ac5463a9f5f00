import FileApi.Compress.Zip.ReaderOpen
import FileApi.Compress.Zip.Proofs.WriterInvariant

/-!
# The end-of-central-directory records

What the writer appends at the close and what the reader makes of it. Writer and reader
decide on their own whether the zip64 records are in use: the writer asks whether a number
exceeds its classic field, the reader whether a classic field is all ones. The two disagree
exactly when a number equals the all-ones value of its field and none exceeds it.
-/

namespace FileApi.Compress.Zip

/-! ## What the writer emits -/

/-- The writer once the central directory is out. -/
def closingWriter (writer : ZipWriter) : ZipWriter :=
  { writer with
    offsetOfCentralDir := UInt64.ofNat writer.baseStream.pos
    numberOfDiskWithCD := 0
    sizeOfCentralDir := UInt64.ofNat writer.cdMemStream.data.length }

/-- The records `zipWriterSaveEnd` writes at position `pos`. -/
def endRecords (writer : ZipWriter) (pos : Nat) : List UInt8 :=
  if writesZip64 writer then
    (endOfCentralDir64 writer).toBytes ++
      ((endOfCentralDirLocator64 { writer with offsetOfEOCD := UInt64.ofNat pos }).toBytes ++
        (endOfCentralDir writer).toBytes)
  else (endOfCentralDir writer).toBytes

/-- The whole archive. -/
def closedArchive (writer : ZipWriter) : List UInt8 :=
  writer.baseStream.data ++ writer.cdMemStream.data ++
    endRecords (closingWriter writer)
      (writer.baseStream.data.length + writer.cdMemStream.data.length)

theorem zipWriteMemStream_eq {f mem : ByteFile} (hmem : mem.data.length < offLimit) :
    zipWriteMemStream f mem = streamWrite f mem.data := by
  have hseek : streamSeek mem 0 .fromEnd = .ok (mem.seekTo mem.data.length) := by
    simp only [streamSeek, Int.add_zero]
    rw [if_pos ⟨by omega, by exact_mod_cast hmem⟩]
    simp
  unfold zipWriteMemStream
  rw [hseek, ok_bind]
  simp [streamTell]

/-- The writer behind its end records, which started at `pos`. -/
def closedWriter (writer : ZipWriter) (pos : Nat) (g : ByteFile) : ZipWriter :=
  if writesZip64 writer then { writer with offsetOfEOCD := UInt64.ofNat pos, baseStream := g }
  else { writer with baseStream := g }

@[simp] theorem closedWriter_baseStream (writer : ZipWriter) (pos : Nat) (g : ByteFile) :
    (closedWriter writer pos g).baseStream = g := by
  unfold closedWriter
  split <;> rfl

theorem zipWriterSaveEnd_eq {f : ByteFile} (hend : f.AtEnd) (writer : ZipWriter) :
    zipWriterSaveEnd writer f =
      (streamWrite f (endRecords writer f.pos) >>= fun g => .ok (closedWriter writer f.pos g)) := by
  unfold zipWriterSaveEnd endRecords closedWriter
  split
  · refine streamWrite_bind_then hend _ _ _ _ ?_
    intro g hgend _ _
    exact streamWrite_bind_then hgend _ _ _ _ fun _ _ _ _ => rfl
  · rfl

variable {writer : ZipWriter}

theorem zipWriterSaveCD_eq (inv : CdInv writer) :
    zipWriterSaveCD writer =
      (streamWrite writer.baseStream (writer.cdMemStream.data ++ endRecords (closingWriter writer)
        (writer.baseStream.pos + writer.cdMemStream.data.length)) >>= fun g =>
          .ok (closedWriter (closingWriter writer)
            (writer.baseStream.pos + writer.cdMemStream.data.length) g)) := by
  unfold zipWriterSaveCD
  rw [zipWriteMemStream_eq inv.cdLimit]
  refine streamWrite_bind_then inv.baseAtEnd _ _ _ _ ?_
  intro g hgend hgpos hg
  simp only [streamTell]
  rw [ofNat_sub_ofNat (by omega) hgpos, hg, Nat.add_sub_cancel_left, ← hg]
  exact zipWriterSaveEnd_eq hgend (closingWriter writer)

theorem zipWriterSaveCD_ok {writer writer' : ZipWriter} (inv : CdInv writer)
    (h : zipWriterSaveCD writer = .ok writer') :
    writer'.baseStream.data = closedArchive writer ∧ (closedArchive writer).length < offLimit := by
  have hbase : writer.baseStream.pos = writer.baseStream.data.length := inv.baseAtEnd
  rw [zipWriterSaveCD_eq inv] at h
  obtain ⟨ended, hended, h⟩ := bind_eq_ok.mp h
  obtain ⟨hlim, rfl⟩ := streamWrite_ok hended
  cases h
  rw [closedWriter_baseStream, ByteFile.write_atEnd inv.baseAtEnd]
  refine ⟨by simp only [closedArchive, hbase, List.append_assoc], ?_⟩
  simpa only [closedArchive, List.length_append, hbase, Nat.add_assoc] using hlim

theorem zipWriterSaveCD_of_fits (inv : CdInv writer)
    (hlim : (closedArchive writer).length < offLimit) :
    ∃ writer', zipWriterSaveCD writer = .ok writer' := by
  have hbase : writer.baseStream.pos = writer.baseStream.data.length := inv.baseAtEnd
  rw [zipWriterSaveCD_eq inv, streamWrite_of_lt, ok_bind]
  · exact ⟨_, rfl⟩
  · simpa only [closedArchive, List.length_append, hbase, Nat.add_assoc] using hlim

theorem closedArchive_length_le (writer : ZipWriter) :
    (closedArchive writer).length ≤
      writer.baseStream.data.length + writer.cdMemStream.data.length + 98 := by
  have hend : (endRecords (closingWriter writer)
      (writer.baseStream.data.length + writer.cdMemStream.data.length)).length ≤ 98 := by
    unfold endRecords
    split <;> simp [ZIP_SIZE_EOCD_FIXED, ZIP_SIZE_CD_LOCATOR64]
  simp only [closedArchive, List.length_append]
  omega

/-! ## What the reader finds -/

theorem getLittleEndianValue_putU32 (value : UInt32) (rest : List UInt8) :
    getLittleEndianValue (putU32 value ++ rest) 0 ZIP_SIZE_SIGNATURE = value.toNat := by
  have hword : (putU32 value ++ rest).take ZIP_SIZE_SIGNATURE = putU32 value :=
    List.take_left' (putU32_length value)
  rw [getLittleEndianValue, List.drop_zero, hword, leValue_putU32]

theorem getLittleEndianValue_drop (buffer : List UInt8) (k pos bytes : Nat) :
    getLittleEndianValue (buffer.drop k) pos bytes = getLittleEndianValue buffer (k + pos) bytes := by
  simp only [getLittleEndianValue, List.drop_drop]

theorem zipSearchEOCD64_drop {archive : List UInt8} {k cur pos : Nat}
    (hnear : cur < ZIP_SIZE_CD_LOCATOR64 → k = 0) :
    zipSearchEOCD64 ⟨archive, pos⟩ (archive.drop k) cur =
      zipSearchEOCD64 ⟨archive, 0⟩ archive (k + cur) := by
  unfold zipSearchEOCD64
  by_cases hcur : cur < ZIP_SIZE_CD_LOCATOR64
  · simp [hcur, hnear hcur]
  · have hfar : ¬ k + cur < ZIP_SIZE_CD_LOCATOR64 := by omega
    simp only [hcur, hfar, if_false, getLittleEndianValue_drop]
    rw [← Nat.add_sub_assoc (by omega) k]
    split
    · unfold zipReadEOCD64
      rw [List.drop_drop, ← Nat.add_sub_assoc (by omega) k]
      rfl
    · rfl

/-- The search starts on the record the writer put last, so nothing in front of it matters. -/
theorem zipSearchEOCD_eq {body : List UInt8} {eocd : EndOfCentralDir}
    (hsig : eocd.signature = ZIP_MAGIC_ENDHEADER)
    (hsame : eocd.totalNumberOfEntriesOnThisDisk = eocd.totalNumberOfEntries)
    (hlim : (body ++ eocd.toBytes).length < offLimit) :
    zipSearchEOCD ⟨body ++ eocd.toBytes, 0⟩ =
      if eocd.totalNumberOfEntries ≠ UINT16_MAX ∧ eocd.offsetOfCentralDir ≠ UINT32_MAX then
        .ok ⟨eocd, UInt64.ofNat body.length, zeroEOCD64, 0, false⟩
      else do
        let (eocd64, offsetOfEOCD64) ←
          zipSearchEOCD64 ⟨body ++ eocd.toBytes, 0⟩ (body ++ eocd.toBytes) body.length
        return ⟨eocd, UInt64.ofNat body.length, eocd64, offsetOfEOCD64, true⟩ := by
  set archive := body ++ eocd.toBytes with harchive
  have hlen : archive.length = body.length + 22 := by simp [harchive, ZIP_SIZE_EOCD_FIXED]
  have hseekEnd : streamSeek (⟨archive, 0⟩ : ByteFile) 0 .fromEnd = .ok ⟨archive, archive.length⟩ := by
    simp only [streamSeek, Int.add_zero, ByteFile.seekTo, Int.toNat_natCast]
    rw [if_pos ⟨by omega, by exact_mod_cast hlim⟩]
  set maxRead := min archive.length
    (ZIP_SIZE_MAX_GLOBAL_COMMENT + ZIP_SIZE_EOCD_FIXED + ZIP_SIZE_CD_LOCATOR64) with hmax
  have hmaxLe : maxRead ≤ archive.length := Nat.min_le_left _ _
  have hmaxGe : 22 ≤ maxRead := by
    simp only [hmax, ZIP_SIZE_MAX_GLOBAL_COMMENT, ZIP_SIZE_EOCD_FIXED, ZIP_SIZE_CD_LOCATOR64]
    omega
  have hseekBack : streamSeek (⟨archive, archive.length⟩ : ByteFile) (-(maxRead : Int)) .fromEnd =
      .ok ⟨archive, archive.length - maxRead⟩ := by
    have htarget : (archive.length : Int) + -(maxRead : Int) =
        ((archive.length - maxRead : Nat) : Int) := by omega
    simp only [streamSeek, ByteFile.seekTo, htarget, Int.toNat_natCast]
    rw [if_pos ⟨by omega, by omega⟩]
  -- The buffer is the tail of the archive, and the cursor stands on the record.
  set k := archive.length - maxRead with hk
  have hbuffer : (archive.drop k).take maxRead = archive.drop k := by
    rw [List.take_of_length_le]
    simp only [List.length_drop]
    omega
  have hcur : k + (maxRead - 22) = body.length := by omega
  have hrecord : (archive.drop k).drop (maxRead - 22) = eocd.toBytes := by
    rw [List.drop_drop, hcur, harchive, List.drop_left]
  have hstart : ∃ rest, (archive.drop k).drop (maxRead - 22) = putU32 ZIP_MAGIC_ENDHEADER ++ rest := by
    rw [hrecord, EndOfCentralDir.toBytes, hsig]
    exact ⟨_, rfl⟩
  obtain ⟨rest, hstart⟩ := hstart
  have hbyte : (archive.drop k).getD (maxRead - 22) 0 = 0x50 := by
    rw [List.getD_eq_getElem?_getD, ← List.head?_drop, hstart]
    rfl
  have hmagic : getLittleEndianValue (archive.drop k) (maxRead - 22) ZIP_SIZE_SIGNATURE =
      ZIP_MAGIC_ENDHEADER.toNat := by
    rw [← Nat.add_zero (maxRead - 22), ← getLittleEndianValue_drop, hstart,
      getLittleEndianValue_putU32]
  have hread : zipReadEOCD (archive.drop k) (maxRead - 22) = .ok eocd := by
    unfold zipReadEOCD
    rw [hrecord, ← List.append_nil eocd.toBytes, EndOfCentralDir.ofBytes_toBytes]
    simp [hsame]
  have hplace : archive.length - (maxRead - (maxRead - 22)) = body.length := by omega
  unfold zipSearchEOCD
  rw [hseekEnd, ok_bind]
  simp only [streamTell, ← hmax]
  rw [hseekBack, ok_bind]
  simp only [streamRead, ByteFile.read, hbuffer, ZIP_SIZE_EOCD_FIXED, hmaxGe, if_true]
  unfold zipSearchEOCDFromback
  simp only [hbyte, hmagic, ne_eq, not_true_eq_false, if_false, hread, ok_bind, hplace, pure_eq_ok]
  rw [zipSearchEOCD64_drop, hcur]
  intro hnear
  simp only [ZIP_SIZE_CD_LOCATOR64, ZIP_SIZE_MAX_GLOBAL_COMMENT, ZIP_SIZE_EOCD_FIXED] at hnear hmax
  omega

theorem zipCheckSignature_eq {data rest : List UInt8} {pos : Nat} {word check : UInt32}
    (h : data.drop pos = putU32 word ++ rest) :
    zipCheckSignature ⟨data, pos⟩ check =
      if word = check then .ok () else .error .formatError := by
  have hread : (streamRead ⟨data, pos⟩ ZIP_SIZE_SIGNATURE).1 = putU32 word := by
    simp only [streamRead, ByteFile.read, h]
    exact List.take_left' (putU32_length word)
  have hsize : ¬ (putU32 word).length ≠ ZIP_SIZE_SIGNATURE := by simp [ZIP_SIZE_SIGNATURE]
  unfold zipCheckSignature
  simp only [hread, hsize, if_false, leValue_putU32, ne_eq, UInt32.toNat_inj]
  split <;> simp_all

section Place

variable {archive : List UInt8} {isZip64 : Bool} {o s : Nat}

theorem zipCheckAndCorrectCentralDirOffset_signed {rest : List UInt8} (hlim : o + s < offLimit)
    (h : archive.drop o = putU32 ZIP_MAGIC_CENTRALHEADER ++ rest) :
    zipCheckAndCorrectCentralDirOffset ⟨archive, 0⟩ (UInt64.ofNat (o + s)) isZip64
      (UInt64.ofNat o) (UInt64.ofNat s) = .ok ⟨UInt64.ofNat o, UInt64.ofNat s, 0⟩ := by
  have ho : (UInt64.ofNat o).toNat = o := toNat_ofNat_of_offLimit (by omega)
  have hsum : ¬ UInt64.ofNat (o + s) < UInt64.ofNat o + UInt64.ofNat s := by
    rw [← UInt64.ofNat_add]
    exact UInt64.lt_irrefl _
  have hbehind : ¬ UInt64.ofNat (o + s) < UInt64.ofNat o := by
    rw [UInt64.lt_iff_toNat_lt, ho, toNat_ofNat_of_offLimit hlim]
    omega
  unfold zipCheckAndCorrectCentralDirOffset
  rw [toInt64_of_lt (by omega), ho, streamSeek_set (by omega), ok_bind, ByteFile.seekTo,
    zipCorrectCentralDir, zipCheckSignature_eq h, if_pos rfl]
  simp only [hsum, if_false, ok_bind, hbehind, false_or, lt_irrefl]

theorem zipCheckAndCorrectCentralDirOffset_empty {rest : List UInt8} {other : UInt32}
    (hlim : o < offLimit) (h : archive.drop o = putU32 other ++ rest)
    (hother : other ≠ ZIP_MAGIC_CENTRALHEADER) (hzip : isZip64 = false → o ≤ UINT32_MAX.toNat) :
    zipCheckAndCorrectCentralDirOffset ⟨archive, 0⟩ (UInt64.ofNat o) isZip64
      (UInt64.ofNat o) 0 = .ok ⟨UInt64.ofNat o, 0, 0⟩ := by
  have ho : (UInt64.ofNat o).toNat = o := toNat_ofNat_of_offLimit hlim
  have hguard : ¬ (UInt64.ofNat o > UINT32_MAX.toUInt64 ∧ isZip64 = false) := by
    rintro ⟨hbig, hclassic⟩
    have hle := hzip hclassic
    rw [gt_iff_lt, UInt64.lt_iff_toNat_lt, ho] at hbig
    exact absurd hbig (by simpa using hle)
  unfold zipCheckAndCorrectCentralDirOffset
  rw [toInt64_of_lt (by omega), ho, streamSeek_set hlim, ok_bind, ByteFile.seekTo,
    zipCorrectCentralDir, zipCheckSignature_eq h, if_neg hother]
  simp only [hguard, if_false, UInt64.sub_zero]
  rw [toInt64_of_lt (by omega), ho, streamSeek_set hlim]
  simp only [ok_bind, ByteFile.seekTo, zipCheckSignature_eq h, hother, if_false, if_true,
    UInt64.lt_irrefl, lt_irrefl, or_self]

/-- A zip64 record in front of the last 34 bytes of the directory never yields the directory:
either its end contradicts the position of the record, or the size is cut to fit it. -/
theorem zipCheckAndCorrectCentralDirOffset_ne {off offset size : UInt64} {place : CentralDirPlace}
    (hlim : o + s < offLimit) (hoff : off.toNat < o + s)
    (h : zipCheckAndCorrectCentralDirOffset ⟨archive, 0⟩ off isZip64 offset size = .ok place) :
    ¬ (place.offsetOfCentralDir = UInt64.ofNat o ∧ place.sizeOfCentralDir = UInt64.ofNat s) := by
  rintro ⟨hplaceO, hplaceS⟩
  have hsum : (UInt64.ofNat o + UInt64.ofNat s).toNat = o + s := by
    rw [← UInt64.ofNat_add, toNat_ofNat_of_offLimit hlim]
  have hend : off ≠ UInt64.ofNat o + UInt64.ofNat s := by
    intro heq
    rw [heq, hsum] at hoff
    omega
  have hbefore : off < UInt64.ofNat o + UInt64.ofNat s := by
    rw [UInt64.lt_iff_toNat_lt, hsum]
    exact hoff
  unfold zipCheckAndCorrectCentralDirOffset at h
  obtain ⟨stream, -, h⟩ := bind_eq_ok.mp h
  obtain ⟨found, hfound, h⟩ := bind_eq_ok.mp h
  split at h
  · cases h
  next hinside =>
  cases h
  unfold zipCorrectCentralDir at hfound
  split at hfound
  · split at hfound
    · -- the size was cut to what is in front of the record
      cases hfound
      refine hend ?_
      rw [← hplaceO, ← hplaceS]
      exact (UInt64.sub_add_cancel off offset).symm.trans (UInt64.add_comm _ _)
    · next hnocut =>
      cases hfound
      rw [← hplaceO, ← hplaceS] at hbefore
      exact hnocut hbefore
  · split at hfound
    · cases hfound
    · obtain ⟨moved, -, hfound⟩ := bind_eq_ok.mp hfound
      split at hfound
      · cases hfound
        refine hend ?_
        rw [← hplaceO, ← hplaceS]
        exact (UInt64.sub_add_cancel off size).symm
      · split at hfound
        · next hzero =>
          cases hfound
          refine hinside (.inl ?_)
          have hs : UInt64.ofNat s = 0 := by rw [← hplaceS]; exact hzero
          rw [hs, UInt64.add_zero] at hbefore
          rw [hplaceO]
          exact hbefore
        · cases hfound

end Place

theorem zipReadEOCD64_ok {archive buffer : List UInt8} {pos : Nat} {eocd64 : EndOfCentralDir64}
    {off : UInt64} (h : zipReadEOCD64 ⟨archive, 0⟩ buffer pos = .ok (eocd64, off)) :
    off.toNat + 56 ≤ archive.length := by
  unfold zipReadEOCD64 at h
  obtain ⟨stream, hseek, h⟩ := bind_eq_ok.mp h
  obtain ⟨hpos, rfl⟩ := streamSeek_set_eq hseek
  simp only at h
  split at h
  · cases h
  next hread =>
  split at h
  · cases h
  split at h
  · cases h
  cases h
  have hoff : (toInt64 (EndOfCentralDirLocator64.ofBytes (buffer.drop pos)).offsetOfEOCD64).toNat =
      (EndOfCentralDirLocator64.ofBytes (buffer.drop pos)).offsetOfEOCD64.toNat := by
    unfold toInt64 at hpos ⊢
    split
    · simp
    · next hbig =>
      rw [if_neg hbig] at hpos
      have := (EndOfCentralDirLocator64.ofBytes (buffer.drop pos)).offsetOfEOCD64.toNat_lt
      omega
  simp only [streamRead, ByteFile.read, ByteFile.seekTo, List.length_take, List.length_drop, hoff,
    ne_eq, not_not] at hread
  omega

theorem zipSearchEOCD64_ok {archive buffer : List UInt8} {cur : Nat} {eocd64 : EndOfCentralDir64}
    {off : UInt64} (h : zipSearchEOCD64 ⟨archive, 0⟩ buffer cur = .ok (eocd64, off)) :
    off = 0 ∨ off.toNat + 56 ≤ archive.length := by
  unfold zipSearchEOCD64 at h
  split at h
  · cases h
  · split at h
    · exact .inr (zipReadEOCD64_ok h)
    · cases h
      exact .inl rfl

theorem zipSearchEOCD64_found {front tail : List UInt8} {record : EndOfCentralDir64}
    {locator : EndOfCentralDirLocator64} (hlocator : locator.signature = ZIP_MAGIC_ENDLOCHEADER64)
    (hrecord : record.signature = ZIP_MAGIC_ENDHEADER64)
    (hsame : record.totalNumberOfEntriesOnThisDisk = record.totalNumberOfEntries)
    (hoff : locator.offsetOfEOCD64.toNat = front.length) (hlim : front.length < offLimit) :
    zipSearchEOCD64 ⟨front ++ (record.toBytes ++ (locator.toBytes ++ tail)), 0⟩
        (front ++ (record.toBytes ++ (locator.toBytes ++ tail))) (front.length + 76) =
      .ok (record, locator.offsetOfEOCD64) := by
  set archive := front ++ (record.toBytes ++ (locator.toBytes ++ tail)) with harchive
  have hcur : front.length + 76 - ZIP_SIZE_CD_LOCATOR64 = front.length + 56 := by
    simp [ZIP_SIZE_CD_LOCATOR64]
  have hatLocator : archive.drop (front.length + 56) = locator.toBytes ++ tail := by
    rw [harchive, ← List.drop_drop, List.drop_left]
    exact List.drop_left' record.toBytes_length
  have hmagic : getLittleEndianValue archive (front.length + 56) ZIP_SIZE_SIGNATURE =
      ZIP_MAGIC_ENDLOCHEADER64.toNat := by
    rw [← Nat.add_zero (front.length + 56), ← getLittleEndianValue_drop, hatLocator,
      EndOfCentralDirLocator64.toBytes, List.append_assoc, getLittleEndianValue_putU32, hlocator]
  have hatRecord : (streamRead ⟨archive, front.length⟩ 56).1 = record.toBytes := by
    simp only [streamRead, ByteFile.read, harchive, List.drop_left]
    exact List.take_left' record.toBytes_length
  unfold zipSearchEOCD64
  rw [if_neg (by simp [ZIP_SIZE_CD_LOCATOR64]), hcur, if_pos hmagic]
  unfold zipReadEOCD64
  simp only [hatLocator, EndOfCentralDirLocator64.ofBytes_toBytes]
  rw [toInt64_of_lt (by omega), hoff, streamSeek_set hlim, ok_bind, ByteFile.seekTo]
  have hparsed : EndOfCentralDir64.ofBytes record.toBytes = record := by
    simpa using EndOfCentralDir64.ofBytes_toBytes record []
  simp only [hatRecord, hparsed, hrecord, hsame, EndOfCentralDir64.toBytes_length, ne_eq,
    not_true_eq_false, if_false]

/-! ## The round trip -/

/-- Opening `archive` finds the number of entries, the offset and the size of the central
directory that `writer` had when it was closed. -/
def ReadsBack (writer : ZipWriter) (archive : List UInt8) : Prop :=
  ∃ reader, zipReaderOpenFile archive = .ok reader ∧
    reader.totalNumberOfEntries = writer.totalNumberOfEntries ∧
    reader.offsetOfCentralDir = UInt64.ofNat writer.baseStream.pos ∧
    reader.sizeOfCentralDir = UInt64.ofNat writer.cdMemStream.data.length

/-- All three numbers fit their classic fields, and one of the two the reader looks at is the
all-ones value of its field. -/
def SentinelWithoutZip64 (writer : ZipWriter) : Prop :=
  writer.totalNumberOfEntries ≤ UINT16_MAX.toUInt64 ∧
  writer.baseStream.pos ≤ UINT32_MAX.toNat ∧
  writer.cdMemStream.data.length ≤ UINT32_MAX.toNat ∧
  (writer.totalNumberOfEntries = UINT16_MAX.toUInt64 ∨ writer.baseStream.pos = UINT32_MAX.toNat)

/-- The reader of `archive` that was opened has the numbers of `writer`, and corrects nothing. -/
structure Reopened (writer : ZipWriter) (archive : List UInt8) (reader : ZipReader) : Prop where
  opened : zipReaderOpenFile archive = .ok reader
  stream : reader.baseStream = ⟨archive, 0⟩
  count : reader.totalNumberOfEntries = writer.totalNumberOfEntries
  offset : reader.offsetOfCentralDir = UInt64.ofNat writer.baseStream.pos
  size : reader.sizeOfCentralDir = UInt64.ofNat writer.cdMemStream.data.length
  correction : reader.offsetCorrection = 0

theorem Reopened.readsBack {archive : List UInt8} {reader : ZipReader}
    (h : Reopened writer archive reader) : ReadsBack writer archive :=
  ⟨reader, h.opened, h.count, h.offset, h.size⟩

theorem reopened_of {archive : List UInt8} {info : EocdInfo}
    (hsearch : zipSearchEOCD ⟨archive, 0⟩ = .ok info)
    (hplace : zipCheckAndCorrectCentralDirOffset ⟨archive, 0⟩ info.endOfCentralDir info.isZip64
      info.offsetOfCentralDir info.sizeOfCentralDir =
        .ok ⟨UInt64.ofNat writer.baseStream.pos, UInt64.ofNat writer.cdMemStream.data.length, 0⟩)
    (hcount : info.totalNumberOfEntries = writer.totalNumberOfEntries) :
    ∃ reader, Reopened writer archive reader := by
  have hopened : ∃ reader, zipReaderOpenFile archive = .ok reader := by
    unfold zipReaderOpenFile
    rw [hsearch, ok_bind, hplace, ok_bind]
    exact ⟨_, rfl⟩
  obtain ⟨reader, hreader⟩ := hopened
  have hfields := hreader
  unfold zipReaderOpenFile at hfields
  rw [hsearch, ok_bind, hplace, ok_bind] at hfields
  cases hfields
  exact ⟨_, hreader, rfl, hcount, rfl, rfl, rfl⟩

/-! The clamped fields: all ones from the all-ones value on, exact below it. -/

theorem clampU16_eq_max (value : UInt64) :
    clampU16 value = UINT16_MAX ↔ UINT16_MAX.toNat ≤ value.toNat := by
  unfold clampU16 UINT16_MAX
  rw [← UInt16.toNat_inj]
  split
  · next h =>
      simp only [gt_iff_lt, UInt64.lt_iff_toNat_lt] at h
      simp at h ⊢
      omega
  · next h =>
      simp only [gt_iff_lt, UInt64.lt_iff_toNat_lt] at h
      simp at h ⊢
      omega

theorem clampU16_of_le {value : UInt64} (h : value ≤ UINT16_MAX.toUInt64) :
    (clampU16 value).toUInt64 = value := by
  have hle := h
  rw [UInt64.le_iff_toNat_le] at hle
  unfold clampU16
  rw [if_neg (by rw [gt_iff_lt, UInt64.not_lt]; exact h)]
  apply UInt64.toNat_inj.mp
  simp [UINT16_MAX] at hle ⊢
  omega

theorem clampU32_eq_max (value : UInt64) :
    clampU32 value = UINT32_MAX ↔ UINT32_MAX.toNat ≤ value.toNat := by
  unfold clampU32 UINT32_MAX
  rw [← UInt32.toNat_inj]
  split
  · next h =>
      simp only [gt_iff_lt, UInt64.lt_iff_toNat_lt] at h
      simp at h ⊢
      omega
  · next h =>
      simp only [gt_iff_lt, UInt64.lt_iff_toNat_lt] at h
      simp at h ⊢
      omega

theorem clampU32_of_le {value : UInt64} (h : value ≤ UINT32_MAX.toUInt64) :
    (clampU32 value).toUInt64 = value := by
  have hle := h
  rw [UInt64.le_iff_toNat_le] at hle
  unfold clampU32
  rw [if_neg (by rw [gt_iff_lt, UInt64.not_lt]; exact h)]
  apply UInt64.toNat_inj.mp
  simp [UINT32_MAX] at hle ⊢
  omega

section RoundTrip

variable {writer : ZipWriter}

theorem writesZip64_closingWriter (hbase : writer.baseStream.pos < offLimit)
    (hcd : writer.cdMemStream.data.length < offLimit) :
    writesZip64 (closingWriter writer) = true ↔
      UINT32_MAX.toNat < writer.cdMemStream.data.length ∨
        UINT32_MAX.toNat < writer.baseStream.pos ∨
        UINT16_MAX.toNat < writer.totalNumberOfEntries.toNat := by
  simp only [writesZip64, closingWriter, Bool.or_eq_true, decide_eq_true_eq, gt_iff_lt,
    UInt64.lt_iff_toNat_lt, toNat_ofNat_of_offLimit hbase, toNat_ofNat_of_offLimit hcd,
    UInt32.toNat_toUInt64, UInt16.toNat_toUInt64, or_assoc]

/-- Where the central directory stands in the archive, there is either its first header or, in
an archive without entries, the record behind it. -/
theorem drop_closedArchive (hbase : writer.baseStream.AtEnd) (tail : List UInt8) :
    (writer.baseStream.data ++ writer.cdMemStream.data ++ tail).drop writer.baseStream.pos =
      writer.cdMemStream.data ++ tail := by
  have hpos : writer.baseStream.pos = writer.baseStream.data.length := hbase
  rw [List.append_assoc, hpos, List.drop_left]

theorem place_ok (inv : CdInv writer) (isZip64 : Bool) (word : UInt32) (tail : List UInt8)
    (hword : word ≠ ZIP_MAGIC_CENTRALHEADER)
    (hlim : writer.baseStream.pos + writer.cdMemStream.data.length < offLimit)
    (hzip : isZip64 = false → writer.baseStream.pos ≤ UINT32_MAX.toNat) :
    zipCheckAndCorrectCentralDirOffset
        ⟨writer.baseStream.data ++ writer.cdMemStream.data ++ (putU32 word ++ tail), 0⟩
        (UInt64.ofNat (writer.baseStream.pos + writer.cdMemStream.data.length)) isZip64
        (UInt64.ofNat writer.baseStream.pos) (UInt64.ofNat writer.cdMemStream.data.length) =
      .ok ⟨UInt64.ofNat writer.baseStream.pos, UInt64.ofNat writer.cdMemStream.data.length, 0⟩ := by
  have hdrop := drop_closedArchive inv.baseAtEnd (putU32 word ++ tail)
  rcases inv.signed with hnil | ⟨rest, hrest⟩
  · rw [hnil] at hdrop hlim ⊢
    exact zipCheckAndCorrectCentralDirOffset_empty (by simpa using hlim) hdrop hword hzip
  · have hsigned : writer.cdMemStream.data ++ (putU32 word ++ tail) =
        putU32 ZIP_MAGIC_CENTRALHEADER ++ (rest ++ (putU32 word ++ tail)) := by
      rw [hrest, List.append_assoc]
    exact zipCheckAndCorrectCentralDirOffset_signed hlim (hdrop.trans hsigned)

/-- Without zip64 records, and with no field all ones, the reader uses the classic record. -/
theorem reopened_classic (inv : CdInv writer) (hlim : (closedArchive writer).length < offLimit)
    (hzip : writesZip64 (closingWriter writer) = false)
    (hn : writer.totalNumberOfEntries ≠ UINT16_MAX.toUInt64)
    (ho : writer.baseStream.pos ≠ UINT32_MAX.toNat) :
    ∃ reader, Reopened writer (closedArchive writer) reader := by
  have hpos : writer.baseStream.pos = writer.baseStream.data.length := inv.baseAtEnd
  have harchive : closedArchive writer = writer.baseStream.data ++ writer.cdMemStream.data ++
      (endOfCentralDir (closingWriter writer)).toBytes := by
    simp [closedArchive, endRecords, hzip]
  rw [harchive] at hlim ⊢
  have hlim' := hlim
  simp only [List.length_append] at hlim'
  have hsmall := mt (writesZip64_closingWriter (by omega) inv.cdLimit).mpr
    (ne_true_of_eq_false hzip)
  push Not at hsmall
  obtain ⟨hs, ho', hn'⟩ := hsmall
  have hnle : writer.totalNumberOfEntries ≤ UINT16_MAX.toUInt64 := by
    rw [UInt64.le_iff_toNat_le, UInt16.toNat_toUInt64]
    exact hn'
  have hnlt : writer.totalNumberOfEntries.toNat ≠ UINT16_MAX.toNat := by
    intro heq
    refine hn (UInt64.toNat_inj.mp ?_)
    rw [heq, UInt16.toNat_toUInt64]
  have hfields : (endOfCentralDir (closingWriter writer)).totalNumberOfEntries ≠ UINT16_MAX ∧
      (endOfCentralDir (closingWriter writer)).offsetOfCentralDir ≠ UINT32_MAX := by
    constructor
    · intro heq
      have := (clampU16_eq_max _).mp heq
      simp only [closingWriter] at this
      omega
    · intro heq
      have := (clampU32_eq_max _).mp heq
      simp only [closingWriter, toNat_ofNat_of_offLimit (show writer.baseStream.pos < offLimit by omega)]
        at this
      omega
  have hclamp : ∀ k ≤ UINT32_MAX.toNat, (clampU32 (UInt64.ofNat k)).toUInt64 = UInt64.ofNat k := by
    intro k hk
    refine clampU32_of_le ?_
    rw [UInt64.le_iff_toNat_le, UInt32.toNat_toUInt64, toNat_ofNat_of_offLimit]
    · exact hk
    · exact lt_of_le_of_lt hk (by decide)
  obtain ⟨tail, htail⟩ := (endOfCentralDir (closingWriter writer)).toBytes_signed
  have hplace := place_ok inv false ZIP_MAGIC_ENDHEADER tail (by decide) (by omega) (fun _ => ho')
  have htail : (endOfCentralDir (closingWriter writer)).toBytes =
      putU32 ZIP_MAGIC_ENDHEADER ++ tail := htail
  rw [← htail] at hplace
  refine reopened_of (zipSearchEOCD_eq rfl rfl hlim |>.trans (if_pos hfields)) ?_ ?_
  · simp only [EocdInfo.endOfCentralDir, EocdInfo.offsetOfCentralDir, EocdInfo.sizeOfCentralDir,
      Bool.false_eq_true, if_false, endOfCentralDir, closingWriter, List.length_append, ← hpos,
      hclamp _ ho', hclamp _ hs]
    exact hplace
  · simp only [EocdInfo.totalNumberOfEntries, Bool.false_eq_true, if_false]
    exact clampU16_of_le hnle

/-- The reader looks for the zip64 records whenever the writer wrote them. A directory beyond
4 GiB has more than 65535 records, so the classic count is all ones then as well. -/
theorem sentinel_of_writesZip64 (inv : CdInv writer) (hbase : writer.baseStream.pos < offLimit)
    (hzip : writesZip64 (closingWriter writer) = true) :
    ¬ ((endOfCentralDir (closingWriter writer)).totalNumberOfEntries ≠ UINT16_MAX ∧
      (endOfCentralDir (closingWriter writer)).offsetOfCentralDir ≠ UINT32_MAX) := by
  have hupper := inv.upper
  rintro ⟨hn, ho⟩
  have hn := mt (clampU16_eq_max _).mpr hn
  have ho := mt (clampU32_eq_max _).mpr ho
  simp only [closingWriter, toNat_ofNat_of_offLimit hbase] at hn ho
  rcases (writesZip64_closingWriter hbase inv.cdLimit).mp hzip with hs | ho' | hn'
  · simp only [maxCentralRecord, ZIP_FILE_NAME_LEN_MAX] at hupper
    have h16 : UINT16_MAX.toNat = 65535 := rfl
    have h32 : UINT32_MAX.toNat = 4294967295 := rfl
    omega
  · omega
  · omega

theorem reopened_zip64 (inv : CdInv writer) (hlim : (closedArchive writer).length < offLimit)
    (hzip : writesZip64 (closingWriter writer) = true) :
    ∃ reader, Reopened writer (closedArchive writer) reader := by
  have hpos : writer.baseStream.pos = writer.baseStream.data.length := inv.baseAtEnd
  set front := writer.baseStream.data ++ writer.cdMemStream.data with hfront
  have hfrontLen : front.length = writer.baseStream.pos + writer.cdMemStream.data.length := by
    rw [hfront, List.length_append, hpos]
  set record := endOfCentralDir64 (closingWriter writer) with hrecord
  set locator := endOfCentralDirLocator64
    { closingWriter writer with offsetOfEOCD := UInt64.ofNat front.length } with hlocator
  set eocd := endOfCentralDir (closingWriter writer) with heocd
  have harchive : closedArchive writer =
      (front ++ (record.toBytes ++ locator.toBytes)) ++ eocd.toBytes := by
    simp [closedArchive, endRecords, hzip, hfront, hrecord, hlocator, heocd]
  rw [harchive] at hlim ⊢
  have hsearch := zipSearchEOCD_eq rfl rfl hlim
  simp only [List.length_append, EndOfCentralDir64.toBytes_length,
    EndOfCentralDirLocator64.toBytes_length, EndOfCentralDir.toBytes_length] at hlim
  have hoff : (UInt64.ofNat front.length).toNat = front.length :=
    toNat_ofNat_of_offLimit (by omega)
  rw [if_neg (sentinel_of_writesZip64 inv (by omega) hzip)] at hsearch
  have hbody : (front ++ (record.toBytes ++ locator.toBytes)).length = front.length + 76 := by
    simp [ZIP_SIZE_CD_LOCATOR64]
  have hassoc : front ++ (record.toBytes ++ locator.toBytes) ++ eocd.toBytes =
      front ++ (record.toBytes ++ (locator.toBytes ++ eocd.toBytes)) := by
    simp only [List.append_assoc]
  rw [hassoc, hbody, zipSearchEOCD64_found rfl rfl rfl hoff (by omega), ok_bind] at hsearch
  rw [hassoc]
  obtain ⟨tail, htail⟩ := record.toBytes_signed
  have htail : record.toBytes = putU32 ZIP_MAGIC_ENDHEADER64 ++ tail := htail
  have hplace := place_ok inv true ZIP_MAGIC_ENDHEADER64
    (tail ++ (locator.toBytes ++ eocd.toBytes)) (by decide) (by omega) (fun h => by cases h)
  rw [← List.append_assoc (putU32 ZIP_MAGIC_ENDHEADER64), ← htail, ← hfront, ← hfrontLen] at hplace
  refine reopened_of hsearch ?_ ?_
  · simp only [EocdInfo.endOfCentralDir, EocdInfo.offsetOfCentralDir, EocdInfo.sizeOfCentralDir,
      if_true]
    exact hplace
  · simp only [EocdInfo.totalNumberOfEntries, if_true]
    rfl

/-- An all-ones field without zip64 records sends the reader after records that do not exist. -/
theorem not_readsBack_of_sentinel (inv : CdInv writer)
    (hlim : (closedArchive writer).length < offLimit) (hsentinel : SentinelWithoutZip64 writer) :
    ¬ ReadsBack writer (closedArchive writer) := by
  obtain ⟨hn, ho, hs, hmax⟩ := hsentinel
  have hpos : writer.baseStream.pos = writer.baseStream.data.length := inv.baseAtEnd
  have hlower := inv.lower
  rw [UInt64.le_iff_toNat_le, UInt16.toNat_toUInt64] at hn
  have h16 : UINT16_MAX.toNat = 65535 := rfl
  have h32 : UINT32_MAX.toNat = 4294967295 := rfl
  have hposLim : writer.baseStream.pos < offLimit := lt_of_le_of_lt ho (by decide)
  have hzip : writesZip64 (closingWriter writer) = false := by
    rw [Bool.eq_false_iff, ne_eq, writesZip64_closingWriter hposLim inv.cdLimit]
    omega
  have harchive : closedArchive writer = writer.baseStream.data ++ writer.cdMemStream.data ++
      (endOfCentralDir (closingWriter writer)).toBytes := by
    simp [closedArchive, endRecords, hzip]
  rw [harchive] at hlim ⊢
  have hfields : ¬ ((endOfCentralDir (closingWriter writer)).totalNumberOfEntries ≠ UINT16_MAX ∧
      (endOfCentralDir (closingWriter writer)).offsetOfCentralDir ≠ UINT32_MAX) := by
    rintro ⟨hn', ho'⟩
    rcases hmax with hmax | hmax
    · refine hn' ((clampU16_eq_max _).mpr ?_)
      simp only [closingWriter, hmax, UInt16.toNat_toUInt64, le_refl]
    · refine ho' ((clampU32_eq_max _).mpr ?_)
      simp only [closingWriter]
      rw [toNat_ofNat_of_offLimit hposLim, hmax]
  -- One of the two numbers is all ones, so there is something in front of the record.
  have hpositive : 0 < writer.baseStream.pos + writer.cdMemStream.data.length := by
    rcases hmax with hmax | hmax
    · rw [hmax, UInt16.toNat_toUInt64] at hlower
      omega
    · omega
  rintro ⟨reader, hopen, -, hO, hS⟩
  unfold zipReaderOpenFile at hopen
  rw [zipSearchEOCD_eq rfl rfl hlim, if_neg hfields] at hopen
  simp only [List.length_append, EndOfCentralDir.toBytes_length, ZIP_SIZE_EOCD_FIXED] at hlim
  obtain ⟨info, hinfo, hopen⟩ := bind_eq_ok.mp hopen
  obtain ⟨⟨eocd64, off⟩, hfound, hinfo⟩ := bind_eq_ok.mp hinfo
  obtain ⟨place, hplace, hopen⟩ := bind_eq_ok.mp hopen
  cases hinfo
  cases hopen
  refine zipCheckAndCorrectCentralDirOffset_ne (by omega) ?_ hplace ⟨hO, hS⟩
  simp only [EocdInfo.endOfCentralDir, if_true]
  rcases zipSearchEOCD64_ok hfound with hoff | hoff
  · rw [hoff]
    exact hpositive
  · simp only [List.length_append, EndOfCentralDir.toBytes_length, ZIP_SIZE_EOCD_FIXED] at hoff
    omega

theorem reopened_closedArchive (inv : CdInv writer)
    (hlim : (closedArchive writer).length < offLimit) (hsentinel : ¬ SentinelWithoutZip64 writer) :
    ∃ reader, Reopened writer (closedArchive writer) reader := by
  have hpos : writer.baseStream.pos = writer.baseStream.data.length := inv.baseAtEnd
  have hbase := inv.baseLimit
  cases hzip : writesZip64 (closingWriter writer) with
  | true => exact reopened_zip64 inv hlim hzip
  | false =>
      have hsmall := mt (writesZip64_closingWriter (by omega) inv.cdLimit).mpr
        (ne_true_of_eq_false hzip)
      push Not at hsmall
      obtain ⟨hs, ho, hn⟩ := hsmall
      have hn : writer.totalNumberOfEntries ≤ UINT16_MAX.toUInt64 := by
        rw [UInt64.le_iff_toNat_le, UInt16.toNat_toUInt64]
        exact hn
      refine reopened_classic inv hlim hzip ?_ ?_
      · exact fun hmax => hsentinel ⟨hn, ho, hs, .inl hmax⟩
      · exact fun hmax => hsentinel ⟨hn, ho, hs, .inr hmax⟩

/-- The archive of every run reads back exactly when no field is all ones without zip64
records to back it. -/
theorem readsBack_closedArchive_iff (inv : CdInv writer)
    (hlim : (closedArchive writer).length < offLimit) :
    ReadsBack writer (closedArchive writer) ↔ ¬ SentinelWithoutZip64 writer := by
  refine ⟨fun hreads hsentinel => not_readsBack_of_sentinel inv hlim hsentinel hreads, ?_⟩
  intro hsentinel
  obtain ⟨reader, hreader⟩ := reopened_closedArchive inv hlim hsentinel
  exact hreader.readsBack

end RoundTrip

/-- Closing and opening again, for every run of the writer that ends well. -/
theorem zipReaderOpenFile_zipWriterSaveCD_iff {writer writer' : ZipWriter} (hreach : writer.Reach)
    (hsave : zipWriterSaveCD writer = .ok writer') :
    ReadsBack writer writer'.baseStream.data ↔ ¬ SentinelWithoutZip64 writer := by
  obtain ⟨hdata, hlim⟩ := zipWriterSaveCD_ok hreach.cdInv hsave
  rw [hdata]
  exact readsBack_closedArchive_iff hreach.cdInv hlim

/-! ### Empty files -/

/-- The entry of an empty file called `a`. -/
def emptyFileEntry (offset : UInt64) : ZipWriterEntryInfo :=
  zipWriterOpenInitEntryInfo OH_ARCHIVE_NO_COMPRESSION 0 false ⟨0x81a4, 0, 0⟩ offset
    ⟨[0x61], by decide⟩

/-- A writer to which `n` empty files were added. -/
def emptyFiles : Nat → Except ArchiveErr ZipWriter
  | 0 => .ok zipWriterOpened
  | n + 1 => do
      let writer ← emptyFiles n
      zipWriterAddEntry writer
        (emptyFileEntry (UInt64.ofNat (streamTell writer.baseStream))) [] 0 0 0

theorem emptyFiles_ok : ∀ n ≤ 65535, ∃ writer, emptyFiles n = .ok writer ∧ writer.Reach ∧
    writer.totalNumberOfEntries = UInt64.ofNat n ∧ writer.baseStream.data.length = 31 * n ∧
    writer.cdMemStream.data.length ≤ 75 * n
  | 0, _ => ⟨zipWriterOpened, rfl, .opened, rfl, rfl, Nat.le_refl 0⟩
  | n + 1, hn => by
      obtain ⟨writer, hfiles, hreach, hcount, hbase, hcd⟩ := emptyFiles_ok n (by omega)
      have inv := hreach.cdInv
      have hpos : writer.baseStream.pos = writer.baseStream.data.length := inv.baseAtEnd
      have hcdpos : writer.cdMemStream.pos = writer.cdMemStream.data.length := inv.cdAtEnd
      set entry := emptyFileEntry (UInt64.ofNat (streamTell writer.baseStream)) with hentry
      have hlocal : (entryBytes entry []).length = 31 := by
        rw [entryBytes, List.append_nil, localRecord_length]
        rfl
      set final := finishedEntry writer entry 0 0 0 with hfinal
      have hlocal' : (entryBytes final []).length = 31 := by
        rw [entryBytes, List.append_nil, hfinal, localRecord_finishedEntry_length]
        rw [entryBytes, List.append_nil] at hlocal
        exact hlocal
      have hcentral : (centralRecord final).length ≤ 75 := by
        have hextra := centralExtra_length_le final
        have hname := nameField_length_le final
        rw [show final.filename = entry.filename by simp [hfinal, finishedEntry]] at hname
        have hone : entry.filename.bytes.length = 1 := rfl
        rw [centralRecord_length]
        omega
      have hlimit : 75 * 65536 < offLimit := by decide
      have hname : entry.filename.bytes.length = 1 := rfl
      have hadd := zipWriterAddEntry_of_fits (e := entry) (c := 0) (u := 0) [] 0 inv.baseAtEnd
        inv.cdAtEnd rfl (by omega) (by omega) (by rw [← hfinal]; omega) (fun _ => by decide)
      refine ⟨writer.addRecords final [], ?_, ?_, ?_, ?_, ?_⟩
      · rw [emptyFiles, hfiles]
        exact hadd
      · exact .added _ _ _ _ _ _ _ _ _ hreach (by decide) hadd
      · simp [ZipWriter.addRecords, hcount]
      · simp only [ZipWriter.addRecords, ByteFile.write_atEnd inv.baseAtEnd, List.length_append]
        omega
      · simp only [ZipWriter.addRecords, ByteFile.write_atEnd inv.cdAtEnd, List.length_append]
        omega

theorem emptyFiles_saved {n : Nat} (hn : n ≤ 65535) : ∃ writer writer', emptyFiles n = .ok writer ∧
    writer.Reach ∧ writer.totalNumberOfEntries = UInt64.ofNat n ∧
    writer.baseStream.data.length = 31 * n ∧ writer.cdMemStream.data.length ≤ 75 * n ∧
    zipWriterSaveCD writer = .ok writer' := by
  obtain ⟨writer, hfiles, hreach, hcount, hbase, hcd⟩ := emptyFiles_ok n hn
  have hlength := closedArchive_length_le writer
  have hlimit : 200 * 65536 < offLimit := by decide
  obtain ⟨writer', hsave⟩ := zipWriterSaveCD_of_fits hreach.cdInv (by omega)
  exact ⟨writer, writer', hfiles, hreach, hcount, hbase, hcd, hsave⟩

theorem zipReaderOpenFile_zipWriterSaveCD_emptyFiles :
    ∃ writer writer', emptyFiles 3 = .ok writer ∧ zipWriterSaveCD writer = .ok writer' ∧
      (ReadsBack writer writer'.baseStream.data ↔ ¬ SentinelWithoutZip64 writer) := by
  obtain ⟨writer, writer', hfiles, hreach, -, -, -, hsave⟩ :=
    emptyFiles_saved (by decide : 3 ≤ 65535)
  exact ⟨writer, writer', hfiles, hsave, zipReaderOpenFile_zipWriterSaveCD_iff hreach hsave⟩

/-- An archive of 65535 empty files is closed without zip64 records and not read back: the
reader takes the count for the zip64 mark. -/
theorem emptyFiles_not_readsBack :
    ∃ writer writer', emptyFiles 65535 = .ok writer ∧ writer.Reach ∧
      zipWriterSaveCD writer = .ok writer' ∧ ¬ ReadsBack writer writer'.baseStream.data := by
  obtain ⟨writer, writer', hfiles, hreach, hcount, hbase, hcd, hsave⟩ :=
    emptyFiles_saved (Nat.le_refl 65535)
  have hpos : writer.baseStream.pos = writer.baseStream.data.length := hreach.cdInv.baseAtEnd
  have h32 : UINT32_MAX.toNat = 4294967295 := rfl
  obtain ⟨hdata, hlim⟩ := zipWriterSaveCD_ok hreach.cdInv hsave
  refine ⟨writer, writer', hfiles, hreach, hsave, ?_⟩
  rw [hdata]
  refine not_readsBack_of_sentinel hreach.cdInv hlim ⟨?_, by omega, by omega, .inl ?_⟩
  · rw [hcount]
    decide
  · rw [hcount]
    rfl

end FileApi.Compress.Zip
