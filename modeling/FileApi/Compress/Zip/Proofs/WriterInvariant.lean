import FileApi.Compress.Zip.WriterAdd
import FileApi.Compress.Zip.Proofs.EntryRecords

/-!
# The archive while it grows

The shape of a writer between two entries: both streams stand at their end, the buffered
central directory is a sequence of records, one for each counted entry, and every record has
between 46 and `46 + ZIP_FILE_NAME_LEN_MAX + 28` bytes.
-/

namespace FileApi.Compress.Zip

/-- The largest central record. -/
def maxCentralRecord : Nat := 46 + ZIP_FILE_NAME_LEN_MAX + 28

structure CdInv (writer : ZipWriter) : Prop where
  baseAtEnd : writer.baseStream.AtEnd
  baseLimit : writer.baseStream.data.length < offLimit
  cdAtEnd : writer.cdMemStream.AtEnd
  cdLimit : writer.cdMemStream.data.length < offLimit
  lower : 46 * writer.totalNumberOfEntries.toNat ≤ writer.cdMemStream.data.length
  upper : writer.cdMemStream.data.length ≤ maxCentralRecord * writer.totalNumberOfEntries.toNat
  signed : writer.cdMemStream.data = [] ∨
    ∃ rest, writer.cdMemStream.data = putU32 ZIP_MAGIC_CENTRALHEADER ++ rest
  noComment : writer.globalCommentLength = 0

/-- The bytes an entry adds to the archive. -/
def entryBytes (e : ZipWriterEntryInfo) (payload : List UInt8) : List UInt8 :=
  localRecord e ++ payload

/-- The writer behind a finished entry. -/
def ZipWriter.addRecords (writer : ZipWriter) (e : ZipWriterEntryInfo) (payload : List UInt8) :
    ZipWriter :=
  { writer with
    baseStream := writer.baseStream.write (entryBytes e payload)
    cdMemStream := writer.cdMemStream.write (centralRecord e)
    totalNumberOfEntries := writer.totalNumberOfEntries + 1 }

/-- The entry as it is when its stream is closed. -/
def finishedEntry (writer : ZipWriter) (e : ZipWriterEntryInfo) (crc : UInt32) (c u : UInt64) :
    ZipWriterEntryInfo :=
  withSizes (openedEntry writer.baseStream.pos e) crc c u

section AddEntry

variable {writer : ZipWriter} {e : ZipWriterEntryInfo} (payload : List UInt8) (crc : UInt32)
  {c u : UInt64}

theorem localRecord_finishedEntry_length :
    (localRecord (finishedEntry writer e crc c u)).length = (localRecord e).length := by
  simp [localRecord_length, finishedEntry]

private theorem openAndWrite_eq (hbase : writer.baseStream.AtEnd)
    (hname : ¬ (e.filename.bytes.length = 0 ∨ e.filename.bytes.length > 0xffff)) :
    zipWriterAddEntry writer e payload crc c u =
      streamWrite writer.baseStream (entryBytes e payload) >>= fun baseStream =>
        zipWriterCloseStream { writer with baseStream } (finishedEntry writer e crc c u) := by
  unfold zipWriterAddEntry zipWriterEntryOpen
  simp only [hname, if_false]
  rw [zipEntryWriteLocalHeader_eq hbase]
  simp only [bind_assoc, ok_bind, pure_eq_ok]
  exact streamWrite_bind_then hbase _ _ _ _ fun _ _ _ _ => rfl

private theorem patchEntry_eq (hbase : writer.baseStream.AtEnd)
    (hoff : e.localHeaderOffset = UInt64.ofNat writer.baseStream.pos)
    (hlim : writer.baseStream.pos + (entryBytes e payload).length < offLimit)
    (hfits : e.zip64 = false → ¬ (c > UINT32_MAX.toUInt64 ∨ u > UINT32_MAX.toUInt64)) :
    zipEntryUpdateLocalHeader (writer.baseStream.write (entryBytes e payload))
        (finishedEntry writer e crc c u) =
      .ok (writer.baseStream.write (entryBytes (finishedEntry writer e crc c u) payload)) := by
  have hpos : writer.baseStream.pos = writer.baseStream.data.length := hbase
  rw [hpos] at hlim
  simp only [entryBytes, List.length_append, localRecord_length] at hlim
  rw [ByteFile.write_atEnd hbase, ByteFile.write_atEnd hbase]
  unfold entryBytes
  have hpatch : zipEntryUpdateLocalHeader
      ⟨writer.baseStream.data ++ (localRecord (openedEntry writer.baseStream.pos e) ++ payload),
        writer.baseStream.data.length + (localRecord e ++ payload).length⟩
      (withSizes (openedEntry writer.baseStream.pos e) crc c u) = _ :=
    zipEntryUpdateLocalHeader_eq crc ?_ ?_ ?_ ?_ (by simpa using hfits)
  · rw [localRecord_openedEntry] at hpatch
    have hsame : (localRecord (finishedEntry writer e crc c u) ++ payload).length =
        (localRecord e ++ payload).length := by
      rw [List.length_append, localRecord_finishedEntry_length, ← List.length_append]
    rw [hsame]
    exact hpatch
  · rw [openedEntry_localHeaderOffset, hoff, hpos, toNat_ofNat_of_offLimit (by omega)]
  · intro hzip
    rw [openedEntry_zip64] at hzip
    simp only [openedEntry, hzip, if_true] at hlim ⊢
    rw [hpos, toNat_ofNat_of_offLimit (by omega)]
    rfl
  · simp only [localRecord_openedEntry, List.length_append, localRecord_length]
    omega
  · simp only [List.length_append, localRecord_length]
    omega

/-- Every entry that is added is added as a whole: local record and packed data at the end of
the archive, central record at the end of the buffered directory, nothing else changed. -/
theorem zipWriterAddEntry_ok {writer' : ZipWriter} (hbase : writer.baseStream.AtEnd)
    (hcd : writer.cdMemStream.AtEnd)
    (hoff : e.localHeaderOffset = UInt64.ofNat writer.baseStream.pos)
    (h : zipWriterAddEntry writer e payload crc c u = .ok writer') :
    writer' = writer.addRecords (finishedEntry writer e crc c u) payload ∧
      (0 < e.filename.bytes.length ∧ e.filename.bytes.length < 2 ^ 16) ∧
      writer.baseStream.pos + (entryBytes e payload).length < offLimit ∧
      writer.cdMemStream.pos + (centralRecord (finishedEntry writer e crc c u)).length < offLimit := by
  have hname : ¬ (e.filename.bytes.length = 0 ∨ e.filename.bytes.length > 0xffff) := by
    intro hname
    unfold zipWriterAddEntry zipWriterEntryOpen at h
    rw [if_pos hname] at h
    cases h
  rw [openAndWrite_eq payload crc hbase hname] at h
  obtain ⟨written, hwritten, h⟩ := bind_eq_ok.mp h
  obtain ⟨hlim, rfl⟩ := streamWrite_ok hwritten
  unfold zipWriterCloseStream at h
  obtain ⟨patched, hpatched, h⟩ := bind_eq_ok.mp h
  obtain ⟨cd, hcdw, h⟩ := bind_eq_ok.mp h
  rw [zipEntryWriteCdHeader_eq hcd] at hcdw
  obtain ⟨hcdlim, rfl⟩ := streamWrite_ok hcdw
  have hfits : e.zip64 = false → ¬ (c > UINT32_MAX.toUInt64 ∨ u > UINT32_MAX.toUInt64) := by
    intro hzip
    exact zipEntryUpdateLocalHeader_fits hpatched (by simpa [finishedEntry] using hzip)
  rw [patchEntry_eq payload crc hbase hoff hlim hfits] at hpatched
  cases hpatched
  cases h
  exact ⟨rfl, ⟨by omega, by omega⟩, hlim, hcdlim⟩

theorem zipWriterAddEntry_of_fits (hbase : writer.baseStream.AtEnd)
    (hcd : writer.cdMemStream.AtEnd)
    (hoff : e.localHeaderOffset = UInt64.ofNat writer.baseStream.pos)
    (hname : ¬ (e.filename.bytes.length = 0 ∨ e.filename.bytes.length > 0xffff))
    (hlim : writer.baseStream.pos + (entryBytes e payload).length < offLimit)
    (hcdlim : writer.cdMemStream.pos + (centralRecord (finishedEntry writer e crc c u)).length <
      offLimit)
    (hfits : e.zip64 = false → ¬ (c > UINT32_MAX.toUInt64 ∨ u > UINT32_MAX.toUInt64)) :
    zipWriterAddEntry writer e payload crc c u =
      .ok (writer.addRecords (finishedEntry writer e crc c u) payload) := by
  rw [openAndWrite_eq payload crc hbase hname, streamWrite_of_lt hlim, ok_bind]
  unfold zipWriterCloseStream
  rw [patchEntry_eq payload crc hbase hoff hlim hfits, ok_bind, zipEntryWriteCdHeader_eq hcd,
    streamWrite_of_lt hcdlim, ok_bind]
  rfl

end AddEntry

theorem centralRecord_bounds {e : ZipWriterEntryInfo}
    (hname : e.filename.bytes.length ≤ ZIP_FILE_NAME_LEN_MAX) :
    46 ≤ (centralRecord e).length ∧ (centralRecord e).length ≤ maxCentralRecord := by
  have hfield := nameField_length_le e
  have hextra := centralExtra_length_le e
  rw [centralRecord_length]
  unfold maxCentralRecord
  omega

theorem CdInv.addRecords {writer : ZipWriter} (inv : CdInv writer) {e : ZipWriterEntryInfo}
    {payload : List UInt8} (hname : e.filename.bytes.length ≤ ZIP_FILE_NAME_LEN_MAX)
    (hlim : writer.baseStream.pos + (entryBytes e payload).length < offLimit)
    (hcdlim : writer.cdMemStream.pos + (centralRecord e).length < offLimit) :
    CdInv (writer.addRecords e payload) := by
  have hbase : writer.baseStream.pos = writer.baseStream.data.length := inv.baseAtEnd
  have hcd : writer.cdMemStream.pos = writer.cdMemStream.data.length := inv.cdAtEnd
  obtain ⟨hlow, hhigh⟩ := centralRecord_bounds hname
  have hlower := inv.lower
  have hupper := inv.upper
  have hcount : (writer.totalNumberOfEntries + 1).toNat = writer.totalNumberOfEntries.toNat + 1 := by
    -- Each record takes 46 bytes of a file whose length is below `2^63`.
    have hlimit := inv.cdLimit
    unfold offLimit at hlimit
    rw [UInt64.toNat_add, show (1 : UInt64).toNat = 1 from rfl, Nat.mod_eq_of_lt (by omega)]
  refine ⟨inv.baseAtEnd.write _, ?_, inv.cdAtEnd.write _, ?_, ?_, ?_, ?_, inv.noComment⟩
  · simp only [ZipWriter.addRecords, ByteFile.write_atEnd inv.baseAtEnd, List.length_append]
    omega
  · simp only [ZipWriter.addRecords, ByteFile.write_atEnd inv.cdAtEnd, List.length_append]
    omega
  · simp only [ZipWriter.addRecords, ByteFile.write_atEnd inv.cdAtEnd, List.length_append, hcount]
    omega
  · simp only [ZipWriter.addRecords, ByteFile.write_atEnd inv.cdAtEnd, List.length_append, hcount,
      Nat.mul_add, Nat.mul_one]
    omega
  · refine Or.inr ?_
    simp only [ZipWriter.addRecords, ByteFile.write_atEnd inv.cdAtEnd]
    rcases inv.signed with hnil | ⟨rest, hrest⟩
    · exact ⟨_, by rw [hnil, List.nil_append, centralRecord, List.append_assoc]⟩
    · exact ⟨rest ++ centralRecord e, by rw [hrest, List.append_assoc]⟩

theorem ZipWriter.Reach.cdInv {writer : ZipWriter} (h : writer.Reach) : CdInv writer := by
  induction h with
  | opened => exact ⟨rfl, by decide, rfl, by decide, by decide, by decide, .inl rfl, rfl⟩
  | added method level emptyDir st saveName payload crc c u _ hname hadd inv =>
      obtain ⟨rfl, -, hlim, hcdlim⟩ :=
        zipWriterAddEntry_ok payload crc inv.baseAtEnd inv.cdAtEnd rfl hadd
      refine inv.addRecords (by simpa [finishedEntry, zipWriterOpenInitEntryInfo] using hname) ?_ hcdlim
      simpa only [entryBytes, List.length_append, localRecord_finishedEntry_length] using hlim

end FileApi.Compress.Zip
