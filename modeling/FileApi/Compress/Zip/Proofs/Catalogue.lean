import Mathlib.Data.List.Forall2
import FileApi.Compress.Zip.Proofs.CentralEntry
import FileApi.Compress.Zip.Proofs.Walk
import FileApi.Compress.Zip.ReaderExtract

/-!
# What an archive has of the entries that were added

A run of the writer, with the entries that it adds: each has its local header and its data at its
offset, and the directory is the records of the entries in order. So the walk of the reader comes to
one entry for each that was added, and from its local header to its data.
-/

namespace FileApi.Compress.Zip

/-! ## The entries of a run -/

/-- What an entry was added with, and what is known of it at its close. -/
structure AddedEntry where
  method : UInt16
  level : Int
  emptyDir : Bool
  st : PathStat
  saveName : CString
  payload : List UInt8
  crc : UInt32
  compressedSize : UInt64
  uncompressedSize : UInt64
  offset : UInt64

def AddedEntry.entry (item : AddedEntry) : ZipWriterEntryInfo :=
  writtenEntry item.method item.level item.emptyDir item.st item.saveName item.crc
    item.compressedSize item.uncompressedSize item.offset

/-- The successful runs of the writer, with their entries. -/
inductive ZipWriter.Adds : ZipWriter → List AddedEntry → Prop
  | opened : Adds zipWriterOpened []
  | added {writer writer' : ZipWriter} {items : List AddedEntry} (item : AddedEntry)
      (run : Adds writer items) (hname : item.saveName.bytes.length ≤ ZIP_FILE_NAME_LEN_MAX)
      (hoffset : item.offset = UInt64.ofNat (streamTell writer.baseStream))
      (hadd : zipWriterAddEntry writer
        (zipWriterOpenInitEntryInfo item.method item.level item.emptyDir item.st item.offset
          item.saveName)
        item.payload item.crc item.compressedSize item.uncompressedSize = .ok writer') :
      Adds writer' (items ++ [item])

/-- The records of the directory. -/
def records (items : List AddedEntry) : List UInt8 :=
  items.flatMap fun item => centralRecord item.entry

/-- The entry is in the archive, at its offset. -/
def Holds (data : List UInt8) (item : AddedEntry) : Prop :=
  ∃ front back, data = front ++ (entryBytes item.entry item.payload ++ back) ∧
    item.offset = UInt64.ofNat front.length

/-- What a writer has of its entries. -/
structure Catalogue (writer : ZipWriter) (items : List AddedEntry) : Prop where
  inv : CdInv writer
  count : writer.totalNumberOfEntries.toNat = items.length
  directory : writer.cdMemStream.data = records items
  data : ∀ item ∈ items, Holds writer.baseStream.data item
  names : ∀ item ∈ items, item.saveName.bytes.length ≤ ZIP_FILE_NAME_LEN_MAX

theorem Holds.append {data : List UInt8} {item : AddedEntry} (h : Holds data item)
    (more : List UInt8) : Holds (data ++ more) item := by
  obtain ⟨front, back, hdata, hoffset⟩ := h
  refine ⟨front, back ++ more, ?_, hoffset⟩
  simp only [hdata, List.append_assoc]

theorem records_openedEntry (pos : Nat) (e : ZipWriterEntryInfo) (crc : UInt32) (c u : UInt64) :
    centralRecord (withSizes (openedEntry pos e) crc c u) = centralRecord (withSizes e crc c u) ∧
      localRecord (withSizes (openedEntry pos e) crc c u) = localRecord (withSizes e crc c u) := by
  unfold openedEntry
  split
  · exact ⟨rfl, rfl⟩
  · exact ⟨rfl, rfl⟩

/-- One entry more. -/
theorem Catalogue.add {writer writer' : ZipWriter} {items : List AddedEntry} {item : AddedEntry}
    (h : Catalogue writer items) (hname : item.saveName.bytes.length ≤ ZIP_FILE_NAME_LEN_MAX)
    (hoffset : item.offset = UInt64.ofNat (streamTell writer.baseStream))
    (hadd : zipWriterAddEntry writer
      (zipWriterOpenInitEntryInfo item.method item.level item.emptyDir item.st item.offset
        item.saveName)
      item.payload item.crc item.compressedSize item.uncompressedSize = .ok writer') :
    Catalogue writer' (items ++ [item]) := by
  have hpos : writer.baseStream.pos = writer.baseStream.data.length := h.inv.baseAtEnd
  obtain ⟨rfl, -, hlim, hcdlim⟩ :=
    zipWriterAddEntry_ok item.payload item.crc h.inv.baseAtEnd h.inv.cdAtEnd hoffset hadd
  set opened := zipWriterOpenInitEntryInfo item.method item.level item.emptyDir item.st item.offset
    item.saveName with hopened
  obtain ⟨hcentral, hlocal⟩ := records_openedEntry writer.baseStream.pos opened item.crc
    item.compressedSize item.uncompressedSize
  have hentry : withSizes opened item.crc item.compressedSize item.uncompressedSize =
      item.entry := rfl
  rw [hentry] at hcentral hlocal
  have hinv : CdInv (writer.addRecords (finishedEntry writer opened item.crc item.compressedSize
      item.uncompressedSize) item.payload) := by
    refine h.inv.addRecords ?_ ?_ hcdlim
    · simpa [finishedEntry, hopened, zipWriterOpenInitEntryInfo] using hname
    · simpa only [entryBytes, List.length_append, localRecord_finishedEntry_length] using hlim
  have hcount : (writer.totalNumberOfEntries + 1).toNat =
      writer.totalNumberOfEntries.toNat + 1 := by
    have hlower := h.inv.lower
    have hlimit := h.inv.cdLimit
    unfold offLimit at hlimit
    rw [UInt64.toNat_add, show (1 : UInt64).toNat = 1 from rfl, Nat.mod_eq_of_lt (by omega)]
  have hdata : (writer.baseStream.write (entryBytes (finishedEntry writer opened item.crc
      item.compressedSize item.uncompressedSize) item.payload)).data =
      writer.baseStream.data ++ entryBytes item.entry item.payload := by
    rw [ByteFile.write_atEnd h.inv.baseAtEnd, entryBytes, finishedEntry, hlocal]
    rfl
  refine ⟨hinv, ?_, ?_, ?_, ?_⟩
  · rw [List.length_append, ← h.count]
    exact hcount
  · show (writer.cdMemStream.write _).data = _
    rw [ByteFile.write_atEnd h.inv.cdAtEnd, h.directory, finishedEntry, hcentral, records, records,
      List.flatMap_append, List.flatMap_singleton]
  · intro other hother
    show Holds (writer.baseStream.write _).data other
    rw [hdata]
    rcases List.mem_append.mp hother with hold | hnew
    · exact (h.data other hold).append _
    · obtain rfl := List.mem_singleton.mp hnew
      refine ⟨writer.baseStream.data, [], by rw [List.append_nil], ?_⟩
      rw [hoffset, streamTell, hpos]
  · intro other hother
    rcases List.mem_append.mp hother with hold | hnew
    · exact h.names other hold
    · obtain rfl := List.mem_singleton.mp hnew
      exact hname

theorem ZipWriter.Adds.catalogue {writer : ZipWriter} {items : List AddedEntry}
    (h : writer.Adds items) : Catalogue writer items := by
  induction h with
  | opened =>
    have hinv : CdInv zipWriterOpened :=
      ⟨rfl, by decide, rfl, by decide, by decide, by decide, .inl rfl, rfl⟩
    exact ⟨hinv, rfl, rfl, by simp, by simp⟩
  | added item _ hname hoffset hadd ih => exact ih.add hname hoffset hadd

/-! ## The walk of the reader -/

/-- The entry that is read back for one that was added. -/
def ReadsAs (convert : List UInt8 → Option CString) (item : AddedEntry) (entry : ZipReaderEntry) :
    Prop :=
  ∃ name, readBackName convert item.saveName = .ok name ∧ ReadBackAs item.entry name entry

section

variable {convert : List UInt8 → Option CString} {reader : ZipReader} {item : AddedEntry}
  {pre post : List UInt8}

/-- The record of an entry, wherever it is in the directory, and where the next one is. -/
theorem zipReaderGoToCentralDirHeader_added
    (hname : item.saveName.bytes.length ≤ ZIP_FILE_NAME_LEN_MAX) {name : CString}
    (hback : readBackName convert item.saveName = .ok name)
    (hshift : ¬ Zip64Shift item.uncompressedSize item.compressedSize item.offset)
    (hdata : reader.baseStream.data = pre ++ (centralRecord item.entry ++ post))
    (hlim : reader.baseStream.data.length < offLimit)
    (hinside : UInt64.ofNat pre.length < reader.offsetOfCentralDir + reader.sizeOfCentralDir) :
    ∃ entry, zipReaderGoToCentralDirHeader convert reader (UInt64.ofNat pre.length) = .ok entry ∧
      ReadsAs convert item entry ∧
      nextCentralDirHeaderPos (UInt64.ofNat pre.length) entry.centralDirHeader =
        UInt64.ofNat (pre ++ centralRecord item.entry).length := by
  have hread := zipReaderGoToCentralDirHeader_record convert (e := item.entry) hname hshift hdata
    hlim hinside
  have hmethod : headerMethod item.entry = item.entry.compressionMethod := by
    have hplain : item.entry.flag &&& ZIP_FLAG_ENCRYPTED = 0 :=
      (writtenEntry_flag item.method item.level item.emptyDir item.st item.saveName item.crc
        item.compressedSize item.uncompressedSize item.offset).1
    rw [headerMethod, if_neg (not_not.mpr hplain)]
  have hencoding := zipReaderNameEncoding_written item.method item.level item.emptyDir item.st
    item.saveName item.crc item.compressedSize item.uncompressedSize item.offset convert hname
  rw [hback] at hencoding
  cases hname' : zipReaderNameEncoding convert (restoredEntry item.entry) with
  | error err =>
    rw [AddedEntry.entry] at hname'
    rw [hname'] at hencoding
    cases hencoding
  | ok entryName =>
    rw [hname', ok_bind] at hread
    refine ⟨_, hread, ⟨name, hback, rfl, rfl, rfl, rfl, hmethod, ?_⟩, ?_⟩
    · have hslash := zipReaderConvertPathSlash_written item.method item.level item.emptyDir item.st
        item.saveName item.crc item.compressedSize item.uncompressedSize item.offset entryName
      rw [AddedEntry.entry] at hname'
      rw [hname'] at hencoding
      show cstr (zipReaderConvertPathSlash (recordHeader item.entry) entryName) = name.bytes
      rw [AddedEntry.entry, hslash]
      exact Except.ok.inj hencoding
    · show nextCentralDirHeaderPos _ (recordHeader item.entry) = _
      have hextra := recordHeader_extraFieldLength item.entry
      have hlong : item.saveName.bytes.length < 2 ^ 16 := by
        unfold ZIP_FILE_NAME_LEN_MAX at hname
        omega
      have hfile : (recordHeader item.entry).fileNameLength.toNat =
          (nameField item.entry).length := by
        rw [nameField_of_le hlong]
        exact UInt16.toNat_ofNat_of_lt' hlong
      rw [nextCentralDirHeaderPos, List.length_append, centralRecord_length, UInt64.ofNat_add,
        UInt64.ofNat_add, UInt64.ofNat_add, ← hextra, ← hfile]
      simp [ZIP_SIZE_CD_ITEM, recordHeader, centralDirHeader, UInt64.add_assoc]

/-- What a record needs to come back as it was written. -/
structure AddedEntry.Readable (convert : List UInt8 → Option CString) (item : AddedEntry) :
    Prop where
  named : ∃ name, readBackName convert item.saveName = .ok name
  unshifted : ¬ Zip64Shift item.uncompressedSize item.compressedSize item.offset

/-- The walk over the records of `todo`, which stand behind those of `done`. -/
theorem centralRecords_added {base tail : List UInt8} {todo : List AddedEntry} :
    ∀ {done : List AddedEntry},
      (∀ item ∈ todo, item.saveName.bytes.length ≤ ZIP_FILE_NAME_LEN_MAX) →
      (∀ item ∈ todo, item.Readable convert) →
      reader.baseStream.data = base ++ records (done ++ todo) ++ tail →
      reader.baseStream.data.length < offLimit →
      reader.offsetOfCentralDir + reader.sizeOfCentralDir =
        UInt64.ofNat (base ++ records (done ++ todo)).length →
      ∃ entries, CentralRecords convert reader (UInt64.ofNat (base ++ records done).length)
          entries ∧
        List.Forall₂ (ReadsAs convert) todo entries := by
  induction todo with
  | nil =>
    intro done _ _ _ _ _
    exact ⟨[], .nil, .nil⟩
  | cons item todo ih =>
    intro done hnames hreadable hdata hlim hplace
    obtain ⟨⟨name, hback⟩, hshift⟩ := hreadable item List.mem_cons_self
    have hsplit : records (done ++ item :: todo) =
        records done ++ (centralRecord item.entry ++ records todo) := by
      simp [records]
    have hnext : done ++ item :: todo = done ++ [item] ++ todo := by simp
    have hsingle : base ++ records (done ++ [item]) =
        base ++ records done ++ centralRecord item.entry := by
      simp [records]
    have hhere : reader.baseStream.data =
        (base ++ records done) ++ (centralRecord item.entry ++ (records todo ++ tail)) := by
      rw [hdata, hsplit]
      simp only [List.append_assoc]
    have hinside : UInt64.ofNat (base ++ records done).length <
        reader.offsetOfCentralDir + reader.sizeOfCentralDir := by
      have hpositive := centralRecord_length item.entry
      rw [hdata, hsplit] at hlim
      simp only [List.length_append] at hlim
      rw [hplace, hsplit, UInt64.lt_iff_toNat_lt]
      simp only [List.length_append]
      rw [toNat_ofNat_of_offLimit (by omega), toNat_ofNat_of_offLimit (by omega)]
      omega
    obtain ⟨entry, hentry, hreads, hpos⟩ := zipReaderGoToCentralDirHeader_added
      (hnames item List.mem_cons_self) hback hshift hhere hlim hinside
    rw [← hsingle] at hpos
    rw [hnext] at hdata hplace
    obtain ⟨entries, hrecords, hall⟩ := ih
      (fun other hother => hnames other (List.mem_cons_of_mem _ hother))
      (fun other hother => hreadable other (List.mem_cons_of_mem _ hother)) hdata hlim hplace
    rw [← hpos] at hrecords
    exact ⟨entry :: entries, .cons hentry hrecords, .cons hreads hall⟩

theorem CentralRecords.unique {pos : UInt64} {entries : List ZipReaderEntry}
    (h : CentralRecords convert reader pos entries) :
    ∀ {others : List ZipReaderEntry}, CentralRecords convert reader pos others →
      entries.length = others.length → entries = others := by
  induction h with
  | nil =>
    intro others _ hlength
    exact (List.length_eq_zero_iff.mp hlength.symm).symm
  | cons head _ ih =>
    intro others hothers hlength
    cases hothers with
    | nil => cases hlength
    | cons head' tail' =>
      obtain rfl := Except.ok.inj (head.symm.trans head')
      rw [ih tail' (Nat.succ.inj hlength)]

end

end FileApi.Compress.Zip
