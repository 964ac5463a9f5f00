import FileApi.Compress.Proofs.Buffer
import FileApi.Compress.Zip.Proofs.Catalogue
import FileApi.Compress.Zip.Proofs.Delivered
import FileApi.Compress.Zip.Proofs.EndRecords

/-!
# What is archived is what is extracted

An archive that a run of the writer left and closed is opened by the reader. The reader finds one
entry for each that was added, in order and under its name, and an entry that is saved has the
content that was packed.
-/

namespace FileApi.Compress.Zip

open Zlib

/-! ## From the record to the data -/

section

variable {convert : List UInt8 → Option CString} {reader : ZipReader} {item : AddedEntry}
  {entry : ZipReaderEntry}

theorem streamSeek_cur {data : List UInt8} {pos k : Nat} (h : pos + k < offLimit) :
    streamSeek ⟨data, pos⟩ (k : Int) .cur = .ok ⟨data, pos + k⟩ := by
  simp only [streamSeek]
  rw [if_pos ⟨by omega, by exact_mod_cast h⟩]
  rfl

/-- Behind the local header that the entry leads to is its data. -/
theorem zipReaderProcessLocalHeader_added (hreads : ReadsAs convert item entry)
    (hname : item.saveName.bytes.length ≤ ZIP_FILE_NAME_LEN_MAX)
    (hcorrection : reader.offsetCorrection = 0) {tail : List UInt8} {data : List UInt8}
    (hdata : reader.baseStream.data = data ++ tail)
    (hlim : reader.baseStream.data.length < offLimit) (hholds : Holds data item) :
    ∃ base behind, zipReaderProcessLocalHeader reader entry = .ok base ∧
      base.data.drop base.pos = item.payload ++ (behind ++ tail) := by
  obtain ⟨front, back, hfile, hoffset⟩ := hholds
  obtain ⟨name, -, hback⟩ := hreads
  have harchive : reader.baseStream.data =
      front ++ ((localFileHeader item.entry).toBytes ++ (nameField item.entry ++
        ((if item.entry.zip64 then localExtraDataZIP64 item.entry else []) ++
          (item.payload ++ (back ++ tail))))) := by
    rw [hdata, hfile]
    simp only [entryBytes, localRecord, List.append_assoc]
  have hlength : reader.baseStream.data.length = front.length + 30 + (nameField item.entry).length +
      (if item.entry.zip64 then localExtraDataZIP64 item.entry else []).length +
        (item.payload ++ (back ++ tail)).length := by
    rw [harchive]
    simp only [List.length_append, LocalFileHeader.toBytes_length]
    omega
  have hplace : entry.entryInfo.relativeOffsetOfLocalHeader = UInt64.ofNat front.length := by
    rw [hback.offset]
    exact hoffset
  have hfront : (UInt64.ofNat front.length).toNat = front.length :=
    toNat_ofNat_of_offLimit (by omega)
  have hsigned : ∃ rest, reader.baseStream.data.drop front.length =
      putU32 ZIP_MAGIC_LOCALHEADER ++ rest := by
    rw [harchive, List.drop_left, LocalFileHeader.toBytes, List.append_assoc]
    exact ⟨_, rfl⟩
  obtain ⟨rest, hsigned⟩ := hsigned
  have hseek : zipSeekAndCheckLocalHeader reader.baseStream
      entry.entryInfo.relativeOffsetOfLocalHeader reader.offsetCorrection =
        .ok ⟨reader.baseStream.data, front.length⟩ := by
    have hplain : zipSeekLocalHeader reader.baseStream (UInt64.ofNat front.length) =
        .ok ⟨reader.baseStream.data, front.length⟩ := by
      rw [zipSeekLocalHeader, toInt64_of_lt (by omega), hfront, streamSeek_set (by omega), ok_bind,
        ByteFile.seekTo, zipCheckSignature_eq hsigned, if_pos rfl]
      rfl
    rw [zipSeekAndCheckLocalHeader, hcorrection, hplace, hplain]
    rfl
  have hheader : (streamRead ⟨reader.baseStream.data, front.length⟩ 30).1 =
      (localFileHeader item.entry).toBytes := by
    simp only [streamRead, ByteFile.read, harchive, List.drop_left]
    exact List.take_left' (LocalFileHeader.toBytes_length _)
  have hbehind : (streamRead ⟨reader.baseStream.data, front.length⟩ 30).2 =
      ⟨reader.baseStream.data, front.length + 30⟩ := by
    show (⟨_, front.length + (streamRead _ 30).1.length⟩ : ByteFile) = _
    rw [hheader, LocalFileHeader.toBytes_length]
  have hextra : (localFileHeader item.entry).extraFieldLength.toNat =
      (if item.entry.zip64 then localExtraDataZIP64 item.entry else []).length := by
    rw [localFileHeader]
    cases item.entry.zip64
    · rfl
    · simp
  have hfile : (localFileHeader item.entry).fileNameLength.toNat =
      (nameField item.entry).length := by
    have hlong : item.saveName.bytes.length < 2 ^ 16 := by
      unfold ZIP_FILE_NAME_LEN_MAX at hname
      omega
    rw [nameField_of_le hlong]
    exact UInt16.toNat_ofNat_of_lt' hlong
  have hparsed : LocalFileHeader.ofBytes (localFileHeader item.entry).toBytes =
      localFileHeader item.entry := by
    simpa using LocalFileHeader.ofBytes_toBytes (localFileHeader item.entry) []
  refine ⟨⟨reader.baseStream.data, front.length + 30 + (nameField item.entry).length +
    (if item.entry.zip64 then localExtraDataZIP64 item.entry else []).length⟩, back, ?_, ?_⟩
  · rw [zipReaderProcessLocalHeader, hseek, ok_bind]
    dsimp only
    rw [hheader, if_neg (by simp), hparsed, hextra, hfile, ← Nat.cast_add, hbehind,
      streamSeek_cur (by omega), ← Nat.add_assoc]
  · show reader.baseStream.data.drop _ = _
    rw [harchive, ← List.drop_drop, ← List.drop_drop, ← List.drop_drop, List.drop_left,
      List.drop_left' (LocalFileHeader.toBytes_length _), List.drop_left, List.drop_left]

/-- `content` is what was packed, and checksum and sizes are those of `content` and of the data. -/
structure AddedEntry.Packs (D : Decoder) (item : AddedEntry) (content : List UInt8) : Prop where
  packed : item.entry.compressionMethod = 0 ∧ item.payload = content ∨
    item.entry.compressionMethod = 8 ∧ D.complete item.payload ∧ D.out item.payload = content
  compressedSize : item.compressedSize.toNat = item.payload.length
  uncompressedSize : item.uncompressedSize.toNat = content.length
  crc : item.crc = crc32 0 content

variable {D : Decoder} {I : Inflate D} {content : List UInt8} {fuel : Nat}

variable {info : ZipReaderEntryInfo}

theorem zipReaderCompressStream_stored (h : info.compressionMethod = 0) :
    zipReaderCompressStream I info = .ok (.raw info.compressedSize 0) := by
  rw [zipReaderCompressStream, h]
  rfl

theorem zipReaderCompressStream_deflated (h : info.compressionMethod = 8) :
    zipReaderCompressStream I info = .ok (.deflate I.reset [] 0) := by
  rw [zipReaderCompressStream, h]
  rfl

theorem AddedEntry.Packs.unread (h : item.Packs D content)
    (hcompressed : info.compressedSize = item.compressedSize)
    (huncompressed : info.uncompressedSize = item.uncompressedSize)
    (hmethod : info.compressionMethod = item.entry.compressionMethod) {base : ByteFile}
    {behind : List UInt8} (hbehind : behind ≠ [])
    (hdata : base.data.drop base.pos = item.payload ++ behind)
    (hfuel : item.payload.length + content.length < fuel) :
    ∃ stream, zipReaderCompressStream I info = .ok stream ∧
      Unread I info fuel ⟨base, stream, 0, []⟩ content := by
  by_cases hempty : info.compressedSize = 0 ∨ info.uncompressedSize = 0
  · have hnone : content = [] := by
      have hsizes := h.compressedSize
      have hlength := h.uncompressedSize
      rw [hcompressed, huncompressed] at hempty
      rcases hempty with hzero | hzero
      · rw [hzero] at hsizes
        have hpayload : item.payload = [] := List.length_eq_zero_iff.mp hsizes.symm
        rcases h.packed with ⟨-, hstored⟩ | ⟨-, -, hout⟩
        · rw [← hstored, hpayload]
        · rw [← hout, hpayload, D.out_nil]
      · rw [hzero] at hlength
        exact List.length_eq_zero_iff.mp hlength.symm
    subst hnone
    rcases h.packed with ⟨hkind, -⟩ | ⟨hkind, -⟩
    · exact ⟨_, zipReaderCompressStream_stored (hmethod.trans hkind), .none hempty⟩
    · exact ⟨_, zipReaderCompressStream_deflated (hmethod.trans hkind), .none hempty⟩
  · rcases h.packed with ⟨hkind, hstored⟩ | ⟨hkind, hcomplete, hout⟩
    · rw [hstored] at hdata
      refine ⟨_, zipReaderCompressStream_stored (hmethod.trans hkind),
        .stored hempty rfl hdata ?_⟩
      rw [hcompressed, h.compressedSize, hstored]
      exact Nat.zero_add _
    · have hstart : Inflating I item.payload behind [] item.payload ⟨base, I.reset, [], 0, []⟩ :=
        ⟨⟨[], rfl, I.reset_holds⟩, List.nil_prefix, hdata⟩
      refine ⟨_, zipReaderCompressStream_deflated (hmethod.trans hkind),
        .deflated hempty rfl hcomplete hbehind hstart hout ?_⟩
      rw [hout]
      exact hfuel

theorem delivers_added (hframed : I.Framed) (hprompt : I.Prompt)
    (hreads : ReadsAs convert item entry)
    (hname : item.saveName.bytes.length ≤ ZIP_FILE_NAME_LEN_MAX)
    (hcorrection : reader.offsetCorrection = 0) {tail : List UInt8} {data : List UInt8}
    (hdata : reader.baseStream.data = data ++ tail) (htail : tail ≠ [])
    (hlim : reader.baseStream.data.length < offLimit) (hholds : Holds data item)
    (hpacks : item.Packs D content)
    (hlink : zipReaderEntryIsSymlink entry.centralDirHeader = false)
    (hfuel : item.payload.length + content.length < fuel) : Delivers I reader entry content fuel := by
  obtain ⟨base, behind, hbase, hrest⟩ :=
    zipReaderProcessLocalHeader_added hreads hname hcorrection hdata hlim hholds
  obtain ⟨name, -, hback⟩ := hreads
  have hmore : behind ++ tail ≠ [] := by simp [htail]
  obtain ⟨stream, hstream, hunread⟩ := hpacks.unread hback.compressedSize hback.uncompressedSize
    hback.method hmore hrest hfuel
  refine delivers_of_unread hframed hprompt hlink hbase hstream hunread ?_ (by omega)
  rw [hback.crc]
  exact hpacks.crc

end

/-! ## The walk, from both sides -/

section

variable {W : Type} {convert : List UInt8 → Option CString} {reader : ZipReader}
  {extractEntry : ZipReaderEntry → Run W Unit}

theorem zipReaderExtractFrom_announced {rest : List ZipReaderEntry} :
    ∀ {pos : UInt64} {entry : ZipReaderEntry} {w w' : W},
      CentralRecords convert reader (nextCentralDirHeaderPos pos entry.centralDirHeader) rest →
      Extracted extractEntry (entry :: rest) w w' →
      zipReaderExtractFrom convert reader extractEntry rest.length pos entry w =
        .ok (entry :: rest) w' := by
  induction rest with
  | nil =>
    intro pos entry w w' _ hextracted
    cases hextracted with
    | cons head tail =>
      cases tail
      exact Program.bind_ok head
  | cons next rest ih =>
    intro pos entry w w' hrecords hextracted
    cases hextracted with
    | cons head tail =>
      cases hrecords with
      | cons hgo hrest =>
        rw [List.length_cons, zipReaderExtractFrom, Program.bind_ok head, hgo]
        exact Program.bind_ok (ih hrest tail)

theorem CentralRecords.next {pos : UInt64} {entries : List ZipReaderEntry}
    (h : CentralRecords convert reader pos entries) :
    ∀ {fewer : List ZipReaderEntry}, CentralRecords convert reader pos fewer →
      fewer.length < entries.length →
      ∃ entry, zipReaderGoToCentralDirHeader convert reader (posBehind pos fewer) = .ok entry := by
  induction h with
  | nil =>
    intro fewer _ hlength
    cases hlength
  | @cons pos entry rest head _ ih =>
    intro fewer hfewer hlength
    cases hfewer with
    | nil => exact ⟨entry, head⟩
    | cons head' tail' =>
      obtain rfl := Except.ok.inj (head.symm.trans head')
      exact ih tail' (Nat.lt_of_succ_lt_succ hlength)

/-- Where the announced entries are records in order, a successful extraction is one of exactly
these. -/
theorem zipReaderExtractAllFiles_iff {entries : List ZipReaderEntry}
    (hcount : reader.totalNumberOfEntries.toNat = entries.length)
    (hrecords : CentralRecords convert reader reader.offsetOfCentralDir entries) {w w' : W}
    {log : List ZipReaderEntry} :
    zipReaderExtractAllFiles convert reader extractEntry w = .ok log w' ↔
      entries ≠ [] ∧ log = entries ∧ Extracted extractEntry entries w w' := by
  have hnext := @CentralRecords.next convert reader _ _ hrecords log
  rw [zipReaderExtractAllFiles]
  cases hrecords with
  | nil =>
    rw [hcount]
    constructor
    · intro h
      cases h
    · rintro ⟨hne, -⟩
      exact absurd rfl hne
  | @cons _ entry rest head tail =>
    rw [hcount, List.length_cons]
    dsimp only
    rw [head]
    constructor
    · intro h
      obtain ⟨hlog, hextracted, -, hlength⟩ := zipReaderExtractFrom_ok rest.length head h
      rcases hlength with hall | ⟨hfewer, hend⟩
      · obtain rfl := hlog.unique (.cons head tail) hall
        exact ⟨List.cons_ne_nil _ _, rfl, hextracted⟩
      · obtain ⟨other, hother⟩ := hnext hlog (Nat.lt_succ_of_le hfewer)
        cases hend.symm.trans hother
    · rintro ⟨-, rfl, hextracted⟩
      exact zipReaderExtractFrom_announced tail hextracted

end

/-! ## The archive -/

section

variable {D : Decoder} {I : Inflate D} {convert : List UInt8 → Option CString}
  {writer writer' : ZipWriter} {items : List AddedEntry}

/-- The entry that was read for one that was added delivers what was packed; a link is not saved to
a file. -/
def Recovered (I : Inflate D) (convert : List UInt8 → Option CString) (reader : ZipReader)
    (item : AddedEntry) (entry : ZipReaderEntry) : Prop :=
  ReadsAs convert item entry ∧
    ∀ content, item.Packs D content → zipReaderEntryIsSymlink entry.centralDirHeader = false →
      ∀ fuel, item.payload.length + content.length < fuel → Delivers I reader entry content fuel

/-- The archive is opened, and an extraction succeeds if and only if that of its entries does, one
for each that was added and in order. -/
def Recovers (I : Inflate D) (convert : List UInt8 → Option CString) (archive : List UInt8)
    (items : List AddedEntry) : Prop :=
  ∃ reader entries, zipReaderOpenFile archive = .ok reader ∧
    List.Forall₂ (Recovered I convert reader) items entries ∧
    ∀ (W : Type) (extractEntry : ZipReaderEntry → Run W Unit) (w w' : W)
      (log : List ZipReaderEntry),
      zipReaderExtractAllFiles convert reader extractEntry w = .ok log w' ↔
        entries ≠ [] ∧ log = entries ∧ Extracted extractEntry entries w w'

theorem endRecords_ne_nil (writer : ZipWriter) (pos : Nat) : endRecords writer pos ≠ [] := by
  intro hnil
  have hlength := congrArg List.length hnil
  unfold endRecords at hlength
  split at hlength
  · simp [ZIP_SIZE_EOCD_FIXED] at hlength
  · simp [ZIP_SIZE_EOCD_FIXED] at hlength

theorem Catalogue.recovers (hframed : I.Framed) (hprompt : I.Prompt)
    (h : Catalogue writer items) (hclose : zipWriterSaveCD writer = .ok writer')
    (hsentinel : ¬ SentinelWithoutZip64 writer)
    (hreadable : ∀ item ∈ items, item.Readable convert) :
    Recovers I convert writer'.baseStream.data items := by
  obtain ⟨hdata, hlim⟩ := zipWriterSaveCD_ok h.inv hclose
  obtain ⟨reader, hreader⟩ := reopened_closedArchive h.inv hlim hsentinel
  have hpos : writer.baseStream.pos = writer.baseStream.data.length := h.inv.baseAtEnd
  have harchive : reader.baseStream.data = closedArchive writer := by rw [hreader.stream]
  have hlim' := hlim
  rw [← harchive] at hlim'
  set tail := endRecords (closingWriter writer)
    (writer.baseStream.data.length + writer.cdMemStream.data.length) with htail
  have hplace : reader.offsetOfCentralDir + reader.sizeOfCentralDir =
      UInt64.ofNat (writer.baseStream.data ++ records ([] ++ items)).length := by
    rw [hreader.offset, hreader.size, List.nil_append, ← h.directory, List.length_append,
      UInt64.ofNat_add, hpos]
  have hstart : reader.offsetOfCentralDir =
      UInt64.ofNat (writer.baseStream.data ++ records []).length := by
    rw [hreader.offset, hpos, records, List.flatMap_nil, List.append_nil]
  have hwhole : reader.baseStream.data =
      writer.baseStream.data ++ records ([] ++ items) ++ tail := by
    rw [harchive, List.nil_append, ← h.directory]
    rfl
  obtain ⟨entries, hrecords, hreads⟩ :=
    centralRecords_added h.names hreadable hwhole hlim' hplace
  rw [← hstart] at hrecords
  have hbehind : reader.baseStream.data = writer.baseStream.data ++ (records items ++ tail) := by
    rw [hwhole, List.nil_append, List.append_assoc]
  have hmore : records items ++ tail ≠ [] := by
    simp [htail, endRecords_ne_nil]
  have hcount : reader.totalNumberOfEntries.toNat = entries.length := by
    rw [hreader.count, h.count, hreads.length_eq]
  refine ⟨reader, entries, ?_, ?_, ?_⟩
  · rw [hdata]
    exact hreader.opened
  · have hheld : ∀ item ∈ items, item.saveName.bytes.length ≤ ZIP_FILE_NAME_LEN_MAX ∧
        Holds writer.baseStream.data item := by
      intro item hitem
      exact ⟨h.names item hitem, h.data item hitem⟩
    refine List.Forall₂.imp ?_ ((List.forall₂_and_left items entries).mpr ⟨hheld, hreads⟩)
    rintro item entry ⟨⟨hname, hholds⟩, hentry⟩
    refine ⟨hentry, ?_⟩
    intro content hpacks hlink fuel hfuel
    exact delivers_added hframed hprompt hentry hname hreader.correction hbehind hmore hlim' hholds
      hpacks hlink hfuel
  · intro W extractEntry w w' log
    exact zipReaderExtractAllFiles_iff hcount hrecords

/-- A closed archive is read back: the reader finds the entries that were added, in order, under
their names, and each that is saved has the content that was packed. -/
theorem zipReaderExtractAllFiles_zipWriterAddEntry (hframed : I.Framed) (hprompt : I.Prompt)
    (run : writer.Adds items) (hclose : zipWriterSaveCD writer = .ok writer')
    (hsentinel : ¬ SentinelWithoutZip64 writer)
    (hreadable : ∀ item ∈ items, item.Readable convert) :
    Recovers I convert writer'.baseStream.data items :=
  run.catalogue.recovers hframed hprompt hclose hsentinel hreadable

end

/-- The letters, deflated, as a file `a.b`. -/
def lettersAdded : AddedEntry where
  method := OH_ARCHIVE_COMPRESS_DEFLATE
  level := 6
  emptyDir := false
  st := ⟨0o100644, 21, 0⟩
  saveName := plainName
  payload := lettersStream
  crc := crc32 0 letters
  compressedSize := 5
  uncompressedSize := 21
  offset := 0

theorem zipReaderExtractAllFiles_zipWriterAddEntry_letters :
    ∃ writer writer', writer.Adds [lettersAdded] ∧ zipWriterSaveCD writer = .ok writer' ∧
      lettersAdded.Packs lettersDecoder letters ∧
      Recovers (Inflate.careful lettersDecoder) (fun _ => none) writer'.baseStream.data
        [lettersAdded] := by
  have hopened : zipWriterOpened.baseStream.AtEnd ∧ zipWriterOpened.cdMemStream.AtEnd := ⟨rfl, rfl⟩
  have hadd := zipWriterAddEntry_of_fits (e := zipWriterOpenInitEntryInfo lettersAdded.method
    lettersAdded.level false lettersAdded.st 0 lettersAdded.saveName) (c := 5) (u := 21)
    lettersStream (crc32 0 letters) hopened.1 hopened.2 (by decide) (by decide)
    (by decide +kernel) (by decide +kernel) (fun _ => by decide)
  have run : ZipWriter.Adds _ [lettersAdded] := .added lettersAdded .opened (by decide) rfl hadd
  have inv := run.catalogue.inv
  obtain ⟨writer', hclose⟩ := zipWriterSaveCD_of_fits inv (by decide +kernel)
  refine ⟨_, writer', run, hclose, ⟨.inr ⟨rfl, rfl, rfl⟩, rfl, rfl, rfl⟩, ?_⟩
  refine zipReaderExtractAllFiles_zipWriterAddEntry Inflate.careful_framed Inflate.careful_prompt run
    hclose ?_ ?_
  · rintro ⟨-, -, -, hcount | hpos⟩
    · revert hcount
      decide +kernel
    · revert hpos
      decide +kernel
  · intro item hitem
    obtain rfl := List.mem_singleton.mp hitem
    exact ⟨⟨plainName, by decide⟩, by decide⟩

end FileApi.Compress.Zip
