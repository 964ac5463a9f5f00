import FileApi.Compress.Zip.ReaderWalk

/-!
# Every announced entry, or fewer

The walk takes `ARCHIVE_END_OF_LIST` for its end wherever it comes from. It stands for the end of
the announced entries only if no header before it is looked for beyond the central directory, or
at the signature of an end record.
-/

namespace FileApi.Compress.Zip

variable {W : Type} {convert : List UInt8 → Option CString} {reader : ZipReader}
  {extractEntry : ZipReaderEntry → Run W Unit}

/-! ## Records in order -/

/-- The entries are the records of the central directory from `pos` on, one behind the other. -/
inductive CentralRecords (convert : List UInt8 → Option CString) (reader : ZipReader) :
    UInt64 → List ZipReaderEntry → Prop where
  | nil {pos : UInt64} : CentralRecords convert reader pos []
  | cons {pos : UInt64} {entry : ZipReaderEntry} {rest : List ZipReaderEntry}
      (head : zipReaderGoToCentralDirHeader convert reader pos = .ok entry)
      (tail : CentralRecords convert reader (nextCentralDirHeaderPos pos entry.centralDirHeader)
        rest) :
      CentralRecords convert reader pos (entry :: rest)

/-- The position behind the records. -/
def posBehind (pos : UInt64) (entries : List ZipReaderEntry) : UInt64 :=
  entries.foldl (fun pos entry => nextCentralDirHeaderPos pos entry.centralDirHeader) pos

/-- The entries are extracted in order, each with success. -/
inductive Extracted (extractEntry : ZipReaderEntry → Run W Unit) :
    List ZipReaderEntry → W → W → Prop where
  | nil {w : W} : Extracted extractEntry [] w w
  | cons {entry : ZipReaderEntry} {rest : List ZipReaderEntry} {w mid last : W}
      (head : extractEntry entry w = .ok () mid) (tail : Extracted extractEntry rest mid last) :
      Extracted extractEntry (entry :: rest) w last

/-! ## The loop -/

theorem zipReaderExtractFrom_ok (announced : Nat) :
    ∀ {pos : UInt64} {entry : ZipReaderEntry} {w w' : W} {log : List ZipReaderEntry},
      zipReaderGoToCentralDirHeader convert reader pos = .ok entry →
      zipReaderExtractFrom convert reader extractEntry announced pos entry w = .ok log w' →
      CentralRecords convert reader pos log ∧ Extracted extractEntry log w w' ∧ log ≠ [] ∧
        (log.length = announced + 1 ∨ log.length ≤ announced ∧
          zipReaderGoToCentralDirHeader convert reader (posBehind pos log) =
            .error .endOfList) := by
  induction announced with
  | zero =>
    intro pos entry w w' log hentry h
    obtain ⟨⟨⟩, mid, hmid, heq⟩ := Program.bind_eq_ok.mp h
    cases heq
    exact ⟨.cons hentry .nil, .cons hmid .nil, List.cons_ne_nil _ _, .inl rfl⟩
  | succ announced ih =>
    intro pos entry w w' log hentry h
    obtain ⟨⟨⟩, mid, hmid, hnext⟩ := Program.bind_eq_ok.mp h
    cases hgo : zipReaderGoToCentralDirHeader convert reader
        (nextCentralDirHeaderPos pos entry.centralDirHeader) with
    | error err =>
      rw [hgo] at hnext
      cases err
      case endOfList =>
        cases hnext
        refine ⟨.cons hentry .nil, .cons hmid .nil, List.cons_ne_nil _ _, .inr ⟨?_, hgo⟩⟩
        simp
      all_goals cases hnext
    | ok nextEntry =>
      rw [hgo] at hnext
      obtain ⟨rest, last, hrest, heq⟩ := Program.bind_eq_ok.mp hnext
      cases heq
      obtain ⟨hrecords, hextracted, -, hlength⟩ := ih hgo hrest
      refine ⟨.cons hentry hrecords, .cons hmid hextracted, List.cons_ne_nil _ _, ?_⟩
      rw [List.length_cons]
      rcases hlength with hall | ⟨hfewer, hend⟩
      · exact .inl (by omega)
      · exact .inr ⟨by omega, hend⟩

/-! ## Complete extraction -/

/-- If the extraction succeeds, as many entries as were announced are extracted, one per record
and in order. -/
def ExtractsAnnounced (convert : List UInt8 → Option CString) (reader : ZipReader)
    (extractEntry : ZipReaderEntry → Run W Unit) (w : W) : Prop :=
  ∀ log w', zipReaderExtractAllFiles convert reader extractEntry w = .ok log w' →
    log.length = reader.totalNumberOfEntries.toNat ∧
    CentralRecords convert reader reader.offsetOfCentralDir log ∧ Extracted extractEntry log w w'

/-! ## Where the list ends -/

theorem streamSeek_ne_endOfList {stream : ByteFile} {offset : Int} {origin : SeekOrigin} :
    streamSeek stream offset origin ≠ .error .endOfList := by
  unfold streamSeek
  dsimp only
  split_ifs <;> nofun

theorem zipReadExtraFieldBuffer_ne_endOfList {stream : ByteFile} {pos : UInt64} {length : Nat} :
    zipReadExtraFieldBuffer stream pos length ≠ .error .endOfList := by
  unfold zipReadExtraFieldBuffer
  split_ifs with hlength
  · nofun
  · intro h
    rcases bind_eq_error.mp h with hseek | ⟨stream, -, hread⟩
    · exact streamSeek_ne_endOfList hseek
    · dsimp only at hread
      split at hread <;> cases hread

theorem zipReadUnicodePathExtraField_ne_endOfList {extraField fileName : List UInt8}
    {cur dataSize filenameSize : Nat} :
    zipReadUnicodePathExtraField extraField cur dataSize fileName filenameSize ≠
      .error .endOfList := by
  unfold zipReadUnicodePathExtraField
  split_ifs <;> nofun

theorem zipReaderProcessOneExtraField_ne_endOfList {entry : ZipReaderEntry}
    {extraField : List UInt8} {headerID cur dataSize : Nat} :
    zipReaderProcessOneExtraField entry extraField headerID cur dataSize ≠ .error .endOfList := by
  unfold zipReaderProcessOneExtraField
  split
  · nofun
  · split_ifs <;> nofun
  · split_ifs with hsize
    · nofun
    · intro h
      rcases bind_eq_error.mp h with hpath | ⟨entryName, -, hok⟩
      · exact zipReadUnicodePathExtraField_ne_endOfList hpath
      · cases hok
  · nofun

theorem zipReaderProcessExtraField_ne_endOfList {extraField : List UInt8} (fuel : Nat) :
    ∀ {cur : Nat} {entry : ZipReaderEntry},
      zipReaderProcessExtraField extraField fuel cur entry ≠ .error .endOfList := by
  induction fuel with
  | zero => exact nofun
  | succ fuel ih =>
    intro cur entry
    rw [zipReaderProcessExtraField]
    split_ifs with hleft
    · intro h
      rcases bind_eq_error.mp h with hone | ⟨entry, -, hrest⟩
      · exact zipReaderProcessOneExtraField_ne_endOfList hone
      · exact ih hrest
    · nofun

theorem zipReaderNameEncoding_ne_endOfList {entry : ZipReaderEntry} :
    zipReaderNameEncoding convert entry ≠ .error .endOfList := by
  unfold zipReaderNameEncoding zipReaderConvertFileNameEncoding
  split_ifs with hname
  · nofun
  · split
    · nofun
    · split_ifs <;> nofun
  · nofun

/-- Only where a header is looked for can the list end: beyond the central directory, or at the
signature of an end record. -/
theorem zipReaderGoToCentralDirHeader_endOfList {offset : UInt64} :
    zipReaderGoToCentralDirHeader convert reader offset = .error .endOfList ↔
      offset ≥ reader.offsetOfCentralDir + reader.sizeOfCentralDir ∨
        zipReadCentralDirHeader reader.baseStream offset = .error .endOfList := by
  rw [zipReaderGoToCentralDirHeader]
  by_cases hbeyond : offset ≥ reader.offsetOfCentralDir + reader.sizeOfCentralDir
  · rw [if_pos hbeyond]
    exact iff_of_true rfl (.inl hbeyond)
  · rw [if_neg hbeyond, or_iff_right hbeyond, bind_eq_error, or_iff_left_iff_imp]
    rintro ⟨⟨header, stream⟩, -, h⟩
    dsimp only at h
    split at h
    · cases h
    · rcases bind_eq_error.mp h with hextra | ⟨extraField, -, h⟩
      · exact absurd hextra zipReadExtraFieldBuffer_ne_endOfList
      · rcases bind_eq_error.mp h with hprocess | ⟨entry, -, h⟩
        · exact absurd hprocess (zipReaderProcessExtraField_ne_endOfList _)
        · rcases bind_eq_error.mp h with hname | ⟨entryName, -, h⟩
          · exact absurd hname zipReaderNameEncoding_ne_endOfList
          · cases h

/-- A successful extraction has extracted the records in order, all that are announced or those
in front of the end of the list. -/
theorem zipReaderExtractAllFiles_ok {w w' : W} {log : List ZipReaderEntry}
    (h : zipReaderExtractAllFiles convert reader extractEntry w = .ok log w') :
    CentralRecords convert reader reader.offsetOfCentralDir log ∧
    Extracted extractEntry log w w' ∧
    (log.length = reader.totalNumberOfEntries.toNat ∨
      log.length < reader.totalNumberOfEntries.toNat ∧
      (posBehind reader.offsetOfCentralDir log ≥
          reader.offsetOfCentralDir + reader.sizeOfCentralDir ∨
        zipReadCentralDirHeader reader.baseStream (posBehind reader.offsetOfCentralDir log) =
          .error .endOfList)) := by
  rw [zipReaderExtractAllFiles] at h
  cases htotal : reader.totalNumberOfEntries.toNat with
  | zero =>
    rw [htotal] at h
    cases h
  | succ announced =>
    rw [htotal] at h
    obtain ⟨entry, hentry, hfrom⟩ := liftStatus_bind_eq_ok.mp h
    obtain ⟨hrecords, hextracted, -, hlength⟩ := zipReaderExtractFrom_ok announced hentry hfrom
    refine ⟨hrecords, hextracted, hlength.imp_right ?_⟩
    rintro ⟨hfewer, hend⟩
    exact ⟨by omega, zipReaderGoToCentralDirHeader_endOfList.mp hend⟩

/-! ### Directories -/

/-- As many records of a directory `d/`, and as many entries announced. -/
def directories (records : Nat) (announced : UInt16) : List UInt8 :=
  let record : ReadCentralDirHeader := {
    versionMadeBy := 0x031e, versionNeeded := 20, flag := 0x0800, compressionMethod := 0
    dosModDateTime := 0, crc32 := 0, compressedSize := 0, uncompressedSize := 0
    fileNameLength := 2, extraFieldLength := 0, fileCommentLength := 0, diskNumberStart := 0
    internalFileAttr := 0, externalFileAttr := 0x41ed0000, relativeOffsetOfLocalHeader := 0 }
  let eocd : EndOfCentralDir := {
    signature := ZIP_MAGIC_ENDHEADER, numberOfDisk := 0, numberOfDiskWithCD := 0
    totalNumberOfEntriesOnThisDisk := announced, totalNumberOfEntries := announced
    sizeOfCentralDir := UInt32.ofNat (48 * records), offsetOfCentralDir := 0, commentLength := 0 }
  (List.replicate records
    (putU32 ZIP_MAGIC_CENTRALHEADER ++ record.toBytes ++ [0x64, 0x2f])).flatten ++ eocd.toBytes

/-- The names, as they come. -/
def collectName (entry : ZipReaderEntry) : Run (List (List UInt8)) Unit :=
  Program.call fun names => ((), names ++ [entry.entryInfo.name])

/-- Two entries are announced, and one is extracted with success. -/
theorem directories_not_extractsAnnounced :
    ∃ reader entry, zipReaderOpenFile (directories 1 2) = .ok reader ∧
      reader.totalNumberOfEntries = 2 ∧
      zipReaderExtractAllFiles (fun _ => none) reader collectName [] =
        .ok [entry] [[0x64, 0x2f]] ∧
      ¬ ExtractsAnnounced (fun _ => none) reader collectName [] := by
  have hopen : ∃ reader entry, zipReaderOpenFile (directories 1 2) = .ok reader ∧
      reader.totalNumberOfEntries = 2 ∧
      zipReaderExtractAllFiles (fun _ => none) reader collectName [] =
        .ok [entry] [[0x64, 0x2f]] := ⟨_, _, rfl, rfl, rfl⟩
  obtain ⟨reader, entry, hreader, htotal, hrun⟩ := hopen
  refine ⟨reader, entry, hreader, htotal, hrun, fun hall => ?_⟩
  have hlength := (hall _ _ hrun).1
  rw [htotal] at hlength
  cases hlength

/-- Three are announced, and the end of the list is behind the two that are there. -/
theorem zipReaderExtractAllFiles_ok_directories :
    ∃ reader log, zipReaderOpenFile (directories 2 3) = .ok reader ∧ log.length = 2 ∧
      CentralRecords (fun _ => none) reader reader.offsetOfCentralDir log ∧
      Extracted collectName log [] [[0x64, 0x2f], [0x64, 0x2f]] ∧
      (posBehind reader.offsetOfCentralDir log ≥
          reader.offsetOfCentralDir + reader.sizeOfCentralDir ∨
        zipReadCentralDirHeader reader.baseStream (posBehind reader.offsetOfCentralDir log) =
          .error .endOfList) := by
  have hrun : (do
      let reader ← (zipReaderOpenFile (directories 2 3)).toOption
      let (log, names) ← Program.result
        (zipReaderExtractAllFiles (fun _ => none) reader collectName) []
      pure (reader.totalNumberOfEntries, log.length, names)) =
        some (3, 2, [[0x64, 0x2f], [0x64, 0x2f]]) := by decide +kernel
  obtain ⟨reader, hreader, hrun⟩ := Option.bind_eq_some_iff.mp hrun
  obtain ⟨⟨log, names⟩, hextract, hrun⟩ := Option.bind_eq_some_iff.mp hrun
  obtain ⟨htotal, hrun⟩ := Prod.mk.inj (Option.some.inj hrun)
  obtain ⟨htwo, rfl⟩ := Prod.mk.inj hrun
  obtain ⟨hrecords, hextracted, hlength⟩ :=
    zipReaderExtractAllFiles_ok (Program.result_eq_some.mp hextract)
  rw [htotal, htwo] at hlength
  rcases hlength with hthree | ⟨-, hend⟩
  · cases hthree
  · exact ⟨reader, log, toOption_eq_some.mp hreader, htwo, hrecords, hextracted, hend⟩

end FileApi.Compress.Zip
