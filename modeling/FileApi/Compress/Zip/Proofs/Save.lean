import FileApi.Compress.Zip.ReaderExtract

/-!
# What `ZipReaderSaveFile` has checked

The checksum of an entry runs over the bytes that are written to the file. It is compared at the
end only if the compress stream has taken as many bytes as the central header gives the entry; the
length is not compared at all.
-/

namespace FileApi.Compress.Zip

open Program Zlib

variable {W H : Type} {D : Decoder} {I : Inflate D} {os : Os W H} {fuel : Nat}
  {entry : ZipReaderEntry} {outDir newFilePath : PathName} {handle : H}

/-! ## Steps that do not return -/

variable {w w' : W}

theorem closeEntryWith_ne_ok {α : Type} {err : ArchiveErr} {a : α} :
    closeEntryWith os handle err w ≠ .ok a w' := by
  intro h
  obtain ⟨-, mid, -, hthrow⟩ := Program.bind_eq_ok.mp h
  cases hthrow

theorem cancelEntry_ne_ok {α : Type} {a : α} :
    cancelEntry os outDir newFilePath handle w ≠ .ok a w' := by
  intro h
  obtain ⟨-, mid, -, h⟩ := Program.bind_eq_ok.mp h
  obtain ⟨-, last, -, hthrow⟩ := Program.bind_eq_ok.mp h
  cases hthrow

variable {st st' : OpenEntry I.State}

theorem zipReaderWriteData_ok {bytes : List UInt8}
    (h : zipReaderWriteData os handle bytes st w = .ok st' w') :
    st' = { st with written := st.written ++ bytes } := by
  obtain ⟨result, mid, -, h⟩ := Program.bind_eq_ok.mp h
  cases result with
  | none =>
    cases h
    rfl
  | some errno => exact absurd h closeEntryWith_ne_ok

/-! ## The loop -/

/-- A turn of the loop: the bytes that were read were written. -/
inductive SaveTurn (fuel : Nat) (info : ZipReaderEntryInfo) :
    OpenEntry I.State → List UInt8 → OpenEntry I.State → Prop where
  | step {st read : OpenEntry I.State} {bytes : List UInt8}
      (head : zipReaderReadData fuel info st = some (.ok (bytes, read))) :
      SaveTurn fuel info st bytes { read with written := read.written ++ bytes }

/-- Turns up to the one that reads nothing. -/
inductive SaveTurns (fuel : Nat) (info : ZipReaderEntryInfo) :
    OpenEntry I.State → OpenEntry I.State → Prop where
  | last {st st' : OpenEntry I.State} (head : SaveTurn fuel info st [] st') :
      SaveTurns fuel info st st'
  | cons {st mid st' : OpenEntry I.State} {bytes : List UInt8}
      (head : SaveTurn fuel info st bytes mid) (tail : SaveTurns fuel info mid st') :
      SaveTurns fuel info st st'

theorem zipReaderSaveLoop_ok (turns : Nat) :
    ∀ {st st' : OpenEntry I.State} {w w' : W},
      zipReaderSaveLoop os fuel entry outDir newFilePath handle turns st w = .ok st' w' →
      SaveTurns fuel entry.entryInfo st st' := by
  induction turns with
  | zero => nofun
  | succ turns ih =>
    intro st st' w w' h
    rw [zipReaderSaveLoop] at h
    obtain ⟨read, hread, h⟩ := liftFuel_bind_eq_ok.mp h
    cases read with
    | error err => exact absurd h closeEntryWith_ne_ok
    | ok read =>
      obtain ⟨bytes, read⟩ := read
      obtain ⟨written, mid, hwrite, h⟩ := Program.bind_eq_ok.mp h
      obtain ⟨cancelled, next, -, h⟩ := Program.bind_eq_ok.mp h
      by_cases hbytes : bytes = []
      · subst hbytes
        cases hwrite
        cases cancelled with
        | true => exact absurd h cancelEntry_ne_ok
        | false =>
          cases h
          have hturn := SaveTurn.step hread
          rw [List.append_nil] at hturn
          exact .last hturn
      · rw [if_pos hbytes] at hwrite
        cases zipReaderWriteData_ok hwrite
        cases cancelled with
        | true => exact absurd h cancelEntry_ne_ok
        | false =>
          rw [if_neg (by simp), if_pos hbytes] at h
          exact .cons (.step hread) (ih h)

/-! ## The checksum -/

variable {info : ZipReaderEntryInfo}

theorem SaveTurn.crc {bytes : List UInt8} (h : SaveTurn fuel info st bytes st')
    (hcrc : st.entryCrc = crc32 0 st.written) :
    st'.entryCrc = crc32 0 st'.written := by
  cases h with
  | step head =>
    rw [zipReaderReadData] at head
    split at head
    · cases head
      rw [List.append_nil]
      exact hcrc
    · obtain ⟨read, -, hread⟩ := Option.map_eq_some_iff.mp head
      cases read with
      | error err => cases hread
      | ok read =>
        cases hread
        dsimp only
        rw [hcrc, crc32_append]

theorem SaveTurns.crc (h : SaveTurns fuel info st st') (hcrc : st.entryCrc = crc32 0 st.written) :
    st'.entryCrc = crc32 0 st'.written := by
  induction h with
  | last head => exact head.crc hcrc
  | cons head _ ih => exact ih (head.crc hcrc)

theorem SaveTurns.written_of_empty (h : SaveTurns fuel info st st')
    (hempty : info.compressedSize = 0 ∨ info.uncompressedSize = 0) : st'.written = st.written := by
  have hturn : ∀ {bytes : List UInt8} {st st' : OpenEntry I.State},
      SaveTurn fuel info st bytes st' → st'.written = st.written := by
    rintro bytes st _ ⟨head⟩
    rw [zipReaderReadData, if_pos hempty] at head
    cases head
    exact List.append_nil _
  induction h with
  | last head => exact hturn head
  | cons head _ ih => rw [ih, hturn head]

/-! ## Stored entries -/

/-- A stored entry from `data` on: what has been taken was written. -/
structure StoredState (info : ZipReaderEntryInfo) (data : List UInt8) (st : OpenEntry I.State) :
    Prop where
  stream : st.compressStream = .raw info.compressedSize (UInt64.ofNat st.written.length)
  taken : st.written ++ st.base.data.drop st.base.pos = data
  limit : st.written.length ≤ info.compressedSize.toNat

theorem StoredState.turn {data bytes : List UInt8} (hst : StoredState info data st)
    (hsome : ¬ (info.compressedSize = 0 ∨ info.uncompressedSize = 0))
    (h : SaveTurn fuel info st bytes st') :
    StoredState info data st' ∧ st'.written = st.written ++ bytes ∧
      (bytes = [] → st.written.length < info.compressedSize.toNat → st.written = data) := by
  have htotal : (UInt64.ofNat st.written.length).toNat = st.written.length :=
    UInt64.toNat_ofNat_of_lt' (Nat.lt_of_le_of_lt hst.limit info.compressedSize.toNat_lt)
  have hleft : (info.compressedSize - UInt64.ofNat st.written.length).toNat =
      info.compressedSize.toNat - st.written.length := by
    rw [UInt64.toNat_sub_of_le _ _ (by rw [UInt64.le_iff_toNat_le, htotal]; exact hst.limit), htotal]
  have hpositive : 0 < info.compressedSize := by
    rw [UInt64.pos_iff_ne_zero]
    exact fun h => hsome (.inl h)
  cases h with
  | step head =>
    rw [zipReaderReadData, if_neg hsome, hst.stream, CompressStream.read] at head
    cases head
    set size := rawReadSize info.compressedSize (UInt64.ofNat st.written.length)
      ZIP_BUF_INTERNAL with hsize
    have hbounds : size ≤ info.compressedSize.toNat - st.written.length ∧
        (st.written.length < info.compressedSize.toNat → 0 < size) := by
      rw [hsize, rawReadSize, hleft, ZIP_BUF_INTERNAL]
      by_cases hless : info.compressedSize.toNat - st.written.length < 65536
      · rw [if_pos ⟨hpositive, hless⟩]
        omega
      · rw [if_neg (fun h => hless h.2)]
        omega
    have hlength := List.length_take_le size (st.base.data.drop st.base.pos)
    refine ⟨⟨?_, ?_, ?_⟩, rfl, ?_⟩
    · show CompressStream.raw info.compressedSize (UInt64.ofNat st.written.length +
        UInt64.ofNat ((st.base.data.drop st.base.pos).take size).length) = _
      rw [← UInt64.ofNat_add, List.length_append]
      rfl
    · show (st.written ++ (st.base.data.drop st.base.pos).take size) ++
        st.base.data.drop (st.base.pos + ((st.base.data.drop st.base.pos).take size).length) = data
      rw [← List.drop_drop, List.append_assoc,
        List.prefix_iff_eq_append.mp (List.take_prefix _ _)]
      exact hst.taken
    · show (st.written ++ (st.base.data.drop st.base.pos).take size).length ≤ _
      rw [List.length_append]
      have := hst.limit
      omega
    · intro hnone hmore
      have htake : (st.base.data.drop st.base.pos).take size = [] := hnone
      rcases List.take_eq_nil_iff.mp htake with hzero | hrest
      · have := hbounds.2 hmore
        omega
      · rw [← hst.taken, hrest, List.append_nil]


theorem SaveTurns.stored {data : List UInt8} (h : SaveTurns fuel info st st')
    (hst : StoredState info data st)
    (hsome : ¬ (info.compressedSize = 0 ∨ info.uncompressedSize = 0)) :
    StoredState info data st' ∧
      (st'.written.length < info.compressedSize.toNat → st'.written = data) := by
  induction h with
  | last head =>
    obtain ⟨hst', hwritten, hend⟩ := hst.turn hsome head
    rw [List.append_nil] at hwritten
    rw [hwritten]
    exact ⟨hst', hend rfl⟩
  | cons head _ ih =>
    obtain ⟨hmid, -, -⟩ := hst.turn hsome head
    exact ih hmid

/-! ## `ZipReaderSaveFile` -/

theorem zipReaderSaveFile_turns
    (h : zipReaderSaveFile os fuel entry outDir newFilePath handle st w = .ok st' w') :
    SaveTurns fuel entry.entryInfo st st' ∧ zipReaderVerifyEntryCrc entry st' = .ok () := by
  obtain ⟨cancelled, mid, -, h⟩ := Program.bind_eq_ok.mp h
  cases cancelled with
  | true => exact absurd h cancelEntry_ne_ok
  | false =>
    obtain ⟨saved, last, hloop, h⟩ := Program.bind_eq_ok.mp h
    obtain ⟨-, -, -, h⟩ := Program.bind_eq_ok.mp h
    obtain ⟨-, -, -, h⟩ := Program.bind_eq_ok.mp h
    obtain ⟨⟨⟩, hverify, h⟩ := liftStatus_bind_eq_ok.mp h
    cases h
    exact ⟨zipReaderSaveLoop_ok fuel hloop, hverify⟩

theorem zipReaderOpenEntry_ok {reader : ZipReader} {st : OpenEntry I.State} {file : Option H}
    (h : zipReaderOpenEntry I os reader entry newFilePath w = .ok (st, file) w') :
    zipReaderProcessLocalHeader reader entry = .ok st.base ∧
      zipReaderCompressStream I entry.entryInfo = .ok st.compressStream ∧
      st.entryCrc = 0 ∧ st.written = [] := by
  obtain ⟨base, hbase, h⟩ := liftStatus_bind_eq_ok.mp h
  obtain ⟨stream, hstream, h⟩ := liftStatus_bind_eq_ok.mp h
  by_cases hlink : zipReaderEntryIsSymlink entry.centralDirHeader
  · rw [if_pos hlink] at h
    cases h
    exact ⟨hbase, hstream, rfl, rfl⟩
  · rw [if_neg hlink] at h
    obtain ⟨handle, mid, -, h⟩ := Program.bind_eq_ok.mp h
    cases h
    exact ⟨hbase, hstream, rfl, rfl⟩

/-- A file that was saved: the checksum agrees if all the compressed bytes were taken, and a stored
entry that is all there is what was written. -/
theorem zipReaderSaveFile_ok {reader : ZipReader} {st st' : OpenEntry I.State} {w mid w' : W}
    (hopen : zipReaderOpenEntry I os reader entry newFilePath w = .ok (st, some handle) mid)
    (h : zipReaderSaveFile os fuel entry outDir newFilePath handle st mid = .ok st' w') :
    (entry.entryInfo.compressedSize ≤ st'.compressStream.totalIn →
      crc32 0 st'.written = entry.centralDirHeader.crc32) ∧
    (entry.entryInfo.compressionMethod = 0 → entry.entryInfo.uncompressedSize ≠ 0 →
      entry.entryInfo.compressedSize.toNat ≤ (st.base.data.drop st.base.pos).length →
      st'.written = (st.base.data.drop st.base.pos).take entry.entryInfo.compressedSize.toNat ∧
        crc32 0 st'.written = entry.centralDirHeader.crc32) ∧
    (entry.entryInfo.compressedSize = 0 ∨ entry.entryInfo.uncompressedSize = 0 →
      st'.written = []) := by
  obtain ⟨-, hstream, hcrc, hwritten⟩ := zipReaderOpenEntry_ok hopen
  obtain ⟨hturns, hverify⟩ := zipReaderSaveFile_turns h
  have hchecksum := hturns.crc (by rw [hcrc, hwritten, crc32_nil])
  have hchecked : entry.entryInfo.compressedSize ≤ st'.compressStream.totalIn →
      crc32 0 st'.written = entry.centralDirHeader.crc32 := by
    intro hall
    rw [zipReaderVerifyEntryCrc] at hverify
    split at hverify
    · cases hverify
    · next hnot =>
      rw [← hchecksum]
      exact not_not.mp fun hne => hnot ⟨hall, hne⟩
  refine ⟨hchecked, ?_, fun hempty => by rw [hturns.written_of_empty hempty, hwritten]⟩
  intro hmethod hplain hthere
  by_cases hzero : entry.entryInfo.compressedSize = 0
  · have hnone : st'.written = [] := by rw [hturns.written_of_empty (.inl hzero), hwritten]
    refine ⟨by rw [hnone, hzero]; rfl, hchecked ?_⟩
    rw [hzero]
    exact UInt64.zero_le
  · have hst : StoredState entry.entryInfo (st.base.data.drop st.base.pos) st := by
      rw [zipReaderCompressStream, hmethod] at hstream
      refine ⟨?_, by rw [hwritten, List.nil_append], by rw [hwritten]; exact Nat.zero_le _⟩
      rw [hwritten]
      exact (Except.ok.inj hstream).symm
    obtain ⟨hst', hend⟩ := hturns.stored hst (not_or.mpr ⟨hzero, hplain⟩)
    have hlength : st'.written.length = entry.entryInfo.compressedSize.toNat := by
      by_contra hne
      have hless : st'.written.length < entry.entryInfo.compressedSize.toNat :=
        Nat.lt_of_le_of_ne hst'.limit hne
      rw [hend hless] at hless
      omega
    refine ⟨?_, hchecked ?_⟩
    · rw [← hlength, ← hst'.taken, List.take_left]
    · rw [hst'.stream, CompressStream.totalIn, hlength, UInt64.ofNat_toNat]
      exact UInt64.le_refl _

/-! ### An archive that ends early -/

/-- What is saved of the entry with success is the whole of it. -/
def SavesWhole (reader : ZipReader) (entry : ZipReaderEntry) : Prop :=
  ∀ (W H : Type) (D : Decoder) (I : Inflate D) (os : Os W H) (fuel : Nat)
    (outDir newFilePath : PathName) (handle : H) (st st' : OpenEntry I.State) (w mid w' : W),
    zipReaderOpenEntry I os reader entry newFilePath w = .ok (st, some handle) mid →
    zipReaderSaveFile os fuel entry outDir newFilePath handle st mid = .ok st' w' →
    st'.written.length = entry.entryInfo.uncompressedSize.toNat ∧
      crc32 0 st'.written = entry.centralDirHeader.crc32

/-- A stored entry that is `hello`, with the length the record gives for it; its local header is
behind the end record, and the archive ends with `data`. -/
def storedNamed (name : PathName) (uncompressedSize : UInt32) (data : List UInt8) : List UInt8 :=
  let fileNameLength := UInt16.ofNat name.length
  let record : ReadCentralDirHeader := {
    versionMadeBy := 0x031e, versionNeeded := 20, flag := 0x0800, compressionMethod := 0
    dosModDateTime := 0, crc32 := 0x3610a686, compressedSize := 5, uncompressedSize
    fileNameLength, extraFieldLength := 0, fileCommentLength := 0, diskNumberStart := 0
    internalFileAttr := 0, externalFileAttr := 0x81a40000
    relativeOffsetOfLocalHeader := UInt32.ofNat (68 + name.length) }
  let eocd : EndOfCentralDir := {
    signature := ZIP_MAGIC_ENDHEADER, numberOfDisk := 0, numberOfDiskWithCD := 0
    totalNumberOfEntriesOnThisDisk := 1, totalNumberOfEntries := 1
    sizeOfCentralDir := UInt32.ofNat (46 + name.length), offsetOfCentralDir := 0
    commentLength := 0 }
  let header : LocalFileHeader := {
    signature := ZIP_MAGIC_LOCALHEADER, versionNeeded := 20, flag := 0x0800
    compressionMethod := 0, dosModDateTime := 0, crc32 := 0x3610a686, compressedSize := 5
    uncompressedSize, fileNameLength, extraFieldLength := 0 }
  putU32 ZIP_MAGIC_CENTRALHEADER ++ record.toBytes ++ name ++ eocd.toBytes ++
    header.toBytes ++ name ++ data

/-- The entry `a`, with the right length. -/
def storedAtEnd (data : List UInt8) : List UInt8 := storedNamed [0x61] 5 data

/-- A system with one output file, whose bytes are kept. -/
def oneFile : Os (List UInt8) Unit where
  isDirectory _ w := (true, w)
  stat _ w := (false, w)
  access _ w := (false, w)
  isSymlink _ w := (false, w)
  mkdir _ w := (.made, w)
  remove _ w := (true, w)
  unlink _ w := (true, w)
  symlink _ _ w := (true, w)
  realpath path w := (.ok path, w)
  fopen _ _ := (.ok (), [])
  fwrite _ bytes w := (none, w ++ bytes)
  fclose _ w := (true, w)
  cancels w := (false, w)

/-- No stream is complete, and none means anything. -/
def noStreams : Decoder where
  out _ := []
  complete _ := False
  out_nil := rfl
  out_mono _ _ := List.nil_prefix
  complete_append := nofun

instance : DecidablePred noStreams.complete := fun _ => isFalse id

/-- The entry of the archive is opened and saved; its sizes, what its stream has taken and what is
written are as told. -/
theorem stored_saved (archive saved : List UInt8) (size : UInt64)
    (hrun : (do
      let reader ← (zipReaderOpenFile archive).toOption
      let entry ← (zipReaderGoToCentralDirHeader (fun _ => none) reader
        reader.offsetOfCentralDir).toOption
      let opened ← result (zipReaderOpenEntry (Inflate.greedy noStreams) oneFile reader entry
        [0x61]) []
      let handle ← opened.1.2
      let st ← result (zipReaderSaveFile oneFile 2 entry [dot] [0x61] handle opened.1.1) opened.2
      pure (entry.entryInfo.compressedSize, entry.entryInfo.uncompressedSize,
        st.1.compressStream.totalIn, st.1.written)) =
        some (5, size, UInt64.ofNat saved.length, saved)) :
    ∃ reader entry st mid st' w', zipReaderOpenFile archive = .ok reader ∧
      zipReaderGoToCentralDirHeader (fun _ => none) reader reader.offsetOfCentralDir = .ok entry ∧
      zipReaderOpenEntry (Inflate.greedy noStreams) oneFile reader entry [0x61] [] =
        .ok (st, some ()) mid ∧
      zipReaderSaveFile oneFile 2 entry [dot] [0x61] () st mid = .ok st' w' ∧
      entry.entryInfo.compressedSize = 5 ∧ entry.entryInfo.uncompressedSize = size ∧
      st'.compressStream.totalIn = UInt64.ofNat saved.length ∧ st'.written = saved := by
  obtain ⟨reader, hreader, hrun⟩ := Option.bind_eq_some_iff.mp hrun
  obtain ⟨entry, hentry, hrun⟩ := Option.bind_eq_some_iff.mp hrun
  obtain ⟨⟨⟨st, file⟩, mid⟩, hopen, hrun⟩ := Option.bind_eq_some_iff.mp hrun
  obtain ⟨⟨⟩, ⟨⟩, hrun⟩ := Option.bind_eq_some_iff.mp hrun
  obtain ⟨⟨st', w'⟩, hsave, hrun⟩ := Option.bind_eq_some_iff.mp hrun
  obtain ⟨hcompressed, hrest⟩ := Prod.mk.inj (Option.some.inj hrun)
  obtain ⟨hsize, hrest⟩ := Prod.mk.inj hrest
  obtain ⟨htotal, hwritten⟩ := Prod.mk.inj hrest
  exact ⟨reader, entry, st, mid, st', w', toOption_eq_some.mp hreader, toOption_eq_some.mp hentry,
    result_eq_some.mp hopen, result_eq_some.mp hsave, hcompressed, hsize, htotal, hwritten⟩

/-- Of `hello` the archive has two bytes, and they are saved with success. So are all five where the
record gives a length of six. -/
theorem storedAtEnd_not_savesWhole :
    (∃ reader entry, zipReaderOpenFile (storedAtEnd [0x68, 0x65]) = .ok reader ∧
      zipReaderGoToCentralDirHeader (fun _ => none) reader reader.offsetOfCentralDir = .ok entry ∧
      ¬ SavesWhole reader entry) ∧
    ∃ reader entry st mid st' w',
      zipReaderOpenFile (storedNamed [0x61] 6 [0x68, 0x65, 0x6c, 0x6c, 0x6f]) = .ok reader ∧
      zipReaderGoToCentralDirHeader (fun _ => none) reader reader.offsetOfCentralDir = .ok entry ∧
      zipReaderOpenEntry (Inflate.greedy noStreams) oneFile reader entry [0x61] [] =
        .ok (st, some ()) mid ∧
      zipReaderSaveFile oneFile 2 entry [dot] [0x61] () st mid = .ok st' w' ∧
      entry.entryInfo.compressedSize = st'.compressStream.totalIn ∧
      st'.written = [0x68, 0x65, 0x6c, 0x6c, 0x6f] ∧ entry.entryInfo.uncompressedSize = 6 := by
  constructor
  · obtain ⟨reader, entry, st, mid, st', w', hreader, hentry, hopen, hsave, -, hsize, -, hwritten⟩ :=
      stored_saved (storedAtEnd [0x68, 0x65]) [0x68, 0x65] 5 (by decide +kernel)
    refine ⟨reader, entry, hreader, hentry, fun hwhole => ?_⟩
    have hlength := (hwhole _ _ _ _ _ _ _ _ _ _ _ _ _ _ hopen hsave).1
    rw [hwritten, hsize] at hlength
    cases hlength
  · obtain ⟨reader, entry, st, mid, st', w', hreader, hentry, hopen, hsave, hcompressed, hsize,
      htotal, hwritten⟩ := stored_saved (storedNamed [0x61] 6 [0x68, 0x65, 0x6c, 0x6c, 0x6f])
        [0x68, 0x65, 0x6c, 0x6c, 0x6f] 6 (by decide +kernel)
    exact ⟨reader, entry, st, mid, st', w', hreader, hentry, hopen, hsave,
      hcompressed.trans htotal.symm, hwritten, hsize⟩

/-- Where the archive has all five bytes they are what is saved. -/
theorem zipReaderSaveFile_ok_storedAtEnd :
    ∃ reader entry st mid st' w',
      zipReaderOpenFile (storedAtEnd [0x68, 0x65, 0x6c, 0x6c, 0x6f]) = .ok reader ∧
      zipReaderOpenEntry (Inflate.greedy noStreams) oneFile reader entry [0x61] [] =
        .ok (st, some ()) mid ∧
      zipReaderSaveFile oneFile 2 entry [dot] [0x61] () st mid = .ok st' w' ∧
      (entry.entryInfo.compressedSize ≤ st'.compressStream.totalIn →
        crc32 0 st'.written = entry.centralDirHeader.crc32) := by
  obtain ⟨reader, entry, st, mid, st', w', hreader, -, hopen, hsave, -⟩ :=
    stored_saved (storedAtEnd [0x68, 0x65, 0x6c, 0x6c, 0x6f]) [0x68, 0x65, 0x6c, 0x6c, 0x6f] 5
      (by decide +kernel)
  exact ⟨reader, entry, st, mid, st', w', hreader, hopen, hsave,
    (zipReaderSaveFile_ok hopen hsave).1⟩

end FileApi.Compress.Zip
