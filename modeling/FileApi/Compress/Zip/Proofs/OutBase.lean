import FileApi.Compress.Zip.WriterFiles

/-!
# What the writer does to the stream of the archive

The writer touches the archive through writes and seeks only, and ends with an error when one of
them fails, but for the full buffer of a deflate stream. Whatever the calls that succeed keep, and
the writes of a full buffer however they end, the stream still has when the archive is written.
-/

namespace FileApi.Compress

open Program Zlib Zip

variable {B : Type} [StreamOps B]

/-! ## What a success comes from -/

variable {node : FilePathNode}

namespace Zip.Out

section

variable {W H : Type} {D : Decoder} {Z : Deflate D} {os : SourceOs W H} {fuel : Nat}
  {archive : WriteMethod} {writer writer' : ArchiveWriter B} {w w' : W}

theorem zipWriterEntryOpen_ok {base : B} {fileType : FileType} {task : WriterTask Z.State B H}
    (h : zipWriterEntryOpen Z os archive base fileType node w = .ok (.ok task) w') :
    ∃ st mid next, pathStat os node.filePath w = .ok st mid ∧
      zipWriterOpenInitExtractStream os fileType node.filePath mid =
        .ok (.ok task.extractStream) w' ∧
      (archive.method ≠ OH_ARCHIVE_NO_COMPRESSION → archive.method = OH_ARCHIVE_COMPRESS_DEFLATE) ∧
      cstr node.saveName ≠ [] ∧
      zipEntryWriteLocalHeader base (zipWriterOpenInitEntryInfo archive.method archive.level
        (fileType = .emptyDir) st (UInt64.ofNat (StreamOps.tell base))
        ⟨cstr node.saveName, noNul_cstr node.saveName⟩) = .ok (next, task.entryInfo) ∧
      task.stream = zipWriterOpenInitCompressStream Z task.entryInfo next := by
  rw [zipWriterEntryOpen] at h
  split at h
  · cases (Program.pure_eq_ok.mp h).1
  · next hknown =>
    obtain ⟨st, mid, hstat, h⟩ := Program.bind_eq_ok.mp h
    split at h
    · cases (Program.pure_eq_ok.mp h).1
    · next hname =>
      obtain ⟨source, last, hsource, h⟩ := Program.bind_eq_ok.mp h
      cases source with
      | error err => cases (Program.pure_eq_ok.mp h).1
      | ok extractStream =>
        obtain ⟨hmap, rfl⟩ := Program.pure_eq_ok.mp h
        obtain ⟨⟨next, e⟩, hheader, htask⟩ := map_eq_ok.mp hmap
        cases htask
        exact ⟨st, mid, next, hstat, hsource, fun hsome => not_not.mp fun hother =>
          hknown ⟨hsome, hother⟩, fun hnil => hname (.inl (congrArg List.length hnil)), hheader, rfl⟩

theorem zipWriterAddLoop_induct {C : WriterTask Z.State B H → Prop}
    (hwrite : ∀ {data task task'} {w w' : W}, C task →
      task.write Z fuel data w = .ok task' w' → C task') {handle : H} (turns : Nat) :
    ∀ {task task' : WriterTask Z.State B H} {w w' : W}, C task →
      zipWriterAddLoop Z os fuel handle turns task w = .ok task' w' → C task' := by
  induction turns with
  | zero => nofun
  | succ turns ih =>
    intro task task' w w' htask h
    rw [zipWriterAddLoop] at h
    obtain ⟨read, mid, -, h⟩ := Program.bind_eq_ok.mp h
    cases read with
    | error errno => cases h
    | ok data =>
      change (if data = [] then pure task else _ : Run W _) mid = _ at h
      by_cases hend : data = []
      · rw [if_pos hend] at h
        rw [← (Program.pure_eq_ok.mp h).1]
        exact htask
      · rw [if_neg hend] at h
        obtain ⟨written, next, hwritten, h⟩ := Program.bind_eq_ok.mp h
        obtain ⟨cancelled, last, -, h⟩ := Program.bind_eq_ok.mp h
        cases cancelled with
        | true => cases h
        | false => exact ih (hwrite htask hwritten) h

theorem zipWriterAddData_induct {C : WriterTask Z.State B H → Prop}
    (hwrite : ∀ {data task task'} {w w' : W}, C task →
      task.write Z fuel data w = .ok task' w' → C task') {path : PathName}
    {task task' : WriterTask Z.State B H} (htask : C task)
    (h : zipWriterAddData Z os fuel path task w = .ok task' w') : C task' := by
  obtain ⟨st, mid, -, h⟩ := Program.bind_eq_ok.mp h
  split at h
  · obtain ⟨linkName, last, -, h⟩ := Program.bind_eq_ok.mp h
    cases linkName with
    | none => cases h
    | some linkName => exact hwrite htask h
  · cases hsource : task.extractStream with
    | none =>
      rw [hsource] at h
      rw [← (Program.pure_eq_ok.mp h).1]
      exact htask
    | some handle =>
      rw [hsource] at h
      exact zipWriterAddLoop_induct hwrite fuel htask h

theorem zipWriterAddOneFile_ok
    (h : zipWriterAddOneFile Z os fuel archive writer node w = .ok writer' w') :
    (∃ task added opened next last,
      zipWriterEntryOpen Z os archive writer.base .file node w = .ok (.ok task) opened ∧
      zipWriterAddData Z os fuel node.filePath task opened = .ok added next ∧
      zipWriterCloseStream Z fuel writer added true next = .ok writer' last) ∨
    writer' = writer ∧ ∃ mid, (os.access node.filePath mid).1 = false := by
  obtain ⟨result, opened, hopen, h⟩ := Program.bind_eq_ok.mp h
  cases result with
  | ok task =>
    obtain ⟨added, next, hadd, h⟩ := Program.bind_eq_ok.mp h
    obtain ⟨closed, last, hclose, h⟩ := Program.bind_eq_ok.mp h
    obtain ⟨⟨⟩, deleted, -, h⟩ := Program.bind_eq_ok.mp h
    cases (Program.pure_eq_ok.mp h).1
    exact .inl ⟨task, added, opened, next, last, hopen, hadd, hclose⟩
  | error err =>
    change (if err = .openError then _ else throw _ : Run W _) opened = _ at h
    split at h
    · obtain ⟨there, last, hcall, h⟩ := Program.bind_eq_ok.mp h
      cases hcall
      split at h
      · cases h
      · next hgone => exact .inr ⟨(Program.pure_eq_ok.mp h).1.symm, opened, by simpa using hgone⟩
    · cases h

theorem zipWriterAddEmptyDir_ok {inputDir path : PathName}
    (h : zipWriterAddEmptyDir Z os fuel archive writer inputDir path w = .ok writer' w') :
    ∃ saveName newPath task opened closed, getSaveName path inputDir = .ok saveName ∧
      pathAppendSlash path = .ok newPath ∧
      zipWriterEntryOpen Z os archive writer.base .emptyDir
        ⟨path, newPath.drop inputDir.length⟩ w = .ok (.ok task) opened ∧
      zipWriterCloseStream Z fuel writer task false opened = .ok writer' closed := by
  obtain ⟨saveName, hsave, h⟩ := liftStatus_bind_eq_ok.mp h
  obtain ⟨newPath, happend, h⟩ := liftStatus_bind_eq_ok.mp h
  obtain ⟨ret, closed, hret, h⟩ := Program.bind_eq_ok.mp h
  obtain ⟨cancelled, asked, -, h⟩ := Program.bind_eq_ok.mp h
  cases cancelled with
  | true => cases h
  | false =>
    obtain ⟨rfl, -⟩ := liftStatus_eq_ok.mp h
    obtain ⟨open_, opened, hopen, hclose⟩ := Program.bind_eq_ok.mp (status_eq_ok.mp hret)
    obtain ⟨task, rfl, hclose⟩ := liftStatus_bind_eq_ok.mp hclose
    exact ⟨saveName, newPath, task, opened, closed, hsave, happend, hopen, hclose⟩

theorem zipWriterAddNode_ok {inputDir path : PathName} {queue queue' : List PathName}
    (h : zipWriterAddNode Z os fuel archive inputDir writer path queue w =
      .ok (writer', queue') w') : ∃ dir mid, isDir os path w = .ok dir mid ∧
    if dir then
      (∃ next, if isValidFolderEnd path then
          zipWriterAddEmptyDir Z os fuel archive writer inputDir path mid = .ok writer' next
        else writer' = writer) ∧ ∃ next last, traversalDir os queue path next = .ok queue' last
    else queue' = queue ∧ ∃ saveName last, getSaveName path inputDir = .ok saveName ∧
      zipWriterAddOneFile Z os fuel archive writer ⟨path, saveName⟩ mid = .ok writer' last := by
  obtain ⟨dir, mid, hdir, h⟩ := Program.bind_eq_ok.mp h
  refine ⟨dir, mid, hdir, ?_⟩
  cases dir with
  | true =>
    change (_ >>= fun _ => _ : Run W _) mid = _ at h
    obtain ⟨added, next, hadd, h⟩ := Program.bind_eq_ok.mp h
    obtain ⟨queued, last, hqueue, h⟩ := Program.bind_eq_ok.mp h
    cases (Program.pure_eq_ok.mp h).1
    refine ⟨⟨next, ?_⟩, next, last, hqueue⟩
    split at hadd
    · next hvalid => rwa [if_pos hvalid]
    · next hvalid =>
      rw [if_neg hvalid]
      exact (Program.pure_eq_ok.mp hadd).1.symm
  | false =>
    change (_ >>= fun _ => _ : Run W _) mid = _ at h
    obtain ⟨saveName, hsave, h⟩ := liftStatus_bind_eq_ok.mp h
    obtain ⟨added, next, hadd, h⟩ := Program.bind_eq_ok.mp h
    cases (Program.pure_eq_ok.mp h).1
    exact ⟨rfl, saveName, next, hsave, hadd⟩

theorem zipWriterAddFunc_files {infiles : List PathName}
    (h : zipWriterAddFunc Z os fuel archive writer infiles w = .ok writer' w') :
    ∃ mid last, zipWriterAddFiles Z os fuel archive writer infiles mid = .ok writer' last := by
  obtain ⟨⟨⟩, checked, -, h⟩ := Program.bind_eq_ok.mp h
  obtain ⟨⟨⟩, measured, -, h⟩ := Program.bind_eq_ok.mp h
  obtain ⟨added, next, hfiles, h⟩ := Program.bind_eq_ok.mp h
  obtain ⟨cancelled, asked, -, h⟩ := Program.bind_eq_ok.mp h
  cases cancelled with
  | true => cases h
  | false =>
    cases (Program.pure_eq_ok.mp h).1
    exact ⟨measured, next, hfiles⟩

end

end Zip.Out

/-! ## What the calls keep -/

/-- Every write and every seek that succeeds keeps `P`; where the archive `deflates`, a write of a
full buffer does so however it ends. -/
structure StreamOps.Keeps (deflates : Prop) (P : B → Prop) : Prop where
  write : ∀ {base : B}, P base → ∀ bytes,
    (StreamSink.write base bytes).1 = bytes.length → P (StreamSink.write base bytes).2
  seek : ∀ {base : B}, P base → ∀ offset origin,
    (StreamOps.seek base offset origin).1 = true → P (StreamOps.seek base offset origin).2
  full : deflates → ∀ {base : B}, P base → ∀ bytes, bytes.length = ZIP_BUF_INTERNAL →
    P (StreamSink.write base bytes).2

variable {deflates : Prop} {P : B → Prop} (hkeeps : StreamOps.Keeps deflates P)

include hkeeps

variable {base base' : B}

theorem Out.streamWrite_keeps {bytes : List UInt8} (hbase : P base)
    (h : Out.streamWrite base bytes = .ok base') : P base' := by
  have hkept := hkeeps.write hbase bytes
  rw [Out.streamWrite] at h
  cases hwrite : StreamSink.write base bytes with
  | mk written next =>
    rw [hwrite] at h hkept
    dsimp only at h
    split at h
    · cases h
    · next hall =>
      cases h
      exact hkept (not_not.mp hall)

theorem Out.streamSeek_keeps {offset : Int} {origin : SeekOrigin} (hbase : P base)
    (h : Out.streamSeek base offset origin = .ok base') : P base' := by
  have hkept := hkeeps.seek hbase offset origin
  rw [Out.streamSeek] at h
  cases hseek : StreamOps.seek base offset origin with
  | mk ok next =>
    rw [hseek] at h hkept
    dsimp only at h
    split at h
    · next hok =>
      cases h
      exact hkept hok
    · cases h

/-! ## The deflate stream -/

section

variable {D : Decoder} {Z : Deflate D}

/-- A deflate stream with a buffer of `ZIP_BUF_INTERNAL` bytes, above a stream with `P`. -/
structure DeflateStream.Filling (deflates : Prop) (P : B → Prop) (Z : Deflate D)
    (st : DeflateStream Z.State B) : Prop where
  deflates : deflates
  base : P st.base
  holds : ∃ b out, Z.Holds st.zstream b out
  room : st.buf.length + st.availOut = st.len
  len : st.len = ZIP_BUF_INTERNAL
  going : Z.finishing st.zstream = true → st.nextIn = []

theorem flushFull_keeps {st : DeflateStream Z.State B} (h : st.Filling deflates P Z) :
    st.flushFull.2.Filling deflates P Z ∧ st.flushFull.2.zstream = st.zstream ∧
      (∀ flushed, st.flushFull.1 = .ok flushed → 0 < st.flushFull.2.availOut) := by
  rw [DeflateStream.flushFull]
  by_cases hroom : st.availOut ≠ 0
  · rw [if_pos hroom]
    exact ⟨h, rfl, fun _ _ => Nat.pos_of_ne_zero hroom⟩
  · rw [if_neg hroom]
    have hlength : st.buf.length = ZIP_BUF_INTERNAL := by
      rw [← h.len, ← h.room, not_not.mp hroom, Nat.add_zero]
    have hkept := hkeeps.full h.deflates h.base st.buf hlength
    dsimp only
    split
    · exact ⟨⟨h.deflates, hkept, h.holds, h.room, h.len, h.going⟩, rfl, nofun⟩
    · refine ⟨⟨h.deflates, hkept, h.holds, Nat.zero_add _, h.len, h.going⟩, rfl, fun _ _ => ?_⟩
      show 0 < st.len
      rw [h.len]
      decide

omit [StreamOps B] hkeeps in
theorem deflate_keeps (hidle : Z.Idle) {flush : FlushMode} {st : DeflateStream Z.State B}
    (h : st.Filling deflates P Z) (hroom : 0 < st.availOut)
    (hopen : flush = .noFlush → Z.finishing st.zstream = false) :
    (st.deflate Z flush).1 = .bufError ∨ (st.deflate Z flush).2.Filling deflates P Z ∧
      (flush = .noFlush → Z.finishing (st.deflate Z flush).2.zstream = false) := by
  obtain ⟨b, out, hholds⟩ := h.holds
  have hspent : ∀ {output : List UInt8}, output.length ≤ st.availOut →
      (st.buf ++ output).length + (st.availOut - output.length) = st.len := by
    intro output hle
    have hbefore := h.room
    rw [List.length_append]
    omega
  rw [DeflateStream.deflate]
  cases flush with
  | noFlush =>
    have hcall : (Z.deflate st.zstream st.nextIn st.availOut .noFlush).ret = .bufError ∨
        DeflateWrite Z.finishing st.nextIn st.availOut
          (Z.deflate st.zstream st.nextIn st.availOut .noFlush) ∧
        ∃ b out, Z.Holds (Z.deflate st.zstream st.nextIn st.availOut .noFlush).state b out := by
      by_cases hinput : st.nextIn = []
      · rw [hinput]
        exact (hidle hholds (hopen rfl) hroom).imp_right fun hmore => ⟨hmore.1, _, _, hmore.2⟩
      · obtain ⟨hwrite, hheld⟩ := Z.write hholds (hopen rfl) hinput hroom
        exact .inr ⟨hwrite, _, _, hheld⟩
    refine hcall.imp_right fun ⟨hwrite, hheld⟩ =>
      ⟨⟨h.deflates, h.base, hheld, hspent hwrite.output_le, h.len, ?_⟩, fun _ => hwrite.finishing⟩
    intro hfinishing
    exact absurd (hwrite.finishing.symm.trans hfinishing) Bool.false_ne_true
  | finish =>
    obtain ⟨hfinish, hheld⟩ := Z.finish hholds h.going hroom
    refine .inr ⟨⟨h.deflates, h.base, ⟨_, _, hheld⟩, hspent hfinish.output_le, h.len, ?_⟩, nofun⟩
    intro hfinishing
    show st.nextIn.drop _ = []
    rw [hfinish.finishing hfinishing, List.drop_length]

theorem deflateWriteLoop_keeps (hidle : Z.Idle) {flush : FlushMode} (fuel : Nat) :
    ∀ {flushed : Nat} {st st' : DeflateStream Z.State B} {e : DeflateWriteEnd},
      st.Filling deflates P Z → (flush = .noFlush → Z.finishing st.zstream = false) →
      deflateWriteLoop Z flush fuel flushed st = some (e, st') →
      (∃ err, e = .left (.error err)) ∨ st'.Filling deflates P Z ∧
        (flush = .noFlush → Z.finishing st'.zstream = false) := by
  induction fuel with
  | zero => nofun
  | succ fuel ih =>
    intro flushed st st' e hst hopen h
    obtain ⟨hmid, hsame, hroom⟩ := flushFull_keeps hkeeps hst
    rw [deflateWriteLoop] at h
    cases hfull : st.flushFull with
    | mk result mid =>
      rw [hfull] at h hmid hsame hroom
      have hmidOpen : flush = .noFlush → Z.finishing mid.zstream = false := fun hflush => by
        rw [hsame]
        exact hopen hflush
      cases result with
      | error status =>
        cases h
        exact .inr ⟨hmid, hmidOpen⟩
      | ok count =>
        have hcall := deflate_keeps hidle hmid (hroom count rfl) hmidOpen
        dsimp only at h
        cases hdeflate : mid.deflate Z flush with
        | mk ret next =>
          rw [hdeflate] at h hcall
          cases ret
          case ok =>
            obtain ⟨hnext, hnextOpen⟩ := hcall.resolve_left nofun
            dsimp only at h
            split at h
            · exact ih hnext hnextOpen h
            · cases h
              exact .inr ⟨hnext, hnextOpen⟩
          case streamEnd =>
            cases h
            exact .inr (hcall.resolve_left nofun)
          all_goals
            cases h
            exact .inl ⟨_, rfl⟩

theorem deflateWriteBuf_keeps (hidle : Z.Idle) {flush : FlushMode} {fuel : Nat}
    {st st' : DeflateStream Z.State B} (hst : st.Filling deflates P Z)
    (hopen : flush = .noFlush → Z.finishing st.zstream = false)
    (h : deflateWriteBuf Z fuel st flush = some (.ok (), st')) :
    st'.Filling deflates P Z ∧ (flush = .noFlush → Z.finishing st'.zstream = false) := by
  obtain ⟨⟨e, last⟩, hloop, heq⟩ := Option.map_eq_some_iff.mp h
  rcases deflateWriteLoop_keeps hkeeps hidle fuel hst hopen hloop with ⟨err, rfl⟩ | hlast
  · cases heq
  · cases e with
    | left status =>
      cases heq
      exact hlast
    | done flushed =>
      cases heq
      exact ⟨⟨hlast.1.deflates, hlast.1.base, hlast.1.holds, hlast.1.room, hlast.1.len,
        hlast.1.going⟩, hlast.2⟩

/-- The stream that data is written through, above a stream with `P`. -/
inductive WriteStream.Above (deflates : Prop) (P : B → Prop) (Z : Deflate D) :
    WriteStream Z.State B → Prop where
  | raw {base : B} {total : Nat} (sound : P base) : Above deflates P Z (.raw base total)
  | deflate {st : DeflateStream Z.State B} (filling : st.Filling deflates P Z)
      (writing : Z.finishing st.zstream = false) : Above deflates P Z (.deflate st)

theorem WriteStream.write_keeps (hidle : Z.Idle) {fuel : Nat} {data : List UInt8}
    {stream stream' : WriteStream Z.State B} (hstream : stream.Above deflates P Z)
    (h : stream.write Z fuel data = some (.ok stream')) : stream'.Above deflates P Z := by
  cases hstream with
  | raw hbase =>
    obtain ⟨base', hwrite, heq⟩ := map_eq_ok.mp (Option.some.inj h)
    cases heq
    exact .raw (Out.streamWrite_keeps hkeeps hbase hwrite)
  | @deflate st hfilling hwriting =>
    obtain ⟨⟨status, last⟩, hwrite, heq⟩ := Option.map_eq_some_iff.mp h
    obtain ⟨⟨status', last'⟩, hbuf, hlast⟩ := Option.map_eq_some_iff.mp hwrite
    obtain ⟨size, hsize, hnext⟩ := map_eq_ok.mp heq
    cases hlast
    cases hnext
    cases status' with
    | error err => cases hsize
    | ok u =>
      have hstart : ({ st with nextIn := data.take (data.length % 2 ^ 32) } :
          DeflateStream Z.State B).Filling deflates P Z :=
        ⟨hfilling.deflates, hfilling.base, hfilling.holds, hfilling.room, hfilling.len,
          fun hfinishing => absurd (hwriting.symm.trans hfinishing) Bool.false_ne_true⟩
      obtain ⟨hkept, hopen⟩ := deflateWriteBuf_keeps hkeeps hidle hstart (fun _ => hwriting) hbuf
      exact .deflate hkept (hopen rfl)

theorem WriteStream.close_keeps (hidle : Z.Idle) {fuel : Nat}
    {stream stream' : WriteStream Z.State B} (hstream : stream.Above deflates P Z)
    (h : stream.close Z fuel = some (.ok stream')) : P stream'.base := by
  cases hstream with
  | raw hbase =>
    cases h
    exact hbase
  | deflate hfilling hwriting =>
    obtain ⟨⟨status, last⟩, hclose, heq⟩ := Option.map_eq_some_iff.mp h
    obtain ⟨⟨status', last'⟩, hbuf, hlast⟩ := Option.map_eq_some_iff.mp hclose
    obtain ⟨⟨⟩, hstatus, hnext⟩ := map_eq_ok.mp heq
    cases hnext
    cases status' with
    | error err =>
      cases hlast
      cases hstatus
    | ok u =>
      have hkept := (deflateWriteBuf_keeps hkeeps hidle hfilling (fun h => by cases h) hbuf).1
      have hlength : (last'.buf.take (last'.len - last'.availOut)).length =
          last'.len - last'.availOut := by
        have hroom := hkept.room
        rw [List.length_take]
        omega
      have hsent := hkeeps.write hkept.base (last'.buf.take (last'.len - last'.availOut))
      rw [hlength] at hsent
      dsimp only at hlast
      split at hlast
      · cases hlast
        cases hstatus
      · next hall =>
        cases hlast
        exact hsent (not_not.mp hall)

end

/-! ## Entries -/

namespace Zip.Out

theorem zipWriteFileName_keeps {filename : CString} {length : UInt16} (hbase : P base)
    (h : zipWriteFileName base filename length = .ok base') : P base' := by
  rw [zipWriteFileName] at h
  split at h
  · exact Out.streamWrite_keeps hkeeps hbase h
  · cases h
    exact hbase

theorem zipEntryWriteLocalHeader_keeps {e e' : ZipWriterEntryInfo} (hbase : P base)
    (h : zipEntryWriteLocalHeader base e = .ok (base', e')) :
    P base' ∧ e'.compressionMethod = e.compressionMethod := by
  obtain ⟨headed, hheader, h⟩ := bind_eq_ok.mp h
  have hheaded := Out.streamWrite_keeps hkeeps hbase hheader
  obtain ⟨named, hname, h⟩ := bind_eq_ok.mp h
  have hnamed := zipWriteFileName_keeps hkeeps hheaded hname
  split at h
  · obtain ⟨extended, hextra, h⟩ := bind_eq_ok.mp h
    cases h
    exact ⟨Out.streamWrite_keeps hkeeps hnamed hextra, rfl⟩
  · cases h
    exact ⟨hnamed, rfl⟩

theorem zipEntryUpdateLocalHeader_keeps {e : ZipWriterEntryInfo} (hbase : P base)
    (h : zipEntryUpdateLocalHeader base e = .ok base') : P base' := by
  obtain ⟨sought, hseek, h⟩ := bind_eq_ok.mp h
  have hsought := Out.streamSeek_keeps hkeeps hbase hseek
  obtain ⟨checked, hcrc, h⟩ := bind_eq_ok.mp h
  have hchecked := Out.streamWrite_keeps hkeeps hsought hcrc
  dsimp only at h
  split at h
  · cases h
  · obtain ⟨packed, hpacked, h⟩ := bind_eq_ok.mp h
    have hpacked := Out.streamWrite_keeps hkeeps hchecked hpacked
    obtain ⟨plain, hplain, h⟩ := bind_eq_ok.mp h
    have hplain := Out.streamWrite_keeps hkeeps hpacked hplain
    split at h
    · obtain ⟨extra, hextra, h⟩ := bind_eq_ok.mp h
      have hextra := Out.streamSeek_keeps hkeeps hplain hextra
      obtain ⟨first, hfirst, h⟩ := bind_eq_ok.mp h
      have hfirst := Out.streamWrite_keeps hkeeps hextra hfirst
      obtain ⟨second, hsecond, h⟩ := bind_eq_ok.mp h
      have hsecond := Out.streamWrite_keeps hkeeps hfirst hsecond
      exact Out.streamSeek_keeps hkeeps hsecond h
    · exact Out.streamSeek_keeps hkeeps hplain h

theorem zipWriterSaveEnd_keeps {closing : ZipWriter} (hbase : P base)
    (h : zipWriterSaveEnd closing base = .ok base') : P base' := by
  rw [zipWriterSaveEnd] at h
  split at h
  · obtain ⟨record, hrecord, h⟩ := bind_eq_ok.mp h
    have hrecord := Out.streamWrite_keeps hkeeps hbase hrecord
    obtain ⟨locator, hlocator, h⟩ := bind_eq_ok.mp h
    have hlocator := Out.streamWrite_keeps hkeeps hrecord hlocator
    exact Out.streamWrite_keeps hkeeps hlocator h
  · exact Out.streamWrite_keeps hkeeps hbase h

theorem zipWriterSaveCD_keeps {base : B} {writer : ArchiveWriter B} (hbase : P writer.base)
    (h : zipWriterSaveCD writer = .ok base) : P base := by
  obtain ⟨listed, hlist, h⟩ := bind_eq_ok.mp h
  exact zipWriterSaveEnd_keeps hkeeps (Out.streamWrite_keeps hkeeps hbase hlist) h

/-! ## Adding -/

section

variable {W H : Type} {D : Decoder} {Z : Deflate D} {os : SourceOs W H} {fuel : Nat}
  {archive : WriteMethod}

variable {w w' : W}

theorem zipWriterEntryOpen_keeps (hmethod : archive.method = OH_ARCHIVE_COMPRESS_DEFLATE → deflates)
    {base : B} {fileType : FileType} {task : WriterTask Z.State B H} (hbase : P base)
    (h : zipWriterEntryOpen Z os archive base fileType node w = .ok (.ok task) w') :
    task.stream.Above deflates P Z := by
  obtain ⟨st, mid, next, -, -, hknown, -, hheader, hstream⟩ := zipWriterEntryOpen_ok h
  obtain ⟨hnext, hsame⟩ := zipEntryWriteLocalHeader_keeps hkeeps hbase hheader
  rw [hstream, zipWriterOpenInitCompressStream]
  split
  · exact .raw hnext
  · next hcompressed =>
    have hsome : archive.method ≠ OH_ARCHIVE_NO_COMPRESSION := by
      intro hnone
      refine hcompressed (hsame.trans ?_)
      show (if _ then OH_ARCHIVE_NO_COMPRESSION else archive.method) = _
      rw [hnone, ite_self]
    exact .deflate ⟨hmethod (hknown hsome), hnext, ⟨_, _, Z.reset_holds⟩, Nat.zero_add _, rfl,
      fun _ => rfl⟩ Z.reset_finishing

variable (hidle : Z.Idle)

include hidle

theorem WriterTask.write_keeps {data : List UInt8} {task task' : WriterTask Z.State B H}
    (htask : task.stream.Above deflates P Z) (h : task.write Z fuel data w = .ok task' w') :
    task'.stream.Above deflates P Z := by
  obtain ⟨result, hresult, h⟩ := liftFuel_bind_eq_ok.mp h
  obtain ⟨stream, hstream, h⟩ := liftStatus_bind_eq_ok.mp h
  cases (Program.pure_eq_ok.mp h).1
  subst hstream
  exact WriteStream.write_keeps hkeeps hidle htask hresult

theorem zipWriterAddData_keeps {path : PathName} {task task' : WriterTask Z.State B H}
    (htask : task.stream.Above deflates P Z)
    (h : zipWriterAddData Z os fuel path task w = .ok task' w') :
    task'.stream.Above deflates P Z :=
  zipWriterAddData_induct (fun htask => WriterTask.write_keeps hkeeps hidle htask) htask h

variable {writer writer' : ArchiveWriter B}

theorem zipWriterCloseStream_keeps {task : WriterTask Z.State B H} {needCalSize : Bool}
    (htask : task.stream.Above deflates P Z)
    (h : zipWriterCloseStream Z fuel writer task needCalSize w = .ok writer' w') :
    P writer'.base := by
  obtain ⟨result, hresult, h⟩ := liftFuel_bind_eq_ok.mp h
  obtain ⟨stream, hstream, h⟩ := liftStatus_bind_eq_ok.mp h
  obtain ⟨base, hupdate, h⟩ := liftStatus_bind_eq_ok.mp h
  obtain ⟨cdMemStream, -, h⟩ := liftStatus_bind_eq_ok.mp h
  cases (Program.pure_eq_ok.mp h).1
  subst hstream
  exact zipEntryUpdateLocalHeader_keeps hkeeps
    (WriteStream.close_keeps hkeeps hidle htask hresult) hupdate

/-! ## The walk -/

variable (hmethod : archive.method = OH_ARCHIVE_COMPRESS_DEFLATE → deflates)

include hmethod

theorem zipWriterAddOneFile_keeps (hbase : P writer.base)
    (h : zipWriterAddOneFile Z os fuel archive writer node w = .ok writer' w') :
    P writer'.base := by
  rcases zipWriterAddOneFile_ok h with
    ⟨task, added, opened, next, last, hopen, hadd, hclose⟩ | ⟨rfl, -⟩
  · exact zipWriterCloseStream_keeps hkeeps hidle (zipWriterAddData_keeps hkeeps hidle
      (zipWriterEntryOpen_keeps hkeeps hmethod hbase hopen) hadd) hclose
  · exact hbase

theorem zipWriterAddNode_keeps {inputDir path : PathName} {queue queue' : List PathName}
    (hbase : P writer.base)
    (h : zipWriterAddNode Z os fuel archive inputDir writer path queue w = .ok (writer', queue') w') :
    P writer'.base := by
  obtain ⟨dir, mid, -, h⟩ := zipWriterAddNode_ok h
  split at h
  · obtain ⟨⟨next, hadd⟩, -⟩ := h
    split at hadd
    · obtain ⟨_, _, task, opened, closed, -, -, hopen, hclose⟩ := zipWriterAddEmptyDir_ok hadd
      exact zipWriterCloseStream_keeps hkeeps hidle
        (zipWriterEntryOpen_keeps hkeeps hmethod hbase hopen) hclose
    · exact hadd ▸ hbase
  · obtain ⟨-, saveName, last, -, hadd⟩ := h
    exact zipWriterAddOneFile_keeps hkeeps hidle hmethod hbase hadd

theorem zipWriterAddQueue_keeps {inputDir : PathName} (turns : Nat) :
    ∀ {writer writer' : ArchiveWriter B} {queue : List PathName} {w w' : W}, P writer.base →
      zipWriterAddQueue Z os fuel archive inputDir turns writer queue w = .ok writer' w' →
      P writer'.base := by
  induction turns with
  | zero =>
    intro writer writer' queue w w' hbase h
    cases queue with
    | nil => exact (Program.pure_eq_ok.mp h).1 ▸ hbase
    | cons path queue => cases h
  | succ turns ih =>
    intro writer writer' queue w w' hbase h
    cases queue with
    | nil => exact (Program.pure_eq_ok.mp h).1 ▸ hbase
    | cons path queue =>
      obtain ⟨⟨mid, queued⟩, next, hnode, h⟩ := Program.bind_eq_ok.mp h
      exact ih (zipWriterAddNode_keeps hkeeps hidle hmethod hbase hnode) h

theorem zipWriterAddFiles_keeps (infiles : List PathName) :
    ∀ {writer writer' : ArchiveWriter B} {w w' : W}, P writer.base →
      zipWriterAddFiles Z os fuel archive writer infiles w = .ok writer' w' →
      P writer'.base := by
  induction infiles with
  | nil => exact fun hbase h => (Program.pure_eq_ok.mp h).1 ▸ hbase
  | cons infile infiles ih =>
    intro writer writer' w w' hbase h
    obtain ⟨mid, next, hone, h⟩ := Program.bind_eq_ok.mp h
    exact ih (zipWriterAddQueue_keeps hkeeps hidle hmethod fuel hbase hone) h

theorem zipWriterAddFunc_keeps {base : B} {infiles : List PathName} {writer' : ArchiveWriter B}
    (hbase : P base) (h : zipWriterAddFunc Z os fuel archive { base } infiles w = .ok writer' w') :
    P writer'.base := by
  obtain ⟨mid, last, hfiles⟩ := zipWriterAddFunc_files h
  exact zipWriterAddFiles_keeps hkeeps hidle hmethod infiles hbase hfiles

end

end Zip.Out

end FileApi.Compress
