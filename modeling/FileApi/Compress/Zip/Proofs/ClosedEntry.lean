import FileApi.Compress.Proofs.StreamDeflate
import FileApi.Compress.Zip.Proofs.AddedFiles
import FileApi.Compress.Zip.Proofs.WriterInvariant

/-!
# The patch of a local header, seen from the archive

An entry is opened behind the archive written so far, its data follows its local header, and the
header is patched when the entry is closed. The stream of the archive is a byte array here: it keeps
what it takes, and refuses what does not fit below the largest position.
-/

namespace FileApi.Compress

open Program Zlib Zip

/-! ## Byte arrays as streams -/

namespace Zip.Out

theorem zipWriteFileName_byteFile (f : ByteFile) (filename : CString) (length : UInt16) :
    zipWriteFileName f filename length = Zip.zipWriteFileName f filename length := by
  unfold zipWriteFileName Zip.zipWriteFileName
  rw [Compress.Out.streamWrite_byteFile]

theorem zipEntryWriteLocalHeader_byteFile (f : ByteFile) (e : ZipWriterEntryInfo) :
    zipEntryWriteLocalHeader f e = Zip.zipEntryWriteLocalHeader f e := by
  unfold zipEntryWriteLocalHeader Zip.zipEntryWriteLocalHeader
  simp only [Compress.Out.streamWrite_byteFile, zipWriteFileName_byteFile]
  rfl

theorem zipEntryUpdateLocalHeader_byteFile (f : ByteFile) (e : ZipWriterEntryInfo) :
    zipEntryUpdateLocalHeader f e = Zip.zipEntryUpdateLocalHeader f e := by
  unfold zipEntryUpdateLocalHeader Zip.zipEntryUpdateLocalHeader
  simp only [Compress.Out.streamWrite_byteFile, Compress.Out.streamSeek_byteFile]
  rfl

end Zip.Out

/-- What was written behind `pre`. -/
def ByteFile.view (pre : List UInt8) : SinkView ByteFile where
  Sound f := f.AtEnd ∧ f.pos < offLimit ∧ ∃ sent, f.data = pre ++ sent
  received f := f.data.drop pre.length
  write := by
    rintro f buf ⟨hend, hpos, sent, hdata⟩ h
    have hfit : f.pos + buf.length < offLimit := by
      by_contra hnot
      simp only [StreamSink.write, if_neg hnot] at h
      omega
    simp only [StreamSink.write, if_pos hfit]
    rw [ByteFile.write_atEnd hend]
    dsimp only
    refine ⟨⟨?_, ?_, sent ++ buf, ?_⟩, ?_⟩
    · exact List.length_append.symm
    · rw [← hend]
      exact hfit
    · rw [hdata, List.append_assoc]
    · rw [hdata, List.append_assoc, List.drop_left, List.drop_left]

section

variable {D : Decoder} {Z : Deflate D} {st st' : DeflateStream Z.State ByteFile}

/-- The full buffer does not fit below the largest position: no write will ever succeed. -/
structure Stuck (st : DeflateStream Z.State ByteFile) : Prop where
  full : st.availOut = 0
  room : st.buf.length = st.len
  beyond : ¬ st.base.pos + st.buf.length < offLimit

theorem Stuck.flushFull (h : Stuck st) : st.flushFull = (.error (.ok ()), st) := by
  rw [DeflateStream.flushFull, if_neg (not_not.mpr h.full)]
  simp only [StreamSink.write, if_neg h.beyond]
  have hlen : ¬ (-1 : Int) = (st.len : Int) := by omega
  rw [if_pos hlen, if_pos (by decide)]

theorem FlushLeft.stuck (h : FlushLeft st') : Stuck st' := by
  obtain ⟨st, hroom, h⟩ := h
  rw [DeflateStream.flushFull] at h
  by_cases hfull : st.availOut = 0
  · rw [hfull, Nat.add_zero] at hroom
    rw [if_neg (not_not.mpr hfull)] at h
    by_cases hfit : st.base.pos + st.buf.length < offLimit
    · simp only [StreamSink.write, if_pos hfit] at h
      split at h
      · next hlen => exact absurd (by rw [hroom]) hlen
      · cases h
    · simp only [StreamSink.write, if_neg hfit] at h
      split at h
      · cases h
        exact ⟨hfull, hroom, hfit⟩
      · cases h
  · rw [if_pos hfull] at h
    cases h

theorem Stuck.deflateWriteBuf (h : Stuck st) {fuel : Nat} {flush : FlushMode}
    {status : Except ArchiveErr Unit}
    (hbuf : deflateWriteBuf Z fuel st flush = some (status, st')) : status = .ok () ∧ st' = st := by
  obtain ⟨⟨e, last⟩, hloop, heq⟩ := Option.map_eq_some_iff.mp hbuf
  cases fuel with
  | zero => cases hloop
  | succ fuel =>
    rw [deflateWriteLoop, h.flushFull] at hloop
    cases hloop
    cases heq
    exact ⟨rfl, rfl⟩

theorem Stuck.deflateStreamWrite (h : Stuck st) {fuel : Nat} {data : List UInt8}
    {r : Except ArchiveErr Nat} (hwrite : deflateStreamWrite Z fuel st data = some (r, st')) :
    Stuck st' := by
  obtain ⟨⟨status, last⟩, hbuf, heq⟩ := Option.map_eq_some_iff.mp hwrite
  cases heq
  have hstuck : Stuck { st with nextIn := data.take (data.length % 2 ^ 32) } :=
    ⟨h.full, h.room, h.beyond⟩
  rw [(hstuck.deflateWriteBuf hbuf).2]
  exact hstuck

theorem Stuck.deflateStreamClose (h : Stuck st) {fuel : Nat} :
    deflateStreamClose Z fuel st ≠ some (.ok (), st') := by
  intro hclose
  obtain ⟨⟨status, last⟩, hbuf, heq⟩ := Option.map_eq_some_iff.mp hclose
  obtain ⟨rfl, rfl⟩ := h.deflateWriteBuf hbuf
  have htake : last.buf.take (last.len - last.availOut) = last.buf := by
    rw [h.full, Nat.sub_zero, ← h.room, List.take_length]
  simp only [htake, StreamSink.write, if_neg h.beyond] at heq
  split at heq
  · cases heq
  · next hall =>
    refine hall fun heq => ?_
    omega

end

/-! ## The stream of an entry -/

namespace Zip.Out

variable {W H : Type} {D : Decoder} {Z : Deflate D} {os : SourceOs W H} {fuel : Nat}
  {archive : WriteMethod} {pre b : List UInt8}

/-- The stream of an entry has taken `b`, and what it gave is behind `pre`, or will never be. -/
inductive Carries (Z : Deflate D) (pre b : List UInt8) : WriteStream Z.State ByteFile → Prop where
  | raw {base : ByteFile} (atEnd : base.AtEnd) (pos : base.pos < offLimit)
      (data : base.data = pre ++ b) : Carries Z pre b (.raw base b.length)
  | deflate {st : DeflateStream Z.State ByteFile}
      (session : DeflateSession (ByteFile.view pre) Z b st) : Carries Z pre b (.deflate st)
  | stuck {st : DeflateStream Z.State ByteFile} (stuck : Stuck st) : Carries Z pre b (.deflate st)

theorem Carries.write (hidle : Z.Idle) {stream stream' : WriteStream Z.State ByteFile}
    {data : List UInt8} (h : Carries Z pre b stream)
    (hwrite : stream.write Z fuel data = some (.ok stream')) :
    ∃ taken, (data.length < 2 ^ 32 → taken = data) ∧ Carries Z pre (b ++ taken) stream' := by
  cases h with
  | @raw base hend hpos hdata =>
    obtain ⟨base', hbase, rfl⟩ := map_eq_ok.mp (Option.some.inj hwrite)
    rw [Compress.Out.streamWrite_byteFile] at hbase
    obtain ⟨hfit, rfl⟩ := streamWrite_ok hbase
    refine ⟨data, fun _ => rfl, ?_⟩
    rw [← List.length_append]
    refine .raw (hend.write data) hfit ?_
    rw [ByteFile.write_atEnd hend, hdata, List.append_assoc]
  | deflate session =>
    obtain ⟨⟨status, st'⟩, hst, hstatus⟩ := Option.map_eq_some_iff.mp hwrite
    obtain ⟨n, rfl, rfl⟩ := map_eq_ok.mp hstatus
    refine ⟨data.take (data.length % 2 ^ 32), take_length_mod, ?_⟩
    rcases deflateStreamWrite_session hidle session hst with hleft | hsession
    · exact .stuck hleft.stuck
    · exact .deflate hsession
  | stuck hstuck =>
    obtain ⟨⟨status, st'⟩, hst, hstatus⟩ := Option.map_eq_some_iff.mp hwrite
    obtain ⟨n, rfl, rfl⟩ := map_eq_ok.mp hstatus
    exact ⟨data, fun _ => rfl, .stuck (hstuck.deflateStreamWrite hst)⟩

theorem Carries.close (hidle : Z.Idle) {stream stream' : WriteStream Z.State ByteFile}
    (h : Carries Z pre b stream) (hclose : stream.close Z fuel = some (.ok stream')) :
    ∃ payload, stream'.base.AtEnd ∧ stream'.base.pos < offLimit ∧
      stream'.base.data = pre ++ payload ∧ stream'.totalOut = UInt64.ofNat payload.length ∧
      stream'.totalIn = UInt64.ofNat b.length := by
  cases h with
  | @raw base hend hpos hdata =>
    cases hclose
    exact ⟨b, hend, hpos, hdata, rfl, rfl⟩
  | deflate session =>
    obtain ⟨⟨status, st'⟩, hst, hstatus⟩ := Option.map_eq_some_iff.mp hclose
    obtain ⟨⟨⟩, rfl, rfl⟩ := map_eq_ok.mp hstatus
    rcases deflateStreamClose_session hidle session hst with ⟨last, hleft, hall, -⟩ | hdone
    · have hstuck := hleft.stuck
      rw [hstuck.full, Nat.sub_zero, ← hstuck.room, List.take_length] at hall
      simp only [StreamSink.write, if_neg hstuck.beyond] at hall
      omega
    · obtain ⟨⟨hend, hpos, sent, hdata⟩, -, -, hin, hout⟩ := hdone
      have hreceived : (ByteFile.view pre).received st'.base = sent := by
        show st'.base.data.drop pre.length = sent
        rw [hdata, List.drop_left]
      rw [hreceived] at hout
      exact ⟨sent, hend, hpos, hdata, congrArg UInt64.ofNat hout, congrArg UInt64.ofNat hin⟩
  | stuck hstuck =>
    obtain ⟨⟨status, st'⟩, hst, hstatus⟩ := Option.map_eq_some_iff.mp hclose
    obtain ⟨⟨⟩, rfl, rfl⟩ := map_eq_ok.mp hstatus
    exact absurd hst hstuck.deflateStreamClose

/-! ## The task of an entry -/

/-- A task that was opened behind `pre` with the entry `opened`, and has taken `b`. -/
structure Underway (Z : Deflate D) (pre : List UInt8) (opened : ZipWriterEntryInfo)
    (b : List UInt8) (task : WriterTask Z.State ByteFile H) : Prop where
  entryInfo : ∃ crc, task.entryInfo = { opened with crc }
  stream : Carries Z (pre ++ localRecord opened) b task.stream

variable {opened : ZipWriterEntryInfo}

theorem WriterTask.write_underway (hidle : Z.Idle) {data : List UInt8}
    {task task' : WriterTask Z.State ByteFile H} {w w' : W} (htask : Underway Z pre opened b task)
    (h : task.write Z fuel data w = .ok task' w') :
    w' = w ∧ ∃ taken, (data.length < 2 ^ 32 → taken = data) ∧
      Underway Z pre opened (b ++ taken) task' := by
  obtain ⟨result, hresult, h⟩ := liftFuel_bind_eq_ok.mp h
  obtain ⟨stream, hstream, h⟩ := liftStatus_bind_eq_ok.mp h
  obtain ⟨rfl, rfl⟩ := Program.pure_eq_ok.mp h
  subst hstream
  obtain ⟨crc, hentry⟩ := htask.entryInfo
  obtain ⟨taken, htaken, hcarries⟩ := htask.stream.write hidle hresult
  exact ⟨rfl, taken, htaken, ⟨_, by rw [hentry]⟩, hcarries⟩

/-- What is taken from an open file is at most what is left of it. -/
theorem zipWriterAddLoop_underway (hidle : Z.Idle) {handle : H} (turns : Nat) :
    ∀ {b : List UInt8} {task task' : WriterTask Z.State ByteFile H} {w w' : W},
      Underway Z pre opened b task →
      zipWriterAddLoop Z os fuel handle turns task w = .ok task' w' →
      ∃ taken, Underway Z pre opened (b ++ taken) task' ∧
        ∀ U : SourceOs.Unchanging os, taken.length ≤ U.left handle w := by
  induction turns with
  | zero => nofun
  | succ turns ih =>
    intro b task task' w w' htask h
    rw [zipWriterAddLoop] at h
    obtain ⟨read, mid, hcall, h⟩ := Program.bind_eq_ok.mp h
    cases hcall
    cases hread : (os.fread handle ZIP_BUF_INTERNAL w).1 with
    | error errno =>
      rw [hread] at h
      cases h
    | ok data =>
      rw [hread] at h
      dsimp only at h
      split at h
      · obtain ⟨rfl, rfl⟩ := Program.pure_eq_ok.mp h
        refine ⟨[], ?_, fun _ => Nat.zero_le _⟩
        rw [List.append_nil]
        exact htask
      · obtain ⟨written, next, hwrite, h⟩ := Program.bind_eq_ok.mp h
        obtain ⟨cancelled, last, hcall, h⟩ := Program.bind_eq_ok.mp h
        cases hcall
        obtain ⟨rfl, taken, htaken, hwritten⟩ := WriterTask.write_underway hidle htask hwrite
        split at h
        · cases h
        · obtain ⟨rest, hrest, hleft⟩ := ih hwritten h
          refine ⟨taken ++ rest, ?_, fun U => ?_⟩
          · rw [← List.append_assoc]
            exact hrest
          · obtain ⟨hsize, hfewer⟩ := U.fread handle ZIP_BUF_INTERNAL w data hread
            have hall := htaken (Nat.lt_of_le_of_lt hsize (by decide))
            have hcancels := U.cancels handle (os.fread handle ZIP_BUF_INTERNAL w).2
            have hrestLeft := hleft U
            rw [List.length_append, hall]
            omega

theorem zipWriterAddData_underway (hidle : Z.Idle) {path : PathName}
    {task task' : WriterTask Z.State ByteFile H} {w w' : W} (htask : Underway Z pre opened [] task)
    (h : zipWriterAddData Z os fuel path task w = .ok task' w') :
    ∃ b, Underway Z pre opened b task' ∧ ∀ U : SourceOs.Unchanging os,
      b.length < ZIP_FILE_NAME_LEN_MAX ∨
        ∃ handle, task.extractStream = some handle ∧ b.length ≤ U.left handle w := by
  obtain ⟨st, mid, hcall, h⟩ := Program.bind_eq_ok.mp h
  cases hcall
  split at h
  · obtain ⟨linkName, last, hlink, h⟩ := Program.bind_eq_ok.mp h
    cases linkName with
    | none => cases h
    | some linkName =>
      have hshort : linkName.length < ZIP_FILE_NAME_LEN_MAX := by
        obtain ⟨target, there, hcall, hpure⟩ := Program.bind_eq_ok.mp hlink
        obtain ⟨text, -, rfl⟩ := Option.map_eq_some_iff.mp (Program.pure_eq_ok.mp hpure).1
        have htake := List.length_take_le (ZIP_FILE_NAME_LEN_MAX - 1) text
        have hcstr : (cstr (text.take (ZIP_FILE_NAME_LEN_MAX - 1))).length ≤
            (text.take (ZIP_FILE_NAME_LEN_MAX - 1)).length :=
          (List.takeWhile_prefix _).length_le
        rw [ZIP_FILE_NAME_LEN_MAX] at htake hcstr ⊢
        omega
      obtain ⟨-, taken, htaken, hwritten⟩ := WriterTask.write_underway hidle htask h
      rw [htaken (Nat.lt_trans hshort (by decide))] at hwritten
      exact ⟨linkName, hwritten, fun _ => .inl hshort⟩
  · cases hsource : task.extractStream with
    | none =>
      rw [hsource] at h
      obtain ⟨rfl, rfl⟩ := Program.pure_eq_ok.mp h
      exact ⟨[], htask, fun _ => .inl (by decide)⟩
    | some handle =>
      rw [hsource] at h
      obtain ⟨taken, hadded, hleft⟩ := zipWriterAddLoop_underway hidle fuel htask h
      refine ⟨taken, hadded, fun U => .inr ⟨handle, rfl, ?_⟩⟩
      exact Nat.le_trans (hleft U) (U.lstat handle path w)

/-- The entry `ZipWriterEntryOpen` fills in. -/
def initEntry (archive : WriteMethod) (fileType : FileType) (st : PathStat) (pos : Nat)
    (saveName : PathName) : ZipWriterEntryInfo :=
  zipWriterOpenInitEntryInfo archive.method archive.level (fileType = .emptyDir) st
    (UInt64.ofNat pos) ⟨cstr saveName, noNul_cstr saveName⟩

/-- A task right after it was opened. -/
structure Opened (Z : Deflate D) (os : SourceOs W H) (base : ByteFile) (fileType : FileType)
    (path : PathName) (e : ZipWriterEntryInfo) (size : UInt64)
    (task : WriterTask Z.State ByteFile H) (w : W) : Prop where
  underway : Underway Z base.data (openedEntry base.pos e) [] task
  size : ∀ U : SourceOs.Unchanging os, size = U.size path
  handle : ∀ U : SourceOs.Unchanging os, ∀ handle, task.extractStream = some handle →
    U.left handle w ≤ (U.size path).toNat
  raw : fileType = .emptyDir → task.entryInfo = openedEntry base.pos e ∧
    ∃ base, task.stream = .raw base 0

theorem pathStat_size {path : PathName} {st : PathStat} {w w' : W}
    (h : pathStat os path w = .ok st w') (U : SourceOs.Unchanging os) : st.size = U.size path := by
  obtain ⟨time, timed, -, h⟩ := Program.bind_eq_ok.mp h
  -- the time of a path that is not there is asked for as well
  cases time with
  | some link =>
    obtain ⟨dosModDateTime, same, -, h⟩ := Program.bind_eq_ok.mp h
    obtain ⟨mode, moded, -, h⟩ := Program.bind_eq_ok.mp h
    obtain ⟨stat, there, hcall, h⟩ := Program.bind_eq_ok.mp h
    cases (Program.pure_eq_ok.mp h).1
    cases hcall
    exact U.stat path moded
  | none =>
    obtain ⟨now, clocked, -, h⟩ := Program.bind_eq_ok.mp h
    obtain ⟨mode, moded, -, h⟩ := Program.bind_eq_ok.mp h
    obtain ⟨stat, there, hcall, h⟩ := Program.bind_eq_ok.mp h
    cases (Program.pure_eq_ok.mp h).1
    cases hcall
    exact U.stat path moded

variable {fileType : FileType} {base : ByteFile}

theorem zipWriterEntryOpen_opened (hend : base.AtEnd) {node : FilePathNode}
    {task : WriterTask Z.State ByteFile H} {w w' : W}
    (h : zipWriterEntryOpen Z os archive base fileType node w = .ok (.ok task) w') :
    ∃ st, Opened Z os base fileType node.filePath
      (initEntry archive fileType st base.pos node.saveName) st.size task w' := by
  have hleft := zipWriterEntryOpen_left h
  obtain ⟨st, mid, next, hstat, -, -, -, hheader, hstream⟩ := zipWriterEntryOpen_ok h
  change zipEntryWriteLocalHeader base (initEntry archive fileType st base.pos node.saveName) = _
    at hheader
  rw [zipEntryWriteLocalHeader_byteFile, zipEntryWriteLocalHeader_eq hend] at hheader
  obtain ⟨written, hwritten, heq⟩ := FileApi.bind_eq_ok.mp hheader
  obtain ⟨rfl, hinfo⟩ := Prod.mk.inj (Except.ok.inj heq)
  obtain ⟨hfit, rfl⟩ := streamWrite_ok hwritten
  have hdata : (base.write (localRecord (initEntry archive fileType st base.pos
      node.saveName))).data = base.data ++ localRecord (openedEntry base.pos
        (initEntry archive fileType st base.pos node.saveName)) := by
    rw [ByteFile.write_atEnd hend, localRecord_openedEntry]
  refine ⟨st, ⟨⟨_, hinfo.symm⟩, ?_⟩, pathStat_size hstat, hleft, ?_⟩
  · rw [hstream, zipWriterOpenInitCompressStream, ← hinfo]
    split
    · exact .raw (hend.write _) hfit (by rw [hdata, List.append_nil])
    · refine .deflate ⟨⟨⟨hend.write _, hfit, [], by rw [List.append_nil]; exact hdata⟩, ?_,
        Nat.zero_add _, ?_, fun _ => rfl⟩, rfl, Z.reset_finishing, rfl, ?_⟩
      · show Z.Holds Z.reset [] ((base.write _).data.drop _ ++ [])
        rw [hdata, List.drop_length]
        exact Z.reset_holds
      · show 0 < ZIP_BUF_INTERNAL
        decide
      · show 0 = ((base.write _).data.drop _).length + 0
        rw [hdata, List.drop_length]
        rfl
  · rintro rfl
    refine ⟨hinfo.symm, base.write (localRecord (initEntry archive .emptyDir st base.pos
      node.saveName)), ?_⟩
    rw [hstream, zipWriterOpenInitCompressStream, if_pos]
    rw [← hinfo, openedEntry]
    split
    · rfl
    · rfl

/-! ## The close -/

/-- The task of an entry when it is closed: it was opened, and the data of a file was added. -/
def AtClose (Z : Deflate D) (os : SourceOs W H) (fuel : Nat) (archive : WriteMethod)
    (base : ByteFile) (fileType : FileType) (node : FilePathNode)
    (task : WriterTask Z.State ByteFile H) (w : W) : Prop :=
  ∃ opened w₀ w₁, zipWriterEntryOpen Z os archive base fileType node w₀ = .ok (.ok opened) w₁ ∧
    match fileType with
    | .file => zipWriterAddData Z os fuel node.filePath opened w₁ = .ok task w
    | .emptyDir => task = opened ∧ w = w₁

/-- The local header of `opened`, with the checksum and the sizes of `sized`. -/
def headerAround (opened sized : ZipWriterEntryInfo) : List UInt8 :=
  headerFront opened ++ (sizeWords sized ++ (headerBack opened ++
    if opened.zip64 then extraFront ++ extraWords sized else []))

/-- The archive in front of the patch and behind it. -/
structure Patched (base before after : ByteFile) (opened closed : ZipWriterEntryInfo)
    (payload : List UInt8) : Prop where
  before_data : before.data = base.data ++ (headerAround opened opened ++ payload)
  before_pos : before.pos = before.data.length
  after_data : after.data = base.data ++ (headerAround opened closed ++ payload)
  after_pos : after.pos = before.pos
  after_end : after.AtEnd
  compressedSize : closed.compressedSize.toNat = payload.length

theorem atClose_underway (hidle : Z.Idle) (hend : base.AtEnd) {node : FilePathNode}
    {task : WriterTask Z.State ByteFile H} {w : W}
    (h : AtClose Z os fuel archive base fileType node task w) :
    ∃ (st : PathStat) (b : List UInt8),
      Underway Z base.data
        (openedEntry base.pos (initEntry archive fileType st base.pos node.saveName)) b task ∧
      (fileType = .emptyDir → task.entryInfo =
        openedEntry base.pos (initEntry archive fileType st base.pos node.saveName) ∧
          ∃ base, task.stream = .raw base 0) ∧
      ∀ U : SourceOs.Unchanging os, st.size = U.size node.filePath ∧
        (b.length < ZIP_FILE_NAME_LEN_MAX ∨ b.length ≤ (U.size node.filePath).toNat) := by
  obtain ⟨opened, w₀, w₁, hopen, hadd⟩ := h
  obtain ⟨st, hopened⟩ := zipWriterEntryOpen_opened hend hopen
  refine ⟨st, ?_⟩
  cases fileType with
  | emptyDir =>
    obtain ⟨rfl, rfl⟩ := hadd
    exact ⟨[], hopened.underway, hopened.raw, fun U => ⟨hopened.size U, .inl (by decide)⟩⟩
  | file =>
    obtain ⟨b, hadded, hlength⟩ := zipWriterAddData_underway hidle hopened.underway hadd
    refine ⟨b, hadded, nofun, fun U => ⟨hopened.size U, (hlength U).imp_right ?_⟩⟩
    rintro ⟨handle, hhandle, hle⟩
    exact Nat.le_trans hle (hopened.handle U handle hhandle)

theorem headerAround_self (e : ZipWriterEntryInfo) : headerAround e e = localRecord e :=
  (localRecord_split e).symm

/-- Only the checksum and the sizes of an entry have changed. -/
def SameHeader (opened closed : ZipWriterEntryInfo) : Prop :=
  closed = withSizes opened closed.crc closed.compressedSize closed.uncompressedSize

theorem SameHeader.of_crc {opened e : ZipWriterEntryInfo} {crc : UInt32}
    (h : e = { opened with crc }) : SameHeader opened e := by
  subst h
  rfl

theorem SameHeader.withSizes {opened e : ZipWriterEntryInfo} {crc : UInt32}
    (h : e = { opened with crc }) (compressedSize uncompressedSize : UInt64) :
    SameHeader opened { e with compressedSize, uncompressedSize } := by
  subst h
  rfl

theorem SameHeader.localRecord {opened closed : ZipWriterEntryInfo}
    (h : SameHeader opened closed) : localRecord closed = headerAround opened closed := by
  have hfront : headerFront closed = headerFront opened := by rw [h, headerFront_withSizes]
  have hback : headerBack closed = headerBack opened := by rw [h, headerBack_withSizes]
  have hzip : closed.zip64 = opened.zip64 := by rw [h, withSizes_zip64]
  rw [localRecord_split, headerAround, hfront, hback, hzip]

theorem initEntry_place {st : PathStat} {name : PathName} (hend : base.AtEnd)
    (hlimit : base.pos + (30 + (nameField (initEntry archive fileType st base.pos name)).length) <
      offLimit) :
    let opened := openedEntry base.pos (initEntry archive fileType st base.pos name)
    opened.localHeaderOffset.toNat = base.data.length ∧
      (opened.zip64 = true → opened.zip64extraInLocalHeaderPos.toNat =
        base.data.length + (30 + (nameField opened).length)) := by
  dsimp only
  constructor
  · rw [openedEntry_localHeaderOffset, ← hend]
    exact toNat_ofNat_of_offLimit (by omega)
  · intro hzip
    rw [openedEntry_zip64] at hzip
    rw [nameField_openedEntry, ← hend]
    simp only [openedEntry, hzip, if_true]
    exact toNat_ofNat_of_offLimit hlimit

theorem zipEntryUpdateLocalHeader_patched (hend : base.AtEnd) {st : PathStat} {name : PathName}
    {opened closed : ZipWriterEntryInfo}
    (hopened : opened = openedEntry base.pos (initEntry archive fileType st base.pos name))
    (hsame : SameHeader opened closed) {before after : ByteFile} {payload : List UInt8}
    (hbefore : before.AtEnd) (hpos : before.pos < offLimit)
    (hdata : before.data = base.data ++ localRecord opened ++ payload)
    (hsize : closed.compressedSize.toNat = payload.length)
    (h : zipEntryUpdateLocalHeader before closed = .ok after) :
    Patched base before after opened closed payload := by
  rw [zipEntryUpdateLocalHeader_byteFile] at h
  have hlength : before.pos = (base.data ++ (localRecord opened ++ payload)).length := by
    rw [← List.append_assoc, ← hdata]
    exact hbefore
  have hlimit : base.pos +
      (30 + (nameField (initEntry archive fileType st base.pos name)).length) < offLimit := by
    rw [hlength, hopened] at hpos
    simp only [List.length_append, localRecord_length, nameField_openedEntry] at hpos
    have hbase : base.pos = base.data.length := hend
    omega
  obtain ⟨hoff, hplace⟩ := initEntry_place hend hlimit
  rw [← hopened] at hoff hplace
  have hfile : before = ⟨base.data ++ (localRecord opened ++ payload), before.pos⟩ := by
    rw [← List.append_assoc, ← hdata]
  have hfits : opened.zip64 = false → ¬ (closed.compressedSize > UINT32_MAX.toUInt64 ∨
      closed.uncompressedSize > UINT32_MAX.toUInt64) := by
    intro hzip
    refine zipEntryUpdateLocalHeader_fits h ?_
    rw [hsame]
    exact hzip
  have hpatch := zipEntryUpdateLocalHeader_eq closed.crc hoff hplace (hlength ▸ hpos) hpos hfits
  rw [← hfile, ← hsame, h] at hpatch
  cases hpatch
  refine ⟨?_, hbefore, ?_, rfl, ?_, hsize⟩
  · rw [hdata, headerAround_self, List.append_assoc]
  · rw [hsame.localRecord]
  · show before.pos = _
    rw [hlength, List.length_append, List.length_append, List.length_append, List.length_append,
      localRecord_length, localRecord_length, hsame]
    simp only [withSizes_zip64, nameField_withSizes]
    rfl

/-- Closing an entry that was opened behind an archive: only the checksum and the sizes in its own
local header change, the compressed size is the number of bytes behind that header, and the stream
is where it was. For a file that keeps its length, packed with less than 0.39 percent on top, the
sizes are not found too large for the header. -/
theorem zipWriterCloseStream_patches (hidle : Z.Idle) {writer : ArchiveWriter ByteFile}
    (hend : writer.base.AtEnd) {fileType : FileType} {node : FilePathNode}
    {task : WriterTask Z.State ByteFile H} {w : W}
    (h : AtClose Z os fuel archive writer.base fileType node task w) :
    (∀ (writer' : ArchiveWriter ByteFile) (w' : W),
      zipWriterCloseStream Z fuel writer task (fileType = .file) w = .ok writer' w' →
      ∃ stream opened closed payload, task.stream.close Z fuel = some (.ok stream) ∧
        writer'.entries = writer.entries ++ [closed] ∧
        Patched writer.base stream.base writer'.base opened closed payload) ∧
    ∀ (_ : SourceOs.Unchanging os) (stream : WriteStream Z.State ByteFile), fileType = .file →
      task.stream.close Z fuel = some (.ok stream) →
      stream.totalOut.toNat * 10000 ≤ stream.totalIn.toNat * 10039 →
      ¬ ((stream.totalOut > UINT32_MAX.toUInt64 ∨ stream.totalIn > UINT32_MAX.toUInt64) ∧
        task.entryInfo.zip64 = false) := by
  obtain ⟨st, b, hunderway, hdirectory, hsize⟩ := atClose_underway hidle hend h
  constructor
  · intro writer' w' hclose
    obtain ⟨result, hresult, hclose⟩ := liftFuel_bind_eq_ok.mp hclose
    obtain ⟨stream, hstream, hclose⟩ := liftStatus_bind_eq_ok.mp hclose
    obtain ⟨base, hupdate, hclose⟩ := liftStatus_bind_eq_ok.mp hclose
    obtain ⟨cdMemStream, -, hclose⟩ := liftStatus_bind_eq_ok.mp hclose
    cases (Program.pure_eq_ok.mp hclose).1
    subst hstream
    obtain ⟨payload, hatEnd, hpos, hdata, hout, -⟩ := hunderway.stream.close hidle hresult
    have hpayload : (UInt64.ofNat payload.length).toNat = payload.length := by
      refine toNat_ofNat_of_offLimit ?_
      rw [hatEnd, hdata, List.length_append] at hpos
      omega
    obtain ⟨crc, hcrc⟩ := hunderway.entryInfo
    refine ⟨stream, _, _, payload, hresult, rfl,
      zipEntryUpdateLocalHeader_patched hend rfl ?_ hatEnd hpos hdata ?_ hupdate⟩
    · cases fileType with
      | file => exact .withSizes hcrc stream.totalOut stream.totalIn
      | emptyDir => exact .of_crc hcrc
    · cases fileType with
      | file =>
        show stream.totalOut.toNat = payload.length
        rw [hout, hpayload]
      | emptyDir =>
        obtain ⟨hentry, base, hraw⟩ := hdirectory rfl
        rw [hraw] at hresult
        cases hresult
        have hzero : (UInt64.ofNat payload.length).toNat = 0 := congrArg UInt64.toNat hout.symm
        rw [← hpayload, hzero]
        show task.entryInfo.compressedSize.toNat = 0
        rw [hentry, openedEntry]
        split
        · rfl
        · rfl
  · rintro U stream rfl hclose hexpand ⟨hbig, hzip⟩
    obtain ⟨payload, -, hpos, hdata, hout, hin⟩ := hunderway.stream.close hidle hclose
    obtain ⟨hstat, hlength⟩ := hsize U
    obtain ⟨crc, hcrc⟩ := hunderway.entryInfo
    have hplain : ¬ (0xff000000 : UInt64) < st.size := by
      intro hlarge
      rw [hcrc] at hzip
      have hneed : (openedEntry writer.base.pos (initEntry archive .file st writer.base.pos
          node.saveName)).zip64 = needZip64 st.size := openedEntry_zip64 _ _
      have : needZip64 st.size = true := decide_eq_true hlarge
      rw [hneed, this] at hzip
      cases hzip
    have hmost : st.size.toNat ≤ 0xff000000 := by
      have := mt UInt64.lt_iff_toNat_lt.mpr hplain
      exact Nat.le_of_not_lt this
    have htaken : stream.totalIn.toNat ≤ 0xff000000 := by
      have hmod : stream.totalIn.toNat = b.length % 2 ^ 64 := congrArg UInt64.toNat hin
      have := Nat.mod_le b.length (2 ^ 64)
      rw [hstat] at hmost
      rw [ZIP_FILE_NAME_LEN_MAX] at hlength
      omega
    have hmax : (UINT32_MAX.toUInt64).toNat = 4294967295 := rfl
    rcases hbig with hbig | hbig
    · have := UInt64.lt_iff_toNat_lt.mp hbig
      omega
    · have := UInt64.lt_iff_toNat_lt.mp hbig
      omega

/-! ### A file of letters behind an archive -/

/-- Two spellings of a file. -/
def lettersPaths : List PathName := [[0x66], [dot, slash, 0x66]]

/-- The directory `.` with the file `f`, which has the letters; the state is what is left of it. -/
def lettersFile : SourceOs (List UInt8) Unit where
  stat path w :=
    (if path = [dot] then some ⟨true, 0⟩
      else if path ∈ lettersPaths then some ⟨false, 21⟩
      else none, w)
  lstat _ w := (none, w)
  readlink _ w := (none, w)
  access _ w := (true, w)
  readdir path w := (if path = [dot] then some [[0x66]] else none, w)
  realpath path w := (.ok path, w)
  fopen path w := if path ∈ lettersPaths then (.ok (), letters) else (.error .enoent, w)
  fread _ n w := (.ok (w.take n), w.drop n)
  fclose _ w := (true, w)
  currentDosDateTime w := (0, w)
  cancels w := (false, w)

def lettersFile_unchanging : SourceOs.Unchanging lettersFile where
  size path := if path ∈ lettersPaths then 21 else 0
  left _ w := w.length
  stat path w := by
    by_cases hdot : path = [dot]
    · subst hdot
      rfl
    · by_cases hfile : path ∈ lettersPaths
      · simp only [lettersFile, if_neg hdot, if_pos hfile]
        rfl
      · simp only [lettersFile, if_neg hdot, if_neg hfile]
        rfl
  fopen path resolved v w handle hresolved hopen := by
    cases hresolved
    by_cases hfile : path ∈ lettersPaths
    · simp only [lettersFile, if_pos hfile]
      decide
    · simp only [lettersFile, if_neg hfile] at hopen
      cases hopen
  fread handle n w data hread := by
    cases hread
    simp only [lettersFile, List.length_take, List.length_drop]
    omega
  lstat _ _ _ := Nat.le_refl _
  cancels _ _ := Nat.le_refl _

/-- The file `f` behind four bytes: the task at its close, the writer behind it, and the stream. -/
def addLetters : Run (List UInt8) (WriterTask lettersDeflate.State ByteFile Unit ×
    ArchiveWriter ByteFile × WriteStream lettersDeflate.State ByteFile) := do
  match ← zipWriterEntryOpen lettersDeflate lettersFile ⟨8, 6⟩ (ByteFile.mk [1, 2, 3, 4] 4) .file
      ⟨[0x66], [0x66]⟩ with
  | .error err => throw (.error err)
  | .ok opened =>
      let task ← zipWriterAddData lettersDeflate lettersFile 3 [0x66] opened
      let writer ← zipWriterCloseStream lettersDeflate 3 { base := ByteFile.mk [1, 2, 3, 4] 4 }
        task true
      let stream ← liftStatus (← liftFuel (task.stream.close lettersDeflate 3))
      return (task, writer, stream)

theorem zipWriterCloseStream_patches_lettersFile :
    ∃ task w w' writer stream opened closed payload,
      AtClose lettersDeflate lettersFile 3 ⟨8, 6⟩ (ByteFile.mk [1, 2, 3, 4] 4) .file
        ⟨[0x66], [0x66]⟩ task w ∧
      zipWriterCloseStream lettersDeflate 3 { base := ByteFile.mk [1, 2, 3, 4] 4 } task true w =
        .ok writer w' ∧
      task.stream.close lettersDeflate 3 = some (.ok stream) ∧ writer.entries = [closed] ∧
      Patched (ByteFile.mk [1, 2, 3, 4] 4) stream.base writer.base opened closed payload ∧
      ¬ ((stream.totalOut > UINT32_MAX.toUInt64 ∨ stream.totalIn > UINT32_MAX.toUInt64) ∧
        task.entryInfo.zip64 = false) := by
  have hrun : (result addLetters []).map (fun r =>
      decide (r.1.2.2.totalOut.toNat * 10000 ≤ r.1.2.2.totalIn.toNat * 10039)) = some true := by
    decide +kernel
  obtain ⟨⟨⟨task, writer, stream⟩, w'⟩, hresult, hexpand⟩ := Option.map_eq_some_iff.mp hrun
  obtain ⟨opened, w₁, hopen, h⟩ := Program.bind_eq_ok.mp (result_eq_some.mp hresult)
  cases opened with
  | error err => cases h
  | ok opened =>
    obtain ⟨task', w, hadd, h⟩ := Program.bind_eq_ok.mp h
    obtain ⟨writer', last, hclose, h⟩ := Program.bind_eq_ok.mp h
    obtain ⟨result, hstream, h⟩ := liftFuel_bind_eq_ok.mp h
    obtain ⟨stream', hstatus, h⟩ := liftStatus_bind_eq_ok.mp h
    cases h
    subst hstatus
    have hat : AtClose lettersDeflate lettersFile 3 ⟨8, 6⟩ (ByteFile.mk [1, 2, 3, 4] 4) .file
        ⟨[0x66], [0x66]⟩ task w := ⟨opened, _, w₁, hopen, hadd⟩
    have hend : ({ base := ByteFile.mk [1, 2, 3, 4] 4 } : ArchiveWriter ByteFile).base.AtEnd := rfl
    have hpatches := zipWriterCloseStream_patches lettersDeflate_idle hend hat
    obtain ⟨stream₂, opened₂, closed, payload, hstream₂, hentries, hpatched⟩ :=
      hpatches.1 writer w' hclose
    have hsame := hstream.symm.trans hstream₂
    cases hsame
    exact ⟨task, w, w', writer, stream, opened₂, closed, payload, hat, hclose, hstream, hentries,
      hpatched, hpatches.2 lettersFile_unchanging stream rfl hstream (of_decide_eq_true hexpand)⟩

end Zip.Out

end FileApi.Compress
