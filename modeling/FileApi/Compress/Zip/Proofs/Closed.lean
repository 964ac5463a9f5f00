import FileApi.Compress.Proofs.PathCalls
import FileApi.Compress.Proofs.StreamDeflate
import FileApi.Compress.Zip.Proofs.AddedFiles
import FileApi.Compress.Zip.Proofs.Save

/-!
# What is left of the buffers at the close

A run that ends well has seen every write of an output file succeed, and every call on the archive
but the writes `DeflateWriteBuf` makes of a full buffer. The last bytes are still in the buffer
then, and go to the device when the file is closed, where nobody looks at what becomes of them.
-/

namespace FileApi.Compress

open Program Zlib Zip

/-! ## Output files -/

section

variable {W H : Type} {os : Os W H} {device : DeviceOf}

theorem bufferedOs_keeps (files : List Stdio) :
    (bufferedOs os device).Keeps (fun s => s.files = files) where
  isDirectory _ _ h := h
  stat _ _ h := h
  access _ _ h := h
  isSymlink _ _ h := h
  mkdir _ _ h := h
  remove _ _ h := h
  unlink _ _ h := h
  symlink _ _ _ h := h
  realpath _ _ h := h
  cancels _ h := h

/-- No call was refused, so nothing is missing but what is still in the buffer. -/
structure Intact (g : Stdio) : Prop where
  sound : g.Sound
  refused : g.refused = []

theorem Intact.fresh (size : Nat) (device : Nat → Nat) : Intact { size, device } :=
  ⟨.fresh size device, rfl⟩

theorem Intact.write {g : Stdio} (h : Intact g) {bytes : List UInt8}
    (hok : (g.write bytes).1 = true) : Intact (g.write bytes).2 := by
  obtain ⟨hsound, hsame | ⟨hfailed, -⟩⟩ := h.sound.write bytes
  · exact ⟨hsound, hsame.trans h.refused⟩
  · exact absurd (hfailed.symm.trans hok) Bool.false_ne_true

theorem Intact.holdsAll_close {g : Stdio} (h : Intact g) :
    (fileStreamClose g).HoldsAll ↔ g.TakesBuffer :=
  h.sound.holdsAll_flush.trans (and_iff_right h.refused)

/-- A program that opens a file behind `files`, of which nothing is lost. -/
def OpensFile (files : List Stdio) (x : Run (OutFiles W) Nat) : Prop :=
  Triple (fun s => s.files = files) x
    (fun n s => n = files.length ∧ ∃ g : Stdio, Intact g ∧ s.files = files ++ [g]) fun _ _ => True

theorem fopen_buffered (files : List Stdio) (path : PathName) :
    Triple (fun s => s.files = files) (call ((bufferedOs os device).fopen path) : Run _ _)
      (fun opened s => ∀ n, opened = .ok n →
        n = files.length ∧ ∃ g : Stdio, Intact g ∧ s.files = files ++ [g]) fun _ _ => True := by
  refine .call ?_
  rintro s rfl n hopened
  simp only [bufferedOs] at hopened ⊢
  cases hopen : os.fopen path s.world with
  | mk opened world =>
    rw [hopen] at hopened
    cases opened with
    | error errno => cases hopened
    | ok handle =>
      cases hopened
      exact ⟨rfl, _, .fresh _ _, rfl⟩

theorem fileStreamOpen_buffered (files : List Stdio) (path : PathName) :
    OpensFile files (fileStreamOpen (bufferedOs os device) path) := by
  have hkeeps : (bufferedOs os device).Keeps (fun s => s.files = files) := bufferedOs_keeps files
  refine .bind (Q := fun _ (s : OutFiles W) => s.files = files) (.call (hkeeps.access path))
    fun there => .ite (.bind (Q := fun _ (s : OutFiles W) => s.files = files)
      (.bind (Q := fun _ (s : OutFiles W) => s.files = files) (.call (hkeeps.remove path))
        fun removed => .pure fun _ h => h) fun _ => ?_) ?_
  -- the same way on, whether or not something was in the way
  all_goals
    cases getParentDirectory path with
    | none => exact .throw fun _ _ => trivial
    | some parentPath =>
      refine .bind (Q := fun _ (s : OutFiles W) => s.files = files)
        (.call (hkeeps.realpath parentPath)) fun resolved => ?_
      cases resolved with
      | error errno => exact .throw fun _ _ => trivial
      | ok resolvedPath =>
        refine .ite (.throw fun _ _ => trivial) (.bind (fopen_buffered files _) fun opened => ?_)
        cases opened with
        | error errno => exact .throw fun _ _ => trivial
        | ok handle => exact .pure fun _ h => h handle rfl

/-- The file behind `files` is being written, and nothing of it is lost so far. -/
def Saving (files : List Stdio) (s : OutFiles W) : Prop :=
  ∃ g : Stdio, Intact g ∧ s.files = files ++ [g]

theorem fwrite_buffered {files : List Stdio} {bytes : List UInt8} {s s' : OutFiles W}
    (hs : Saving files s)
    (h : (bufferedOs os device).fwrite files.length bytes s = (none, s')) : Saving files s' := by
  obtain ⟨g, hintact, hfiles⟩ := hs
  have hg : s.files[files.length]? = some g := by rw [hfiles]; simp
  simp only [bufferedOs, hg] at h
  cases hwrite : g.write bytes with
  | mk ok f =>
    rw [hwrite] at h
    cases ok with
    | false => cases h
    | true =>
      cases h
      have hwritten : (g.write bytes).1 = true := by rw [hwrite]
      have hintact' := hintact.write hwritten
      rw [hwrite] at hintact'
      refine ⟨f, hintact', ?_⟩
      dsimp only
      rw [hfiles, List.set_append_right _ _ (Nat.le_refl _), Nat.sub_self, List.set_cons_zero]

theorem fclose_buffered {files : List Stdio} {s : OutFiles W} (hs : Saving files s) :
    ∃ g : Stdio, Intact g ∧
      ((bufferedOs os device).fclose files.length s).2.files = files ++ [fileStreamClose g] := by
  obtain ⟨g, hintact, hfiles⟩ := hs
  have hg : s.files[files.length]? = some g := by rw [hfiles]; simp
  refine ⟨g, hintact, ?_⟩
  simp only [bufferedOs, hg]
  rw [hfiles, List.set_append_right _ _ (Nat.le_refl _), Nat.sub_self, List.set_cons_zero,
    fileStreamClose]

end

/-! ## Paths and links of an entry -/

section

variable {W H : Type} {os : Os W H} {J : W → Prop} {D : Decoder} {I : Inflate D} {fuel : Nat}

theorem zipReaderAutoRenamePath_keeps (hstat : ∀ path w, J w → J (os.stat path w).2)
    (haccess : ∀ path w, J w → J (os.access path w).2) (outPath : PathName) :
    Program.Keeps J (zipReaderAutoRenamePath os outPath) :=
  .bind (.call (hstat outPath)) fun _ =>
    .ite (generateNewFilename_keeps haccess outPath) (.pure _)

theorem zipReaderCreateSymlink_keeps (hkeeps : os.Keeps J) (entry : ZipReaderEntry)
    (outDir newFilePath : PathName) (st : OpenEntry I.State) :
    Program.Keeps J (zipReaderCreateSymlink os fuel entry outDir newFilePath st) := by
  refine .ite (.throw _) ?_
  refine .bind (liftFuel_keeps _) fun read => ?_
  cases read with
  | error err => exact .throw _
  | ok read =>
    have hvalidate := validateSymlinkTarget_keeps hkeeps.realpath (symlinkTarget entry.entryInfo read.1)
      entry.entryInfo.name outDir
    have hunlink : Program.Keeps J (discard (call (os.unlink newFilePath)) : Run W Unit) :=
      .bind (.call (hkeeps.unlink newFilePath)) fun _ => .pure _
    refine .bind (.call (hkeeps.isSymlink newFilePath)) fun there =>
      .ite (.bind hunlink fun _ => ?_) ?_
    all_goals
      refine .bind hvalidate fun checked => ?_
      cases checked with
      | error err => exact .throw _
      | ok u =>
        exact .bind (.call (hkeeps.symlink _ _)) fun made => .ite (.pure _) (.throw _)

end

/-! ## The entry of a file -/

section

variable {W H : Type} {os : Os W H} {device : DeviceOf} {D : Decoder} {I : Inflate D} {fuel : Nat}
  {entry : ZipReaderEntry} {outDir newFilePath : PathName} {files : List Stdio}

theorem zipReaderSaveLoop_buffered (turns : Nat) :
    ∀ {st st' : OpenEntry I.State} {s s' : OutFiles W}, Saving files s →
      zipReaderSaveLoop (bufferedOs os device) fuel entry outDir newFilePath files.length turns st s
        = .ok st' s' → Saving files s' := by
  induction turns with
  | zero => nofun
  | succ turns ih =>
    intro st st' s s' hs h
    rw [zipReaderSaveLoop] at h
    obtain ⟨read, -, h⟩ := liftFuel_bind_eq_ok.mp h
    cases read with
    | error err => exact absurd h closeEntryWith_ne_ok
    | ok read =>
      obtain ⟨bytes, read⟩ := read
      obtain ⟨written, mid, hwrite, h⟩ := Program.bind_eq_ok.mp h
      obtain ⟨cancelled, next, hcancels, h⟩ := Program.bind_eq_ok.mp h
      have hmid : Saving files mid := by
        split at hwrite
        · obtain ⟨result, last, hcall, hresult⟩ := Program.bind_eq_ok.mp hwrite
          cases result with
          | some errno => exact absurd hresult closeEntryWith_ne_ok
          | none =>
            cases hresult
            obtain ⟨hnone, hlast⟩ := EStateM.Result.ok.inj hcall
            exact fwrite_buffered hs (Prod.ext hnone hlast)
        · rw [← (Program.pure_eq_ok.mp hwrite).2]
          exact hs
      have hnext : Saving files next := by
        cases hcancels
        exact hmid
      cases cancelled with
      | true => exact absurd h cancelEntry_ne_ok
      | false =>
        change (if bytes ≠ [] then _ else _ : Run (OutFiles W) _) next = _ at h
        split at h
        · exact ih hnext h
        · rw [← (Program.pure_eq_ok.mp h).2]
          exact hnext

theorem zipReaderSaveFile_buffered {st st' : OpenEntry I.State} {s s' : OutFiles W}
    (hs : Saving files s)
    (h : zipReaderSaveFile (bufferedOs os device) fuel entry outDir newFilePath files.length st s =
      .ok st' s') : ∃ g : Stdio, Intact g ∧ s'.files = files ++ [fileStreamClose g] := by
  obtain ⟨cancelled, mid, hcancels, h⟩ := Program.bind_eq_ok.mp h
  cases hcancels
  split at h
  · exact absurd h cancelEntry_ne_ok
  · obtain ⟨saved, next, hloop, h⟩ := Program.bind_eq_ok.mp h
    obtain ⟨⟨⟩, asked, hasked, h⟩ := Program.bind_eq_ok.mp h
    cases hasked
    obtain ⟨⟨⟩, closed, hclosed, h⟩ := Program.bind_eq_ok.mp h
    cases hclosed
    obtain ⟨⟨⟩, -, h⟩ := liftStatus_bind_eq_ok.mp h
    rw [← (Program.pure_eq_ok.mp h).2]
    have hmid : Saving files ((bufferedOs os device).cancels s).2 := hs
    have hnext : Saving files next := zipReaderSaveLoop_buffered fuel hmid hloop
    exact fclose_buffered (s := { next with world := (os.cancels next.world).2 }) hnext

/-- An entry that was extracted has at most one output file, which was closed with nothing lost up
to there. -/
theorem zipReaderExtractEntry_buffered {reader : ZipReader} {outPath : PathName}
    {s s' : OutFiles W}
    (h : zipReaderExtractEntry I (bufferedOs os device) fuel reader entry outDir outPath s =
      .ok () s') :
    s'.files = s.files ∨ ∃ g : Stdio, Intact g ∧ s'.files = s.files ++ [fileStreamClose g] := by
  have hkeeps : (bufferedOs os device).Keeps (fun t => t.files = s.files) := bufferedOs_keeps _
  rw [zipReaderExtractEntry] at h
  split at h
  · exact .inl ((createDirectory_keeps hkeeps.isDirectory hkeeps.mkdir outPath).of_ok rfl h)
  · obtain ⟨newFilePath, renamed, hrename, h⟩ := Program.bind_eq_ok.mp h
    have hrenamed := (zipReaderAutoRenamePath_keeps hkeeps.stat hkeeps.access outPath).of_ok rfl hrename
    obtain ⟨⟨⟩, parents, hparents, h⟩ := Program.bind_eq_ok.mp h
    have hthere := (createParentDirectory_keeps hkeeps.isDirectory fun dir w _ =>
      hkeeps.mkdir dir w).of_ok hrenamed hparents
    obtain ⟨⟨st, file⟩, opened, hopen, h⟩ := Program.bind_eq_ok.mp h
    obtain ⟨base, -, hopen⟩ := liftStatus_bind_eq_ok.mp hopen
    obtain ⟨stream, -, hopen⟩ := liftStatus_bind_eq_ok.mp hopen
    split at hopen
    · cases hopen
      exact .inl ((zipReaderCreateSymlink_keeps hkeeps entry outDir newFilePath _).of_ok hthere h)
    · obtain ⟨n, last, hfile, hopen⟩ := Program.bind_eq_ok.mp hopen
      cases hopen
      obtain ⟨⟨⟩, hsaving⟩ := (fileStreamOpen_buffered s.files newFilePath).of_ok hthere hfile
      obtain ⟨saved, done, hsave, h⟩ := Program.bind_eq_ok.mp h
      rw [← (Program.pure_eq_ok.mp h).2]
      exact .inr (zipReaderSaveFile_buffered hsaving hsave)

end

/-! ## The archive -/

/-- The call `DeflateWriteBuf` makes on a full buffer, in an archive that deflates. -/
def FullBuffer (archive : Out.WriteMethod) (call : StdioCall) : Prop :=
  archive.method = OH_ARCHIVE_COMPRESS_DEFLATE ∧
    ∃ bytes : List UInt8, call = .write bytes ∧ bytes.length = ZIP_BUF_INTERNAL

/-- The archive is sound, and no other call on it was refused than one on a full buffer. -/
structure OnlyFull (archive : Out.WriteMethod) (base : Stdio) : Prop where
  sound : base.Sound
  full : ∀ call ∈ base.refused, FullBuffer archive call

theorem buffered_streamKeeps (archive : Out.WriteMethod) :
    StreamOps.Keeps (archive.method = OH_ARCHIVE_COMPRESS_DEFLATE) (OnlyFull archive) where
  write := by
    intro base hbase bytes hok
    obtain ⟨hsound, hrefused⟩ := hbase.sound.write bytes
    simp only [StreamSink.write] at hok ⊢
    generalize base.write bytes = r at hok hsound hrefused ⊢
    rcases r with ⟨ok, f⟩
    cases ok with
    | true => exact ⟨hsound, hrefused.resolve_right (fun h => nomatch h.1) ▸ hbase.full⟩
    | false => exact absurd hok (by dsimp only; omega)
  seek := by
    intro base hbase offset origin hok
    simp only [StreamOps.seek] at hok ⊢
    by_cases hinside : 0 ≤ seekTarget base offset origin
    · rw [if_pos hinside] at hok ⊢
      obtain ⟨hsound, hsame⟩ := hbase.sound.seekTo (seekTarget base offset origin).toNat
      exact ⟨hsound, hsame hok ▸ hbase.full⟩
    · rw [if_neg hinside] at hok
      cases hok
  full := by
    intro hdeflates base hbase bytes hfull
    obtain ⟨hsound, hrefused⟩ := hbase.sound.write bytes
    simp only [StreamSink.write]
    generalize base.write bytes = r at hsound hrefused ⊢
    have hcalls : ∀ call ∈ r.2.refused, FullBuffer archive call := by
      intro call hmem
      rcases hrefused with hsame | ⟨-, hmore⟩
      · exact hbase.full call (hsame ▸ hmem)
      · rw [hmore] at hmem
        rcases List.mem_append.mp hmem with hmem | hmem
        · exact hbase.full call hmem
        · exact ⟨hdeflates, bytes, List.mem_singleton.mp hmem, hfull⟩
    rcases r with ⟨ok, f⟩
    cases ok with
    | true => exact ⟨hsound, hcalls⟩
    | false => exact ⟨hsound, hcalls⟩

/-- An archive that was written and closed: whatever the device has failed in before, but for the
write of a full buffer, has ended the run. -/
theorem zipWriterClose_buffered {W H : Type} {D : Decoder} {Z : Deflate D} {os : SourceOs W H}
    {fuel : Nat} {archive : Out.WriteMethod} (hidle : Z.Idle) {size : Nat} {device : Nat → Nat}
    {infiles : List PathName} {writer : Out.ArchiveWriter Stdio} {closed : Stdio} {w w' : W}
    (h : Out.zipWriterAddFunc Z os fuel archive { base := { size, device } } infiles w =
      .ok writer w') (hclose : Out.zipWriterClose writer = .ok closed) :
    ∃ base : Stdio, OnlyFull archive base ∧ Out.zipWriterSaveCD writer = .ok base ∧
      closed = fileStreamClose base := by
  have hadded : OnlyFull archive writer.base :=
    Out.zipWriterAddFunc_keeps (buffered_streamKeeps archive) hidle id
      ⟨.fresh size device, nofun⟩ h
  obtain ⟨base, hsave, hclosed⟩ := FileApi.bind_eq_ok.mp hclose
  cases hclosed
  exact ⟨base, Out.zipWriterSaveCD_keeps (buffered_streamKeeps archive) hadded hsave, hsave, rfl⟩

/-- When a file that was written with success holds everything that was handed to its stream. Of an
extracted one no call was refused, so it does exactly if the device takes the last buffer. Of an
archive no call was refused but writes of a full buffer, so it does exactly if none of these was
refused either and the device takes the last buffer. -/
theorem closed_holdsAll_iff {W H W' H' : Type} {D D' : Decoder} (I : Inflate D) (Z : Deflate D')
    (hidle : Z.Idle) (os : Os W H) (sources : SourceOs W' H') (device : DeviceOf) (fuel : Nat) :
    (∀ (reader : ZipReader) (entry : ZipReaderEntry) (outDir outPath : PathName)
      (s s' : OutFiles W),
      zipReaderExtractEntry I (bufferedOs os device) fuel reader entry outDir outPath s = .ok () s' →
      s'.files = s.files ∨ ∃ g : Stdio, Intact g ∧ s'.files = s.files ++ [fileStreamClose g] ∧
        ((fileStreamClose g).HoldsAll ↔ g.TakesBuffer)) ∧
    ∀ (archive : Out.WriteMethod) (size : Nat) (device : Nat → Nat) (infiles : List PathName)
      (writer : Out.ArchiveWriter Stdio) (closed : Stdio) (w w' : W'),
      Out.zipWriterAddFunc Z sources fuel archive { base := { size, device } } infiles w =
        .ok writer w' → Out.zipWriterClose writer = .ok closed →
      ∃ base : Stdio, OnlyFull archive base ∧ Out.zipWriterSaveCD writer = .ok base ∧
        closed = fileStreamClose base ∧
        (closed.HoldsAll ↔
          (∀ call ∈ base.refused, ¬ FullBuffer archive call) ∧ base.TakesBuffer) := by
  constructor
  · intro reader entry outDir outPath s s' h
    rcases zipReaderExtractEntry_buffered h with hsame | ⟨g, hintact, hfiles⟩
    · exact .inl hsame
    · exact .inr ⟨g, hintact, hfiles, hintact.holdsAll_close⟩
  · intro archive size device infiles writer closed w w' h hclose
    obtain ⟨base, hbase, hsave, rfl⟩ := zipWriterClose_buffered hidle h hclose
    refine ⟨base, hbase, hsave, rfl, hbase.sound.holdsAll_flush.trans (and_congr_left' ?_)⟩
    rw [List.eq_nil_iff_forall_not_mem]
    exact forall_congr' fun call =>
      ⟨fun hnone hmem => absurd hmem hnone, fun hfull hmem => hfull hmem (hbase.full call hmem)⟩

/-! ### A device that fails at the close -/

/-- A device that fails from its `good`-th write on. -/
def failsFrom (good n : Nat) : Nat := if n < good then 4096 else 0

theorem hello_extracted (good : Nat) (kept : List UInt8)
    (hrun : (do
      let reader ← (zipReaderOpenFile (storedAtEnd [0x68, 0x65, 0x6c, 0x6c, 0x6f])).toOption
      let entry ← (zipReaderGoToCentralDirHeader (fun _ => none) reader
        reader.offsetOfCentralDir).toOption
      let (_, s) ← result (zipReaderExtractEntry (Inflate.greedy noStreams)
        (bufferedOs oneFile fun _ => (4096, failsFrom good)) 2 reader entry [dot] [0x61]) ⟨[], []⟩
      pure (s.files.map fun f => (f.handed.data, f.file.data))) =
        some [([0x68, 0x65, 0x6c, 0x6c, 0x6f], kept)]) :
    ∃ reader entry s' f, zipReaderExtractEntry (Inflate.greedy noStreams)
        (bufferedOs oneFile fun _ => (4096, failsFrom good)) 2 reader entry [dot] [0x61] ⟨[], []⟩ =
          .ok () s' ∧
      s'.files = [f] ∧ f.handed.data = [0x68, 0x65, 0x6c, 0x6c, 0x6f] ∧ f.file.data = kept := by
  obtain ⟨reader, -, hrun⟩ := Option.bind_eq_some_iff.mp hrun
  obtain ⟨entry, -, hrun⟩ := Option.bind_eq_some_iff.mp hrun
  obtain ⟨⟨⟨⟩, s'⟩, hextract, hrun⟩ := Option.bind_eq_some_iff.mp hrun
  have hfiles := Option.some.inj hrun
  cases hs : s'.files with
  | nil =>
    rw [hs] at hfiles
    cases hfiles
  | cons f rest =>
    rw [hs, List.map_cons] at hfiles
    obtain ⟨hhead, hrest⟩ := List.cons.inj hfiles
    obtain ⟨hhanded, hkept⟩ := Prod.mk.inj hhead
    refine ⟨reader, entry, s', f, result_eq_some.mp hextract, ?_, hhanded, hkept⟩
    rw [hs, List.map_eq_nil_iff.mp hrest]

theorem directory_archived (good handed kept : Nat)
    (hrun : (do
      let (writer, _) ← result (Out.zipWriterAddFunc lettersDeflate Out.closedDirectory 3 ⟨0, 6⟩
        { base := ({ size := 4096, device := failsFrom good } : Stdio) } [[0x64]]) ()
      let closed ← (Out.zipWriterClose writer).toOption
      pure (closed.handed.data.length, closed.file.data.length)) = some (handed, kept)) :
    ∃ writer closed, Out.zipWriterAddFunc lettersDeflate Out.closedDirectory 3 ⟨0, 6⟩
        { base := ({ size := 4096, device := failsFrom good } : Stdio) } [[0x64]] () =
          .ok writer () ∧
      Out.zipWriterClose writer = .ok closed ∧
      closed.handed.data.length = handed ∧ closed.file.data.length = kept := by
  obtain ⟨⟨writer, ⟨⟩⟩, hadd, hrun⟩ := Option.bind_eq_some_iff.mp hrun
  obtain ⟨closed, hclose, hrun⟩ := Option.bind_eq_some_iff.mp hrun
  obtain ⟨hhanded, hkept⟩ := Prod.mk.inj (Option.some.inj hrun)
  exact ⟨writer, closed, result_eq_some.mp hadd, toOption_eq_some.mp hclose, hhanded, hkept⟩

/-- The last write fails: `hello` and an archive are written with success, of the one nothing is
there and of the other the first 32 bytes. -/
theorem lastWriteFails_not_holdsAll :
    (∃ reader entry s' f, zipReaderExtractEntry (Inflate.greedy noStreams)
        (bufferedOs oneFile fun _ => (4096, failsFrom 0)) 2 reader entry [dot] [0x61] ⟨[], []⟩ =
          .ok () s' ∧
      s'.files = [f] ∧ f.handed.data = [0x68, 0x65, 0x6c, 0x6c, 0x6f] ∧ f.file.data = [] ∧
      ¬ f.HoldsAll) ∧
    ∃ writer closed, Out.zipWriterAddFunc lettersDeflate Out.closedDirectory 3 ⟨0, 6⟩
        { base := ({ size := 4096, device := failsFrom 2 } : Stdio) } [[0x64]] () = .ok writer () ∧
      Out.zipWriterClose writer = .ok closed ∧ closed.handed.data.length = 102 ∧
      closed.file.data.length = 32 ∧
      ¬ closed.HoldsAll := by
  constructor
  · obtain ⟨reader, entry, s', f, hrun, hfiles, hhanded, hkept⟩ :=
      hello_extracted 0 [] (by decide +kernel)
    refine ⟨reader, entry, s', f, hrun, hfiles, hhanded, hkept, fun hall => ?_⟩
    have hdata := hall.data
    rw [hhanded, hkept] at hdata
    cases hdata
  · obtain ⟨writer, closed, hadd, hclose, hhanded, hkept⟩ :=
      directory_archived 2 102 32 (by decide +kernel)
    refine ⟨writer, closed, hadd, hclose, hhanded, hkept, fun hall => ?_⟩
    rw [← hall.data, hkept] at hhanded
    cases hhanded

/-- The last write decides where no call before it was refused. -/
theorem closed_holdsAll_iff_failsFrom :
    (∃ reader entry s', zipReaderExtractEntry (Inflate.greedy noStreams)
        (bufferedOs oneFile fun _ => (4096, failsFrom 3)) 2 reader entry [dot] [0x61] ⟨[], []⟩ =
          .ok () s' ∧
      ∃ g : Stdio, Intact g ∧ s'.files = [fileStreamClose g] ∧
        ((fileStreamClose g).HoldsAll ↔ g.TakesBuffer)) ∧
    ∃ writer closed base, Out.zipWriterAddFunc lettersDeflate Out.closedDirectory 3 ⟨0, 6⟩
        { base := ({ size := 4096, device := failsFrom 3 } : Stdio) } [[0x64]] () =
          .ok writer () ∧
      Out.zipWriterClose writer = .ok closed ∧ OnlyFull ⟨0, 6⟩ base ∧ closed = fileStreamClose base ∧
        (closed.HoldsAll ↔
          (∀ call ∈ base.refused, ¬ FullBuffer ⟨0, 6⟩ call) ∧ base.TakesBuffer) := by
  constructor
  · obtain ⟨reader, entry, s', f, hrun, hfiles, -, -⟩ :=
      hello_extracted 3 [0x68, 0x65, 0x6c, 0x6c, 0x6f] (by decide +kernel)
    rcases (closed_holdsAll_iff (Inflate.greedy noStreams) lettersDeflate lettersDeflate_idle
      oneFile Out.closedDirectory (fun _ => (4096, failsFrom 3)) 2).1 _ _ _ _ _ _ hrun with
      hnone | ⟨g, hintact, hg, hall⟩
    · rw [hfiles] at hnone
      cases hnone
    · exact ⟨reader, entry, s', hrun, g, hintact, hg, hall⟩
  · obtain ⟨writer, closed, hadd, hclose, -, -⟩ :=
      directory_archived 3 102 102 (by decide +kernel)
    obtain ⟨base, honly, -, hbase, hall⟩ := (closed_holdsAll_iff (Inflate.greedy noStreams)
      lettersDeflate lettersDeflate_idle oneFile Out.closedDirectory
      (fun _ => (4096, failsFrom 3)) 3).2 _ _ _ _ _ _ _ _ hadd hclose
    exact ⟨writer, closed, base, hadd, hclose, honly, hbase, hall⟩

end FileApi.Compress
