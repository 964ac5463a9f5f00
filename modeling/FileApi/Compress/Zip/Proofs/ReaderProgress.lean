import FileApi.Compress.Zip.ReaderProgress
import FileApi.Compress.Zip.Proofs.Closed

/-!
# What the progress handler is told

Without a bound on the numbers the sums of `ZipReaderUpdateProgress` only grow: an entry is counted
up to its compressed size while it is read, and with all of it when it is done. A percentage is
what the sum says as long as a hundred times the sum fits in an `uint64_t` and the quotient in an
`int`; beyond, it is what is left of them.
-/

namespace FileApi.Compress.Zip.Progress

open Program Zlib

/-! ## Without a handler -/

section

variable {W H : Type} {D : Decoder} {I : Inflate D} {os : Os W H} (fuel : Nat) (reader : ZipReader)
  (entry : ZipReaderEntry) (outDir newFilePath : PathName) (handle : H)

theorem zipReaderUpdateProgress_plain (hnever : ∀ w, os.cancels w = (false, w)) (totalIn : UInt64)
    (force : Bool) :
    zipReaderUpdateProgress none reader entry totalIn force = (watchedOs os).cancels := by
  funext s
  simp only [zipReaderUpdateProgress, watchedOs, Watched.other, hnever]

theorem zipReaderSaveLoop_plain (hnever : ∀ w, os.cancels w = (false, w)) (turns : Nat) :
    ∀ st : OpenEntry I.State,
      zipReaderSaveLoop os none fuel reader entry outDir newFilePath handle turns st =
        Zip.zipReaderSaveLoop (watchedOs os) fuel entry outDir newFilePath handle turns st := by
  induction turns with
  | zero => exact fun st => rfl
  | succ turns ih =>
    intro st
    simp only [zipReaderSaveLoop, ih, zipReaderUpdateProgress_plain reader entry hnever]
    rfl

/-- Without a handler an entry is saved as in the model that leaves the progress to the system. -/
theorem zipReaderSaveFile_plain (hnever : ∀ w, os.cancels w = (false, w)) (st : OpenEntry I.State) :
    zipReaderSaveFile os none fuel reader entry outDir newFilePath handle st =
      Zip.zipReaderSaveFile (watchedOs os) fuel entry outDir newFilePath handle st := by
  simp only [zipReaderSaveFile, Zip.zipReaderSaveFile, zipReaderSaveLoop_plain _ _ _ _ _ _ hnever,
    zipReaderUpdateProgress_plain reader entry hnever]

end

/-! ## The sums, without a bound -/

/-- What the entries that are done come to. -/
def claimed : List ProgressEvent → Nat
  | [] => 0
  | .reported .. :: earlier => claimed earlier
  | .extracted compressedSize headerSize :: earlier =>
      claimed earlier + compressedSize.toNat + headerSize

/-- What a report is about: the entries that are done, and the part of the current one. -/
def bytesAt (earlier : List ProgressEvent) (totalIn compressedSize : UInt64) (headerSize : Nat) :
    Nat :=
  claimed earlier + min totalIn.toNat compressedSize.toNat + headerSize

/-- What the last report was about. -/
def lastBytes : List ProgressEvent → Nat
  | [] => 0
  | .reported totalIn compressedSize headerSize _ :: earlier =>
      bytesAt earlier totalIn compressedSize headerSize
  | .extracted .. :: earlier => lastBytes earlier

/-- What the handler was told, the last one first. -/
def percents : List ProgressEvent → List Int
  | [] => []
  | .reported _ _ _ percent :: earlier => percent :: percents earlier
  | .extracted .. :: earlier => percents earlier

/-- The percentages stay between 0 and 100, and none is below an earlier one. -/
def Steady (told : List Int) : Prop :=
  (∀ percent ∈ told, 0 ≤ percent ∧ percent ≤ 100) ∧ told.Pairwise (· ≥ ·)

/-- In every report a hundred times the sum fits in an `uint64_t`, and the quotient in an `int`. -/
def Fits (progressTotal : UInt64) : List ProgressEvent → Prop
  | [] => True
  | .reported totalIn compressedSize headerSize _ :: earlier =>
      bytesAt earlier totalIn compressedSize headerSize * 100 < 2 ^ 64 ∧
        bytesAt earlier totalIn compressedSize headerSize * 100 / progressTotal.toNat < 2 ^ 31 ∧
        Fits progressTotal earlier
  | .extracted .. :: earlier => Fits progressTotal earlier

instance Fits.decidable (progressTotal : UInt64) :
    (events : List ProgressEvent) → Decidable (Fits progressTotal events)
  | [] => .isTrue trivial
  | .reported .. :: earlier =>
      have := Fits.decidable progressTotal earlier
      inferInstanceAs (Decidable (_ ∧ _ ∧ _))
  | .extracted .. :: earlier => Fits.decidable progressTotal earlier

/-- The percentages are those of the sums, which only grow. -/
def Logged (progressTotal : UInt64) : List ProgressEvent → Prop
  | [] => True
  | .reported totalIn compressedSize headerSize percent :: earlier =>
      percent = progressOf (UInt64.ofNat (bytesAt earlier totalIn compressedSize headerSize))
          progressTotal ∧
        lastBytes earlier ≤ bytesAt earlier totalIn compressedSize headerSize ∧
        Logged progressTotal earlier
  | .extracted .. :: earlier => Logged progressTotal earlier

theorem bmod_of_lt {n : Nat} (h : n < 2 ^ 31) : Int.bmod n (2 ^ 32) = n := by
  apply Int.bmod_eq_of_le
  · omega
  · omega

variable {progressTotal : UInt64}

theorem progressOf_of_fits {bytes : Nat} (hsum : bytes * 100 < 2 ^ 64)
    (hquotient : bytes * 100 / progressTotal.toNat < 2 ^ 31) :
    progressOf (UInt64.ofNat bytes) progressTotal =
      min ((bytes * 100 / progressTotal.toNat : Nat) : Int) 100 := by
  have hless : bytes < 2 ^ 64 := by omega
  have hbytes : (UInt64.ofNat bytes).toNat = bytes := UInt64.toNat_ofNat_of_lt' hless
  have hvalue : (UInt64.ofNat bytes * PROGRESS_PERCENT / progressTotal).toNat =
      bytes * 100 / progressTotal.toNat := by
    have hpercent : PROGRESS_PERCENT.toNat = 100 := rfl
    rw [UInt64.toNat_div, UInt64.toNat_mul, hbytes, hpercent, Nat.mod_eq_of_lt hsum]
  unfold progressOf
  rw [hvalue]
  exact congrArg (min · 100) (bmod_of_lt hquotient)

theorem Logged.steady_upTo {events : List ProgressEvent} (h : Logged progressTotal events)
    (hfits : Fits progressTotal events) :
    Steady (percents events) ∧ ∀ percent ∈ percents events,
      percent ≤ ((lastBytes events * 100 / progressTotal.toNat : Nat) : Int) := by
  induction events with
  | nil => exact ⟨⟨nofun, .nil⟩, nofun⟩
  | cons event earlier ih =>
    cases event with
    | extracted compressedSize headerSize => exact ih h hfits
    | reported totalIn compressedSize headerSize percent =>
      obtain ⟨hpercent, hgrows, hearlier⟩ := h
      obtain ⟨hsum, hquotient, hfits⟩ := hfits
      obtain ⟨⟨hrange, hsorted⟩, hbound⟩ := ih hearlier hfits
      rw [progressOf_of_fits hsum hquotient] at hpercent
      have hle : ∀ told ∈ percents earlier, told ≤
          ((bytesAt earlier totalIn compressedSize headerSize * 100 / progressTotal.toNat : Nat) :
            Int) := by
        intro told htold
        refine Int.le_trans (hbound told htold) (Int.ofNat_le.mpr ?_)
        exact Nat.div_le_div_right (Nat.mul_le_mul_right 100 hgrows)
      rw [percents, lastBytes]
      generalize bytesAt earlier totalIn compressedSize headerSize * 100 / progressTotal.toNat =
        quotient at hpercent hle ⊢
      refine ⟨⟨?_, ?_⟩, ?_⟩
      · intro told htold
        rcases List.mem_cons.mp htold with rfl | htold
        · omega
        · exact hrange told htold
      · refine List.pairwise_cons.mpr ⟨fun told htold => ?_, hsorted⟩
        have hmost := (hrange told htold).2
        have := hle told htold
        omega
      · intro told htold
        rcases List.mem_cons.mp htold with rfl | htold
        · omega
        · exact hle told htold

theorem Logged.of_suffix {earlier events : List ProgressEvent} (h : Logged progressTotal events)
    (hsuffix : earlier <:+ events) :
    Logged progressTotal earlier := by
  obtain ⟨later, rfl⟩ := hsuffix
  induction later with
  | nil => exact h
  | cons event later ih =>
    cases event with
    | reported totalIn compressedSize headerSize percent => exact ih h.2.2
    | extracted compressedSize headerSize => exact ih h

/-! ## How much is read -/

/-- The bytes behind the cursor. -/
def unread (f : ByteFile) : Nat := f.data.length - f.pos

theorem unread_streamRead (f : ByteFile) (len : Nat) :
    unread (streamRead f len).2 + (streamRead f len).1.length = unread f := by
  have hlength : ((f.data.drop f.pos).take len).length = min len (f.data.length - f.pos) := by
    rw [List.length_take, List.length_drop]
  show f.data.length - (f.pos + ((f.data.drop f.pos).take len).length) +
    ((f.data.drop f.pos).take len).length = f.data.length - f.pos
  omega

/-- Bytes behind the cursor are taken and counted. -/
def Takes (base : ByteFile) (totalIn : UInt64) (base' : ByteFile) (totalIn' : UInt64) : Prop :=
  ∃ count, totalIn' = totalIn + UInt64.ofNat count ∧ unread base' + count = unread base

theorem Takes.refl (base : ByteFile) (totalIn : UInt64) : Takes base totalIn base totalIn :=
  ⟨0, (UInt64.add_zero totalIn).symm, rfl⟩

theorem Takes.trans {base mid last : ByteFile} {totalIn totalMid totalLast : UInt64}
    (h : Takes base totalIn mid totalMid) (h' : Takes mid totalMid last totalLast) :
    Takes base totalIn last totalLast := by
  obtain ⟨count, rfl, hmid⟩ := h
  obtain ⟨count', rfl, hlast⟩ := h'
  refine ⟨count + count', ?_, by omega⟩
  rw [UInt64.ofNat_add, UInt64.add_assoc]

theorem Takes.streamRead (base : ByteFile) (totalIn : UInt64) (len : Nat) :
    Takes base totalIn (streamRead base len).2
      (totalIn + UInt64.ofNat (streamRead base len).1.length) :=
  ⟨_, rfl, unread_streamRead base len⟩

section

variable {D : Decoder} {I : Inflate D}

theorem DeflateRead.fill_takes {σ : Type} (st : DeflateRead σ) :
    Takes st.base st.totalIn st.fill.base st.fill.totalIn := by
  unfold DeflateRead.fill
  split
  · exact .streamRead st.base st.totalIn ZIP_BUF_INTERNAL
  · exact .refl _ _

theorem deflateReadLoop_takes {size : Nat} (fuel : Nat) :
    ∀ {st st' : DeflateRead I.State} {ret : ZRet},
      deflateReadLoop size fuel st = some (ret, st') →
        Takes st.base st.totalIn st'.base st'.totalIn := by
  induction fuel with
  | zero => nofun
  | succ fuel ih =>
    intro st st' ret h
    have hfill := DeflateRead.fill_takes st
    rw [deflateReadLoop] at h
    dsimp only at h
    split at h
    · have hrest := ih h
      exact hfill.trans hrest
    · cases h
      exact hfill

theorem read_takes {fuel len : Nat} {base : ByteFile} {stream : CompressStream I.State}
    {read : EntryRead I.State} (h : stream.read fuel base len = some (.ok read)) :
    Takes base stream.totalIn read.base read.stream.totalIn := by
  cases stream with
  | raw maxTotalIn totalIn =>
    cases h
    exact .streamRead base totalIn _
  | deflate zstream nextIn totalIn =>
    obtain ⟨⟨ret, st⟩, hloop, hread⟩ := Option.map_eq_some_iff.mp h
    dsimp only at hread
    split at hread
    · cases hread
    · cases hread
      exact deflateReadLoop_takes fuel hloop

/-- An entry whose stream has counted no more than the archive has. -/
def Counted (st : OpenEntry I.State) : Prop :=
  st.compressStream.totalIn.toNat + unread st.base < 2 ^ 64

theorem zipReaderReadData_counted {fuel : Nat} {info : ZipReaderEntryInfo}
    {st st' : OpenEntry I.State} {bytes : List UInt8} (hst : Counted st)
    (h : zipReaderReadData fuel info st = some (.ok (bytes, st'))) :
    Counted st' ∧ st.compressStream.totalIn.toNat ≤ st'.compressStream.totalIn.toNat := by
  rw [zipReaderReadData] at h
  split at h
  · cases h
    exact ⟨hst, Nat.le_refl _⟩
  · obtain ⟨result, hread, hresult⟩ := Option.map_eq_some_iff.mp h
    cases result with
    | error err => cases hresult
    | ok read =>
      cases hresult
      obtain ⟨count, htotal, hunread⟩ := read_takes hread
      rw [Counted] at hst
      have hcount : (UInt64.ofNat count).toNat = count :=
        UInt64.toNat_ofNat_of_lt' (Nat.lt_of_le_of_lt (by omega) hst)
      have hsum : read.stream.totalIn.toNat = st.compressStream.totalIn.toNat + count := by
        rw [htotal, UInt64.toNat_add, hcount]
        exact Nat.mod_eq_of_lt (by omega)
      refine ⟨?_, ?_⟩
      · show read.stream.totalIn.toNat + unread read.base < 2 ^ 64
        omega
      · show _ ≤ read.stream.totalIn.toNat
        omega

end

/-! ## The context -/

/-- The sums of the context are those of the events. -/
structure Watching (progressTotal : UInt64) (progress : ReadProgress) : Prop where
  previous : progress.progressPrevious = UInt64.ofNat (claimed progress.events)
  updated : progress.progressUpdated = UInt64.ofNat (lastBytes progress.events)
  logged : Logged progressTotal progress.events

/-- Between two entries. -/
structure Between (progressTotal : UInt64) (progress : ReadProgress) : Prop where
  watching : Watching progressTotal progress
  last : lastBytes progress.events ≤ claimed progress.events

/-- Within an entry of which `totalIn` bytes are counted. -/
structure Within (progressTotal : UInt64) (entry : ZipReaderEntry) (totalIn : UInt64)
    (progress : ReadProgress) : Prop where
  watching : Watching progressTotal progress
  last : lastBytes progress.events ≤
    bytesAt progress.events totalIn entry.entryInfo.compressedSize progress.headerSize

theorem Between.within {progress : ReadProgress} (h : Between progressTotal progress)
    (entry : ZipReaderEntry) (totalIn : UInt64) :
    Within progressTotal entry totalIn progress :=
  ⟨h.watching, by rw [bytesAt]; have := h.last; omega⟩

theorem Within.mono {progressTotal totalIn totalIn' : UInt64} {entry : ZipReaderEntry}
    {progress : ReadProgress} (h : Within progressTotal entry totalIn progress)
    (hle : totalIn.toNat ≤ totalIn'.toNat) : Within progressTotal entry totalIn' progress := by
  refine ⟨h.watching, Nat.le_trans h.last ?_⟩
  rw [bytesAt, bytesAt]
  omega

section

variable {W H : Type} {handler : ProgressHandler W} {reader : ZipReader} {entry : ZipReaderEntry}

theorem ofNat_bytesAt (earlier : List ProgressEvent) (totalIn compressedSize : UInt64)
    (headerSize : Nat) :
    UInt64.ofNat (bytesAt earlier totalIn compressedSize headerSize) =
      UInt64.ofNat (claimed earlier) +
        ((if totalIn > compressedSize then compressedSize else totalIn) +
          UInt64.ofNat headerSize) := by
  have hmin : UInt64.ofNat (min totalIn.toNat compressedSize.toNat) =
      if totalIn > compressedSize then compressedSize else totalIn := by
    split
    · next hmore =>
      rw [Nat.min_eq_right (Nat.le_of_lt (UInt64.lt_iff_toNat_lt.mp hmore)), UInt64.ofNat_toNat]
    · next hless =>
      have hle : totalIn.toNat ≤ compressedSize.toNat :=
        Nat.le_of_not_lt fun hmore => hless (UInt64.lt_iff_toNat_lt.mpr hmore)
      rw [Nat.min_eq_left hle, UInt64.ofNat_toNat]
  rw [bytesAt, UInt64.ofNat_add, UInt64.ofNat_add, hmin, UInt64.add_assoc]

theorem zipReaderUpdateProgress_within {totalIn : UInt64} (force : Bool) {s : Watched W}
    (hs : Within reader.offsetOfCentralDir entry totalIn s.progress) :
    Within reader.offsetOfCentralDir entry totalIn
      (zipReaderUpdateProgress handler reader entry totalIn force s).2.progress := by
  unfold zipReaderUpdateProgress
  cases handler with
  | none => exact hs
  | some progressHandlerWithData =>
    have hbytes := ofNat_bytesAt s.progress.events totalIn entry.entryInfo.compressedSize
      s.progress.headerSize
    rw [← hs.watching.previous] at hbytes
    dsimp only
    generalize (if totalIn > entry.entryInfo.compressedSize then entry.entryInfo.compressedSize
      else totalIn) + UInt64.ofNat s.progress.headerSize = bytes at hbytes ⊢
    split
    · exact hs
    · split
      · refine ⟨⟨hs.watching.previous, hbytes.symm, ?_, hs.last, hs.watching.logged⟩,
          Nat.le_refl _⟩
        rw [hbytes]
      · exact hs

theorem addExtracted_between {totalIn : UInt64} {s : Watched W}
    (hs : Within reader.offsetOfCentralDir entry totalIn s.progress) :
    Between reader.offsetOfCentralDir (addExtracted entry s).progress := by
  obtain ⟨⟨hprevious, hupdated, hlogged⟩, hlast⟩ := hs
  refine ⟨⟨?_, hupdated, hlogged⟩, Nat.le_trans hlast ?_⟩
  · show s.progress.progressPrevious + _ = UInt64.ofNat (claimed s.progress.events +
      entry.entryInfo.compressedSize.toNat + s.progress.headerSize)
    rw [hprevious, UInt64.ofNat_add, UInt64.ofNat_add, UInt64.ofNat_toNat, UInt64.add_assoc]
  · show _ ≤ claimed s.progress.events + entry.entryInfo.compressedSize.toNat +
      s.progress.headerSize
    rw [bytesAt]
    omega

theorem readLocalFileHeader_between {s : Watched W}
    (hs : Between reader.offsetOfCentralDir s.progress) :
    Between reader.offsetOfCentralDir (readLocalFileHeader reader entry s).progress := by
  unfold readLocalFileHeader
  split
  · exact hs
  · dsimp only
    split
    · exact hs
    · exact ⟨⟨hs.watching.previous, hs.watching.updated, hs.watching.logged⟩, hs.last⟩

theorem watchedOs_keeps (os : Os W H) (K : ReadProgress → Prop) :
    (watchedOs os).Keeps (fun s => K s.progress) where
  isDirectory _ _ h := h
  stat _ _ h := h
  access _ _ h := h
  isSymlink _ _ h := h
  mkdir _ _ h := h
  remove _ _ h := h
  unlink _ _ h := h
  symlink _ _ _ h := h
  realpath _ _ h := h
  cancels _ h := h

end

/-! ## The run -/

section

variable {W H : Type} {D : Decoder} {I : Inflate D} {os : Os W H} {handler : ProgressHandler W}
  {fuel : Nat} {reader : ZipReader} {entry : ZipReaderEntry} {outDir newFilePath : PathName}

variable {K : ReadProgress → Prop}

theorem fclose_watched {E : Stop → Watched W → Prop} (handle : H) :
    Triple (fun s => K s.progress) (discard (call ((watchedOs os).fclose handle)))
      (fun _ s => K s.progress) E :=
  .discard (.call fun _ h => h)

theorem closeEntryWith_watched {α : Type} {Q : α → Watched W → Prop} (handle : H)
    (err : ArchiveErr) :
    Triple (fun s => K s.progress) (closeEntryWith (watchedOs os) handle err) Q
      (fun _ s => K s.progress) :=
  .bind (fclose_watched handle) fun _ => .throw fun _ h => h

theorem deleteParents_watched (rootPath : PathName) (turns : Nat) :
    ∀ parentPath, Program.Keeps (fun s => K s.progress)
      (deleteParents (watchedOs os) rootPath turns parentPath) := by
  induction turns with
  | zero =>
    intro parentPath
    exact .throw _
  | succ turns ih =>
    intro parentPath
    refine .ite (.bind (.call ((watchedOs_keeps os K).remove parentPath)) fun removed =>
      .ite ?_ (.pure _)) (.pure _)
    split
    · exact .pure _
    · exact ih _

theorem deleteTempFileWithRootPath_watched (rootPath file : PathName) :
    Program.Keeps (fun s => K s.progress)
      (deleteTempFileWithRootPath (watchedOs os) rootPath file) := by
  refine .bind (.call ((watchedOs_keeps os K).remove file)) fun removed => .ite ?_ (.pure _)
  split
  · exact .pure _
  · exact deleteParents_watched _ _ _

theorem cancelEntry_watched {α : Type} {Q : α → Watched W → Prop} (handle : H) :
    Triple (fun s => K s.progress) (cancelEntry (watchedOs os) outDir newFilePath handle) Q
      (fun _ s => K s.progress) :=
  .bind (fclose_watched handle) fun _ =>
    .bind (deleteTempFileWithRootPath_watched (K := K) outDir newFilePath) fun _ =>
      .throw fun _ h => h

theorem fileStreamOpen_watched (path : PathName) :
    Program.Keeps (fun s => K s.progress) (fileStreamOpen (watchedOs os) path) := by
  have hkeeps := watchedOs_keeps os K
  refine .bind (.call (hkeeps.access path)) fun there => .ite (.bind
    (.bind (.call (hkeeps.remove path)) fun _ => .pure _) fun _ => ?_) ?_
  -- the same way on, whether or not something was in the way
  all_goals
    cases getParentDirectory path with
    | none => exact .throw _
    | some parentPath =>
      refine .bind (.call (hkeeps.realpath parentPath)) fun resolved => ?_
      cases resolved with
      | error errno => exact .throw _
      | ok resolvedPath =>
        refine .ite (.throw _) (.bind (.call fun _ h => h) fun opened => ?_)
        cases opened with
        | error errno => exact .throw _
        | ok handle => exact .pure _

/-- A run may only end early with the sums of the context in order. -/
abbrev Stopped (progressTotal : UInt64) : Stop → Watched W → Prop :=
  fun _ s => Watching progressTotal s.progress

theorem zipReaderWriteData_watched {handle : H} {bytes : List UInt8} {st : OpenEntry I.State} :
    Triple (fun s => K s.progress) (zipReaderWriteData (watchedOs os) handle bytes st)
      (fun st' s => (st'.compressStream = st.compressStream ∧ st'.base = st.base) ∧ K s.progress)
      (fun _ s => K s.progress) := by
  refine .bind (Q := fun _ s => K s.progress) (.call fun _ h => h) fun result => ?_
  cases result with
  | none => exact .pure fun _ h => ⟨⟨rfl, rfl⟩, h⟩
  | some errno => exact closeEntryWith_watched handle _

theorem zipReaderSaveLoop_within (handle : H) (turns : Nat) :
    ∀ st : OpenEntry I.State, Counted st →
      Triple (fun s => Within reader.offsetOfCentralDir entry st.compressStream.totalIn s.progress)
        (zipReaderSaveLoop os handler fuel reader entry outDir newFilePath handle turns st)
        (fun st' s => Within reader.offsetOfCentralDir entry st'.compressStream.totalIn s.progress)
        (Stopped reader.offsetOfCentralDir) := by
  induction turns with
  | zero =>
    intro st hst
    exact .throw fun _ h => h.watching
  | succ turns ih =>
    intro st hst
    refine .bind (liftFuel_triple.weaken (fun _ h => h) (fun _ _ h => h) fun _ _ h => h.watching)
      fun read => .assume fun hread => ?_
    cases read with
    | error err =>
      exact (closeEntryWith_watched handle .readError).weaken (fun _ h => h) (fun _ _ h => h)
        fun _ _ h => h.watching
    | ok read =>
      obtain ⟨bytes, read⟩ := read
      obtain ⟨hcounted, hgrows⟩ := zipReaderReadData_counted hst hread
      dsimp only
      -- bytes that are written do not change what is counted
      refine .bind (Q := fun (st' : OpenEntry I.State) s =>
        (st'.compressStream = read.compressStream ∧ st'.base = read.base) ∧
          Within reader.offsetOfCentralDir entry read.compressStream.totalIn s.progress)
        (.weaken (.ite zipReaderWriteData_watched (.pure fun _ h => ⟨⟨rfl, rfl⟩, h⟩))
          (fun _ h => h.mono hgrows) (fun _ _ h => h) fun _ _ h => h.watching)
        fun saved => .assume fun hsaved => ?_
      have hsound : Counted saved := by
        rw [Counted, hsaved.1, hsaved.2]
        exact hcounted
      rw [← hsaved.1]
      refine .bind (Q := fun _ s => Within reader.offsetOfCentralDir entry
        saved.compressStream.totalIn s.progress)
        (.call fun _ h => zipReaderUpdateProgress_within false h) fun cancelled => ?_
      refine .ite ?_ (.ite (ih saved hsound) (.pure fun _ h => h))
      exact (cancelEntry_watched handle).weaken (fun _ h => h) (fun _ _ h => h)
        fun _ _ h => h.watching

theorem zipReaderSaveFile_within {handle : H} {st : OpenEntry I.State} (hst : Counted st) :
    Triple (fun s => Within reader.offsetOfCentralDir entry st.compressStream.totalIn s.progress)
      (zipReaderSaveFile os handler fuel reader entry outDir newFilePath handle st)
      (fun st' s => Within reader.offsetOfCentralDir entry st'.compressStream.totalIn s.progress)
      (Stopped reader.offsetOfCentralDir) := by
  refine .bind (Q := fun _ s => Within reader.offsetOfCentralDir entry
    st.compressStream.totalIn s.progress)
    (.call fun _ h => zipReaderUpdateProgress_within true h) fun cancelled => .ite ?_ ?_
  · exact (cancelEntry_watched handle).weaken (fun _ h => h) (fun _ _ h => h)
      fun _ _ h => h.watching
  · refine .bind (zipReaderSaveLoop_within handle fuel st hst) fun saved => ?_
    refine .bind (Q := fun _ s => Within reader.offsetOfCentralDir entry
      saved.compressStream.totalIn s.progress)
      (.discard (.call fun _ h => zipReaderUpdateProgress_within true h)) fun _ => ?_
    refine .bind (fclose_watched handle) fun _ => ?_
    refine .bind (liftStatus_triple.weaken (fun _ h => h) (fun _ _ h => h) fun _ _ h => h.watching)
      fun _ => .assume fun _ => .pure fun _ h => h

/-! ### Opening -/

theorem streamSeek_data {f g : ByteFile} {offset : Int} {origin : SeekOrigin}
    (h : streamSeek f offset origin = .ok g) : g.data = f.data := by
  cases origin
  all_goals
    simp only [streamSeek] at h
    split at h
    · cases h
      rfl
    · cases h

theorem zipSeekLocalHeader_data {f g : ByteFile} {offset : UInt64}
    (h : zipSeekLocalHeader f offset = .ok g) : g.data = f.data := by
  obtain ⟨stream, hseek, h⟩ := FileApi.bind_eq_ok.mp h
  obtain ⟨⟨⟩, -, h⟩ := FileApi.bind_eq_ok.mp h
  cases h
  exact streamSeek_data hseek

theorem zipSeekAndCheckLocalHeader_data {f g : ByteFile} {offset : UInt64} {correction : Int}
    (h : zipSeekAndCheckLocalHeader f offset correction = .ok g) : g.data = f.data := by
  have hplain : ∀ {offset : UInt64}, (zipSeekLocalHeader f offset).mapError
      (fun _ => ArchiveErr.formatError) = .ok g → g.data = f.data := by
    intro offset h
    cases hseek : zipSeekLocalHeader f offset with
    | error err =>
      rw [hseek] at h
      cases h
    | ok stream =>
      rw [hseek] at h
      cases h
      exact zipSeekLocalHeader_data hseek
  unfold zipSeekAndCheckLocalHeader at h
  dsimp only at h
  split at h
  · split at h
    · next hseek =>
      cases h
      exact zipSeekLocalHeader_data hseek
    · exact hplain h
  · exact hplain h

theorem zipReaderProcessLocalHeader_data {f : ByteFile}
    (h : zipReaderProcessLocalHeader reader entry = .ok f) : f.data = reader.baseStream.data := by
  obtain ⟨stream, hseek, h⟩ := FileApi.bind_eq_ok.mp h
  dsimp only at h
  split at h
  · cases h
  · rw [streamSeek_data h, ← zipSeekAndCheckLocalHeader_data hseek]
    rfl

theorem zipReaderCompressStream_totalIn {info : ZipReaderEntryInfo}
    {stream : CompressStream I.State} (h : zipReaderCompressStream I info = .ok stream) :
    stream.totalIn = 0 := by
  unfold zipReaderCompressStream at h
  split at h
  · cases h
    rfl
  · cases h
    rfl
  · cases h

theorem zipReaderOpenEntry_watched :
    Program.Keeps (fun s => K s.progress)
      (Zip.zipReaderOpenEntry I (watchedOs os) reader entry newFilePath) := by
  refine .bind (liftStatus_keeps _) fun base => .bind (liftStatus_keeps _) fun stream => ?_
  exact .ite (.pure _) (.bind (fileStreamOpen_watched newFilePath) fun handle => .pure _)

theorem zipReaderOpenEntry_counted (hfile : reader.baseStream.data.length < offLimit)
    {s s' : Watched W} {st : OpenEntry I.State} {file : Option H}
    (h : Zip.zipReaderOpenEntry I (watchedOs os) reader entry newFilePath s = .ok (st, file) s') :
    Counted st := by
  obtain ⟨hbase, hstream, -, -⟩ := zipReaderOpenEntry_ok h
  have hdata := zipReaderProcessLocalHeader_data hbase
  have hzero : st.compressStream.totalIn.toNat = 0 := by
    rw [zipReaderCompressStream_totalIn hstream]
    rfl
  have hunread : unread st.base ≤ reader.baseStream.data.length := by
    rw [unread, hdata]
    exact Nat.sub_le _ _
  have hlimit : offLimit < 2 ^ 64 := by decide
  rw [Counted, hzero, Nat.zero_add]
  exact Nat.lt_trans (Nat.lt_of_le_of_lt hunread hfile) hlimit

/-! ### Entries -/

theorem zipReaderExtractEntry_within (hfile : reader.baseStream.data.length < offLimit)
    (outPath : PathName) :
    Triple (fun s => Between reader.offsetOfCentralDir s.progress)
      (zipReaderExtractEntry I os handler fuel reader entry outDir outPath)
      (fun _ s => ∃ totalIn, Within reader.offsetOfCentralDir entry totalIn s.progress)
      (Stopped reader.offsetOfCentralDir) := by
  -- what leaves the context alone
  have hother : ∀ {α : Type} {x : Run (Watched W) α},
      Program.Keeps (fun s => Between reader.offsetOfCentralDir s.progress) x →
      Triple (fun s => Between reader.offsetOfCentralDir s.progress) x
        (fun _ s => Between reader.offsetOfCentralDir s.progress)
        (Stopped reader.offsetOfCentralDir) := fun h =>
    h.weaken (fun _ hs => hs) (fun _ _ hs => hs) fun _ _ hs => hs.watching
  have hdone : ∀ {α : Type} {x : Run (Watched W) α},
      Program.Keeps (fun s => Between reader.offsetOfCentralDir s.progress) x →
      Triple (fun s => Between reader.offsetOfCentralDir s.progress) x
        (fun _ s => ∃ totalIn, Within reader.offsetOfCentralDir entry totalIn s.progress)
        (Stopped reader.offsetOfCentralDir) := fun h =>
    h.weaken (fun _ hs => hs) (fun _ _ hs => ⟨0, hs.within entry 0⟩) fun _ _ hs => hs.watching
  have hkeeps := watchedOs_keeps os (Between reader.offsetOfCentralDir)
  refine .ite (hdone (createDirectory_keeps hkeeps.isDirectory hkeeps.mkdir outPath)) ?_
  refine .bind (hother (zipReaderAutoRenamePath_keeps hkeeps.stat hkeeps.access outPath))
    fun newFilePath => ?_
  refine .bind (hother (createParentDirectory_keeps hkeeps.isDirectory fun dir w _ =>
    hkeeps.mkdir dir w)) fun _ => ?_
  refine .bind (Q := fun (opened : OpenEntry I.State × Option H) s =>
      Counted opened.1 ∧ Between reader.offsetOfCentralDir s.progress)
    (.bind (Q := fun _ s => Between reader.offsetOfCentralDir s.progress)
      (.call fun _ hs => readLocalFileHeader_between hs) fun _ => ?_)
    fun opened => .assume fun hcounted => ?_
  · exact (zipReaderOpenEntry_watched.beside fun _ _ _ h =>
      zipReaderOpenEntry_counted hfile h).weaken (fun _ hs => hs) (fun _ _ hs => hs)
        fun _ _ hs => hs.watching
  · obtain ⟨st, file⟩ := opened
    cases file with
    | none => exact hdone (zipReaderCreateSymlink_keeps hkeeps entry outDir newFilePath st)
    | some handle =>
      refine .bind (zipReaderSaveFile_within hcounted |>.weaken
        (fun _ hs => hs.within entry _) (fun _ _ hs => hs) fun _ _ hs => hs) fun saved => ?_
      exact .pure fun _ hs => ⟨_, hs⟩

theorem zipReaderExtractOne_between (hfile : reader.baseStream.data.length < offLimit)
    (entry : ZipReaderEntry) :
    Triple (fun s => Between reader.offsetOfCentralDir s.progress)
      (zipReaderExtractOne I os handler fuel reader outDir entry)
      (fun _ s => Between reader.offsetOfCentralDir s.progress)
      (Stopped reader.offsetOfCentralDir) := by
  refine .bind (liftStatus_triple.weaken (fun _ hs => hs) (fun _ _ hs => hs.2)
    fun _ _ hs => hs.watching) fun outPath => ?_
  refine .bind (zipReaderExtractEntry_within hfile outPath) fun _ => .call ?_
  rintro s ⟨totalIn, hs⟩
  exact addExtracted_between hs

end

/-! ### The walk -/

section

variable {W : Type} {reader : ZipReader} {convert : List UInt8 → Option CString}
  {extractEntry : ZipReaderEntry → Run W Unit} {P : W → Prop} {E : Stop → W → Prop}

theorem zipReaderExtractFrom_triple (hE : ∀ e s, P s → E e s)
    (hentry : ∀ entry, Triple P (extractEntry entry) (fun _ => P) E) (announced : Nat) :
    ∀ pos entry, Triple P (zipReaderExtractFrom convert reader extractEntry announced pos entry)
      (fun _ => P) E := by
  induction announced with
  | zero =>
    intro pos entry
    exact .bind (hentry entry) fun _ => .pure fun _ hs => hs
  | succ announced ih =>
    intro pos entry
    refine .bind (hentry entry) fun _ => ?_
    dsimp only
    split
    · exact .pure fun _ hs => hs
    · exact .throw fun s hs => hE _ s hs
    · exact .bind (ih _ _) fun rest => .pure fun _ hs => hs

theorem zipReaderExtractAllFiles_triple (hE : ∀ e s, P s → E e s)
    (hentry : ∀ entry, Triple P (extractEntry entry) (fun _ => P) E) :
    Triple P (Zip.zipReaderExtractAllFiles convert reader extractEntry) (fun _ => P) E := by
  unfold Zip.zipReaderExtractAllFiles
  split
  · exact .throw fun s hs => hE _ s hs
  · cases zipReaderGoToCentralDirHeader convert reader reader.offsetOfCentralDir with
    | error err => exact .bind (.throw fun s hs => hE _ s hs) fun _ =>
        zipReaderExtractFrom_triple hE hentry _ _ _
    | ok entry => exact .bind (.pure fun _ hs => hs) fun _ =>
        zipReaderExtractFrom_triple hE hentry _ _ _

end

theorem startProgress_between {W : Type} (progressTotal : UInt64) (s : Watched W) :
    Between progressTotal (startProgress s).progress :=
  ⟨⟨rfl, rfl, trivial⟩, Nat.le_refl _⟩

theorem zipReaderOpenFile_length {archive : List UInt8} {reader : ZipReader}
    (h : zipReaderOpenFile archive = .ok reader) :
    reader.baseStream.data.length < offLimit := by
  obtain ⟨info, hsearch, h⟩ := FileApi.bind_eq_ok.mp h
  obtain ⟨place, -, h⟩ := FileApi.bind_eq_ok.mp h
  cases h
  obtain ⟨stream, hseek, -⟩ := FileApi.bind_eq_ok.mp hsearch
  rw [streamSeek] at hseek
  dsimp only at hseek
  split at hseek
  · next hbound => exact Int.ofNat_lt.mp (by simpa using hbound.2)
  · cases hseek

/-- At every moment of an extraction at which all the reports so far fit, the percentages the
handler was told are between 0 and 100, and none is below an earlier one. -/
theorem zipReaderExtractAllFiles_steady {W H : Type} {D : Decoder} (I : Inflate D) (os : Os W H)
    (handler : ProgressHandler W) (fuel : Nat) (convert : List UInt8 → Option CString)
    (outDir : PathName) (s : Watched W) {archive : List UInt8} {reader : ZipReader}
    (hopen : zipReaderOpenFile archive = .ok reader) :
    ∀ seen, seen <:+ (after (zipReaderExtractAllFiles I os handler fuel reader convert outDir)
        s).progress.events →
      Fits reader.offsetOfCentralDir seen → Steady (percents seen) := by
  intro seen hseen hfits
  have hrun : Triple (fun _ => True)
      (zipReaderExtractAllFiles I os handler fuel reader convert outDir)
      (fun _ s => Watching reader.offsetOfCentralDir s.progress)
      (Stopped reader.offsetOfCentralDir) := by
    refine .bind (Q := fun _ s => Between reader.offsetOfCentralDir s.progress)
      (.call fun s _ => startProgress_between reader.offsetOfCentralDir s) fun _ => ?_
    exact (zipReaderExtractAllFiles_triple (fun _ _ hs => hs.watching)
      (zipReaderExtractOne_between (zipReaderOpenFile_length hopen))).weaken
        (fun _ hs => hs) (fun _ _ hs => hs.watching) fun _ _ hs => hs
  have hend := hrun s trivial
  refine (Logged.steady_upTo (Logged.of_suffix ?_ hseen) hfits).1
  rw [after]
  cases hresult : zipReaderExtractAllFiles I os handler fuel reader convert outDir s with
  | ok extracted s' =>
    rw [hresult] at hend
    exact hend.logged
  | error err s' =>
    rw [hresult] at hend
    exact hend.logged

/-! ### An entry that claims too much -/

/-- Two empty stored entries `a` and `b`; `compressedSize` is what the central header of `a` says
it has. -/
def twoEntries (compressedSize : UInt32) : List UInt8 :=
  let header : LocalFileHeader := {
    signature := ZIP_MAGIC_LOCALHEADER, versionNeeded := 20, flag := 0x0800
    compressionMethod := 0, dosModDateTime := 0, crc32 := 0, compressedSize := 0
    uncompressedSize := 0, fileNameLength := 1, extraFieldLength := 0 }
  let record (compressedSize relativeOffsetOfLocalHeader : UInt32) : ReadCentralDirHeader := {
    versionMadeBy := 0x031e, versionNeeded := 20, flag := 0x0800, compressionMethod := 0
    dosModDateTime := 0, crc32 := 0, compressedSize, uncompressedSize := 0
    fileNameLength := 1, extraFieldLength := 0, fileCommentLength := 0, diskNumberStart := 0
    internalFileAttr := 0, externalFileAttr := 0x81a40000, relativeOffsetOfLocalHeader }
  let eocd : EndOfCentralDir := {
    signature := ZIP_MAGIC_ENDHEADER, numberOfDisk := 0, numberOfDiskWithCD := 0
    totalNumberOfEntriesOnThisDisk := 2, totalNumberOfEntries := 2
    sizeOfCentralDir := 94, offsetOfCentralDir := 62, commentLength := 0 }
  header.toBytes ++ [0x61] ++ header.toBytes ++ [0x62] ++
    putU32 ZIP_MAGIC_CENTRALHEADER ++ (record compressedSize 0).toBytes ++ [0x61] ++
    putU32 ZIP_MAGIC_CENTRALHEADER ++ (record 0 31).toBytes ++ [0x62] ++ eocd.toBytes

/-- A handler that never cancels. -/
def goOn : ProgressHandler (List UInt8) := some fun _ w => (false, w)

/-- The events of extracting `twoEntries`. -/
def eventsOf (reader : ZipReader) : List ProgressEvent :=
  (after (zipReaderExtractAllFiles (Inflate.greedy noStreams) oneFile goOn 2 reader
    (fun _ => none) [dot]) ⟨[], {}⟩).progress.events

theorem twoEntries_told (compressedSize : UInt32) (fits : Bool) (told : List Int)
    (hrun : (zipReaderOpenFile (twoEntries compressedSize)).toOption.map (fun reader =>
      (decide (Fits reader.offsetOfCentralDir (eventsOf reader)), percents (eventsOf reader))) =
        some (fits, told)) :
    ∃ reader, zipReaderOpenFile (twoEntries compressedSize) = .ok reader ∧
      decide (Fits reader.offsetOfCentralDir (eventsOf reader)) = fits ∧
      percents (eventsOf reader) = told := by
  obtain ⟨reader, hreader, hboth⟩ := Option.map_eq_some_iff.mp hrun
  obtain ⟨hfits, htold⟩ := Prod.mk.inj hboth
  exact ⟨reader, toOption_eq_some.mp hreader, hfits, htold⟩

/-- The second entry is reported with a negative percentage. -/
theorem zipReaderExtractAllFiles_not_steady :
    ∃ reader, zipReaderOpenFile (twoEntries 0xfffffffe) = .ok reader ∧
      percents (eventsOf reader) = [-1662567889, -1662567889, 50, 50] ∧
      ¬ Steady (percents (eventsOf reader)) := by
  obtain ⟨reader, hreader, -, htold⟩ := twoEntries_told 0xfffffffe false
    [-1662567889, -1662567889, 50, 50] (by decide +kernel)
  refine ⟨reader, hreader, htold, fun hsteady => ?_⟩
  rw [htold] at hsteady
  have hrange := hsteady.1 (-1662567889) (List.mem_cons_self)
  omega

/-- With its true size the entry is one half of the way. -/
theorem zipReaderExtractAllFiles_steady_twoEntries :
    ∃ reader, zipReaderOpenFile (twoEntries 0) = .ok reader ∧
      percents (eventsOf reader) = [100, 100, 50, 50] ∧
      Fits reader.offsetOfCentralDir (eventsOf reader) ∧ Steady (percents (eventsOf reader)) := by
  obtain ⟨reader, hreader, hfits, htold⟩ := twoEntries_told 0 true [100, 100, 50, 50]
    (by decide +kernel)
  have hfits := of_decide_eq_true hfits
  exact ⟨reader, hreader, htold, hfits, zipReaderExtractAllFiles_steady (Inflate.greedy noStreams)
    oneFile goOn 2 (fun _ => none) [dot] ⟨[], {}⟩ hreader _ List.suffix_rfl hfits⟩

end FileApi.Compress.Zip.Progress
