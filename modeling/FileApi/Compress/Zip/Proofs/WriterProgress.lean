import Mathlib.Algebra.Order.BigOperators.Group.List
import FileApi.Compress.Zip.WriterProgress
import FileApi.Compress.Zip.Proofs.ClosedEntry
import FileApi.Compress.Zip.Proofs.ReaderProgress
import FileApi.Compress.Zip.Proofs.SavedNames

/-!
# What the handler is told while files are added

The total is what `GetDirSize` comes to, which does not go into `.` and `..`; what is added up while
files are read is what `ZipWriterAddOnePath` comes to, which does. As long as the second is not
more than the first, every file takes from the total at most its size.
-/

namespace FileApi.Compress.Zip.Out.Progress

open Program Zlib
open Zip.Progress (ProgressHandler PROGRESS_PERCENT Steady bmod_of_lt)

/-! ## Without a handler -/

section

variable {B : Type} [StreamOps B] {W H : Type} {D : Decoder} (Z : Deflate D) (os : SourceOs W H)
  (fuel : Nat) (archive : WriteMethod)

theorem zipWriterAddLoop_plain (handle : H) (turns : Nat) : ∀ task : WriterTask Z.State B H,
    zipWriterAddLoop Z os none fuel handle turns task =
      Out.zipWriterAddLoop Z (toldOs os) fuel handle turns task := by
  induction turns with
  | zero => exact fun task => rfl
  | succ turns ih =>
    intro task
    simp only [zipWriterAddLoop, ih]
    rfl

theorem zipWriterAddOneFile_plain (writer : ArchiveWriter B) (node : FilePathNode) :
    zipWriterAddOneFile Z os none fuel archive writer node =
      Out.zipWriterAddOneFile Z (toldOs os) fuel archive writer node := by
  simp only [zipWriterAddOneFile, zipWriterAddData, zipWriterAddLoop_plain]
  rfl

theorem zipWriterAddQueue_plain (inputDir : PathName) (turns : Nat) :
    ∀ (writer : ArchiveWriter B) (queue : List PathName),
      zipWriterAddQueue Z os none fuel archive inputDir turns writer queue =
        Out.zipWriterAddQueue Z (toldOs os) fuel archive inputDir turns writer queue := by
  induction turns with
  | zero => rintro writer (_ | _) <;> rfl
  | succ turns ih =>
    rintro writer (_ | ⟨path, queue⟩)
    · rfl
    · simp only [zipWriterAddQueue, zipWriterAddNode, zipWriterAddOneFile_plain, ih]
      rfl

/-- Without a handler the files are added as in the model that leaves the progress to the system. -/
theorem zipWriterAddFiles_plain (infiles : List PathName) : ∀ writer : ArchiveWriter B,
    zipWriterAddFiles Z os none fuel archive writer infiles =
      Out.zipWriterAddFiles Z (toldOs os) fuel archive writer infiles := by
  induction infiles with
  | nil => exact fun writer => rfl
  | cons infile infiles ih =>
    intro writer
    simp only [zipWriterAddFiles, Out.zipWriterAddFiles, zipWriterAddOnePath,
      Out.zipWriterAddOnePath, zipWriterAddQueue_plain, ih]

end

/-! ## A file system that stays as it is -/

/-- What the calls say about paths. -/
structure Snapshot where
  stat : PathName → Option FileStat
  names : PathName → Option (List PathName)
  isLink : PathName → Bool

namespace Snapshot

variable (fs : Snapshot)

def isDir (path : PathName) : Bool := ((fs.stat path).map FileStat.isDirectory).getD false

def size (path : PathName) : UInt64 := ((fs.stat path).map FileStat.size).getD 0

/-- What the handler is told of a path that is no directory: nothing of a link. -/
def readBytes (path : PathName) : Nat := if fs.isLink path then 0 else (fs.size path).toNat

/-- The queue behind a directory. -/
def queued (queue : List PathName) (path : PathName) : Except ArchiveErr (List PathName) :=
  match fs.names path with
  | none => .ok queue
  | some names => traversalNames path names queue

/-- What a walk comes to that is no directory, in order, when it goes into the directories of
`goesInto`. -/
def files (goesInto : PathName → Bool) : Nat → List PathName → List PathName
  | _, [] => []
  | 0, _ :: _ => []
  | turns + 1, path :: queue =>
      if fs.isDir path then
        if goesInto path then
          match fs.queued queue path with
          | .ok queue => files goesInto turns queue
          | .error _ => []
        else files goesInto turns queue
      else path :: files goesInto turns queue

/-- What `GetDirSize` adds up for the inputs. -/
def measured (fuel : Nat) (infiles : List PathName) : Nat :=
  ((infiles.flatMap fun infile => fs.files isValidFolderEnd fuel [infile]).map
    fun path => (fs.size path).toNat).sum

/-- What is read of the inputs. -/
def read (fuel : Nat) (infiles : List PathName) : Nat :=
  ((infiles.flatMap fun infile => fs.files (fun _ => true) fuel [infile]).map fs.readBytes).sum

/-- The bytes are within a hundred percent of the total, and a hundred times as many fit in an
`uint64_t`. There is no total if nothing was measured. -/
def Room (progressTotal : UInt64) (bytes : Nat) : Prop :=
  progressTotal = 0 ∨ (bytes * 100 < 101 * progressTotal.toNat ∧ bytes * 100 < 2 ^ 64)

instance (progressTotal : UInt64) (bytes : Nat) : Decidable (Room progressTotal bytes) :=
  inferInstanceAs (Decidable (_ ∨ _))

/-- What is read of the inputs is within a hundred percent of what is measured. -/
def Covers (fuel : Nat) (infiles : List PathName) : Prop :=
  Room (UInt64.ofNat (fs.measured fuel infiles)) (fs.read fuel infiles)

instance (fuel : Nat) (infiles : List PathName) : Decidable (fs.Covers fuel infiles) :=
  inferInstanceAs (Decidable (Room _ _))

end Snapshot

open Snapshot (Room)

theorem Snapshot.Room.mono {progressTotal : UInt64} {bytes bytes' : Nat}
    (h : Room progressTotal bytes') (hle : bytes ≤ bytes') : Room progressTotal bytes := by
  refine h.imp_right ?_
  rintro ⟨htotal, hword⟩
  exact ⟨by omega, by omega⟩

/-- The system shows the file system at any time, and the handler does not touch what is read. -/
structure Still {W H : Type} (os : SourceOs W H) (handler : ProgressHandler W) (fs : Snapshot)
    extends SourceOs.Unchanging os where
  shows : ∀ path w, (os.stat path w).1 = fs.stat path
  readdir : ∀ path w, (os.readdir path w).1 = fs.names path
  isLink : ∀ path w, ((os.lstat path w).1.map LinkStat.isLink).getD false = fs.isLink path
  told : ∀ progressHandler, handler = some progressHandler → ∀ handle ratio w,
    left handle (progressHandler ratio w).2 ≤ left handle w

/-! ## One report -/

/-- The percentage the bytes have come to. -/
def reached (progressTotal progressUpdated : UInt64) : Int :=
  ((progressUpdated.toNat * 100 / progressTotal.toNat : Nat) : Int)

/-- What the handler was told is steady, and no more than what the bytes have come to. -/
structure Good (progressTotal : UInt64) (progress : WriteProgress) : Prop where
  total : progress.progressTotal = progressTotal
  steady : Steady progress.told
  most : ∀ ratio ∈ progress.told, ratio ≤ reached progressTotal progress.progressUpdated

/-- At most so many bytes were added up. -/
structure Spent (progressTotal : UInt64) (bytes : Nat) (progress : WriteProgress) : Prop where
  good : Good progressTotal progress
  updated : progress.progressUpdated.toNat ≤ bytes

theorem Spent.mono {progressTotal : UInt64} {bytes bytes' : Nat} {progress : WriteProgress}
    (h : Spent progressTotal bytes progress) (hle : bytes ≤ bytes') :
    Spent progressTotal bytes' progress :=
  ⟨h.good, Nat.le_trans h.updated hle⟩

theorem ratioOf_of_room {progressTotal updated : UInt64} (hne : progressTotal ≠ 0)
    (h : Room progressTotal updated.toNat) :
    ratioOf updated progressTotal = reached progressTotal updated ∧
      0 ≤ reached progressTotal updated ∧ reached progressTotal updated ≤ 100 := by
  obtain ⟨htotal, hword⟩ := h.resolve_left hne
  have hpercent : PROGRESS_PERCENT.toNat = 100 := rfl
  have hvalue : (updated * PROGRESS_PERCENT / progressTotal).toNat =
      updated.toNat * 100 / progressTotal.toNat := by
    rw [UInt64.toNat_div, UInt64.toNat_mul, hpercent, Nat.mod_eq_of_lt hword]
  have hmost : updated.toNat * 100 / progressTotal.toNat < 101 :=
    Nat.div_lt_of_lt_mul (by omega)
  refine ⟨?_, Int.natCast_nonneg _, Int.ofNat_le.mpr (Nat.le_of_lt_succ hmost)⟩
  unfold ratioOf
  rw [hvalue]
  exact bmod_of_lt (Nat.lt_trans hmost (by decide))

theorem steady_cons {told : List Int} {ratio : Int} (h : Steady told) (hmin : 0 ≤ ratio)
    (hmax : ratio ≤ 100) (hall : ∀ earlier ∈ told, earlier ≤ ratio) : Steady (ratio :: told) := by
  refine ⟨fun percent hmem => ?_, List.pairwise_cons.mpr ⟨hall, h.2⟩⟩
  rcases List.mem_cons.mp hmem with rfl | hmem
  · exact ⟨hmin, hmax⟩
  · exact h.1 percent hmem

section

variable {W H : Type} {os : SourceOs W H} {handler : ProgressHandler W} {fs : Snapshot}
  {progressTotal : UInt64}

variable {progressHandler : Int → W → Bool × W} {s : Told W}

theorem zipWriterUpdateProgress_zero {len : Nat} (h : s.progress.progressTotal = 0) :
    (zipWriterUpdateProgress (some progressHandler) len false s).2.progress =
      { s.progress with told := 0 :: s.progress.told } := by
  rw [zipWriterUpdateProgress, if_pos (.inl h)]
  rfl

theorem zipWriterUpdateProgress_more {len : Nat} (h : s.progress.progressTotal ≠ 0) :
    (zipWriterUpdateProgress (some progressHandler) len false s).2.progress =
      { s.progress with
        progressUpdated := s.progress.progressUpdated + UInt64.ofNat len
        told := ratioOf (s.progress.progressUpdated + UInt64.ofNat len) s.progress.progressTotal ::
          s.progress.told } := by
  rw [zipWriterUpdateProgress, if_neg (not_or.mpr ⟨h, Bool.false_ne_true⟩)]

/-- A report of `len` bytes more. -/
theorem zipWriterUpdateProgress_spent {bytes len : Nat} (hroom : Room progressTotal (bytes + len))
    (hs : Spent progressTotal bytes s.progress) :
    Spent progressTotal (bytes + len)
      (zipWriterUpdateProgress handler len false s).2.progress := by
  obtain ⟨⟨htotal, hsteady, hmost⟩, hupdated⟩ := hs
  cases handler with
  | none => exact ⟨⟨htotal, hsteady, hmost⟩, Nat.le_add_right_of_le hupdated⟩
  | some progressHandler =>
    by_cases hzero : s.progress.progressTotal = 0
    · rw [zipWriterUpdateProgress_zero hzero]
      have hnothing : reached progressTotal s.progress.progressUpdated = 0 := by
        rw [← htotal, hzero, reached]
        exact congrArg Int.ofNat (Nat.div_zero _)
      have hall : ∀ earlier ∈ s.progress.told, earlier ≤ 0 := by
        intro earlier hmem
        rw [← hnothing]
        exact hmost earlier hmem
      refine ⟨⟨htotal, steady_cons hsteady (Int.le_refl 0) (by decide) hall, ?_⟩,
        Nat.le_add_right_of_le hupdated⟩
      intro ratio hmem
      rcases List.mem_cons.mp hmem with rfl | hmem
      · exact hnothing.ge
      · exact hmost ratio hmem
    · rw [zipWriterUpdateProgress_more hzero, htotal]
      have hne : progressTotal ≠ 0 := htotal ▸ hzero
      have hword := (hroom.resolve_left hne).2
      have hlen : (UInt64.ofNat len).toNat = len :=
        UInt64.toNat_ofNat_of_lt' (show len < 2 ^ 64 by omega)
      have hsum : (s.progress.progressUpdated + UInt64.ofNat len).toNat =
          s.progress.progressUpdated.toNat + len := by
        rw [UInt64.toNat_add, hlen]
        exact Nat.mod_eq_of_lt (by omega)
      obtain ⟨hratio, hmin, hmax⟩ := ratioOf_of_room hne (hroom.mono (by omega :
        (s.progress.progressUpdated + UInt64.ofNat len).toNat ≤ bytes + len))
      have hgrows : reached progressTotal s.progress.progressUpdated ≤
          reached progressTotal (s.progress.progressUpdated + UInt64.ofNat len) := by
        refine Int.ofNat_le.mpr (Nat.div_le_div_right (Nat.mul_le_mul_right 100 ?_))
        rw [hsum]
        exact Nat.le_add_right _ _
      have hall : ∀ earlier ∈ s.progress.told,
          earlier ≤ reached progressTotal (s.progress.progressUpdated + UInt64.ofNat len) :=
        fun earlier hmem => Int.le_trans (hmost earlier hmem) hgrows
      rw [hratio]
      refine ⟨⟨htotal, steady_cons hsteady hmin hmax hall, ?_⟩, ?_⟩
      · intro ratio hmem
        rcases List.mem_cons.mp hmem with rfl | hmem
        · exact Int.le_refl _
        · exact hall ratio hmem
      · rw [hsum]
        exact Nat.add_le_add_right hupdated len

theorem zipWriterUpdateProgress_over (hs : Steady s.progress.told) :
    Steady (zipWriterUpdateProgress handler 0 true s).2.progress.told := by
  cases handler with
  | none => exact hs
  | some progressHandler =>
    rw [zipWriterUpdateProgress, if_pos (.inr rfl)]
    exact steady_cons hs (by decide) (by decide) fun earlier hmem => (hs.1 earlier hmem).2

end

/-! ## Calls that leave the fields alone -/

section

variable {B : Type} [StreamOps B] {W H : Type} {D : Decoder} {Z : Deflate D} {os : SourceOs W H}
  {fuel : Nat} {archive : WriteMethod} {K : WriteProgress → Prop}

theorem isDir_told (path : PathName) :
    Program.Keeps (fun s => K s.progress) (isDir (toldOs os) path) :=
  .bind (.call fun _ h => h) fun _ => .pure _

theorem pathStat_told (path : PathName) :
    Program.Keeps (fun s => K s.progress) (pathStat (toldOs os) path) := by
  refine .bind (.call fun _ h => h) fun link => ?_
  cases link with
  | some st =>
    exact .bind (.pure _) fun _ => .bind (.call fun _ h => h) fun _ =>
      .bind (.call fun _ h => h) fun _ => .pure _
  | none =>
    exact .bind (.call fun _ h => h) fun _ => .bind (.call fun _ h => h) fun _ =>
      .bind (.call fun _ h => h) fun _ => .pure _

theorem fileStreamOpenRead_told (path : PathName) :
    Program.Keeps (fun s => K s.progress) (fileStreamOpenRead (toldOs os) path) := by
  refine .bind (.call fun _ h => h) fun resolved => ?_
  cases resolved with
  | error errno => exact .pure _
  | ok resolvedPath =>
    refine .bind (.call fun _ h => h) fun opened => ?_
    cases opened with
    | error errno => exact .pure _
    | ok handle => exact .pure _

theorem zipWriterEntryOpen_told (base : B) (fileType : FileType) (node : FilePathNode) :
    Program.Keeps (fun s => K s.progress)
      (zipWriterEntryOpen Z (toldOs os) archive base fileType node) := by
  refine .ite (.pure _) (.bind (pathStat_told node.filePath) fun st => .ite (.pure _) ?_)
  refine .bind ?_ fun source => ?_
  · cases fileType with
    | emptyDir => exact .pure _
    | file => exact .bind (fileStreamOpenRead_told node.filePath) fun _ => .pure _
  · cases source with
    | error err => exact .pure _
    | ok extractStream => exact .pure _

variable {P : Told W → Prop}

theorem WriterTask.write_keeps (data : List UInt8) (task : WriterTask Z.State B H) :
    Program.Keeps P (task.write Z fuel data) :=
  .bind (liftFuel_keeps _) fun _ => .bind (liftStatus_keeps _) fun _ => .pure _

theorem readSymlink_told (path : PathName) :
    Program.Keeps (fun s => K s.progress) (readSymlink (toldOs os) path) :=
  .bind (.call fun _ h => h) fun _ => .pure _

theorem zipWriterCloseStream_told (writer : ArchiveWriter B) (task : WriterTask Z.State B H)
    (needCalSize : Bool) :
    Program.Keeps P (zipWriterCloseStream Z fuel writer task needCalSize) :=
  .bind (liftFuel_keeps _) fun _ => .bind (liftStatus_keeps _) fun _ =>
    .bind (liftStatus_keeps _) fun _ => .bind (liftStatus_keeps _) fun _ => .pure _

omit [StreamOps B] in
theorem zipWriterDeleteStream_told (task : WriterTask Z.State B H) :
    Program.Keeps (fun s => K s.progress) (zipWriterDeleteStream Z (toldOs os) task) := by
  rw [zipWriterDeleteStream]
  cases task.extractStream with
  | none => exact .pure _
  | some handle => exact .discard (.call fun _ h => h)

theorem traversalDir_told (queue : List PathName) (path : PathName) :
    Program.Keeps (fun s => K s.progress) (traversalDir (toldOs os) queue path) := by
  refine .bind (.call fun _ h => h) fun names => ?_
  cases names with
  | none => exact .pure _
  | some names => exact liftStatus_keeps _

theorem checkInputs_told (infiles : List PathName) :
    Program.Keeps (fun s => K s.progress) (checkInputs (toldOs os) infiles) := by
  induction infiles with
  | nil => exact .pure _
  | cons infile infiles ih =>
    refine .bind (.call fun _ h => h) fun st => ?_
    cases st with
    | none => exact .throw _
    | some st => exact ih

theorem status_triple {α : Type} {Q : α → Told W → Prop} {E : Stop → Told W → Prop}
    {x : Run (Told W) α} (h : Triple P x Q E) :
    Triple P (status x) (fun ret s => match ret with
      | .ok a => Q a s
      | .error err => E (.error err) s) E := by
  intro s hs
  have hcase := h s hs
  rw [status]
  cases hrun : x s with
  | ok a s' =>
    rw [hrun] at hcase
    exact hcase
  | error stop s' =>
    rw [hrun] at hcase
    cases stop with
    | error err => exact hcase
    | fuel => exact hcase

theorem status_keeps {α : Type} {x : Run (Told W) α} (h : Program.Keeps P x) :
    Program.Keeps P (status x) := by
  refine (status_triple h).weaken (fun _ hs => hs) (fun ret _ hs => ?_) fun _ _ hs => hs
  cases ret with
  | ok a => exact hs
  | error err => exact hs

end

/-! ## What is read of a path -/

section

variable {B : Type} [StreamOps B] {W H : Type} {D : Decoder} {Z : Deflate D} {os : SourceOs W H}
  {handler : ProgressHandler W} {fs : Snapshot} {fuel : Nat} {archive : WriteMethod}
  {progressTotal : UInt64} {bytes : Nat}

/-- The system beside the fields keeps its files as well. -/
def Still.toldOs (still : Still os handler fs) : SourceOs.Unchanging (Progress.toldOs os) where
  size := still.size
  left handle s := still.left handle s.world
  stat path s := still.stat path s.world
  fopen path resolved v s handle := still.fopen path resolved v.world s.world handle
  fread handle n s := still.fread handle n s.world
  lstat handle path s := still.lstat handle path s.world
  cancels _ _ := Nat.le_refl _

theorem Still.size_eq (still : Still os handler fs) {w : W} (path : PathName) :
    still.size path = fs.size path := by
  rw [← still.stat path w, still.shows path w]
  rfl

variable {path : PathName}

theorem Still.isDir_ok (still : Still os handler fs) {s s' : Told W} {b : Bool}
    (h : Out.isDir (Progress.toldOs os) path s = .ok b s') : b = fs.isDir path := by
  rw [Out.isDir_ok h, Snapshot.isDir, ← still.shows path s.world]
  rfl

theorem Still.traversalDir_ok (still : Still os handler fs) {queue queue' : List PathName}
    {s s' : Told W} (h : traversalDir (Progress.toldOs os) queue path s = .ok queue' s') :
    fs.queued queue path = .ok queue' := by
  obtain ⟨names, mid, hcall, h⟩ := Program.bind_eq_ok.mp h
  have hnames : fs.names path = names := by
    rw [← still.readdir path s.world]
    exact (EStateM.Result.ok.inj hcall).1
  rw [Snapshot.queued, hnames]
  cases names with
  | none => exact congrArg Except.ok (Program.pure_eq_ok.mp h).1
  | some names => exact (liftStatus_eq_ok.mp h).1

/-- The bytes that were added up, with what is left of the file, are within what may be read. -/
structure Reading (still : Still os handler fs) (progressTotal : UInt64) (bytes : Nat) (handle : H)
    (s : Told W) : Prop where
  good : Good progressTotal s.progress
  left : s.progress.progressUpdated.toNat + still.left handle s.world ≤ bytes

theorem zipWriterUpdateProgress_left (still : Still os handler fs) (handle : H) (len : Nat)
    (s : Told W) :
    still.left handle (zipWriterUpdateProgress handler len false s).2.world ≤
      still.left handle s.world := by
  unfold zipWriterUpdateProgress
  cases handler with
  | none => exact Nat.le_refl _
  | some progressHandler =>
    dsimp only
    split
    · exact still.told progressHandler rfl handle _ s.world
    · exact still.told progressHandler rfl handle _ s.world

theorem zipWriterAddLoop_reading (still : Still os handler fs) (hroom : Room progressTotal bytes)
    (handle : H) (turns : Nat) :
    ∀ task : WriterTask Z.State B H,
      Triple (Reading still progressTotal bytes handle)
        (zipWriterAddLoop Z os handler fuel handle turns task)
        (fun _ s => Spent progressTotal bytes s.progress)
        (fun _ s => Good progressTotal s.progress) := by
  induction turns with
  | zero =>
    intro task
    exact .throw fun _ h => h.good
  | succ turns ih =>
    intro task
    refine .bind (Q := fun (read : Except Errno (List UInt8)) s => Good progressTotal s.progress ∧
      ∀ data, read = .ok data →
        s.progress.progressUpdated.toNat + data.length + still.left handle s.world ≤ bytes)
      (.call fun s hs => ⟨hs.good, fun data hread => ?_⟩) fun read => ?_
    · have htaken := (still.fread handle ZIP_BUF_INTERNAL s.world data hread).2
      have hleft := hs.left
      show s.progress.progressUpdated.toNat + data.length +
        still.left handle (os.fread handle ZIP_BUF_INTERNAL s.world).2 ≤ bytes
      omega
    · cases read with
      | error errno => exact .throw fun _ h => h.1
      | ok data =>
        refine .ite (.pure fun _ h => ⟨h.1, ?_⟩) ?_
        · have := h.2 data rfl
          omega
        · refine .bind (Q := fun _ s => Good progressTotal s.progress ∧
              s.progress.progressUpdated.toNat + data.length + still.left handle s.world ≤ bytes)
            ((WriterTask.write_keeps data task).weaken (fun _ h => ⟨h.1, h.2 data rfl⟩)
              (fun _ _ h => h) fun _ _ h => h.1) fun task' => ?_
          refine .bind (Q := fun _ s => Reading still progressTotal bytes handle s)
            (.call fun s hs => ?_) fun cancelled => .ite (.throw fun _ h => h.good) (ih task')
          have hless : s.progress.progressUpdated.toNat + data.length ≤ bytes := by
            have := hs.2
            omega
          have hspent : Spent progressTotal (s.progress.progressUpdated.toNat + data.length)
              (zipWriterUpdateProgress handler data.length false s).2.progress :=
            zipWriterUpdateProgress_spent (hroom.mono hless) ⟨hs.1, Nat.le_refl _⟩
          have hkept := zipWriterUpdateProgress_left still handle data.length s
          refine ⟨hspent.good, ?_⟩
          have := hspent.updated
          have := hs.2
          omega

theorem spent_of_keeps {α : Type} {x : Run (Told W) α}
    (h : Program.Keeps (fun s => Spent progressTotal bytes s.progress) x) :
    Triple (fun s => Spent progressTotal bytes s.progress) x
      (fun _ s => Spent progressTotal bytes s.progress)
      (fun _ s => Good progressTotal s.progress) :=
  h.weaken (fun _ hs => hs) (fun _ _ hs => hs) fun _ _ hs => hs.good

/-- A task whose file, if it is open, has no more than its size left. -/
def Sized (still : Still os handler fs) (path : PathName) (task : WriterTask Z.State B H)
    (s : Told W) : Prop :=
  ∀ handle, task.extractStream = some handle →
    still.left handle s.world ≤ (fs.size path).toNat

theorem zipWriterAddData_spent (still : Still os handler fs)
    (hroom : Room progressTotal (bytes + fs.readBytes path)) (task : WriterTask Z.State B H) :
    Triple (fun s => Sized still path task s ∧ Spent progressTotal bytes s.progress)
      (zipWriterAddData Z os handler fuel path task)
      (fun _ s => Spent progressTotal (bytes + fs.readBytes path) s.progress)
      (fun _ s => Good progressTotal s.progress) := by
  refine .bind (Q := fun (st : Option LinkStat) s =>
      (st.map LinkStat.isLink).getD false = fs.isLink path ∧
        (Sized still path task s ∧ Spent progressTotal bytes s.progress))
    (.call fun s hs => ⟨still.isLink path s.world, fun handle hhandle => ?_, hs.2⟩)
    fun st => .assume fun hst => ?_
  · exact Nat.le_trans (still.lstat handle path s.world) (hs.1 handle hhandle)
  · simp only [hst]
    by_cases hlink : fs.isLink path = true
    · have hnothing : bytes + fs.readBytes path = bytes := by
        rw [Snapshot.readBytes, if_pos hlink, Nat.add_zero]
      rw [if_pos hlink, hnothing]
      refine Triple.weaken (P := fun s => Spent progressTotal bytes s.progress)
        (.bind (spent_of_keeps (readSymlink_told path)) fun linkName => ?_)
        (fun _ hs => hs.2) (fun _ _ hs => hs) fun _ _ hs => hs
      cases linkName with
      | none => exact .throw fun _ hs => hs.good
      | some linkName => exact spent_of_keeps (WriterTask.write_keeps linkName task)
    · have hall : bytes + fs.readBytes path = bytes + (fs.size path).toNat := by
        rw [Snapshot.readBytes, if_neg hlink]
      rw [if_neg hlink]
      cases hsource : task.extractStream with
      | none => exact .pure fun _ hs => hs.2.mono (Nat.le_add_right _ _)
      | some handle =>
        refine (zipWriterAddLoop_reading still hroom handle fuel task).weaken
          (fun s hs => ⟨hs.2.good, ?_⟩) (fun _ _ hs => hs) fun _ _ hs => hs
        have hleft := hs.1 handle hsource
        have hupdated := hs.2.updated
        omega

theorem zipWriterAddOneFile_spent (still : Still os handler fs) (node : FilePathNode)
    (hroom : Room progressTotal (bytes + fs.readBytes node.filePath)) (writer : ArchiveWriter B) :
    Triple (fun s => Spent progressTotal bytes s.progress)
      (zipWriterAddOneFile Z os handler fuel archive writer node)
      (fun _ s => Spent progressTotal (bytes + fs.readBytes node.filePath) s.progress)
      (fun _ s => Good progressTotal s.progress) := by
  refine .bind (Q := fun (opened : Except ArchiveErr (WriterTask Z.State B H)) s =>
      (∀ task, opened = .ok task → Sized still node.filePath task s) ∧
        Spent progressTotal bytes s.progress)
    ((zipWriterEntryOpen_told (K := fun p => Spent progressTotal bytes p) writer.base .file
      node).beside ?_ |>.weaken (fun _ hs => hs) (fun _ _ hs => hs) fun _ _ hs => hs.good)
    fun opened => ?_
  · rintro s _ s' hopen task rfl handle hhandle
    rw [← still.size_eq (w := s'.world)]
    exact zipWriterEntryOpen_left hopen still.toldOs handle hhandle
  · cases opened with
    | ok task =>
      refine .bind ((zipWriterAddData_spent still hroom task).weaken
        (fun _ hs => ⟨hs.1 task rfl, hs.2⟩) (fun _ _ hs => hs) fun _ _ hs => hs) fun task' => ?_
      refine .bind (spent_of_keeps (zipWriterCloseStream_told writer task' true)) fun writer' => ?_
      exact .bind (spent_of_keeps (zipWriterDeleteStream_told task')) fun _ =>
        .pure fun _ hs => hs
    | error err =>
      refine .ite (.bind (Q := fun _ s => Spent progressTotal bytes s.progress)
        (.call fun _ hs => hs.2) fun there => .ite (.throw fun _ hs => hs.good) ?_)
        (.throw fun _ hs => hs.2.good)
      exact .pure fun _ hs => hs.mono (Nat.le_add_right _ _)

theorem zipWriterAddEmptyDir_spent (hroom : Room progressTotal bytes) (writer : ArchiveWriter B)
    (inputDir path : PathName) :
    Triple (fun s => Spent progressTotal bytes s.progress)
      (zipWriterAddEmptyDir Z os handler fuel archive writer inputDir path)
      (fun _ s => Spent progressTotal bytes s.progress)
      (fun _ s => Good progressTotal s.progress) := by
  refine .bind (spent_of_keeps (liftStatus_keeps _)) fun _ => ?_
  refine .bind (spent_of_keeps (liftStatus_keeps _)) fun newPath => ?_
  refine .bind (spent_of_keeps (status_keeps ?_)) fun ret => ?_
  · exact .bind (zipWriterEntryOpen_told (K := fun p => Spent progressTotal bytes p) writer.base
      .emptyDir _) fun opened => .bind (liftStatus_keeps opened) fun task =>
        zipWriterCloseStream_told writer task false
  · refine .bind (Q := fun _ s => Spent progressTotal bytes s.progress) (.call fun s hs => ?_)
      fun cancelled => .ite (.throw fun _ hs => hs.good) (spent_of_keeps (liftStatus_keeps ret))
    have hnone : Spent progressTotal (bytes + 0)
        (zipWriterUpdateProgress handler 0 false s).2.progress :=
      zipWriterUpdateProgress_spent hroom hs
    exact hnone

/-! ## The walks -/

/-- What is read of one path of the queue. -/
def Snapshot.nodeBytes (fs : Snapshot) (path : PathName) : Nat :=
  if fs.isDir path then 0 else fs.readBytes path

theorem isDir_spent (still : Still os handler fs) (path : PathName) :
    Triple (fun s => Spent progressTotal bytes s.progress) (isDir (toldOs os) path)
      (fun dir s => dir = fs.isDir path ∧ Spent progressTotal bytes s.progress)
      (fun _ s => Good progressTotal s.progress) :=
  ((isDir_told (K := fun p => Spent progressTotal bytes p) path).beside
    fun _ _ _ h => still.isDir_ok h).weaken (fun _ hs => hs) (fun _ _ hs => hs)
      fun _ _ hs => hs.good

theorem traversalDir_spent (still : Still os handler fs) (queue : List PathName)
    (path : PathName) :
    Triple (fun s => Spent progressTotal bytes s.progress) (traversalDir (toldOs os) queue path)
      (fun queue' s => fs.queued queue path = .ok queue' ∧ Spent progressTotal bytes s.progress)
      (fun _ s => Good progressTotal s.progress) :=
  ((traversalDir_told (K := fun p => Spent progressTotal bytes p) queue path).beside
    fun _ _ _ h => still.traversalDir_ok h).weaken (fun _ hs => hs) (fun _ _ hs => hs)
      fun _ _ hs => hs.good

theorem zipWriterAddNode_spent (still : Still os handler fs)
    (hroom : Room progressTotal (bytes + fs.nodeBytes path)) (inputDir : PathName)
    (writer : ArchiveWriter B) (queue : List PathName) :
    Triple (fun s => Spent progressTotal bytes s.progress)
      (zipWriterAddNode Z os handler fuel archive inputDir writer path queue)
      (fun added s => (if fs.isDir path then fs.queued queue path = .ok added.2
          else added.2 = queue) ∧
        Spent progressTotal (bytes + fs.nodeBytes path) s.progress)
      (fun _ s => Good progressTotal s.progress) := by
  refine .bind (isDir_spent still path) fun dir => .assume fun hdir => ?_
  rw [Snapshot.nodeBytes, ← hdir] at hroom ⊢
  cases dir with
  | true =>
    simp only [if_true, Nat.add_zero] at hroom ⊢
    refine .bind (Q := fun _ s => Spent progressTotal bytes s.progress)
      (.ite (zipWriterAddEmptyDir_spent hroom writer inputDir path) (.pure fun _ hs => hs))
      fun writer' => ?_
    exact .bind (traversalDir_spent still queue path) fun queue' => .pure fun _ hs => hs
  | false =>
    simp only [Bool.false_eq_true, if_false] at hroom ⊢
    refine .bind (spent_of_keeps (liftStatus_keeps _)) fun saveName => ?_
    refine .bind (zipWriterAddOneFile_spent still ⟨path, saveName⟩ hroom writer)
      fun writer' => .pure fun _ hs => ⟨rfl, hs⟩

/-- What a walk of the queue reads. -/
def Snapshot.walkBytes (fs : Snapshot) (turns : Nat) (queue : List PathName) : Nat :=
  ((fs.files (fun _ => true) turns queue).map fs.readBytes).sum

theorem Snapshot.walkBytes_directory {queue queue' : List PathName} (hdir : fs.isDir path = true)
    (hqueue : fs.queued queue path = .ok queue') (turns : Nat) :
    fs.walkBytes (turns + 1) (path :: queue) = fs.walkBytes turns queue' := by
  rw [walkBytes, files, if_pos hdir, if_pos rfl, hqueue]
  rfl

theorem Snapshot.walkBytes_file (hdir : fs.isDir path = false) (turns : Nat)
    (queue : List PathName) : fs.walkBytes (turns + 1) (path :: queue) =
      fs.readBytes path + fs.walkBytes turns queue := by
  rw [walkBytes, files, if_neg (by rw [hdir]; exact Bool.false_ne_true), List.map_cons,
    List.sum_cons]
  rfl

theorem zipWriterAddQueue_spent (still : Still os handler fs) (inputDir : PathName)
    (turns : Nat) : ∀ {bytes : Nat} (writer : ArchiveWriter B) (queue : List PathName),
      Room progressTotal (bytes + fs.walkBytes turns queue) →
      Triple (fun s => Spent progressTotal bytes s.progress)
        (zipWriterAddQueue Z os handler fuel archive inputDir turns writer queue)
        (fun _ s => Spent progressTotal (bytes + fs.walkBytes turns queue) s.progress)
        (fun _ s => Good progressTotal s.progress) := by
  induction turns with
  | zero =>
    intro bytes writer queue hroom
    cases queue with
    | nil => exact .pure fun _ hs => hs
    | cons path queue => exact .throw fun _ hs => hs.good
  | succ turns ih =>
    intro bytes writer queue hroom
    cases queue with
    | nil => exact .pure fun _ hs => hs
    | cons path queue =>
      have hnode : fs.nodeBytes path ≤ fs.walkBytes (turns + 1) (path :: queue) := by
        rw [Snapshot.nodeBytes]
        cases hdir : fs.isDir path with
        | true => exact Nat.zero_le _
        | false =>
          rw [Snapshot.walkBytes_file hdir]
          exact Nat.le_add_right _ _
      refine .bind (zipWriterAddNode_spent still (hroom.mono (Nat.add_le_add_left hnode bytes))
        inputDir writer queue) fun added => .assume fun hadded => ?_
      have hsplit : bytes + fs.walkBytes (turns + 1) (path :: queue) =
          bytes + fs.nodeBytes path + fs.walkBytes turns added.2 := by
        rw [Snapshot.nodeBytes]
        cases hdir : fs.isDir path with
        | true =>
          rw [hdir, if_pos rfl] at hadded
          rw [Snapshot.walkBytes_directory hdir hadded, if_pos rfl, Nat.add_zero]
        | false =>
          rw [hdir, if_neg Bool.false_ne_true] at hadded
          rw [Snapshot.walkBytes_file hdir, if_neg Bool.false_ne_true, hadded, Nat.add_assoc]
      rw [hsplit] at hroom ⊢
      exact ih added.1 added.2 hroom

theorem Snapshot.read_cons (infile : PathName) (infiles : List PathName) :
    fs.read fuel (infile :: infiles) = fs.walkBytes fuel [infile] + fs.read fuel infiles := by
  rw [read, List.flatMap_cons, List.map_append, List.sum_append]
  rfl

theorem zipWriterAddFiles_spent (still : Still os handler fs) (infiles : List PathName) :
    ∀ {bytes : Nat} (writer : ArchiveWriter B),
      Room progressTotal (bytes + fs.read fuel infiles) →
      Triple (fun s => Spent progressTotal bytes s.progress)
        (zipWriterAddFiles Z os handler fuel archive writer infiles)
        (fun _ s => Good progressTotal s.progress) (fun _ s => Good progressTotal s.progress) := by
  induction infiles with
  | nil => exact fun writer hroom => .pure fun _ hs => hs.good
  | cons infile infiles ih =>
    intro bytes writer hroom
    rw [Snapshot.read_cons, ← Nat.add_assoc] at hroom
    exact .bind (zipWriterAddQueue_spent still _ fuel writer [infile]
      (hroom.mono (Nat.le_add_right _ _))) fun writer' => ih writer' hroom

/-! ## The total -/

/-- What `GetDirSize` adds up in a queue. -/
def Snapshot.queueSize (fs : Snapshot) (turns : Nat) (queue : List PathName) : Nat :=
  ((fs.files isValidFolderEnd turns queue).map fun path => (fs.size path).toNat).sum

theorem getDirSize_measured (still : Still os handler fs) {K : WriteProgress → Prop}
    (turns : Nat) : ∀ (totalSize : UInt64) (queue : List PathName),
      Triple (fun s => K s.progress) (getDirSize os turns totalSize queue)
        (fun total s => total = totalSize + UInt64.ofNat (fs.queueSize turns queue) ∧ K s.progress)
        (fun _ s => K s.progress) := by
  induction turns with
  | zero =>
    intro totalSize queue
    cases queue with
    | nil => exact .pure fun _ hs => ⟨(UInt64.add_zero totalSize).symm, hs⟩
    | cons path queue => exact .throw fun _ hs => hs
  | succ turns ih =>
    intro totalSize queue
    cases queue with
    | nil => exact .pure fun _ hs => ⟨(UInt64.add_zero totalSize).symm, hs⟩
    | cons path queue =>
      refine .bind ((isDir_told path).beside fun _ _ _ h => still.isDir_ok h) fun dir =>
        .assume fun hdir => ?_
      rw [Snapshot.queueSize, Snapshot.files, ← hdir]
      cases dir with
      | true =>
        rw [if_pos rfl, if_pos rfl]
        by_cases hvalid : isValidFolderEnd path = true
        · rw [if_pos hvalid, if_pos hvalid]
          refine .bind ((traversalDir_told queue path).beside
            fun _ _ _ h => still.traversalDir_ok h) fun queue' => .assume fun hqueue => ?_
          rw [hqueue]
          exact ih totalSize queue'
        · rw [if_neg hvalid, if_neg hvalid]
          exact ih totalSize queue
      | false =>
        rw [if_neg Bool.false_ne_true, if_neg Bool.false_ne_true, List.map_cons, List.sum_cons]
        refine .bind (Q := fun (st : Option FileStat) s => st = fs.stat path ∧ K s.progress)
          (.call fun s hs => ⟨still.shows path s.world, hs⟩) fun st => .assume fun hst => ?_
        subst hst
        refine (ih (totalSize + fs.size path) queue).weaken (fun _ hs => hs) (fun total s hs => ?_)
          fun _ _ hs => hs
        refine ⟨?_, hs.2⟩
        rw [hs.1, UInt64.ofNat_add, UInt64.ofNat_toNat, UInt64.add_assoc]
        rfl

theorem Snapshot.measured_cons (infile : PathName) (infiles : List PathName) :
    fs.measured fuel (infile :: infiles) =
      fs.queueSize fuel [infile] + fs.measured fuel infiles := by
  rw [measured, List.flatMap_cons, List.map_append, List.sum_append]
  rfl

theorem measureInputs_measured (still : Still os handler fs) {K : WriteProgress → Prop}
    (infiles : List PathName) : ∀ progressTotal : UInt64,
      Triple (fun s => K s.progress) (measureInputs os fuel progressTotal infiles)
        (fun total s => total = progressTotal + UInt64.ofNat (fs.measured fuel infiles) ∧
          K s.progress)
        (fun _ s => K s.progress) := by
  induction infiles with
  | nil => exact fun progressTotal => .pure fun _ hs => ⟨(UInt64.add_zero progressTotal).symm, hs⟩
  | cons infile infiles ih =>
    intro progressTotal
    refine .bind (status_triple (getDirSize_measured still fuel progressTotal [infile]))
      fun ret => ?_
    cases ret with
    | error err => exact .throw fun _ hs => hs
    | ok total =>
      refine .assume fun htotal => (ih total).weaken (fun _ hs => hs) (fun last s hs => ?_)
        fun _ _ hs => hs
      refine ⟨?_, hs.2⟩
      rw [hs.1, htotal, UInt64.add_assoc, ← UInt64.ofNat_add, Snapshot.measured_cons]

theorem initWriterProgress_spent (still : Still os handler fs) (infiles : List PathName) :
    Triple (fun s => s.progress.told = []) (initWriterProgress os fuel infiles)
      (fun _ s => Spent (UInt64.ofNat (fs.measured fuel infiles)) 0 s.progress)
      (fun _ s => s.progress.told = []) := by
  refine .bind (Q := fun _ s => s.progress.progressUpdated = 0 ∧ s.progress.told = [])
    (.call fun _ _ => ⟨rfl, rfl⟩) fun _ => ?_
  refine .bind ((measureInputs_measured still
    (K := fun p => p.progressUpdated = 0 ∧ p.told = []) infiles 0).weaken (fun _ hs => hs)
      (fun _ _ hs => hs) fun _ _ hs => hs.2) fun total => .assume fun htotal => .call ?_
  rintro s ⟨hupdated, htold⟩
  refine ⟨⟨htotal.trans (UInt64.zero_add _), ?_, ?_⟩, ?_⟩
  · rw [htold]
    exact ⟨nofun, .nil⟩
  · rw [htold]
    nofun
  · exact Nat.le_of_eq (congrArg UInt64.toNat hupdated)

/-! ## The run -/

/-- Over a file system that stays as it is, the percentages of a call stay between 0 and 100 and
never decrease, if what is read of the inputs is within a hundred percent of what is measured. -/
theorem zipWriterAddFunc_steady (still : Still os handler fs) {infiles : List PathName}
    (hcovers : fs.Covers fuel infiles) (writer : ArchiveWriter B) {s : Told W}
    (hs : s.progress.told = []) :
    Steady (Program.after (zipWriterAddFunc Z os handler fuel archive writer infiles)
      s).progress.told := by
  have hnothing : ∀ {s : Told W}, s.progress.told = [] → Steady s.progress.told := by
    intro s htold
    rw [htold]
    exact ⟨nofun, .nil⟩
  have hroom : Room (UInt64.ofNat (fs.measured fuel infiles)) (0 + fs.read fuel infiles) := by
    rw [Nat.zero_add]
    exact hcovers
  have hrun : Triple (fun s => s.progress.told = [])
      (zipWriterAddFunc Z os handler fuel archive writer infiles)
      (fun _ s => Steady s.progress.told) (fun _ s => Steady s.progress.told) := by
    refine .bind ((checkInputs_told (K := fun p => p.told = []) infiles).weaken (fun _ hs => hs)
      (fun _ _ hs => hs) fun _ _ hs => hnothing hs) fun _ => ?_
    refine .bind ((initWriterProgress_spent still infiles).weaken (fun _ hs => hs)
      (fun _ _ hs => hs) fun _ _ hs => hnothing hs) fun _ => ?_
    refine .bind ((zipWriterAddFiles_spent still infiles writer hroom).weaken (fun _ hs => hs)
      (fun _ _ hs => hs) fun _ _ hs => hs.steady) fun writer' => ?_
    exact .bind (Q := fun _ s => Steady s.progress.told)
      (.call fun _ hs => zipWriterUpdateProgress_over hs.steady) fun cancelled =>
        .ite (.throw fun _ hs => hs) (.pure fun _ hs => hs)
  have hcase := hrun s hs
  rw [Program.after]
  split
  · next heq =>
    rw [heq] at hcase
    exact hcase
  · next heq =>
    rw [heq] at hcase
    exact hcase

/-! ## Inputs that both walks go into -/

end

/-! ### The current directory beside its file -/

/-- What `lettersFile` shows. -/
def lettersSnapshot : Snapshot where
  stat path :=
    if path = [dot] then some ⟨true, 0⟩
    else if path ∈ lettersPaths then some ⟨false, 21⟩
    else none
  names path := if path = [dot] then some [[0x66]] else none
  isLink _ := false

/-- A handler that listens. -/
def listens : ProgressHandler (List UInt8) := some fun _ w => (false, w)

def lettersStill : Still lettersFile listens lettersSnapshot where
  toUnchanging := lettersFile_unchanging
  shows _ _ := rfl
  readdir _ _ := rfl
  isLink _ _ := rfl
  told _ hhandler _ _ _ := by
    cases hhandler
    exact Nat.le_refl _

/-- The file by itself. -/
theorem zipWriterAddFunc_steady_lettersFile :
    Steady (Program.after (zipWriterAddFunc lettersDeflate lettersFile listens 3 ⟨8, 6⟩
      { base := ByteFile.mk [] 0 } [[0x66]]) ⟨[], {}⟩).progress.told :=
  zipWriterAddFunc_steady lettersStill (by decide +kernel) _ rfl

/-- Behind the current directory, whose file was not measured but is read, the handler is told 100,
200 and 100. -/
theorem zipWriterAddFunc_not_steady : Nonempty (Still lettersFile listens lettersSnapshot) ∧
    ∃ told, (Program.after (zipWriterAddFunc lettersDeflate lettersFile listens 3 ⟨8, 6⟩
      { base := ByteFile.mk [] 0 } [[dot], [0x66]]) ⟨[], {}⟩).progress.told = told ∧
      told = [100, 200, 100] ∧ ¬ Steady told := by
  have htold : (Program.after (zipWriterAddFunc lettersDeflate lettersFile listens 3 ⟨8, 6⟩
      { base := ByteFile.mk [] 0 } [[dot], [0x66]]) ⟨[], {}⟩).progress.told = [100, 200, 100] := by
    decide +kernel
  refine ⟨⟨lettersStill⟩, _, htold, rfl, fun hsteady => ?_⟩
  exact absurd (hsteady.1 200 (by decide)).2 (by decide)

end FileApi.Compress.Zip.Out.Progress
