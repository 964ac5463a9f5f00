import Mathlib.Data.List.Forall2
import FileApi.Compress.Proofs.Buffer
import FileApi.Compress.Zip.Proofs.EntryRecords
import FileApi.Compress.Zip.Proofs.OutBase

/-!
# What the archive has of the inputs

Every directory and every regular file below an input gets an entry, as long as the directories on
the way to it can be opened. The queue of a walk is followed path by path: one step adds the entry
of its path and queues what is in it, and what is added stays.
-/

namespace FileApi.Compress.Zip.Out

open Program Zlib

/-! ## The tree of the inputs -/

/-- What is at a path, links not followed. -/
inductive SourceKind where
  | directory | file | link
  deriving DecidableEq

/-- A tree of files as it is during the run. -/
structure SourceTree where
  kind : PathName → Option SourceKind
  names : PathName → List PathName

/-- The system shows the tree: directories and files are where they are, whatever else fails. -/
structure SourceOs.Shows {W H : Type} (os : SourceOs W H) (tree : SourceTree) : Prop where
  directory : ∀ path w, tree.kind path = some .directory →
    ∃ size, (os.stat path w).1 = some ⟨true, size⟩
  file : ∀ path w, tree.kind path = some .file → ∃ size, (os.stat path w).1 = some ⟨false, size⟩
  access : ∀ path w, tree.kind path = some .file → (os.access path w).1 = true

/-- The files keep their lengths: what `stat` says about a path (nothing for a path that is not
there), and how much of an open file is left to be read. -/
structure SourceOs.Unchanging {W H : Type} (os : SourceOs W H) where
  size : PathName → UInt64
  left : H → W → Nat
  stat : ∀ path w, ((os.stat path w).1.map FileStat.size).getD 0 = size path
  fopen : ∀ path resolved v w handle, (os.realpath path v).1 = .ok resolved →
    (os.fopen resolved w).1 = .ok handle →
      left handle (os.fopen resolved w).2 ≤ (size path).toNat
  fread : ∀ handle n w data, (os.fread handle n w).1 = .ok data →
    data.length ≤ n ∧ left handle (os.fread handle n w).2 + data.length ≤ left handle w
  lstat : ∀ handle path w, left handle (os.lstat path w).2 ≤ left handle w
  cancels : ∀ handle w, left handle (os.cancels w).2 ≤ left handle w

section

variable {B : Type} [StreamOps B] {W H : Type} {D : Decoder} {Z : Deflate D} {os : SourceOs W H}
  {fuel : Nat} {archive : WriteMethod} {tree : SourceTree}

/-- The directory can be opened at any time, and has the names of the tree. -/
def Opens (os : SourceOs W H) (tree : SourceTree) (dir : PathName) : Prop :=
  ∀ w, (os.readdir dir w).1 = some (tree.names dir)

/-- The path `TraversalDir` makes of a name. -/
def childPath (dir name : PathName) : Except ArchiveErr PathName := do
  let fullPath ← pathCombine [] dir
  pathCombine fullPath name

/-- A path is at or below another one: names behind each other, through directories that can be
opened and not through links. -/
inductive Below (os : SourceOs W H) (tree : SourceTree) : PathName → PathName → Prop where
  | refl (path : PathName) : Below os tree path path
  | step {dir name child path : PathName} (directory : tree.kind dir = some .directory)
      (opens : Opens os tree dir) (mem : name ∈ tree.names dir) (ne_dot : name ≠ [dot])
      (ne_dotdot : name ≠ [dot, dot]) (combined : childPath dir name = .ok child)
      (below : Below os tree child path) : Below os tree dir path

/-! ## One entry -/

variable {w w' : W}

theorem isDir_ok {path : PathName} {b : Bool} (h : isDir os path w = .ok b w') :
    b = ((os.stat path w).1.map FileStat.isDirectory).getD false := by
  obtain ⟨st, mid, hcall, hpure⟩ := Program.bind_eq_ok.mp h
  cases hcall
  exact (Program.pure_eq_ok.mp hpure).1.symm

theorem zipEntryWriteLocalHeader_filename {stream stream' : B} {e e' : ZipWriterEntryInfo}
    (h : zipEntryWriteLocalHeader stream e = .ok (stream', e')) : e'.filename = e.filename := by
  obtain ⟨headed, -, h⟩ := FileApi.bind_eq_ok.mp h
  obtain ⟨named, -, h⟩ := FileApi.bind_eq_ok.mp h
  split at h
  · obtain ⟨extended, -, h⟩ := FileApi.bind_eq_ok.mp h
    cases h
    rfl
  · cases h
    rfl

variable {task : WriterTask Z.State B H}

theorem zipWriterEntryOpen_filename {base : B} {fileType : FileType} {node : FilePathNode}
    (h : zipWriterEntryOpen Z os archive base fileType node w = .ok (.ok task) w') :
    task.entryInfo.filename.bytes = cstr node.saveName ∧ cstr node.saveName ≠ [] := by
  obtain ⟨st, mid, next, -, -, -, hne, hheader, -⟩ := zipWriterEntryOpen_ok h
  exact ⟨congrArg CString.bytes (zipEntryWriteLocalHeader_filename hheader), hne⟩

theorem fileStreamOpenRead_left {path : PathName} {handle : H}
    (h : fileStreamOpenRead os path w = .ok (.ok handle) w') (U : SourceOs.Unchanging os) :
    U.left handle w' ≤ (U.size path).toNat := by
  obtain ⟨resolved, mid, hcall, h⟩ := Program.bind_eq_ok.mp h
  obtain ⟨hresolved, hmid⟩ := EStateM.Result.ok.inj hcall
  cases resolved with
  | error errno => cases (Program.pure_eq_ok.mp h).1
  | ok resolved =>
    obtain ⟨opened, last, hcall, h⟩ := Program.bind_eq_ok.mp h
    obtain ⟨hopened, hlast⟩ := EStateM.Result.ok.inj hcall
    cases opened with
    | error errno => cases (Program.pure_eq_ok.mp h).1
    | ok other =>
      obtain ⟨hhandle, hw⟩ := Program.pure_eq_ok.mp h
      cases hhandle
      rw [← hw, ← hlast]
      exact U.fopen path resolved w mid handle hresolved hopened

theorem zipWriterEntryOpen_left {base : B} {fileType : FileType} {node : FilePathNode}
    (h : zipWriterEntryOpen Z os archive base fileType node w = .ok (.ok task) w')
    (U : SourceOs.Unchanging os) (handle : H) (hhandle : task.extractStream = some handle) :
    U.left handle w' ≤ (U.size node.filePath).toNat := by
  obtain ⟨st, mid, next, -, hsource, -⟩ := zipWriterEntryOpen_ok h
  cases fileType with
  | emptyDir =>
    have hnone := Except.ok.inj (Program.pure_eq_ok.mp hsource).1
    rw [hhandle] at hnone
    cases hnone
  | file =>
    obtain ⟨opened, there, hopened, hsource⟩ := Program.bind_eq_ok.mp hsource
    obtain ⟨hmap, rfl⟩ := Program.pure_eq_ok.mp hsource
    obtain ⟨other, rfl, hother⟩ := map_eq_ok.mp hmap
    rw [hhandle] at hother
    cases hother
    exact fileStreamOpenRead_left hopened U

theorem WriterTask.write_entryInfo {data : List UInt8} {task task' : WriterTask Z.State B H}
    (h : task.write Z fuel data w = .ok task' w') :
    task'.entryInfo.filename = task.entryInfo.filename := by
  obtain ⟨result, -, h⟩ := liftFuel_bind_eq_ok.mp h
  obtain ⟨stream, -, h⟩ := liftStatus_bind_eq_ok.mp h
  cases (Program.pure_eq_ok.mp h).1
  rfl

theorem zipWriterAddData_filename {path : PathName} {task task' : WriterTask Z.State B H}
    (h : zipWriterAddData Z os fuel path task w = .ok task' w') :
    task'.entryInfo.filename = task.entryInfo.filename :=
  zipWriterAddData_induct (C := fun other => other.entryInfo.filename = task.entryInfo.filename)
    (fun hsame hwrite => (WriterTask.write_entryInfo hwrite).trans hsame) rfl h

/-- The writer has an entry of this name. -/
def HasEntry (writer : ArchiveWriter B) (name : PathName) : Prop :=
  ∃ e ∈ writer.entries, e.filename.bytes = cstr name

/-- The buffered central directory is the records of the entries, in order. -/
structure Buffered (writer : ArchiveWriter B) : Prop where
  atEnd : writer.cdMemStream.AtEnd
  data : writer.cdMemStream.data = writer.entries.flatMap centralRecord

/-- Nothing that was added is taken away. -/
structure Grows (writer writer' : ArchiveWriter B) : Prop where
  entries : writer.entries <+: writer'.entries
  buffered : Buffered writer → Buffered writer'

omit [StreamOps B] in
theorem Grows.refl (writer : ArchiveWriter B) : Grows writer writer :=
  ⟨List.prefix_refl _, id⟩

omit [StreamOps B] in
theorem Grows.trans {writer mid last : ArchiveWriter B} (h : Grows writer mid)
    (h' : Grows mid last) : Grows writer last :=
  ⟨h.entries.trans h'.entries, fun hbuffered => h'.buffered (h.buffered hbuffered)⟩

omit [StreamOps B] in
theorem HasEntry.grows {writer writer' : ArchiveWriter B} {name : PathName}
    (h : HasEntry writer name) (hgrows : Grows writer writer') : HasEntry writer' name := by
  obtain ⟨e, hmem, hname⟩ := h
  exact ⟨e, hgrows.entries.subset hmem, hname⟩

/-- One entry was added, behind the others. -/
structure AddsEntry (writer writer' : ArchiveWriter B) (name : PathName) : Prop where
  grows : Grows writer writer'
  entries : ∃ e, writer'.entries = writer.entries ++ [e] ∧ e.filename.bytes = cstr name
  name_ne : cstr name ≠ []

omit [StreamOps B] in
theorem AddsEntry.hasEntry {writer writer' : ArchiveWriter B} {name : PathName}
    (h : AddsEntry writer writer' name) : HasEntry writer' name := by
  obtain ⟨e, hentries, hname⟩ := h.entries
  refine ⟨e, ?_, hname⟩
  rw [hentries]
  exact List.mem_append_right _ (List.mem_singleton.mpr rfl)

theorem zipWriterCloseStream_added {writer writer' : ArchiveWriter B} {name : PathName}
    {needCalSize : Bool} (hnamed : task.entryInfo.filename.bytes = cstr name ∧ cstr name ≠ [])
    (h : zipWriterCloseStream Z fuel writer task needCalSize w = .ok writer' w') :
    AddsEntry writer writer' name := by
  obtain ⟨hname, hne⟩ := hnamed
  obtain ⟨result, mid, -, h⟩ := Program.bind_eq_ok.mp h
  obtain ⟨stream, -, h⟩ := liftStatus_bind_eq_ok.mp h
  obtain ⟨base, -, h⟩ := liftStatus_bind_eq_ok.mp h
  obtain ⟨cdMemStream, hrecord, h⟩ := liftStatus_bind_eq_ok.mp h
  cases (Program.pure_eq_ok.mp h).1
  refine ⟨⟨List.prefix_append _ _, ?_⟩, ⟨_, rfl, ?_⟩, hne⟩
  · rintro ⟨hatEnd, hdata⟩
    rw [zipEntryWriteCdHeader_eq hatEnd] at hrecord
    obtain ⟨-, rfl⟩ := streamWrite_ok hrecord
    refine ⟨hatEnd.write _, ?_⟩
    dsimp only
    rw [ByteFile.write_atEnd hatEnd, hdata, List.flatMap_append, List.flatMap_singleton]
  · rw [← hname]
    cases needCalSize with
    | true => rfl
    | false => rfl

theorem zipWriterAddOneFile_added {writer writer' : ArchiveWriter B} {node : FilePathNode}
    (h : zipWriterAddOneFile Z os fuel archive writer node w = .ok writer' w') :
    AddsEntry writer writer' node.saveName ∨
      (writer' = writer ∧ ∃ mid, (os.access node.filePath mid).1 = false) := by
  refine (zipWriterAddOneFile_ok h).imp_left ?_
  rintro ⟨task, added, opened, next, last, hopen, hadd, hclose⟩
  refine zipWriterCloseStream_added ?_ hclose
  rw [zipWriterAddData_filename hadd]
  exact zipWriterEntryOpen_filename hopen

/-- The entry of a directory has a slash at the end. -/
def directoryName (inputDir path : PathName) : PathName :=
  (if path.getLast? = some slash then path else path ++ [slash]).drop inputDir.length

theorem getSaveName_ok {path inputDir saveName : PathName}
    (h : getSaveName path inputDir = .ok saveName) :
    inputDir <+: path ∧ saveName = path.drop inputDir.length := by
  rw [getSaveName] at h
  split at h
  · next hfront =>
    cases h
    exact ⟨hfront, rfl⟩
  · cases h

variable {inputDir path : PathName}

theorem zipWriterAddEmptyDir_added {writer writer' : ArchiveWriter B}
    (h : zipWriterAddEmptyDir Z os fuel archive writer inputDir path w = .ok writer' w') :
    inputDir <+: path ∧ AddsEntry writer writer' (directoryName inputDir path) := by
  obtain ⟨saveName, newPath, task, opened, closed, hsave, happend, hopen, hclose⟩ :=
    zipWriterAddEmptyDir_ok h
  have hname : newPath.drop inputDir.length = directoryName inputDir path := by
    rw [pathAppendSlash] at happend
    split at happend
    · cases happend
    · cases happend
      rfl
  rw [hname] at hopen
  exact ⟨(getSaveName_ok hsave).1, zipWriterCloseStream_added
    (zipWriterEntryOpen_filename hopen) hclose⟩

/-! ## One path of the queue -/

/-- The names `TraversalDir` takes. -/
def goesDown (name : PathName) : Bool := name ≠ [dot] ∧ name ≠ [dot, dot]

theorem traversalNames_ok {dir : PathName} (names : List PathName) :
    ∀ {queue queue' : List PathName}, traversalNames dir names queue = .ok queue' →
      ∃ children, queue' = queue ++ children ∧
        List.Forall₂ (fun name child => childPath dir name = .ok child)
          (names.filter goesDown) children := by
  induction names with
  | nil =>
    rintro queue _ ⟨⟩
    exact ⟨[], (List.append_nil _).symm, .nil⟩
  | cons name names ih =>
    intro queue queue' h
    rw [traversalNames] at h
    by_cases hdots : name = [dot] ∨ name = [dot, dot]
    · rw [if_pos hdots] at h
      have hskip : goesDown name = false := by
        rw [goesDown, decide_eq_false_iff_not, not_and_or, not_not, not_not]
        exact hdots
      rw [List.filter_cons_of_neg (by rw [hskip]; exact Bool.false_ne_true)]
      exact ih h
    · rw [if_neg hdots] at h
      have htake : goesDown name = true := decide_eq_true (not_or.mp hdots)
      rw [List.filter_cons_of_pos htake]
      obtain ⟨full, hfull, h⟩ := FileApi.bind_eq_ok.mp h
      obtain ⟨path, hpath, h⟩ := FileApi.bind_eq_ok.mp h
      obtain ⟨children, rfl, hchildren⟩ := ih h
      refine ⟨path :: children, List.append_assoc _ _ _, .cons ?_ hchildren⟩
      rw [childPath, hfull]
      exact hpath

/-- What `TraversalDir` finds in a directory. -/
def ChildrenAt (os : SourceOs W H) (dir : PathName) (children : List PathName) (w : W) : Prop :=
  match (os.readdir dir w).1 with
  | none => children = []
  | some names => List.Forall₂ (fun name child => childPath dir name = .ok child)
      (names.filter goesDown) children

theorem traversalDir_ok {dir : PathName} {queue queue' : List PathName}
    (h : traversalDir os queue dir w = .ok queue' w') :
    ∃ children, queue' = queue ++ children ∧ ChildrenAt os dir children w := by
  obtain ⟨opened, mid, hcall, h⟩ := Program.bind_eq_ok.mp h
  cases hcall
  cases hread : (os.readdir dir w).1 with
  | none =>
    rw [hread] at h
    rw [← (Program.pure_eq_ok.mp h).1]
    refine ⟨[], (List.append_nil _).symm, ?_⟩
    rw [ChildrenAt, hread]
  | some names =>
    rw [hread] at h
    obtain ⟨children, hqueue, hchildren⟩ := traversalNames_ok names (liftStatus_eq_ok.mp h).1
    refine ⟨children, hqueue, ?_⟩
    rw [ChildrenAt, hread]
    exact hchildren

theorem ChildrenAt.mem {dir name : PathName} {children : List PathName} {w : W}
    (h : ChildrenAt os dir children w) (hopens : Opens os tree dir) (hmem : name ∈ tree.names dir)
    (hdot : name ≠ [dot]) (hdotdot : name ≠ [dot, dot]) :
    ∃ child ∈ children, childPath dir name = .ok child := by
  rw [ChildrenAt, hopens w] at h
  have hname : name ∈ (tree.names dir).filter goesDown :=
    List.mem_filter.mpr ⟨hmem, decide_eq_true ⟨hdot, hdotdot⟩⟩
  obtain ⟨i, hi, rfl⟩ := List.getElem_of_mem hname
  have hlength := h.length_eq
  exact ⟨children[i], List.getElem_mem _, (List.forall₂_iff_get.mp h).2 i hi (hlength ▸ hi)⟩

/-- What the walk does with one path: the entry it adds and the paths it queues. -/
inductive NodeStep (os : SourceOs W H) (inputDir path : PathName) (w : W)
    (writer writer' : ArchiveWriter B) : List PathName → Prop where
  | directory {children : List PathName} {mid : W}
      (isDir : ((os.stat path w).1.map FileStat.isDirectory).getD false = true)
      (valid : isValidFolderEnd path = true) (inside : inputDir <+: path)
      (adds : AddsEntry writer writer' (directoryName inputDir path))
      (found : ChildrenAt os path children mid) :
      NodeStep os inputDir path w writer writer' children
  | dots {children : List PathName} {mid : W}
      (isDir : ((os.stat path w).1.map FileStat.isDirectory).getD false = true)
      (valid : isValidFolderEnd path = false) (same : writer' = writer)
      (found : ChildrenAt os path children mid) :
      NodeStep os inputDir path w writer writer' children
  | file (notDir : ((os.stat path w).1.map FileStat.isDirectory).getD false = false)
      (inside : inputDir <+: path)
      (adds : AddsEntry writer writer' (path.drop inputDir.length)) :
      NodeStep os inputDir path w writer writer' []
  | gone {mid : W} (notDir : ((os.stat path w).1.map FileStat.isDirectory).getD false = false)
      (same : writer' = writer) (gone : (os.access path mid).1 = false) :
      NodeStep os inputDir path w writer writer' []

theorem zipWriterAddNode_step {writer writer' : ArchiveWriter B} {queue queue' : List PathName}
    (h : zipWriterAddNode Z os fuel archive inputDir writer path queue w = .ok (writer', queue') w') :
    ∃ children, queue' = queue ++ children ∧
      NodeStep os inputDir path w writer writer' children := by
  obtain ⟨dir, mid, hdir, h⟩ := zipWriterAddNode_ok h
  have hstat := (isDir_ok hdir).symm
  cases dir with
  | true =>
    obtain ⟨⟨added, hadd⟩, next, last, hqueue⟩ := h
    obtain ⟨children, rfl, hchildren⟩ := traversalDir_ok hqueue
    refine ⟨children, rfl, ?_⟩
    split at hadd
    · next hvalid =>
      obtain ⟨hinside, hadds⟩ := zipWriterAddEmptyDir_added hadd
      exact .directory hstat hvalid hinside hadds hchildren
    · next hvalid => exact .dots hstat (by simpa using hvalid) hadd hchildren
  | false =>
    obtain ⟨rfl, saveName, last, hsave, hadd⟩ := h
    obtain ⟨hinside, rfl⟩ := getSaveName_ok hsave
    refine ⟨[], (List.append_nil _).symm, ?_⟩
    rcases zipWriterAddOneFile_added hadd with hadds | ⟨hsame, gone, hgone⟩
    · exact .file hstat hinside hadds
    · exact .gone hstat hsame hgone

/-- The entry a path of the tree should have. -/
structure Covered (tree : SourceTree) (inputDir : PathName) (writer : ArchiveWriter B)
    (path : PathName) : Prop where
  directory : tree.kind path = some .directory → isValidFolderEnd path →
    HasEntry writer (directoryName inputDir path)
  file : tree.kind path = some .file → HasEntry writer (path.drop inputDir.length)

omit [StreamOps B] in
theorem Covered.grows {writer writer' : ArchiveWriter B} (h : Covered tree inputDir writer path)
    (hgrows : Grows writer writer') :
    Covered tree inputDir writer' path :=
  ⟨fun hkind hvalid => (h.directory hkind hvalid).grows hgrows,
    fun hkind => (h.file hkind).grows hgrows⟩

omit [StreamOps B] in
theorem NodeStep.grows {writer writer' : ArchiveWriter B} {children : List PathName} {w : W}
    (h : NodeStep os inputDir path w writer writer' children) : Grows writer writer' := by
  cases h with
  | directory isDir valid inside adds => exact adds.grows
  | dots isDir valid same =>
    rw [same]
    exact .refl _
  | file notDir inside adds => exact adds.grows
  | gone notDir same =>
    rw [same]
    exact .refl _

omit [StreamOps B] in
theorem NodeStep.covered (hshows : SourceOs.Shows os tree) {writer writer' : ArchiveWriter B}
    {children : List PathName} {w : W} (h : NodeStep os inputDir path w writer writer' children) :
    Covered tree inputDir writer' path ∧
      (tree.kind path = some .directory → Opens os tree path → ∀ name ∈ tree.names path,
        name ≠ [dot] → name ≠ [dot, dot] →
          ∃ child ∈ children, childPath path name = .ok child) := by
  have hfile : ((os.stat path w).1.map FileStat.isDirectory).getD false = true →
      tree.kind path ≠ some .file := by
    intro hdir hkind
    obtain ⟨size, hsize⟩ := hshows.file path w hkind
    rw [hsize] at hdir
    cases hdir
  have hdirectory : ((os.stat path w).1.map FileStat.isDirectory).getD false = false →
      tree.kind path ≠ some .directory := by
    intro hdir hkind
    obtain ⟨size, hsize⟩ := hshows.directory path w hkind
    rw [hsize] at hdir
    cases hdir
  cases h with
  | directory isDir valid inside adds found =>
    exact ⟨⟨fun _ _ => adds.hasEntry, fun hkind => absurd hkind (hfile isDir)⟩,
      fun _ hopens _ => found.mem hopens⟩
  | dots isDir valid same found =>
    refine ⟨⟨fun _ hvalid => ?_, fun hkind => absurd hkind (hfile isDir)⟩,
      fun _ hopens _ => found.mem hopens⟩
    rw [valid] at hvalid
    cases hvalid
  | file notDir inside adds =>
    exact ⟨⟨fun hkind => absurd hkind (hdirectory notDir), fun _ => adds.hasEntry⟩,
      fun hkind => absurd hkind (hdirectory notDir)⟩
  | @gone mid notDir same gone =>
    refine ⟨⟨fun hkind => absurd hkind (hdirectory notDir), fun hkind => ?_⟩,
      fun hkind => absurd hkind (hdirectory notDir)⟩
    rw [hshows.access path mid hkind] at gone
    cases gone

/-! ## The walk -/

theorem zipWriterAddQueue_ok (hshows : SourceOs.Shows os tree) {inputDir : PathName}
    (turns : Nat) : ∀ {writer writer' : ArchiveWriter B} {queue : List PathName} {w w' : W},
      zipWriterAddQueue Z os fuel archive inputDir turns writer queue w = .ok writer' w' →
      Grows writer writer' ∧ ∀ start ∈ queue, ∀ path, Below os tree start path →
        Covered tree inputDir writer' path := by
  induction turns with
  | zero =>
    intro writer writer' queue w w' h
    cases queue with
    | nil =>
      rw [(Program.pure_eq_ok.mp h).1]
      exact ⟨.refl _, nofun⟩
    | cons path queue => cases h
  | succ turns ih =>
    intro writer writer' queue w w' h
    cases queue with
    | nil =>
      rw [(Program.pure_eq_ok.mp h).1]
      exact ⟨.refl _, nofun⟩
    | cons path queue =>
      obtain ⟨⟨mid, queued⟩, next, hnode, h⟩ := Program.bind_eq_ok.mp h
      obtain ⟨children, rfl, hstep⟩ := zipWriterAddNode_step hnode
      obtain ⟨hcovered, hchildren⟩ := hstep.covered hshows
      obtain ⟨hrest, hqueued⟩ := ih h
      refine ⟨hstep.grows.trans hrest, fun start hmem other hbelow => ?_⟩
      rcases List.mem_cons.mp hmem with rfl | hmem
      · cases hbelow with
        | refl => exact hcovered.grows hrest
        | step directory opens mem ne_dot ne_dotdot combined below =>
          obtain ⟨child, hchild, hpath⟩ := hchildren directory opens _ mem ne_dot ne_dotdot
          rw [combined] at hpath
          cases hpath
          exact hqueued _ (List.mem_append_right _ hchild) _ below
      · exact hqueued start (List.mem_append_left _ hmem) other hbelow

theorem zipWriterAddFiles_ok (hshows : SourceOs.Shows os tree) (infiles : List PathName) :
    ∀ {writer writer' : ArchiveWriter B} {w w' : W},
      zipWriterAddFiles Z os fuel archive writer infiles w = .ok writer' w' →
      Grows writer writer' ∧ ∀ infile ∈ infiles, ∀ path, Below os tree infile path →
        Covered tree (getprefixOfInput infile) writer' path := by
  induction infiles with
  | nil =>
    intro writer writer' w w' h
    rw [(Program.pure_eq_ok.mp h).1]
    exact ⟨.refl _, nofun⟩
  | cons infile infiles ih =>
    intro writer writer' w w' h
    obtain ⟨mid, next, hone, h⟩ := Program.bind_eq_ok.mp h
    obtain ⟨hgrows, hcovered⟩ := zipWriterAddQueue_ok hshows fuel hone
    obtain ⟨hrest, hothers⟩ := ih h
    refine ⟨hgrows.trans hrest, fun start hmem path hbelow => ?_⟩
    rcases List.mem_cons.mp hmem with rfl | hmem
    · exact (hcovered start (List.mem_singleton.mpr rfl) path hbelow).grows hrest
    · exact hothers start hmem path hbelow

/-- Adding that succeeds has covered everything below the inputs that can be reached. -/
theorem zipWriterAddFunc_covered (hshows : SourceOs.Shows os tree) {base : B}
    {infiles : List PathName} {writer' : ArchiveWriter B} {w w' : W}
    (h : zipWriterAddFunc Z os fuel archive { base } infiles w = .ok writer' w') :
    Buffered writer' ∧ ∀ infile ∈ infiles, ∀ path, Below os tree infile path →
      Covered tree (getprefixOfInput infile) writer' path := by
  obtain ⟨mid, last, hfiles⟩ := zipWriterAddFunc_files h
  obtain ⟨hgrows, hcovered⟩ := zipWriterAddFiles_ok hshows infiles hfiles
  exact ⟨hgrows.buffered ⟨rfl, rfl⟩, hcovered⟩

end

/-! ### A directory that cannot be opened, and the current one -/

/-- A path is at or below another one, whether or not the directories can be opened. -/
inductive InTree (tree : SourceTree) : PathName → PathName → Prop where
  | refl (path : PathName) : InTree tree path path
  | step {dir name child path : PathName} (directory : tree.kind dir = some .directory)
      (mem : name ∈ tree.names dir) (ne_dot : name ≠ [dot]) (ne_dotdot : name ≠ [dot, dot])
      (combined : childPath dir name = .ok child) (below : InTree tree child path) :
      InTree tree dir path

/-- Every directory and every regular file at or below an input has an entry. -/
def OmitsNothing {B : Type} (tree : SourceTree) (infiles : List PathName)
    (writer : ArchiveWriter B) : Prop :=
  ∀ infile ∈ infiles, ∀ path, InTree tree infile path →
    (tree.kind path = some .directory →
      HasEntry writer (directoryName (getprefixOfInput infile) path)) ∧
    (tree.kind path = some .file → HasEntry writer (path.drop (getprefixOfInput infile).length))

/-- The current directory, which is empty otherwise, and two directories `d` and `e` that have a
file `f` each. -/
def closedTree : SourceTree where
  kind path :=
    if path ∈ [[dot], [0x64], [0x65]] then some .directory
    else if path ∈ [[0x64, slash, 0x66], [0x65, slash, 0x66]] then some .file
    else none
  names path := if path = [dot] then [] else [[0x66]]

/-- The directory `d` cannot be opened. -/
def closedDirectory : SourceOs Unit Unit where
  stat path w :=
    (if path ∈ [[dot], [0x64], [0x65]] then some ⟨true, 0⟩
      else if path ∈ [[0x64, slash, 0x66], [0x65, slash, 0x66]] then some ⟨false, 0⟩
      else none, w)
  lstat _ w := (none, w)
  readlink _ w := (none, w)
  access _ w := (true, w)
  readdir path w := (if path = [0x64] then none else some (closedTree.names path), w)
  realpath path w := (.ok path, w)
  fopen _ w := (.ok (), w)
  fread _ _ w := (.ok [], w)
  fclose _ w := (true, w)
  currentDosDateTime w := (0, w)
  cancels w := (false, w)

theorem closedDirectory_shows : SourceOs.Shows closedDirectory closedTree := by
  refine ⟨fun path w hkind => ⟨0, ?_⟩, fun path w hkind => ⟨0, ?_⟩, fun _ _ _ => rfl⟩
  · rw [closedTree] at hkind
    by_cases hdir : path ∈ [[dot], [0x64], [0x65]]
    · exact if_pos hdir
    · simp only [if_neg hdir] at hkind
      split at hkind <;> cases hkind
  · rw [closedTree] at hkind
    by_cases hdir : path ∈ [[dot], [0x64], [0x65]]
    · simp only [if_pos hdir] at hkind
      cases hkind
    · simp only [if_neg hdir] at hkind
      by_cases hfile : path ∈ [[0x64, slash, 0x66], [0x65, slash, 0x66]]
      · exact (if_neg hdir).trans (if_pos hfile)
      · rw [if_neg hfile] at hkind
        cases hkind

theorem closedDirectory_added :
    ∃ writer, zipWriterAddFunc lettersDeflate closedDirectory 3 ⟨0, 6⟩ { base := ByteFile.mk [] 0 }
      [[dot], [0x64], [0x65]] () = .ok writer () ∧
      writer.entries.map (·.filename.bytes) =
        [[0x64, slash], [0x65, slash], [0x65, slash, 0x66]] := by
  have hrun : (result (zipWriterAddFunc lettersDeflate closedDirectory 3 ⟨0, 6⟩
      { base := ByteFile.mk [] 0 } [[dot], [0x64], [0x65]]) ()).map
        (fun r => r.1.entries.map (·.filename.bytes)) =
          some [[0x64, slash], [0x65, slash], [0x65, slash, 0x66]] := by decide +kernel
  obtain ⟨⟨writer, w⟩, hresult, hentries⟩ := Option.map_eq_some_iff.mp hrun
  exact ⟨writer, result_eq_some.mp hresult, hentries⟩

/-- Neither the current directory nor the file in `d` has an entry. -/
theorem closedDirectory_not_omitsNothing :
    ∃ writer, zipWriterAddFunc lettersDeflate closedDirectory 3 ⟨0, 6⟩ { base := ByteFile.mk [] 0 }
      [[dot], [0x64], [0x65]] () = .ok writer () ∧
      SourceOs.Shows closedDirectory closedTree ∧
      ¬ HasEntry writer (directoryName [dot, slash] [dot]) ∧
      ¬ HasEntry writer [0x64, slash, 0x66] ∧
      ¬ OmitsNothing closedTree [[dot], [0x64], [0x65]] writer := by
  obtain ⟨writer, hrun, hentries⟩ := closedDirectory_added
  have hnot : ∀ name, cstr name ∉ [[0x64, slash], [0x65, slash], [0x65, slash, 0x66]] →
      ¬ HasEntry writer name := by
    rintro name hne ⟨e, hmem, hname⟩
    have hmem' := List.mem_map_of_mem (f := fun e => e.filename.bytes) hmem
    rw [hentries, hname] at hmem'
    exact hne hmem'
  have hfile : ¬ HasEntry writer [0x64, slash, 0x66] := hnot _ (by decide)
  refine ⟨writer, hrun, closedDirectory_shows, hnot _ (by decide), hfile, fun hall => hfile ?_⟩
  refine (hall [0x64] (by decide) [0x64, slash, 0x66] ?_).2 (by decide)
  exact .step rfl (List.mem_singleton.mpr rfl) (by decide) (by decide) rfl (.refl _)

/-- The directory that cannot be opened has its entry, and so has the file in the other one. -/
theorem zipWriterAddFunc_covered_closedDirectory :
    ∃ writer, zipWriterAddFunc lettersDeflate closedDirectory 3 ⟨0, 6⟩ { base := ByteFile.mk [] 0 }
      [[dot], [0x64], [0x65]] () = .ok writer () ∧
      Buffered writer ∧ Covered closedTree [] writer [0x64] ∧
      Covered closedTree [] writer [0x65, slash, 0x66] := by
  obtain ⟨writer, hrun, -⟩ := closedDirectory_added
  obtain ⟨hbuffered, hcovered⟩ := zipWriterAddFunc_covered closedDirectory_shows hrun
  refine ⟨writer, hrun, hbuffered, hcovered [0x64] (by decide) [0x64] (.refl _),
    hcovered [0x65] (by decide) [0x65, slash, 0x66] ?_⟩
  exact .step rfl (fun _ => rfl) (List.mem_singleton.mpr rfl) (by decide) (by decide) rfl (.refl _)

end FileApi.Compress.Zip.Out
