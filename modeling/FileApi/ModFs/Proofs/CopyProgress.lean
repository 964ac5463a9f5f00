import FileApi.Misc.Pool
import FileApi.ModFs.CopyProgress
import FileApi.ModFs.Proofs.CopyTree

/-!
# What the listener of a copy is told

The files that the notify thread has seen are different targets, and each was seen with no more than
the target can hold. So what is told is no more than the total, as long as no target was longer than
its source before.
-/

namespace FileApi.ModFs.CopyProgress

open Compress FileTree FileApi.ModFs.System Pool Machine

variable {sys : System} {v : FileVolume} {src src' dest name path : PathName} {S : List PathName}
  {isFile : Bool} {event : InotifyEvent}

/-! ## The total -/

/-- The targets of tasks, with the sizes of their sources. -/
def filesOf (isFile : Bool) (tasks : List CopyTask) : List (PathName × Nat) :=
  tasks.filterMap fun
    | .subDir _ => none
    | .file destPath name size => some (targetPath isFile destPath name, size)

theorem filesOf_append (isFile : Bool) (a b : List CopyTask) :
    filesOf isFile (a ++ b) = filesOf isFile a ++ filesOf isFile b := List.filterMap_append

@[simp] theorem filesOf_subDir (isFile : Bool) (destPath : PathName) (tasks : List CopyTask) :
    filesOf isFile (.subDir destPath :: tasks) = filesOf isFile tasks := rfl

@[simp] theorem filesOf_file (isFile : Bool) (destPath name : PathName) (size : Nat)
    (tasks : List CopyTask) : filesOf isFile (.file destPath name size :: tasks) =
      (targetPath isFile destPath name, size) :: filesOf isFile tasks := rfl

/-- `scandir` and `stat` do not fail. -/
structure SizesFound (sys : System) : Prop where
  scandir : ∀ path, sys.fails .scandir path = none
  stat : ∀ path, sys.fails .status path = none

theorem listed_directory (hfound : SizesFound sys) (hpath : sys.lookup v path = .there S)
    (hdir : v.tree S = some .directory) : sys.listed v path = System.entries v S := by
  rw [listed, scandir_directory (hfound.scandir path) hpath hdir]

/-- The loop of `GetDirSize` counts what the loop of `RecurCopyDir` copies. -/
theorem dirSizeLoop_eq (hfound : SizesFound sys) {getDirSize : PathName → Nat}
    {recurCopyDir : PathName → PathName → List CopyTask}
    (hrecur : ∀ {src src' S} dest, sys.lookup v src = .there S → sys.lookup v src' = .there S →
      v.tree S = some .directory →
      getDirSize src = total Prod.snd (filesOf isFile (recurCopyDir src' dest)))
    (hsrc : sys.lookup v src = .there S) (hsrc' : sys.lookup v src' = .there S)
    (hdir : v.tree S = some .directory) (size : Nat) {entries : List DirEntry}
    (hentries : ∀ entry ∈ entries, ∃ node, v.tree (entry.name :: S) = some node ∧
      entry.type = typeOf node) :
    dirSizeLoop sys v getDirSize src size entries =
      size + total Prod.snd (filesOf isFile (entryTasks sys v recurCopyDir src' dest entries)) := by
  induction entries generalizing size with
  | nil => rfl
  | cons entry entries ih =>
    have hrest := fun size => ih size fun other hmem => hentries other (List.mem_cons_of_mem _ hmem)
    obtain ⟨node, hnode, htype⟩ := hentries entry List.mem_cons_self
    have hname : PlainName entry.name := v.sound.named entry.name S (by
      show v.tree (entry.name :: S) ≠ none
      rw [hnode]
      nofun)
    rw [dirSizeLoop, entryTasks, filesOf_append, total_append, htype]
    cases node with
    | link route =>
      rw [typeOf]
      dsimp only
      rw [hrest]
      simp [filesOf]
    | directory =>
      have hchild := lookup_child_there hsrc hdir hname hnode nofun
      have hchild' := lookup_child_there hsrc' hdir hname hnode nofun
      rw [typeOf]
      dsimp only
      rw [hrest, hrecur (dest ++ slash :: entry.name) hchild hchild' hnode, filesOf_subDir]
      omega
    | file bytes =>
      have hchild := found_child hsrc hdir hname (by rw [hnode]; nofun)
      have hchild' := found_child hsrc' hdir hname (by rw [hnode]; nofun)
      have hsize : getFileSize sys v (src ++ slash :: entry.name) = .ok bytes.length := by
        rw [getFileSize, hfound.stat, hchild, hnode]
        rfl
      have hsource : sourceSize sys v (src' ++ slash :: entry.name) = bytes.length := by
        rw [sourceSize, hchild', hnode]
      rw [typeOf, hsize]
      dsimp only
      rw [hrest, filesOf_file, hsource, total_cons]
      simp only [filesOf, List.filterMap_nil, total_nil]
      omega

theorem getDirSize_eq (hfound : SizesFound sys) (isFile : Bool) (dest : PathName) (fuel : Nat)
    (hsrc : sys.lookup v src = .there S) (hsrc' : sys.lookup v src' = .there S)
    (hdir : v.tree S = some .directory) :
    getDirSize sys v fuel src = total Prod.snd (filesOf isFile (dirTasks sys v fuel src' dest)) := by
  induction fuel generalizing src src' dest S with
  | zero => rfl
  | succ fuel ih =>
    rw [getDirSize, dirTasks, listed_directory hfound hsrc hdir, listed_directory hfound hsrc' hdir,
      dirSizeLoop_eq hfound (fun dest hsrc hsrc' hdir => ih dest hsrc hsrc' hdir) hsrc hsrc' hdir 0
        (fun entry hmem => mem_entries.mp hmem), Nat.zero_add]

/-! ## Watches and what was seen -/

/-- The watches and the paths that they are for. -/
def watches (wds : List (Nat × ReceiveInfo)) : List (Nat × PathName) :=
  wds.map fun item => (item.1, item.2.path)

/-- All that was seen. -/
def seen (wds : List (Nat × ReceiveInfo)) : List (PathName × Nat) :=
  wds.flatMap fun item => item.2.fileList

/-- The first watch for a path. -/
def FirstWatch (wds : List (Nat × ReceiveInfo)) (path : PathName) (wd : Nat) : Prop :=
  (watches wds).find? (fun w => w.2 = path) = some (wd, path)

variable {wds : List (Nat × ReceiveInfo)} {wd : Nat} {receivedInfo receivedInfo' : ReceiveInfo}

theorem eventOf_eq (h : eventOf wds path name = some event) :
    FirstWatch wds path event.wd ∧ event.name = name := by
  obtain ⟨item, hitem, rfl⟩ := Option.map_eq_some_iff.mp h
  have hpath : item.2.path = path := by simpa using List.find?_some hitem
  refine ⟨?_, rfl⟩
  unfold FirstWatch watches
  rw [List.find?_map]
  exact Option.map_eq_some_iff.mpr ⟨item, hitem, by rw [hpath]⟩

theorem FirstWatch.append (h : FirstWatch wds path wd) (item : Nat × ReceiveInfo) :
    FirstWatch (wds ++ [item]) path wd := by
  unfold FirstWatch watches at h ⊢
  rw [List.map_append, List.find?_append, h]
  rfl

theorem FirstWatch.congr {wds' : List (Nat × ReceiveInfo)} (h : FirstWatch wds path wd)
    (hsame : watches wds' = watches wds) : FirstWatch wds' path wd := by
  unfold FirstWatch at h ⊢
  rw [hsame, h]

theorem FirstWatch.mem (h : FirstWatch wds path wd) : (wd, path) ∈ watches wds :=
  List.mem_of_find?_eq_some h

theorem getReceivedInfo_split (h : getReceivedInfo wds wd = some receivedInfo)
    (receivedInfo' : ReceiveInfo) :
    ∃ front back, wds = front ++ (wd, receivedInfo) :: back ∧
      setReceivedInfo wd receivedInfo' wds = front ++ (wd, receivedInfo') :: back := by
  induction wds with
  | nil => cases h
  | cons item wds ih =>
    unfold getReceivedInfo at h
    rw [List.find?_cons] at h
    rw [setReceivedInfo]
    by_cases hitem : item.1 = wd
    · subst hitem
      simp only [decide_true, Option.map_some, Option.some.injEq] at h
      subst h
      exact ⟨[], wds, rfl, if_pos rfl⟩
    · simp only [hitem, decide_false] at h
      obtain ⟨front, back, hwds, hset⟩ := ih h
      refine ⟨item :: front, back, by rw [hwds]; rfl, ?_⟩
      rw [if_neg hitem, hset]
      rfl

theorem watches_setReceivedInfo (h : getReceivedInfo wds wd = some receivedInfo)
    (hpath : receivedInfo'.path = receivedInfo.path) :
    watches (setReceivedInfo wd receivedInfo' wds) = watches wds := by
  obtain ⟨front, back, hwds, hset⟩ := getReceivedInfo_split h receivedInfo'
  rw [hset, hwds]
  simp [watches, hpath]

theorem updateProgressSize_path (size : Nat) (filePath : PathName) (receivedInfo : ReceiveInfo)
    (progressSize : Nat) :
    (updateProgressSize size filePath receivedInfo progressSize).1.path = receivedInfo.path := by
  unfold updateProgressSize
  split
  · rfl
  · split <;> rfl

theorem getReceivedInfo_path (hnodup : ((watches wds).map Prod.fst).Nodup)
    (h : getReceivedInfo wds wd = some receivedInfo) (hmem : (wd, path) ∈ watches wds) :
    receivedInfo.path = path := by
  obtain ⟨front, back, hwds, -⟩ := getReceivedInfo_split h receivedInfo
  have hthere : (wd, receivedInfo.path) ∈ watches wds := by
    rw [hwds]
    simp [watches]
  exact (Prod.mk.inj (List.inj_on_of_nodup_map hnodup hthere hmem rfl)).2

theorem lookup_split {fileList : List (PathName × Nat)} {old : Nat} (size : Nat)
    (h : fileList.lookup path = some old) :
    ∃ front back, fileList = front ++ (path, old) :: back ∧
      setSize path size fileList = front ++ (path, size) :: back := by
  induction fileList with
  | nil => cases h
  | cons item fileList ih =>
    obtain ⟨key, value⟩ := item
    rw [List.lookup_cons] at h
    rw [setSize]
    by_cases hkey : key = path
    · subst hkey
      rw [beq_self_eq_true] at h
      cases h
      exact ⟨[], fileList, rfl, if_pos rfl⟩
    · rw [beq_eq_false_iff_ne.mpr (Ne.symm hkey)] at h
      obtain ⟨front, back, hlist, hset⟩ := ih h
      refine ⟨(key, value) :: front, back, by rw [hlist]; rfl, ?_⟩
      rw [if_neg hkey, hset]
      rfl

theorem not_mem_of_lookup_none {fileList : List (PathName × Nat)}
    (h : fileList.lookup path = none) : path ∉ fileList.map Prod.fst := by
  intro hmem
  obtain ⟨⟨key, value⟩, hitem, rfl⟩ := List.mem_map.mp hmem
  simpa using List.lookup_eq_none_iff.mp h (key, value) hitem

/-- Every file was seen under the first watch for its directory. -/
def SeenFirst (wds : List (Nat × ReceiveInfo)) : Prop :=
  ∀ item ∈ wds, ∀ entry ∈ item.2.fileList, ∃ name, slash ∉ name ∧
    entry.1 = item.2.path ++ slash :: name ∧ FirstWatch wds item.2.path item.1

/-- What was seen, file by file, with the sum of it. -/
structure Counted (files : List (PathName × Nat)) (wds : List (Nat × ReceiveInfo))
    (progressSize : Nat) : Prop where
  watches : ((watches wds).map Prod.fst).Nodup
  numbers : ∀ wd ∈ (CopyProgress.watches wds).map Prod.fst, wd ≤ wds.length
  first : SeenFirst wds
  nodup : ((seen wds).map Prod.fst).Nodup
  bounded : ∀ entry ∈ seen wds, ∃ size, (entry.1, size) ∈ files ∧ entry.2 ≤ size
  sum : progressSize = total Prod.snd (seen wds)

namespace Counted

variable {files : List (PathName × Nat)} {progressSize progressSize' : Nat}

theorem le_total (h : Counted files wds progressSize) : progressSize ≤ total Prod.snd files := by
  rw [h.sum]
  exact total_le_of_keys h.nodup h.bounded

theorem not_seen (h : Counted files wds progressSize) {item : Nat × ReceiveInfo} (hitem : item ∈ wds)
    (hne : item.1 ≠ wd) (hfirst : FirstWatch wds path wd) (hname : slash ∉ name) :
    ∀ entry ∈ item.2.fileList, entry.1 ≠ path ++ slash :: name := by
  intro entry hentry heq
  obtain ⟨other, hother, hkey, hfirst'⟩ := h.first item hitem entry hentry
  have hpath := (StackPath.append_sep_inj hother hname (hkey.symm.trans heq)).1
  rw [hpath] at hfirst'
  exact hne (Prod.mk.inj (Option.some.inj (hfirst'.symm.trans hfirst))).1

/-- What one watch has seen is replaced. -/
theorem replace {front back : List (Nat × ReceiveInfo)}
    (h : Counted files (front ++ (wd, receivedInfo) :: back) progressSize)
    (hpath : receivedInfo'.path = receivedInfo.path)
    (hfirst : FirstWatch (front ++ (wd, receivedInfo) :: back) receivedInfo.path wd)
    (hnodup : (receivedInfo'.fileList.map Prod.fst).Nodup)
    (hbounded : ∀ entry ∈ receivedInfo'.fileList, ∃ size, (entry.1, size) ∈ files ∧ entry.2 ≤ size)
    (hnames : ∀ entry ∈ receivedInfo'.fileList, ∃ name, slash ∉ name ∧
      entry.1 = receivedInfo.path ++ slash :: name)
    (hsum : progressSize' + total Prod.snd receivedInfo.fileList =
      progressSize + total Prod.snd receivedInfo'.fileList) :
    Counted files (front ++ (wd, receivedInfo') :: back) progressSize' := by
  have hsame : CopyProgress.watches (front ++ (wd, receivedInfo') :: back) =
      CopyProgress.watches (front ++ (wd, receivedInfo) :: back) := by
    simp [CopyProgress.watches, hpath]
  have hseen : ∀ info, seen (front ++ (wd, info) :: back) =
      seen front ++ (info.fileList ++ seen back) := by
    intro info
    simp [seen]
  -- the watch has its number alone
  have hother : ∀ item ∈ front ++ back, item.1 ≠ wd := by
    have hwatches := h.watches
    simp only [CopyProgress.watches, List.map_append, List.map_cons, List.map_map] at hwatches
    rw [List.nodup_middle, List.nodup_cons] at hwatches
    intro item hitem heq
    refine hwatches.1 ?_
    rw [← List.map_append]
    exact List.mem_map.mpr ⟨item, hitem, heq⟩
  have hapart : ∀ item ∈ front ++ back, ∀ entry ∈ item.2.fileList,
      ∀ entry' ∈ receivedInfo'.fileList, entry.1 ≠ entry'.1 := by
    intro item hitem entry hentry entry' hentry'
    obtain ⟨name, hname, hkey⟩ := hnames entry' hentry'
    rw [hkey]
    refine h.not_seen ?_ (hother item hitem) hfirst hname entry hentry
    rw [List.mem_append, List.mem_cons]
    exact (List.mem_append.mp hitem).imp_right .inr
  have hold := h.nodup
  rw [hseen, List.map_append, List.map_append, List.nodup_append] at hold
  obtain ⟨hfront, hmid, hdisjoint⟩ := hold
  rw [List.nodup_append] at hmid
  refine ⟨?_, ?_, ?_, ?_, ?_, ?_⟩
  · rw [hsame]
    exact h.watches
  · rw [hsame]
    simpa using h.numbers
  · intro item hitem entry hentry
    by_cases hwd : item = (wd, receivedInfo')
    · subst hwd
      obtain ⟨name, hname, hkey⟩ := hnames entry hentry
      dsimp only
      rw [hpath]
      exact ⟨name, hname, hkey, hfirst.congr hsame⟩
    · have hitem' : item ∈ front ++ (wd, receivedInfo) :: back := by
        rw [List.mem_append, List.mem_cons] at hitem ⊢
        exact hitem.imp_right fun hmem => .inr (hmem.resolve_left hwd)
      obtain ⟨name, hname, hkey, hfirst'⟩ := h.first item hitem' entry hentry
      exact ⟨name, hname, hkey, hfirst'.congr hsame⟩
  · rw [hseen, List.map_append, List.map_append, List.nodup_append, List.nodup_append]
    refine ⟨hfront, ⟨hnodup, hmid.2.1, ?_⟩, ?_⟩
    · intro a ha b hb heq
      obtain ⟨entry', hentry', rfl⟩ := List.mem_map.mp ha
      obtain ⟨entry, hentry, rfl⟩ := List.mem_map.mp hb
      obtain ⟨item, hitem, hentry⟩ := List.mem_flatMap.mp hentry
      exact hapart item (List.mem_append_right _ hitem) entry hentry entry' hentry' heq.symm
    · intro a ha b hb heq
      rcases List.mem_append.mp hb with hb | hb
      · obtain ⟨entry', hentry', rfl⟩ := List.mem_map.mp hb
        obtain ⟨entry, hentry, rfl⟩ := List.mem_map.mp ha
        obtain ⟨item, hitem, hentry⟩ := List.mem_flatMap.mp hentry
        exact hapart item (List.mem_append_left _ hitem) entry hentry entry' hentry' heq
      · exact hdisjoint a ha b (List.mem_append_right _ hb) heq
  · intro entry hentry
    rw [hseen, List.mem_append, List.mem_append] at hentry
    have hbounded' := h.bounded entry
    rw [hseen, List.mem_append, List.mem_append] at hbounded'
    rcases hentry with hentry | hentry | hentry
    · exact hbounded' (.inl hentry)
    · exact hbounded entry hentry
    · exact hbounded' (.inr (.inr hentry))
  · have hsum' := h.sum
    rw [hseen, total_append, total_append] at hsum' ⊢
    omega

/-- A file is seen. -/
theorem update (h : Counted files wds progressSize)
    (hget : getReceivedInfo wds wd = some receivedInfo)
    (hfirst : FirstWatch wds receivedInfo.path wd) (hname : slash ∉ name) {size : Nat}
    (hfile : ∃ bound, (receivedInfo.path ++ slash :: name, bound) ∈ files ∧ size ≤ bound) :
    Counted files
      (setReceivedInfo wd (updateProgressSize size (receivedInfo.path ++ slash :: name) receivedInfo
        progressSize).1 wds)
      (updateProgressSize size (receivedInfo.path ++ slash :: name) receivedInfo progressSize).2 := by
  obtain ⟨front, back, rfl, hset⟩ := getReceivedInfo_split hget (updateProgressSize size
    (receivedInfo.path ++ slash :: name) receivedInfo progressSize).1
  rw [hset]
  have hseen : seen (front ++ (wd, receivedInfo) :: back) =
      seen front ++ (receivedInfo.fileList ++ seen back) := by
    simp [seen]
  have hkeys : (receivedInfo.fileList.map Prod.fst).Nodup := by
    have hnodup := h.nodup
    rw [hseen, List.map_append, List.map_append, List.nodup_append, List.nodup_append] at hnodup
    exact hnodup.2.1.1
  have hmem : ∀ entry ∈ receivedInfo.fileList,
      (∃ size, (entry.1, size) ∈ files ∧ entry.2 ≤ size) ∧ ∃ name, slash ∉ name ∧
        entry.1 = receivedInfo.path ++ slash :: name := by
    intro entry hentry
    refine ⟨h.bounded entry ?_, ?_⟩
    · rw [hseen]
      exact List.mem_append_right _ (List.mem_append_left _ hentry)
    · obtain ⟨name, hname, hkey, -⟩ := h.first (wd, receivedInfo) (by simp) entry hentry
      exact ⟨name, hname, hkey⟩
  unfold updateProgressSize
  cases hlookup : receivedInfo.fileList.lookup (receivedInfo.path ++ slash :: name) with
  | none =>
    dsimp only
    refine h.replace rfl hfirst ?_ ?_ ?_ ?_
    · rw [List.map_append, List.nodup_append]
      refine ⟨hkeys, List.nodup_singleton _, ?_⟩
      rintro a ha b hb rfl
      cases List.mem_singleton.mp hb
      exact not_mem_of_lookup_none hlookup ha
    · intro entry hentry
      rcases List.mem_append.mp hentry with hentry | hentry
      · exact (hmem entry hentry).1
      · cases List.mem_singleton.mp hentry
        exact hfile
    · intro entry hentry
      rcases List.mem_append.mp hentry with hentry | hentry
      · exact (hmem entry hentry).2
      · cases List.mem_singleton.mp hentry
        exact ⟨name, hname, rfl⟩
    · rw [total_append, total_cons, total_nil]
      omega
  | some old =>
    obtain ⟨before, behind, hlist, hsize⟩ := lookup_split size hlookup
    dsimp only
    split
    · next hlarger =>
      refine h.replace rfl hfirst ?_ ?_ ?_ ?_
      · rw [hsize]
        rw [hlist] at hkeys
        simpa using hkeys
      · rw [hsize]
        intro entry hentry
        rcases List.mem_append.mp hentry with hentry | hentry
        · exact (hmem entry (by rw [hlist]; exact List.mem_append_left _ hentry)).1
        · rcases List.mem_cons.mp hentry with rfl | hentry
          · exact hfile
          · exact (hmem entry (by rw [hlist]; simp [hentry])).1
      · rw [hsize]
        intro entry hentry
        rcases List.mem_append.mp hentry with hentry | hentry
        · exact (hmem entry (by rw [hlist]; exact List.mem_append_left _ hentry)).2
        · rcases List.mem_cons.mp hentry with rfl | hentry
          · exact ⟨name, hname, rfl⟩
          · exact (hmem entry (by rw [hlist]; simp [hentry])).2
      · rw [hsize, hlist]
        simp only [total_append, total_cons]
        omega
    · exact h

theorem watch (h : Counted files wds progressSize) (path : PathName) :
    Counted files (wds ++ [(wds.length + 1, { path := path })]) progressSize := by
  have hseen : seen (wds ++ [(wds.length + 1, { path := path })]) = seen wds := by
    simp [seen]
  refine ⟨?_, ?_, ?_, ?_, ?_, ?_⟩
  · unfold CopyProgress.watches
    rw [List.map_append, List.map_append, List.nodup_append]
    refine ⟨h.watches, List.nodup_singleton _, ?_⟩
    rintro a ha b hb rfl
    cases List.mem_singleton.mp hb
    exact absurd (h.numbers _ ha) (Nat.not_succ_le_self _)
  · intro wd hwd
    unfold CopyProgress.watches at hwd
    rw [List.map_append, List.map_append, List.mem_append] at hwd
    rw [List.length_append]
    rcases hwd with hwd | hwd
    · exact (h.numbers wd hwd).trans (Nat.le_add_right _ _)
    · cases List.mem_singleton.mp hwd
      exact Nat.le_refl _
  · intro item hitem entry hentry
    rcases List.mem_append.mp hitem with hitem | hitem
    · obtain ⟨name, hname, hkey, hfirst⟩ := h.first item hitem entry hentry
      exact ⟨name, hname, hkey, hfirst.append _⟩
    · cases List.mem_singleton.mp hitem
      cases hentry
  · rw [hseen]
    exact h.nodup
  · rw [hseen]
    exact h.bounded
  · rw [hseen]
    exact h.sum

end Counted

/-! ## Reports -/

/-- What the listener is told does not go down, is no more than the total, and is the total at last
when the copy succeeds. -/
structure Sound (s : ProgressState) : Prop where
  monotone : s.reports.Pairwise fun a b => a.1 ≤ b.1
  bounded : ∀ report ∈ s.reports, report.1 ≤ report.2
  complete : s.copier = .returned none → ∃ size, s.reports.getLast? = some (size, size)

/-- The reports are in order, up to `maxProgressSize`, which is no more than the total. -/
structure Told (s : ProgressState) : Prop where
  reports : ∀ report ∈ s.reports, report.1 ≤ s.callback.maxProgressSize ∧
    report.2 = s.callback.totalSize
  monotone : s.reports.Pairwise fun a b => a.1 ≤ b.1
  max : s.callback.maxProgressSize ≤ s.callback.totalSize

variable {s t : ProgressState} {files : List (PathName × Nat)}

@[simp] theorem onFileReceive_notifying (s : ProgressState) :
    s.onFileReceive.notifying = s.notifying := by
  unfold ProgressState.onFileReceive
  split <;> rfl

@[simp] theorem onFileReceive_totalSize (s : ProgressState) :
    s.onFileReceive.callback.totalSize = s.callback.totalSize := by
  unfold ProgressState.onFileReceive
  split <;> rfl

theorem Told.onFileReceive (h : Told s) (hprogress : s.callback.progressSize ≤ s.callback.totalSize) :
    Told s.onFileReceive := by
  unfold ProgressState.onFileReceive
  split
  · exact h
  · next hmax =>
    refine ⟨fun report hreport => ?_, ?_, hprogress⟩
    · rcases List.mem_append.mp hreport with hreport | hreport
      · exact ⟨(h.reports report hreport).1.trans (not_lt.mp hmax), (h.reports report hreport).2⟩
      · cases List.mem_singleton.mp hreport
        exact ⟨Nat.le_refl _, rfl⟩
    · refine List.pairwise_append.mpr ⟨h.monotone, List.pairwise_singleton _ _, ?_⟩
      intro a ha b hb
      cases List.mem_singleton.mp hb
      exact (h.reports a ha).1.trans (not_lt.mp hmax)

theorem Told.onFileReceive_total (h : Told s)
    (hprogress : s.callback.progressSize = s.callback.totalSize) :
    s.onFileReceive.reports.getLast? = some (s.callback.totalSize, s.callback.totalSize) := by
  unfold ProgressState.onFileReceive
  rw [if_neg (not_lt.mpr (hprogress ▸ h.max)), hprogress]
  exact List.getLast?_concat

/-! ## The invariant -/

/-- An event is from the first watch for the directory of a target, and the source of that is not
empty. -/
def Known (files : List (PathName × Nat)) (isFile : Bool) (wds : List (Nat × ReceiveInfo))
    (event : InotifyEvent) : Prop :=
  ∃ path, FirstWatch wds path event.wd ∧ slash ∉ event.name ∧
    ∃ size, 0 < size ∧ (targetPath isFile path event.name, size) ∈ files

/-- A target that is written to is no longer than some source that is copied to it. -/
def Fits (files : List (PathName × Nat)) (sizes : PathName → Option Nat) : Prop :=
  ∀ path bound, 0 < bound → (path, bound) ∈ files → ∀ size, sizes path = some size →
    ∃ bound', (path, bound') ∈ files ∧ size ≤ bound'

structure Inv (files : List (PathName × Nat)) (s : ProgressState) : Prop where
  total : Pool.total Prod.snd files ≤ s.callback.totalSize
  todo : ∀ file ∈ filesOf s.infos.isFile s.todo, file ∈ files
  names : ∀ destPath name size, .file destPath name size ∈ s.todo → slash ∉ name
  sending : ∀ f, s.sending = some f →
    (targetPath s.infos.isFile f.destPath f.name, f.size) ∈ files ∧ slash ∉ f.name
  sizes : Fits files s.sizes
  events : ∀ event ∈ s.queue ++ s.buffer, Known files s.infos.isFile s.callback.wds event
  counted : ∃ size, Counted files s.callback.wds size ∧
    (s.infos.isFile = false → s.notifying = true → s.callback.progressSize = size)
  progress : s.callback.progressSize ≤ s.callback.totalSize
  told : Told s
  returned : ∀ result, s.copier = .returned result → s.notifying = false
  complete : s.copier = .returned none →
    s.reports.getLast? = some (s.callback.totalSize, s.callback.totalSize)

theorem Inv.sound (h : Inv files s) : Sound s := by
  refine ⟨h.told.monotone, fun report hreport => ?_, fun hreturned => ⟨_, h.complete hreturned⟩⟩
  obtain ⟨hmax, htotal⟩ := h.told.reports report hreport
  rw [htotal]
  exact hmax.trans h.told.max

theorem bound_le_total {path : PathName} {bound : Nat} (h : (path, bound) ∈ files) :
    bound ≤ total Prod.snd files := by
  obtain ⟨front, back, rfl⟩ := List.append_of_mem h
  rw [total_append, total_cons]
  omega

variable {sizes : PathName → Option Nat}

theorem Fits.update (h : Fits files sizes) {bound size : Nat} (hfile : (path, bound) ∈ files)
    (hsize : size ≤ bound) :
    Fits files (Function.update sizes path (some (max ((sizes path).getD 0) size))) := by
  intro other bound' hpos hmem size' hsize'
  by_cases hother : other = path
  · subst hother
    rw [Function.update_self] at hsize'
    cases hsize'
    cases hold : sizes other with
    | none => exact ⟨bound, hfile, by simpa using hsize⟩
    | some old =>
      obtain ⟨larger, hlarger, hle⟩ := h other bound' hpos hmem old hold
      rcases Nat.le_total larger bound with hcmp | hcmp
      · exact ⟨bound, hfile, max_le (hle.trans hcmp) hsize⟩
      · exact ⟨larger, hlarger, max_le hle (hsize.trans hcmp)⟩
  · rw [Function.update_of_ne hother] at hsize'
    exact h other bound' hpos hmem size' hsize'

theorem Known.mono {wds' : List (Nat × ReceiveInfo)} (h : Known files isFile wds event)
    (hwds : ∀ path wd, FirstWatch wds path wd → FirstWatch wds' path wd) :
    Known files isFile wds' event := by
  obtain ⟨path, hfirst, hrest⟩ := h
  exact ⟨path, hwds path _ hfirst, hrest⟩

/-! ## Steps of the copying thread -/

theorem begin_inv (h : Inv files s) {task : CopyTask} {todo : List CopyTask}
    (htodo : s.todo = task :: todo) : Inv files (s.begin task todo) := by
  have hrest : ∀ file ∈ filesOf s.infos.isFile todo, file ∈ files := by
    intro file hfile
    refine h.todo file ?_
    rw [htodo]
    cases task with
    | subDir destPath => exact hfile
    | file destPath name size => exact List.mem_cons_of_mem _ hfile
  have hnames : ∀ destPath name size, .file destPath name size ∈ todo → slash ∉ name :=
    fun destPath name size hmem => h.names destPath name size (htodo ▸ List.mem_cons_of_mem _ hmem)
  obtain ⟨size, hcounted, hprogress⟩ := h.counted
  cases task with
  | subDir destPath =>
    refine { h with todo := hrest, names := hnames, events := ?_, counted := ?_, told := ?_ }
    · exact fun event hevent => (h.events event hevent).mono fun path wd hfirst => hfirst.append _
    · exact ⟨size, hcounted.watch destPath, hprogress⟩
    · exact ⟨h.told.reports, h.told.monotone, h.told.max⟩
  | file destPath name size' =>
    have hfile : (targetPath s.infos.isFile destPath name, size') ∈ files := by
      refine h.todo _ ?_
      rw [htodo]
      exact List.mem_cons_self
    have hname : slash ∉ name := h.names destPath name size' (htodo ▸ List.mem_cons_self)
    have hsizes := h.sizes.update hfile (Nat.zero_le size')
    rw [Nat.max_zero] at hsizes
    refine { h with todo := hrest, names := hnames, sending := ?_, sizes := hsizes, told := ?_ }
    · rintro f ⟨⟩
      exact ⟨hfile, hname⟩
    · exact ⟨h.told.reports, h.told.monotone, h.told.max⟩

theorem write_inv (h : Inv files s) {f : Sending} (hsending : s.sending = some f) {count : Nat}
    (hcount : 0 < count) (hsize : f.offset + count ≤ f.size) (queued : Bool) :
    Inv files (s.write f count queued) := by
  obtain ⟨hfile, hname⟩ := h.sending f hsending
  refine { h with sending := ?_, sizes := h.sizes.update hfile hsize, events := ?_, told := ?_ }
  · rintro f' ⟨⟩
    exact ⟨hfile, hname⟩
  · intro event hevent
    rw [ProgressState.write, List.append_assoc, List.mem_append, List.mem_append] at hevent
    rcases hevent with hevent | hevent | hevent
    · exact h.events event (List.mem_append_left _ hevent)
    · split at hevent
      · obtain ⟨hfirst, heq⟩ := eventOf_eq (Option.mem_toList.mp hevent)
        refine ⟨f.destPath, hfirst, heq ▸ hname, f.size, by omega, ?_⟩
        rw [heq]
        exact hfile
      · cases hevent
    · exact h.events event (List.mem_append_right _ hevent)
  · exact ⟨h.told.reports, h.told.monotone, h.told.max⟩

theorem onFileReceive_inv (h : Inv files s) (hcopier : s.copier ≠ .returned none) :
    Inv files s.onFileReceive := by
  have htold := h.told.onFileReceive h.progress
  unfold ProgressState.onFileReceive at htold ⊢
  split at htold
  · next hless =>
    rw [if_pos hless]
    exact h
  · next hless =>
    rw [if_neg hless]
    exact { h with
      told := htold
      complete := fun hreturned => absurd hreturned hcopier }

theorem complete_inv (h : Inv files s) (hnotifying : s.notifying = false)
    (hcopier : s.copier ≠ .returned none) (result : Option Errno) :
    Inv files (s.complete result) := by
  cases result with
  | some errno =>
    exact { h with
      told := ⟨h.told.reports, h.told.monotone, h.told.max⟩
      returned := fun _ _ => hnotifying
      complete := nofun }
  | none =>
    have hall : Inv files { s with
        callback := { s.callback with progressSize := s.callback.totalSize } } := by
      obtain ⟨size, hcounted, -⟩ := h.counted
      exact { h with
        counted := ⟨size, hcounted, fun _ hnot => nomatch hnotifying.symm.trans hnot⟩
        progress := Nat.le_refl _
        told := ⟨h.told.reports, h.told.monotone, h.told.max⟩ }
    have hlast := hall.told.onFileReceive_total rfl
    have hreported := onFileReceive_inv hall hcopier
    refine { hreported with
      told := ⟨hreported.told.reports, hreported.told.monotone, hreported.told.max⟩
      returned := fun _ _ => ?_
      complete := fun _ => ?_ }
    · exact (onFileReceive_notifying _).trans hnotifying
    · have htotal := onFileReceive_totalSize { s with
        callback := { s.callback with progressSize := s.callback.totalSize } }
      refine hlast.trans ?_
      show _ = some ((ProgressState.onFileReceive _).callback.totalSize,
        (ProgressState.onFileReceive _).callback.totalSize)
      rw [htotal]

theorem copierStep_inv (h : Inv files s) {move : CopierMove} (hstep : copierStep s move = some t) :
    Inv files t := by
  unfold copierStep at hstep
  split at hstep
  · split at hstep
    · next task todo _ htodo =>
      cases hstep
      exact begin_inv h htodo
    · cases hstep
  · split at hstep
    · next f hsending =>
      split at hstep
      · next hbytes =>
        cases hstep
        exact write_inv h hsending hbytes.1 hbytes.2 _
      · cases hstep
    · cases hstep
  · split at hstep
    · split at hstep
      · cases hstep
        exact { h with
          sending := nofun
          told := ⟨h.told.reports, h.told.monotone, h.told.max⟩ }
      · cases hstep
    · split at hstep
      · cases hstep
        exact { h with
          told := ⟨h.told.reports, h.told.monotone, h.told.max⟩
          returned := nofun
          complete := nofun }
      · cases hstep
  · cases hstep
    exact { h with
      told := ⟨h.told.reports, h.told.monotone, h.told.max⟩
      returned := nofun
      complete := nofun }
  · cases hstep
    exact { h with
      told := ⟨h.told.reports, h.told.monotone, h.told.max⟩
      returned := nofun
      complete := nofun }
  · next result hcopier =>
    split at hstep
    · cases hstep
    · next hnotifying =>
      cases hstep
      exact complete_inv h (Bool.not_eq_true _ ▸ hnotifying) (by rw [hcopier]; nofun) result
  · cases hstep

/-! ## Steps of the notify thread -/

theorem targetSize_eq_ok {failure : Option Errno} {size : Nat}
    (h : s.targetSize failure path = .ok size) : s.sizes path = some size := by
  unfold ProgressState.targetSize at h
  cases failure with
  | some errno => cases h
  | none =>
    rw [orFail_none] at h
    split at h
    · next hsize =>
      cases h
      exact hsize
    · cases h

/-- What an event says is taken in. -/
theorem handleProgress_inv (h : Inv files s) (hnotifying : s.notifying = true)
    (hknown : Known files s.infos.isFile s.callback.wds event) (failure : Option Errno) :
    Inv files { s with
      callback := (handleProgress (s.targetSize failure) event s.infos s.callback).2 } := by
  have hsame : Inv files { s with callback := s.callback } := h
  obtain ⟨path, hfirst, hname, bound, hpos, hfile⟩ := hknown
  obtain ⟨size, hcounted, hprogress⟩ := h.counted
  unfold handleProgress
  split
  · exact hsame
  · next receivedInfo hget =>
    have hpath := getReceivedInfo_path hcounted.watches hget hfirst.mem
    dsimp only
    split
    · exact hsame
    · split
      · exact hsame
      · next fileSize hsize =>
        have hsize := targetSize_eq_ok hsize
        rw [hpath] at hsize
        obtain ⟨bound', hbound', hle⟩ := h.sizes _ bound hpos hfile fileSize hsize
        have htotal := bound_le_total hbound'
        have hsum := h.total
        split
        · next hisFile =>
          exact { h with
            counted := ⟨size, hcounted, fun hno => nomatch hisFile.symm.trans hno⟩
            progress := hle.trans (htotal.trans hsum)
            told := ⟨h.told.reports, h.told.monotone, h.told.max⟩ }
        · next hisFile =>
          have hdir : s.infos.isFile = false := Bool.not_eq_true _ ▸ hisFile
          have htarget : targetPath s.infos.isFile receivedInfo.path event.name =
              receivedInfo.path ++ slash :: event.name := by
            rw [hdir]
            rfl
          rw [hdir] at hbound'
          have hupdate := hcounted.update hget (hpath ▸ hfirst) hname
            ⟨bound', hpath ▸ hbound', hle⟩
          rw [← hprogress hdir hnotifying, ← htarget] at hupdate
          exact { h with
            events := fun other hother => (h.events other hother).mono fun path wd hfirst =>
              hfirst.congr (watches_setReceivedInfo hget (updateProgressSize_path _ _ _ _))
            counted := ⟨_, hupdate, fun _ _ => rfl⟩
            progress := hupdate.le_total.trans hsum
            told := ⟨h.told.reports, h.told.monotone, h.told.max⟩ }

theorem Inv.take (h : Inv files s) {queue buffer : List InotifyEvent}
    (hevents : ∀ event ∈ queue ++ buffer, event ∈ s.queue ++ s.buffer) (run : Bool)
    (exceptionCode : Option Errno) :
    Inv files { s with
      queue := queue
      buffer := buffer
      infos := { s.infos with run := run, exceptionCode := exceptionCode } } :=
  { h with
    events := fun event hevent => h.events event (hevents event hevent)
    told := ⟨h.told.reports, h.told.monotone, h.told.max⟩ }

theorem readEvent_inv (h : Inv files s) (hnotifying : s.notifying = true)
    {rest : List InotifyEvent} (hbuffer : s.buffer = event :: rest) (due : Bool)
    (failure : Option Errno) : Inv files (s.readEvent event rest due failure) := by
  have hevent : event ∈ s.queue ++ s.buffer := by
    rw [hbuffer]
    exact List.mem_append_right _ List.mem_cons_self
  have hnone : ∀ other ∈ s.queue ++ [], other ∈ s.queue ++ s.buffer :=
    fun other hother => List.mem_append_left _ (by simpa using hother)
  have hrest : ∀ other ∈ s.queue ++ rest, other ∈ s.queue ++ s.buffer := by
    intro other hother
    rw [hbuffer, List.mem_append, List.mem_cons]
    exact (List.mem_append.mp hother).imp_right .inr
  have hcopier : s.copier ≠ .returned none :=
    fun hreturned => nomatch hnotifying.symm.trans (h.returned none hreturned)
  have hhandled := handleProgress_inv h hnotifying (h.events event hevent) failure
  unfold ProgressState.readEvent
  dsimp only
  split
  · exact h.take hnone s.infos.run s.infos.exceptionCode
  · split
    · exact hhandled.take hnone s.infos.run _
    · split
      · exact hhandled.take hrest s.infos.run s.infos.exceptionCode
      · split
        · exact hhandled.take hnone false s.infos.exceptionCode
        · have hread := hhandled.take hrest s.infos.run s.infos.exceptionCode
          split
          · exact onFileReceive_inv hread hcopier
          · exact hread

theorem notifierStep_inv (h : Inv files s) {move : NotifierMove}
    (hstep : notifierStep s move = some t) : Inv files t := by
  unfold notifierStep at hstep
  split at hstep
  · next count hnotifying hbuffer =>
    cases hstep
    refine h.take ?_ s.infos.run s.infos.exceptionCode
    intro event hevent
    refine List.mem_append_left _ ?_
    rcases List.mem_append.mp hevent with hevent | hevent
    · exact List.mem_of_mem_drop hevent
    · exact List.mem_of_mem_take hevent
  · next due failure event rest hnotifying hbuffer =>
    cases hstep
    exact readEvent_inv h hnotifying hbuffer due failure
  · cases hstep
    obtain ⟨size, hcounted, -⟩ := h.counted
    exact { h with
      counted := ⟨size, hcounted, nofun⟩
      told := ⟨h.told.reports, h.told.monotone, h.told.max⟩
      returned := fun _ _ => rfl }
  · cases hstep
    obtain ⟨size, hcounted, -⟩ := h.counted
    exact { h with
      counted := ⟨size, hcounted, nofun⟩
      told := ⟨h.told.reports, h.told.monotone, h.told.max⟩
      returned := fun _ _ => rfl }
  · cases hstep

theorem progressStep_inv (h : Inv files s) {action : ProgressAction}
    (hstep : progressStep s action = some t) : Inv files t := by
  cases action with
  | copier move => exact copierStep_inv h hstep
  | notifier move => exact notifierStep_inv h hstep

/-! ## Runs -/

theorem dirTasks_names (sys : System) (v : FileVolume) (fuel : Nat) (src dest : PathName)
    {destPath name : PathName} {size : Nat}
    (h : .file destPath name size ∈ dirTasks sys v fuel src dest) : slash ∉ name := by
  induction fuel generalizing src dest with
  | zero => cases h
  | succ fuel ih =>
    rw [dirTasks] at h
    have hnamed : ∀ entry ∈ sys.listed v src, PlainName entry.name := fun _ => listed_named
    revert h hnamed
    induction sys.listed v src with
    | nil => nofun
    | cons entry entries ihEntries =>
      intro h hnamed
      rw [entryTasks, List.mem_append] at h
      rcases h with h | h
      · cases htype : entry.type with
        | link =>
          rw [htype] at h
          cases h
        | directory =>
          rw [htype] at h
          rcases List.mem_cons.mp h with h | h
          · cases h
          · exact ih _ _ h
        | regular =>
          rw [htype] at h
          cases List.mem_singleton.mp h
          exact (hnamed entry List.mem_cons_self).2.2.2
      · exact ihEntries h fun other hmem => hnamed other (List.mem_cons_of_mem _ hmem)

/-- No target that is there is longer than the source that is copied to it, if there is something to
copy. -/
def TargetsFit (s : ProgressState) : Prop :=
  ∀ file ∈ filesOf s.infos.isFile s.todo, 0 < file.2 → ∀ old, s.sizes file.1 = some old →
    old ≤ file.2

/-- A file, or a directory whose files are all found. -/
def SizeKnown (sys : System) (v : FileVolume) (isFile : Bool) (src : PathName) : Prop :=
  isFile = false → SizesFound sys ∧
    ∃ S, sys.lookup v src = .there S ∧ v.tree S = some .directory

theorem sourceSize_le {size : Nat} (h : getFileSize sys v src = .ok size) :
    sourceSize sys v src ≤ size := by
  unfold getFileSize at h
  cases hfails : sys.fails .status src with
  | some errno =>
    rw [hfails] at h
    cases h
  | none =>
    rw [hfails, orFail_none] at h
    unfold sourceSize
    split at h
    · next hfile =>
      cases h
      rw [hfile]
    · next hno hfound =>
      rw [hfound]
      split
      · next bytes heq => exact absurd (Option.some.inj heq) (hno bytes)
      · exact Nat.zero_le _
    · cases h

theorem subscribe_cases {fuel : Nat} (h : subscribe sys v fuel isFile src dest sizes = .ok s) :
    (isFile = true ∧ ∃ size, getFileSize sys v src = .ok size ∧
      s = startState true dest sizes size [.file dest [] (sourceSize sys v src)]) ∨
    (isFile = false ∧ s = startState false dest sizes (getDirSize sys v fuel src)
      (copyDirTasks sys v fuel (Copy.withSlash src) (Copy.withSlash dest))) := by
  unfold subscribe at h
  cases isFile with
  | true =>
    rw [if_pos rfl] at h
    cases hsize : getFileSize sys v src with
    | error errno =>
      rw [hsize] at h
      cases h
    | ok size =>
      rw [hsize] at h
      cases h
      exact .inl ⟨rfl, size, rfl, rfl⟩
  | false =>
    cases h
    exact .inr ⟨rfl, rfl⟩

theorem startState_inv {totalSize : Nat} {todo : List CopyTask}
    (htotal : total Prod.snd (filesOf isFile todo) ≤ totalSize)
    (hnames : ∀ destPath name size, .file destPath name size ∈ todo → slash ∉ name)
    (hfit : TargetsFit (startState isFile dest sizes totalSize todo)) :
    Inv (filesOf isFile todo) (startState isFile dest sizes totalSize todo) where
  total := htotal
  todo := fun file hfile => hfile
  names := hnames
  sending := nofun
  sizes := fun path bound hpos hfile size hsize => ⟨bound, hfile, hfit _ hfile hpos size hsize⟩
  events := nofun
  counted := ⟨0, ⟨List.nodup_singleton _, by simp [startState, watches],
    by simp [startState, SeenFirst], List.nodup_nil, nofun, rfl⟩, fun _ _ => rfl⟩
  progress := Nat.zero_le _
  told := ⟨nofun, List.Pairwise.nil, Nat.zero_le _⟩
  returned := nofun
  complete := nofun

theorem subscribe_inv {fuel : Nat} (h : subscribe sys v fuel isFile src dest sizes = .ok s)
    (hsource : SizeKnown sys v isFile src) (hfit : TargetsFit s) :
    Inv (filesOf s.infos.isFile s.todo) s := by
  obtain ⟨rfl, size, hsize, rfl⟩ | ⟨rfl, rfl⟩ := subscribe_cases h
  · refine startState_inv ?_ ?_ hfit
    · show sourceSize sys v src ≤ size
      exact sourceSize_le hsize
    · intro destPath name size hmem
      cases List.mem_singleton.mp hmem
      exact List.not_mem_nil
  · obtain ⟨hfound, S, hsrc, hdir⟩ := hsource rfl
    refine startState_inv ?_ ?_ hfit
    · rw [getDirSize_eq hfound false _ fuel hsrc (Copy.lookup_withSlash hsrc hdir) hdir]
      exact Nat.le_refl _
    · intro destPath name size hmem
      rcases List.mem_cons.mp hmem with hmem | hmem
      · cases hmem
      · exact dirTasks_names sys v fuel _ _ hmem

/-- What the listener is told is right whatever the threads do, and in whatever order they do it. -/
theorem progress_sound {sizes : PathName → Option Nat} {fuel : Nat} {s₀ : ProgressState}
    (hstart : subscribe sys v fuel isFile src dest sizes = .ok s₀)
    (hsource : SizeKnown sys v isFile src) (hfit : TargetsFit s₀) {actions : List ProgressAction}
    (hrun : run progressStep s₀ actions = some t) : Sound t := by
  have inv := subscribe_inv hstart hsource hfit
  exact (run_invariant (fun s action t hs (_ : True) => progressStep_inv hs) inv
    (stepsOk_true _ _) hrun).sound

/-- A copy of one file of two bytes below a directory, with a report on the way. -/
def oneFileActions : List ProgressAction :=
  [.copier .next, .copier .next, .copier (.send 1 true), .notifier (.read 1),
    .notifier (.event true none), .copier (.send 1 true), .copier .done, .copier .done,
    .copier .close, .notifier (.leaves none), .copier .join]

/-- The file in `/s` is copied to `/d/s`. -/
theorem progress_sound_oneFile :
    ∃ s₀ t, subscribe {} Copy.oneFile 1 false [slash, 0x73] [slash, 0x64] (fun _ => none) = .ok s₀ ∧
      run progressStep s₀ oneFileActions = some t ∧ t.reports = [(1, 2), (2, 2)] ∧ Sound t := by
  obtain ⟨s₀, t, hstart, hnone, hrun, hreports⟩ : ∃ s₀ t,
      subscribe {} Copy.oneFile 1 false [slash, 0x73] [slash, 0x64] (fun _ => none) = .ok s₀ ∧
      (∀ path, s₀.sizes path = none) ∧ run progressStep s₀ oneFileActions = some t ∧
      t.reports = [(1, 2), (2, 2)] := ⟨_, _, rfl, fun _ => rfl, rfl, rfl⟩
  refine ⟨s₀, t, hstart, hrun, hreports, progress_sound hstart
    (fun _ => ⟨⟨fun _ => rfl, fun _ => rfl⟩, [[0x73]], rfl, by decide⟩) ?_ hrun⟩
  intro file _ _ old hold
  exact nomatch (hnone file.1).symm.trans hold

/-- The file `/s/a` is copied to a longer one: more is told than there is, and also at last. -/
theorem progress_not_sound :
    ∃ s₀ t, subscribe {} Copy.oneFile 1 true [slash, 0x73, slash, 0x61] [slash, 0x64, slash, 0x61]
        (fun path => if path = [slash, 0x64, slash, 0x61] then some 3 else none) = .ok s₀ ∧
      run progressStep s₀ [.copier .next, .copier (.send 2 true), .notifier (.read 1),
        .notifier (.event true none), .copier .done, .copier .done, .copier .close,
        .notifier (.leaves none), .copier .join] = some t ∧
      t.copier = .returned none ∧ t.reports = [(3, 2)] ∧ ¬ Sound t := by
  refine ⟨_, _, rfl, rfl, rfl, rfl, fun h => ?_⟩
  exact absurd (h.bounded (3, 2) (List.mem_singleton_self _)) (by decide)

end FileApi.ModFs.CopyProgress
