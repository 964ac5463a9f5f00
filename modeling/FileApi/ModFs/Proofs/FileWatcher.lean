import FileApi.ModFs.FileWatcher

/-!
# What a started watcher can rely on

As long as no two path strings of one inode are watched together, and no file takes the place of
one that is watched, the cache and the kernel agree: the descriptor that is cached for a path is
that of the inode it names, and the mask in the kernel has every event that is cached.
-/

namespace FileApi.ModFs

open Machine Keyed

/-! ## Masks -/

/-- Every event is in the mask; the test of `FindWatchedEvents`. -/
def Covers (mask events : UInt32) : Prop := mask &&& events = events

instance (mask events : UInt32) : Decidable (Covers mask events) :=
  inferInstanceAs (Decidable (_ = _))

theorem Covers.refl (mask : UInt32) : Covers mask mask := UInt32.and_self

theorem Covers.trans {a b c : UInt32} (h : Covers a b) (h' : Covers b c) : Covers a c := by
  rw [Covers, ← h', ← UInt32.and_assoc, h]

theorem covers_or_right (a b : UInt32) : Covers (a ||| b) b := by
  apply UInt32.toBitVec_inj.mp
  apply BitVec.eq_of_getLsbD_eq
  intro i hi
  simp only [UInt32.toBitVec_and, UInt32.toBitVec_or, BitVec.getLsbD_and, BitVec.getLsbD_or]
  cases a.toBitVec.getLsbD i <;> cases b.toBitVec.getLsbD i <;> rfl

theorem covers_or_left (a b : UInt32) : Covers (a ||| b) a := by
  rw [UInt32.or_comm]
  exact covers_or_right b a

theorem Covers.eq_zero {events : UInt32} (h : Covers 0 events) : events = 0 := by
  rw [← h, UInt32.zero_and]

/-! ## The kernel -/

section

variable {k : WatchKernel} {inode : Nat} (inode' : Nat) (mask : UInt32)

theorem addWatch_of_some {watch : Watch} (h : k.watch inode = some watch) :
    (k.addWatch inode mask).1 = watch.wd ∧
      (k.addWatch inode mask).2.watch inode' =
        if inode' = inode then some { watch with mask } else k.watch inode' := by
  have hadd : k.addWatch inode mask = (watch.wd, { k with
      watches := modify Watch.inode k.watches inode fun w => { w with mask } }) := by
    simp only [WatchKernel.addWatch, h]
  rw [hadd]
  refine ⟨rfl, ?_⟩
  show find Watch.inode (modify Watch.inode k.watches inode fun w => { w with mask }) inode' = _
  by_cases heq : inode' = inode
  · have hself := find_modify_self (g := fun w : Watch => { w with mask }) (l := k.watches)
      (k := inode) (fun _ => rfl : ∀ w : Watch, ({ w with mask } : Watch).inode = w.inode)
    rw [heq, if_pos rfl, hself, ← WatchKernel.watch, h]
    rfl
  · rw [if_neg heq]
    exact find_modify_of_ne (fun _ => rfl) heq

theorem addWatch_of_none (h : k.watch inode = none) :
    (k.addWatch inode mask).1 = k.nextWd ∧
      (k.addWatch inode mask).2.nextWd = k.nextWd + 1 ∧
      (k.addWatch inode mask).2.watch inode' =
        if inode' = inode then some ⟨inode, k.nextWd, mask⟩ else k.watch inode' := by
  have hadd : k.addWatch inode mask = (k.nextWd, { k with
      watches := k.watches ++ [⟨inode, k.nextWd, mask⟩], nextWd := k.nextWd + 1 }) := by
    simp only [WatchKernel.addWatch, h]
  rw [hadd]
  exact ⟨rfl, rfl, find_append_singleton h⟩

theorem addWatch_entries : (k.addWatch inode mask).2.entries = k.entries := by
  rw [WatchKernel.addWatch]
  split
  · rfl
  · rfl

theorem addWatch_nextWd : k.nextWd ≤ (k.addWatch inode mask).2.nextWd := by
  rw [WatchKernel.addWatch]
  split
  · exact Int.le_refl _
  · exact Int.le_add_one (Int.le_refl _)

theorem unlink_inode {entry entry' : Nat} (h : (k.unlink entry).inode entry' = some inode) :
    k.inode entry' = some inode ∧ (k.unlink entry).watch inode = k.watch inode := by
  have hfind : find FileEntry.entry (erase FileEntry.entry k.entries entry) entry' =
      if entry' = entry then none else find FileEntry.entry k.entries entry' := find_erase
  obtain ⟨file, hfile, rfl⟩ := Option.map_eq_some_iff.mp h
  change find FileEntry.entry (erase FileEntry.entry k.entries entry) entry' = some file at hfile
  have hmem := (find_mem hfile).1
  rw [hfind] at hfile
  split at hfile
  · cases hfile
  · refine ⟨by rw [WatchKernel.inode, hfile]; rfl, ?_⟩
    cases hwatch : k.watch file.inode with
    | none =>
      refine List.find?_eq_none.mpr fun w hw => ?_
      exact List.find?_eq_none.mp hwatch w (List.mem_filter.mp hw).1
    | some watch =>
      have hinode : watch.inode = file.inode := (find_mem hwatch).2
      refine find_filter_of_pos hwatch (decide_eq_true (.inr (List.any_eq_true.mpr ⟨file, hmem, ?_⟩)))
      rw [hinode, decide_eq_true_eq]

theorem create_inode {entry entry' : Nat} (hfree : k.inode entry = none) (hne : entry' ≠ entry) :
    (k.create entry).inode entry' = k.inode entry' := by
  have habsent : find FileEntry.entry k.entries entry = none := Option.map_eq_none_iff.mp hfree
  have hfind : find FileEntry.entry (k.entries ++ [⟨entry, k.nextInode⟩]) entry' =
      if entry' = entry then some ⟨entry, k.nextInode⟩ else find FileEntry.entry k.entries entry' :=
    find_append_singleton habsent
  rw [if_neg hne] at hfind
  rw [WatchKernel.inode, WatchKernel.inode, WatchKernel.create, hfind]

theorem rmWatch_watch {k' : WatchKernel} {wd : Int} {watch : Watch} (h : k.rmWatch wd = some k')
    (hwatch : k.watch inode = some watch) (hne : watch.wd ≠ wd) :
    k'.watch inode = some watch := by
  rw [WatchKernel.rmWatch] at h
  split at h
  · cases h
    exact find_filter_of_pos hwatch (decide_eq_true hne)
  · cases h

end

/-! ## The events that remain -/

theorem remainingEvents_step {fileName : FileName} (infos : List WatcherInfo) :
    ∀ start : UInt32, Covers (infos.foldl (fun events info =>
        if info.fileName = fileName ∧ 0 < info.wd then events ||| info.events else events) start)
        start ∧
      ∀ info ∈ infos, info.fileName = fileName → 0 < info.wd →
        Covers (infos.foldl (fun events info =>
          if info.fileName = fileName ∧ 0 < info.wd then events ||| info.events else events) start)
          info.events := by
  induction infos with
  | nil => exact fun start => ⟨.refl start, nofun⟩
  | cons info infos ih =>
    intro start
    rw [List.foldl_cons]
    obtain ⟨hstart, hothers⟩ := ih
      (if info.fileName = fileName ∧ 0 < info.wd then start ||| info.events else start)
    refine ⟨hstart.trans ?_, fun other hmem hname hwd => ?_⟩
    · split
      · exact covers_or_left _ _
      · exact .refl _
    · rcases List.mem_cons.mp hmem with rfl | hrest
      · rw [if_pos ⟨hname, hwd⟩] at hstart ⊢
        exact hstart.trans (covers_or_right _ _)
      · exact hothers other hrest hname hwd

variable {info : WatcherInfo}

theorem remainingEvents_covers {infos : List WatcherInfo} (hmem : info ∈ infos)
    (hwd : 0 < info.wd) :
    Covers (remainingEvents infos info.fileName) info.events :=
  (remainingEvents_step infos 0).2 info hmem rfl hwd

theorem exists_of_remainingEvents {infos : List WatcherInfo} {fileName : FileName}
    (h : 0 < remainingEvents infos fileName) :
    ∃ info ∈ infos, info.fileName = fileName ∧ 0 < info.wd := by
  by_contra hnone
  have hzero : remainingEvents infos fileName = 0 := by
    rw [remainingEvents]
    induction infos with
    | nil => rfl
    | cons info infos ih =>
      have hnot : ¬ (info.fileName = fileName ∧ 0 < info.wd) :=
        fun hinfo => hnone ⟨info, List.mem_cons_self, hinfo⟩
      rw [List.foldl_cons, if_neg hnot]
      refine ih ?_ fun ⟨other, hmem, hother⟩ =>
        hnone ⟨other, List.mem_cons_of_mem _ hmem, hother⟩
      rwa [remainingEvents, List.foldl_cons, if_neg hnot] at h
  rw [hzero] at h
  exact absurd h (by decide)

/-! ## The invariant -/

/-- What is cached for a path. -/
def FileWatcher.file (s : FileWatcher) (fileName : FileName) : Option WatchedFile :=
  find WatchedFile.fileName s.wdFileNameCache fileName

/-- The watcher of a number. -/
def FileWatcher.watcher (s : FileWatcher) (i : Nat) : Option WatcherInfo := s.watchers[i]?

theorem updateWatchedEvents_file (s : FileWatcher) (p q : FileName) (wd : Int) (events : UInt32) :
    (s.updateWatchedEvents p wd events).file q =
      if q = p then some ⟨p, wd, events⟩ else s.file q := find_put

section

variable (entryOf : FileName → Nat)

/-- What holds of the cache and the kernel; that every path that is cached has a started watcher
is not part of it. -/
structure FileWatcher.Core (s : FileWatcher) : Prop where
  nodup : s.watcherInfoCache.Nodup
  bound : ∀ i ∈ s.watcherInfoCache, i < s.watchers.length
  closed : s.notifyOpen = false → s.watcherInfoCache = []
  nonzero : ∀ i info, s.watcher i = some info → info.events ≠ 0
  below : ∀ i info, s.watcher i = some info → info.wd < s.kernel.nextWd
  active : ∀ i info, s.watcher i = some info → info.active = true →
    i ∈ s.watcherInfoCache ∧ ∃ file, s.file info.fileName = some file ∧ info.wd = file.wd ∧
      Covers file.events info.events
  idle : ∀ i info, s.watcher i = some info → i ∈ s.watcherInfoCache → 0 < info.wd →
    info.active = true
  distinct : Distinct WatchedFile.fileName s.wdFileNameCache
  wd : ∀ p file, s.file p = some file → 0 < file.wd ∧ file.wd < s.kernel.nextWd
  wds : ∀ p file p' file', s.file p = some file → s.file p' = some file' → file.wd = file'.wd →
    p = p'
  owner : ∀ i info p file, s.watcher i = some info → s.file p = some file →
    info.wd = file.wd → info.fileName = p
  watched : ∀ p file inode, s.file p = some file → s.kernel.inode (entryOf p) = some inode →
    ∃ watch, s.kernel.watch inode = some watch ∧ watch.wd = file.wd ∧
      Covers watch.mask file.events
  next : 0 < s.kernel.nextWd

/-- A started watcher of the path. -/
def FileWatcher.Used (s : FileWatcher) (p : FileName) : Prop :=
  ∃ i info, s.watcher i = some info ∧ info.active = true ∧ info.fileName = p

structure FileWatcher.Inv (s : FileWatcher) : Prop extends s.Core entryOf where
  used : ∀ p file, s.file p = some file → s.Used p

variable {entryOf}

/-! ## Watching a path -/

variable {s : FileWatcher} {i : Nat}

theorem watcher_setInfo (h : s.watcher i = some info) (info' : WatcherInfo) (j : Nat) :
    (s.setInfo i info').watcher j = if j = i then some info' else s.watcher j := by
  have hbound : i < s.watchers.length := (List.getElem?_eq_some_iff.mp h).1
  rw [FileWatcher.watcher, FileWatcher.setInfo]
  by_cases heq : j = i
  · rw [heq, if_pos rfl]
    exact List.getElem?_set_self hbound
  · rw [if_neg heq]
    exact List.getElem?_set_ne (Ne.symm heq)

variable {file : WatchedFile}

/-- A watcher gets the descriptor that is cached for its path. -/
theorem FileWatcher.Core.activate (hs : s.Core entryOf) (hinfo : s.watcher i = some info)
    (hadded : i ∈ s.watcherInfoCache) (hfile : s.file info.fileName = some file)
    (hcovers : Covers file.events info.events) :
    (s.setInfo i { info with wd := file.wd, active := true }).Core entryOf := by
  have hset := watcher_setInfo hinfo { info with wd := file.wd, active := true }
  refine { hs with bound := ?_, nonzero := ?_, below := ?_, active := ?_, idle := ?_, owner := ?_ }
  · intro j hj
    rw [FileWatcher.setInfo, List.length_set]
    exact hs.bound j hj
  · intro j info' hj
    rw [hset] at hj
    split at hj
    · cases hj
      exact hs.nonzero i info hinfo
    · exact hs.nonzero j info' hj
  · intro j info' hj
    rw [hset] at hj
    split at hj
    · cases hj
      exact (hs.wd _ file hfile).2
    · exact hs.below j info' hj
  · intro j info' hj hactive
    rw [hset] at hj
    split at hj
    · next heq =>
      cases hj
      rw [heq]
      exact ⟨hadded, file, hfile, rfl, hcovers⟩
    · exact hs.active j info' hj hactive
  · intro j info' hj hmem hwd
    rw [hset] at hj
    split at hj
    · cases hj
      rfl
    · exact hs.idle j info' hj hmem hwd
  · intro j info' p file' hj hfile' hwd
    rw [hset] at hj
    split at hj
    · cases hj
      exact hs.wds _ file p file' hfile hfile' hwd
    · exact hs.owner j info' p file' hj hfile' hwd

variable {p : FileName}

/-- The watch of a path that is cached gets another mask, and the cache may follow it. -/
theorem FileWatcher.Core.remask (hs : s.Core entryOf) {inode : Nat} {watch : Watch}
    {mask events : UInt32} {cache : List WatchedFile} (hfile : s.file p = some file)
    (hinode : s.kernel.inode (entryOf p) = some inode) (hwatch : s.kernel.watch inode = some watch)
    (hwd : watch.wd = file.wd) (hdistinct : Distinct WatchedFile.fileName cache)
    (hcache : ∀ q, find WatchedFile.fileName cache q =
      if q = p then some ⟨p, file.wd, events⟩ else s.file q) (hmask : Covers mask events)
    (hactive : ∀ i info, s.watcher i = some info → info.active = true → info.fileName = p →
      Covers events info.events) :
    ({ s with kernel := (s.kernel.addWatch inode mask).2, wdFileNameCache := cache } :
      FileWatcher).Core entryOf := by
  have hnext := @addWatch_nextWd s.kernel inode mask
  have hfiles : ∀ q file', find WatchedFile.fileName cache q = some file' →
      ∃ old, s.file q = some old ∧ file'.wd = old.wd := by
    intro q file' hq
    rw [hcache] at hq
    split at hq
    · next heq =>
      cases hq
      exact ⟨file, heq ▸ hfile, rfl⟩
    · exact ⟨file', hq, rfl⟩
  have hentries : ∀ e, (s.kernel.addWatch inode mask).2.inode e = s.kernel.inode e := by
    intro e
    rw [WatchKernel.inode, WatchKernel.inode, addWatch_entries]
  refine { hs with
    below := fun i info hi => Int.lt_of_lt_of_le (hs.below i info hi) hnext
    active := ?_, distinct := hdistinct, wd := ?_, wds := ?_, owner := ?_, watched := ?_
    next := Int.lt_of_lt_of_le hs.next hnext }
  · intro i info hi hactive'
    obtain ⟨hmem, old, hold, holdWd, hcovers⟩ := hs.active i info hi hactive'
    refine ⟨hmem, ?_⟩
    by_cases heq : info.fileName = p
    · rw [heq, hfile] at hold
      cases hold
      exact ⟨⟨p, file.wd, events⟩, by rw [FileWatcher.file, hcache, if_pos heq], holdWd,
        hactive i info hi hactive' heq⟩
    · exact ⟨old, by rw [FileWatcher.file, hcache, if_neg heq, hold], holdWd, hcovers⟩
  · intro q file' hq
    obtain ⟨old, hold, heq⟩ := hfiles q file' hq
    rw [heq]
    exact ⟨(hs.wd q old hold).1, Int.lt_of_lt_of_le (hs.wd q old hold).2 hnext⟩
  · intro q file' q' file'' hq hq' heq
    obtain ⟨old, hold, holdWd⟩ := hfiles q file' hq
    obtain ⟨old', hold', holdWd'⟩ := hfiles q' file'' hq'
    exact hs.wds q old q' old' hold hold' (holdWd.symm.trans (heq.trans holdWd'))
  · intro i info q file' hi hq heq
    obtain ⟨old, hold, holdWd⟩ := hfiles q file' hq
    exact hs.owner i info q old hi hold (heq.trans holdWd)
  · intro q file' inode' hq hinode'
    rw [hentries] at hinode'
    have hwatch' := (addWatch_of_some inode' mask hwatch).2
    by_cases heq : q = p
    · subst heq
      rw [FileWatcher.file, hcache, if_pos rfl] at hq
      cases hq
      rw [hinode] at hinode'
      cases hinode'
      rw [if_pos rfl] at hwatch'
      exact ⟨_, hwatch', hwd, hmask⟩
    · rw [FileWatcher.file, hcache, if_neg heq] at hq
      obtain ⟨other, hother, hotherWd, hcovers⟩ := hs.watched q file' inode' hq hinode'
      refine ⟨other, ?_, hotherWd, hcovers⟩
      have hne : inode' ≠ inode := by
        rintro rfl
        rw [hwatch] at hother
        cases hother
        exact heq (hs.wds q file' p file hq hfile (hotherWd.symm.trans hwd))
      rw [hwatch', if_neg hne]
      exact hother

/-- A path that is not cached, of an inode that is not watched, is watched. -/
theorem FileWatcher.Core.watchNew (hs : s.Core entryOf) {inode : Nat} (mask : UInt32)
    (hfile : s.file p = none) (hinode : s.kernel.inode (entryOf p) = some inode)
    (hwatch : s.kernel.watch inode = none) :
    ({ s with kernel := (s.kernel.addWatch inode mask).2 }.updateWatchedEvents p s.kernel.nextWd
      mask).Core entryOf := by
  obtain ⟨-, hnext, -⟩ := addWatch_of_none inode mask hwatch
  have hentries : ∀ e, (s.kernel.addWatch inode mask).2.inode e = s.kernel.inode e := by
    intro e
    rw [WatchKernel.inode, WatchKernel.inode, addWatch_entries]
  have hcache : ∀ q, find WatchedFile.fileName
      (put WatchedFile.fileName s.wdFileNameCache ⟨p, s.kernel.nextWd, mask⟩) q =
        if q = p then some ⟨p, s.kernel.nextWd, mask⟩ else s.file q := fun q => find_put
  have hlt : s.kernel.nextWd < (s.kernel.addWatch inode mask).2.nextWd := by
    rw [hnext]
    exact Int.lt_succ _
  refine { hs with
    below := fun i info hi => Int.lt_trans (hs.below i info hi) hlt
    active := ?_, distinct := hs.distinct.put _, wd := ?_, wds := ?_, owner := ?_, watched := ?_
    next := Int.lt_trans hs.next hlt }
  · intro i info hi hactive
    obtain ⟨hmem, old, hold, holdWd, hcovers⟩ := hs.active i info hi hactive
    have hne : info.fileName ≠ p := by
      rintro rfl
      rw [hfile] at hold
      cases hold
    exact ⟨hmem, old, (hcache _).trans (by rw [if_neg hne, hold]), holdWd, hcovers⟩
  · intro q file hq
    rw [FileWatcher.file, FileWatcher.updateWatchedEvents, hcache] at hq
    split at hq
    · cases hq
      exact ⟨hs.next, hlt⟩
    · exact ⟨(hs.wd q file hq).1, Int.lt_trans (hs.wd q file hq).2 hlt⟩
  · intro q file q' file' hq hq' heq
    rw [FileWatcher.file, FileWatcher.updateWatchedEvents, hcache] at hq hq'
    split at hq
    · next hqp =>
      cases hq
      split at hq'
      · next hqp' => exact hqp.trans hqp'.symm
      · exact absurd heq.symm (Int.ne_of_lt (hs.wd q' file' hq').2)
    · split at hq'
      · cases hq'
        exact absurd heq (Int.ne_of_lt (hs.wd q file hq).2)
      · exact hs.wds q file q' file' hq hq' heq
  · intro i info q file hi hq heq
    rw [FileWatcher.file, FileWatcher.updateWatchedEvents, hcache] at hq
    split at hq
    · cases hq
      exact absurd heq (Int.ne_of_lt (hs.below i info hi))
    · exact hs.owner i info q file hi hq heq
  · intro q file inode' hq hinode'
    change (s.kernel.addWatch inode mask).2.inode (entryOf q) = some inode' at hinode'
    rw [hentries] at hinode'
    have hwatch' := (addWatch_of_none inode' mask hwatch).2.2
    rw [FileWatcher.file, FileWatcher.updateWatchedEvents, hcache] at hq
    split at hq
    · next hqp =>
      cases hq
      rw [hqp, hinode] at hinode'
      cases hinode'
      rw [if_pos rfl] at hwatch'
      exact ⟨_, hwatch', rfl, .refl _⟩
    · obtain ⟨other, hother, hrest⟩ := hs.watched q file inode' hq hinode'
      have hne : inode' ≠ inode := by
        rintro rfl
        rw [hwatch] at hother
        cases hother
      rw [if_neg hne, hother] at hwatch'
      exact ⟨other, hwatch', hrest⟩

/-! ## `StartNotify` -/

theorem FileWatcher.Used.setInfo {info info' : WatcherInfo} (h : s.Used p)
    (hinfo : s.watcher i = some info) (hname : info'.fileName = info.fileName)
    (hactive : info'.active = true) :
    (s.setInfo i info').Used p := by
  obtain ⟨j, other, hj, hother, hp⟩ := h
  have hset := watcher_setInfo hinfo info' j
  by_cases heq : j = i
  · subst heq
    rw [hinfo] at hj
    cases hj
    exact ⟨j, info', by rw [hset, if_pos rfl], hactive, hname.trans hp⟩
  · exact ⟨j, other, by rw [hset, if_neg heq, hj], hother, hp⟩

theorem FileWatcher.Core.started (hs : s.Core entryOf) (hinfo : s.watcher i = some info)
    (hadded : i ∈ s.watcherInfoCache) (hfile : s.file info.fileName = some file)
    (hcovers : Covers file.events info.events)
    (hused : ∀ q file', q ≠ info.fileName → s.file q = some file' → s.Used q) :
    (s.setInfo i { info with wd := file.wd, active := true }).Inv entryOf := by
  refine ⟨hs.activate hinfo hadded hfile hcovers, fun q file' hq => ?_⟩
  by_cases heq : q = info.fileName
  · exact ⟨i, _, (watcher_setInfo hinfo _ i).trans (if_pos rfl), rfl, heq.symm⟩
  · exact (hused q file' heq hq).setInfo hinfo rfl rfl

theorem findWatchedEvents_of_some (h : s.file p = some file) (event : UInt32) :
    s.findWatchedEvents p event = (decide (file.events &&& event = event), file.wd, file.events) := by
  rw [FileWatcher.file] at h
  rw [FileWatcher.findWatchedEvents, h]

theorem findWatchedEvents_of_none (h : s.file p = none) (event : UInt32) :
    s.findWatchedEvents p event = (false, -1, 0) := by
  rw [FileWatcher.file] at h
  rw [FileWatcher.findWatchedEvents, h]

variable {refused : Option Nat}

theorem inotifyAddWatch_ok {s t : FileWatcher} {mask : UInt32} {wd : Int}
    (h : s.inotifyAddWatch entryOf p mask refused = .ok (wd, t)) :
    ∃ inode, s.kernel.inode (entryOf p) = some inode ∧ wd = (s.kernel.addWatch inode mask).1 ∧
      t = { s with kernel := (s.kernel.addWatch inode mask).2 } := by
  cases refused with
  | some e => cases h
  | none =>
    cases hinode : s.kernel.inode (entryOf p) with
    | none =>
      simp only [FileWatcher.inotifyAddWatch, hinode] at h
      cases h
    | some inode =>
      simp only [FileWatcher.inotifyAddWatch, hinode] at h
      cases h
      exact ⟨inode, rfl, rfl, rfl⟩

theorem startNotify_inv (hs : s.Inv entryOf) (hinfo : s.watcher i = some info)
    (hadded : i ∈ s.watcherInfoCache)
    (halias : ∀ inode watch, s.kernel.inode (entryOf info.fileName) = some inode →
      s.kernel.watch inode = some watch →
      ∃ file, s.file info.fileName = some file ∧ file.wd = watch.wd) :
    (s.startNotify entryOf i info refused).2.Inv entryOf := by
  rw [FileWatcher.startNotify]
  split
  · exact hs
  · cases hfile : s.file info.fileName with
    | some file =>
      have hpos := (hs.wd _ file hfile).1
      rw [findWatchedEvents_of_some hfile]
      dsimp only
      split
      · next hwatched =>
        have hcovers : Covers file.events info.events := by simpa [Covers] using hwatched.1
        exact hs.started hinfo hadded hfile hcovers fun q file' _ hq => hs.used q file' hq
      · rw [if_pos (by omega)]
        cases hadd : s.inotifyAddWatch entryOf info.fileName (file.events ||| info.events) refused with
        | error e => exact hs
        | ok added =>
          obtain ⟨newWd, t⟩ := added
          obtain ⟨inode, hinode, rfl, rfl⟩ := inotifyAddWatch_ok hadd
          obtain ⟨watch, hwatch, hwd, -⟩ := hs.watched _ file inode hfile hinode
          have hnew := (addWatch_of_some inode (file.events ||| info.events) hwatch).1.trans hwd
          have hcore : (({ s with kernel := _ } : FileWatcher).updateWatchedEvents info.fileName
              file.wd (file.events ||| info.events)).Core entryOf :=
            hs.remask hfile hinode hwatch hwd
              (hs.distinct.put _) (fun q => find_put) (.refl _) fun j other hj hactive hname => by
                obtain ⟨-, old, hold, -, hcovers⟩ := hs.active j other hj hactive
                rw [hname, hfile] at hold
                cases hold
                exact (covers_or_left _ _).trans hcovers
          have hcached := (updateWatchedEvents_file { s with kernel := (s.kernel.addWatch inode
            (file.events ||| info.events)).2 } info.fileName info.fileName file.wd
            (file.events ||| info.events)).trans (if_pos rfl)
          dsimp only
          rw [hnew]
          have hstarted := hcore.started hinfo hadded hcached (covers_or_right _ _)
            fun q file' hne hq => by
              rw [updateWatchedEvents_file, if_neg hne] at hq
              exact hs.used q file' hq
          exact hstarted
    | none =>
      rw [findWatchedEvents_of_none hfile]
      dsimp only
      rw [if_neg (by simp), if_neg (by simp)]
      cases hadd : s.inotifyAddWatch entryOf info.fileName info.events refused with
      | error e => exact hs
      | ok added =>
        obtain ⟨newWd, t⟩ := added
        obtain ⟨inode, hinode, rfl, rfl⟩ := inotifyAddWatch_ok hadd
        have hwatch : s.kernel.watch inode = none := by
          cases hwatch : s.kernel.watch inode with
          | none => rfl
          | some watch =>
            obtain ⟨file, hsome, -⟩ := halias inode watch hinode hwatch
            rw [hfile] at hsome
            cases hsome
        have hnew := (addWatch_of_none inode info.events hwatch).1
        have hcore := hs.watchNew info.events hfile hinode hwatch
        have hcached := (updateWatchedEvents_file { s with kernel := (s.kernel.addWatch inode
          info.events).2 } info.fileName info.fileName s.kernel.nextWd info.events).trans
          (if_pos rfl)
        dsimp only
        rw [hnew]
        have hstarted := hcore.started hinfo hadded hcached (.refl _) fun q file' hne hq => by
          rw [updateWatchedEvents_file, if_neg hne] at hq
          exact hs.used q file' hq
        exact hstarted

/-! ## `StopNotify` -/

/-- The state in which the rest of `StopNotify` runs. -/
def FileWatcher.stopped (s : FileWatcher) (i : Nat) (info : WatcherInfo) : FileWatcher :=
  ((s.setInfo i { info with active := false }).removeWatcherInfo i info).2

theorem stopped_watcher (hinfo : s.watcher i = some info) (j : Nat) :
    (s.stopped i info).watcher j =
      if j = i then some { info with active := false } else s.watcher j :=
  watcher_setInfo hinfo _ j

theorem stopped_active {i j : Nat} {info other : WatcherInfo} (hinfo : s.watcher i = some info)
    (hj : (s.stopped i info).watcher j = some other) (hactive : other.active = true) :
    j ≠ i ∧ s.watcher j = some other := by
  rw [stopped_watcher hinfo] at hj
  split at hj
  · cases hj
    cases hactive
  · next hne => exact ⟨hne, hj⟩

theorem FileWatcher.Core.stopped (hs : s.Core entryOf) (hinfo : s.watcher i = some info) :
    (s.stopped i info).Core entryOf := by
  have hwatcher : ∀ j other, (s.stopped i info).watcher j = some other →
      ∃ old, s.watcher j = some old ∧ old.fileName = other.fileName ∧ old.wd = other.wd ∧
        old.events = other.events := by
    intro j other hj
    rw [stopped_watcher hinfo] at hj
    split at hj
    · next heq =>
      cases hj
      exact ⟨info, heq ▸ hinfo, rfl, rfl, rfl⟩
    · exact ⟨other, hj, rfl, rfl, rfl⟩
  refine { hs with
    nodup := hs.nodup.erase i, bound := ?_, closed := ?_, nonzero := ?_, below := ?_
    active := ?_, idle := ?_, owner := ?_ }
  · intro j hj
    show j < (s.watchers.set i _).length
    rw [List.length_set]
    exact hs.bound j (List.mem_of_mem_erase hj)
  · intro hclosed
    show s.watcherInfoCache.erase i = []
    rw [hs.closed hclosed, List.erase_nil]
  · intro j other hj
    obtain ⟨old, hold, -, -, hevents⟩ := hwatcher j other hj
    rw [← hevents]
    exact hs.nonzero j old hold
  · intro j other hj
    obtain ⟨old, hold, -, hwd, -⟩ := hwatcher j other hj
    rw [← hwd]
    exact hs.below j old hold
  · intro j other hj hactive
    obtain ⟨hne, hold⟩ := stopped_active hinfo hj hactive
    obtain ⟨hmem, hfile⟩ := hs.active j other hold hactive
    exact ⟨(List.mem_erase_of_ne hne).mpr hmem, hfile⟩
  · intro j other hj hmem hwd
    rw [stopped_watcher hinfo] at hj
    split at hj
    · next heq =>
      rw [heq] at hmem
      exact absurd hmem (List.Nodup.not_mem_erase hs.nodup)
    · exact hs.idle j other hj (List.mem_of_mem_erase hmem) hwd
  · intro j other p file hj hfile heq
    obtain ⟨old, hold, hname, hwd, -⟩ := hwatcher j other hj
    rw [← hname]
    exact hs.owner j old p file hold hfile (hwd.trans heq)

theorem FileWatcher.Used.stopped (h : s.Used p) (hinfo : s.watcher i = some info)
    (hne : p ≠ info.fileName) :
    (s.stopped i info).Used p := by
  obtain ⟨j, other, hj, hactive, hp⟩ := h
  refine ⟨j, other, ?_, hactive, hp⟩
  rw [stopped_watcher hinfo, if_neg, hj]
  rintro rfl
  rw [hinfo] at hj
  cases hj
  exact hne hp.symm

theorem used_of_remainingEvents (hs : s.Core entryOf) (h : 0 < remainingEvents s.infos p) :
    s.Used p := by
  obtain ⟨other, hmem, hname, hwd⟩ := exists_of_remainingEvents h
  obtain ⟨j, hj, hother⟩ := List.mem_filterMap.mp hmem
  exact ⟨j, other, hother, hs.idle j other hother hj hwd, hname⟩

theorem remainingEvents_covers_active (hs : s.Core entryOf) {j : Nat} {other : WatcherInfo}
    (hother : s.watcher j = some other) (hactive : other.active = true) :
    Covers (remainingEvents s.infos other.fileName) other.events := by
  obtain ⟨hmem, file, hfile, hwd, -⟩ := hs.active j other hother hactive
  refine remainingEvents_covers (List.mem_filterMap.mpr ⟨j, hmem, hother⟩) ?_
  rw [hwd]
  exact (hs.wd _ file hfile).1

/-- What is cached for a path that is not used goes, and the kernel may drop its watch. -/
theorem FileWatcher.Core.forget (hs : s.Core entryOf) {k : WatchKernel} (hunused : ¬ s.Used p)
    (hentries : k.entries = s.kernel.entries) (hnext : k.nextWd = s.kernel.nextWd)
    (hwatch : ∀ q file inode watch, q ≠ p → s.file q = some file →
      s.kernel.watch inode = some watch → watch.wd = file.wd → k.watch inode = some watch) :
    (({ s with kernel := k } : FileWatcher).removeWatchedEvents p).Core entryOf := by
  have herase : ∀ q, (({ s with kernel := k } : FileWatcher).removeWatchedEvents p).file q =
      if q = p then none else s.file q := fun q => find_erase
  have hcached : ∀ q file, (({ s with kernel := k } : FileWatcher).removeWatchedEvents p).file q =
      some file → q ≠ p ∧ s.file q = some file := by
    intro q file hq
    rw [herase] at hq
    split at hq
    · cases hq
    · next hne => exact ⟨hne, hq⟩
  refine { hs with
    below := ?_, active := ?_, distinct := hs.distinct.erase, wd := ?_, wds := ?_, owner := ?_
    watched := ?_, next := ?_ }
  · intro j other hj
    show other.wd < k.nextWd
    rw [hnext]
    exact hs.below j other hj
  · intro j other hj hactive
    obtain ⟨hmem, file, hfile, hrest⟩ := hs.active j other hj hactive
    refine ⟨hmem, file, ?_, hrest⟩
    rw [herase, if_neg fun hname => hunused ⟨j, other, hj, hactive, hname⟩]
    exact hfile
  · intro q file hq
    show 0 < file.wd ∧ file.wd < k.nextWd
    rw [hnext]
    exact hs.wd q file (hcached q file hq).2
  · intro q file q' file' hq hq'
    exact hs.wds q file q' file' (hcached q file hq).2 (hcached q' file' hq').2
  · intro j other q file hj hq
    exact hs.owner j other q file hj (hcached q file hq).2
  · intro q file inode hq hinode
    obtain ⟨hne, hfile⟩ := hcached q file hq
    have hinode' : s.kernel.inode (entryOf q) = some inode := by
      rw [WatchKernel.inode, ← hentries]
      exact hinode
    obtain ⟨watch, hwatch', hwd, hcovers⟩ := hs.watched q file inode hfile hinode'
    exact ⟨watch, hwatch q file inode watch hne hfile hwatch' hwd, hwd, hcovers⟩
  · show 0 < k.nextWd
    rw [hnext]
    exact hs.next

theorem closeNotifyFd_inv (hs : s.Inv entryOf) : s.closeNotifyFd.Inv entryOf := by
  rw [FileWatcher.closeNotifyFd]
  split
  · next hempty =>
    have hnone : ∀ p file, s.file p ≠ some file := by
      intro p file hfile
      obtain ⟨j, other, hj, hactive, -⟩ := hs.used p file hfile
      have hmem := (hs.active j other hj hactive).1
      rw [hempty] at hmem
      cases hmem
    exact { hs with
      closed := fun _ => hempty
      watched := fun p file inode hfile => absurd hfile (hnone p file) }
  · exact hs

theorem notifyToWatchNewEvents_inv (hs : s.Inv entryOf) {wd : Int} (hused : s.Used p)
    (hmask : (s.kernel.inode (entryOf p)).isSome → refused = none → ∀ file, s.file p = some file →
      file.wd ≠ wd → Covers (remainingEvents s.infos p) file.events) :
    (s.notifyToWatchNewEvents entryOf p wd (remainingEvents s.infos p) refused).2.Inv entryOf := by
  rw [FileWatcher.notifyToWatchNewEvents]
  cases hadd : s.inotifyAddWatch entryOf p (remainingEvents s.infos p) refused with
  | error e => exact hs
  | ok added =>
    obtain ⟨newWd, t⟩ := added
    obtain ⟨inode, hinode, rfl, rfl⟩ := inotifyAddWatch_ok hadd
    have hrefused : refused = none := by
      cases refused with
      | none => rfl
      | some e => cases hadd
    obtain ⟨j, other, hj, hactive, rfl⟩ := hused
    obtain ⟨-, file, hfile, -, -⟩ := hs.active j other hj hactive
    obtain ⟨watch, hwatch, hwd, -⟩ := hs.watched _ file inode hfile hinode
    have hnew := (addWatch_of_some inode (remainingEvents s.infos other.fileName) hwatch).1.trans hwd
    dsimp only
    rw [hnew]
    by_cases heq : file.wd = wd
    · rw [if_neg (fun hne => hne heq), ← heq]
      have hcore := hs.remask hfile hinode hwatch
        hwd (hs.distinct.put _) (fun q => updateWatchedEvents_file s other.fileName q file.wd
          (remainingEvents s.infos other.fileName)) (.refl _) fun i info hi hstarted hname => by
          rw [← hname]
          exact remainingEvents_covers_active hs.toCore hi hstarted
      refine ⟨hcore, fun q file' hq => ?_⟩
      change find WatchedFile.fileName (put WatchedFile.fileName s.wdFileNameCache
        ⟨other.fileName, file.wd, _⟩) q = some file' at hq
      rw [find_put] at hq
      split at hq
      · next hname => exact ⟨j, other, hj, hactive, hname.symm⟩
      · exact hs.used q file' hq
    · -- the watch has another mask now than the cache says
      rw [if_pos heq]
      have hname := (find_mem hfile).2
      have hcached : ∀ q, find WatchedFile.fileName s.wdFileNameCache q =
          if q = other.fileName then some ⟨other.fileName, file.wd, file.events⟩ else s.file q := by
        intro q
        by_cases hq : q = other.fileName
        · rw [if_pos hq, hq]
          exact hfile.trans (by rw [← hname])
        · rw [if_neg hq, FileWatcher.file]
      have hcore := hs.remask hfile hinode hwatch hwd hs.distinct hcached
        (hmask (by rw [hinode]; rfl) hrefused file hfile heq) fun i info hi hstarted hsame => by
          obtain ⟨-, old, hold, -, hcovers⟩ := hs.active i info hi hstarted
          rw [hsame, hfile] at hold
          cases hold
          exact hcovers
      exact ⟨hcore, hs.used⟩

theorem stopNotify_inv (hs : s.Inv entryOf) {denied : Bool} (hinfo : s.watcher i = some info)
    (hmask : (s.kernel.inode (entryOf info.fileName)).isSome → refused = none →
      ∀ file, s.file info.fileName = some file → file.wd ≠ info.wd →
      Covers (remainingEvents (s.stopped i info).infos info.fileName) file.events) :
    (s.stopNotify entryOf i info denied refused).2.Inv entryOf := by
  have hcore := hs.stopped hinfo
  have hothers : ∀ q file, q ≠ info.fileName → (s.stopped i info).file q = some file →
      (s.stopped i info).Used q := fun q file hne hq => (hs.used q file hq).stopped hinfo hne
  rw [FileWatcher.stopNotify]
  split
  · next hclosed =>
    have hempty := hs.closed hclosed
    have hsame : s.stopped i info = s.setInfo i { info with active := false } := by
      show ({ s.setInfo i { info with active := false } with
        watcherInfoCache := s.watcherInfoCache.erase i } : FileWatcher) = _
      rw [hempty, List.erase_nil, ← hempty]
      rfl
    rw [hsame] at hcore
    refine ⟨hcore, fun p file hfile => ?_⟩
    obtain ⟨j, other, hj, hactive, -⟩ := hs.used p file hfile
    have hmem := (hs.active j other hj hactive).1
    rw [hempty] at hmem
    cases hmem
  · change (if 0 < remainingEvents (s.stopped i info).infos info.fileName then _ else _ :
      Except WatchErr Unit × FileWatcher).2.Inv entryOf
    split
    · next hremaining =>
      have hused := used_of_remainingEvents hcore hremaining
      have hinv : (s.stopped i info).Inv entryOf := by
        refine ⟨hcore, fun q file hq => ?_⟩
        by_cases hname : q = info.fileName
        · exact hname ▸ hused
        · exact hothers q file hname hq
      split
      · exact notifyToWatchNewEvents_inv hinv hused hmask
      · exact hinv
    · next hremaining =>
      have hunused : ¬ (s.stopped i info).Used info.fileName := by
        rintro ⟨j, other, hj, hactive, hname⟩
        have hcovers := remainingEvents_covers_active hcore hj hactive
        have hzero : remainingEvents (s.stopped i info).infos info.fileName = 0 := by
          have := UInt32.not_lt.mp hremaining
          exact UInt32.le_zero_iff.mp this
        rw [hname, hzero] at hcovers
        exact hcore.nonzero j other hj hcovers.eq_zero
      have hforgotten : ∀ k : WatchKernel, k.entries = (s.stopped i info).kernel.entries →
          k.nextWd = (s.stopped i info).kernel.nextWd →
          (∀ q file inode watch, q ≠ info.fileName → (s.stopped i info).file q = some file →
            (s.stopped i info).kernel.watch inode = some watch → watch.wd = file.wd →
            k.watch inode = some watch) →
          ((({ s.stopped i info with kernel := k } : FileWatcher).removeWatchedEvents
            info.fileName).closeNotifyFd).Inv entryOf := by
        intro k hentries hnext hkept
        refine closeNotifyFd_inv ⟨hcore.forget hunused hentries hnext hkept, fun q file hq => ?_⟩
        change find WatchedFile.fileName (erase WatchedFile.fileName
          (s.stopped i info).wdFileNameCache info.fileName) q = some file at hq
        rw [find_erase] at hq
        split at hq
        · cases hq
        · next hne => exact hothers q file hne hq
      split
      · next k hrm =>
        refine hforgotten k ?_ ?_ ?_
        · rw [WatchKernel.rmWatch] at hrm
          split at hrm
          · cases hrm
            rfl
          · cases hrm
        · rw [WatchKernel.rmWatch] at hrm
          split at hrm
          · cases hrm
            rfl
          · cases hrm
        · intro q file inode watch hne hfile hwatch hwd
          refine rmWatch_watch hrm hwatch fun heq => hne ?_
          exact (hs.owner i info q file hinfo hfile (heq.symm.trans hwd)).symm
      · exact hforgotten _ rfl rfl fun _ _ _ _ _ _ hwatch _ => hwatch

/-! ## The other steps -/

/-- A watcher that is made is idle, and watches nothing. -/
theorem FileWatcher.Inv.addWatcher (hs : s.Inv entryOf) (hevents : info.events ≠ 0)
    (hwd : info.wd = -1) (hidle : info.active = false) :
    ({ s with notifyOpen := true, watchers := s.watchers ++ [info],
              watcherInfoCache := s.watcherInfoCache ++ [s.watchers.length] } :
      FileWatcher).Inv entryOf := by
  have hnew : ∀ j other, (s.watchers ++ [info])[j]? = some other →
      s.watcher j = some other ∨ j = s.watchers.length ∧ other = info := by
    intro j other hj
    rw [List.getElem?_append] at hj
    split at hj
    · exact .inl hj
    · obtain ⟨hle, hother⟩ := List.getElem?_eq_some_iff.mp hj
      rw [List.length_singleton] at hle
      refine .inr ⟨by omega, ?_⟩
      rw [← hother, List.getElem_singleton]
  have hneg : ¬ 0 < info.wd := by
    rw [hwd]
    decide
  refine { hs with
    nodup := ?_, bound := ?_, closed := nofun, nonzero := ?_, below := ?_, active := ?_
    idle := ?_, owner := ?_, used := ?_ }
  · refine List.nodup_append.mpr ⟨hs.nodup, List.nodup_singleton _, fun j hj j' hj' => ?_⟩
    rw [List.mem_singleton.mp hj']
    exact Nat.ne_of_lt (hs.bound j hj)
  · intro j hj
    rw [List.length_append]
    rcases List.mem_append.mp hj with hj | hj
    · exact Nat.lt_add_right _ (hs.bound j hj)
    · rw [List.mem_singleton.mp hj]
      exact Nat.lt_succ_self _
  · intro j other hj
    rcases hnew j other hj with hj | ⟨-, rfl⟩
    · exact hs.nonzero j other hj
    · exact hevents
  · intro j other hj
    rcases hnew j other hj with hj | ⟨-, rfl⟩
    · exact hs.below j other hj
    · rw [hwd]
      exact Int.lt_trans (by decide) hs.next
  · intro j other hj hactive
    rcases hnew j other hj with hj | ⟨-, rfl⟩
    · obtain ⟨hmem, hfile⟩ := hs.active j other hj hactive
      exact ⟨List.mem_append_left _ hmem, hfile⟩
    · rw [hidle] at hactive
      cases hactive
  · intro j other hj hmem hpos
    rcases hnew j other hj with hother | ⟨-, rfl⟩
    · rcases List.mem_append.mp hmem with hmem | hlast
      · exact hs.idle j other hother hmem hpos
      · have hlt := (List.getElem?_eq_some_iff.mp hother).1
        exact absurd (List.mem_singleton.mp hlast) (Nat.ne_of_lt hlt)
    · exact absurd hpos hneg
  · intro j other p file hj hfile heq
    rcases hnew j other hj with hj | ⟨-, rfl⟩
    · exact hs.owner j other p file hj hfile heq
    · have hpos := (hs.wd p file hfile).1
      rw [← heq] at hpos
      exact absurd hpos hneg
  · intro p file hfile
    obtain ⟨j, other, hj, hrest⟩ := hs.used p file hfile
    have hlt := (List.getElem?_eq_some_iff.mp hj).1
    exact ⟨j, other, (List.getElem?_append_left hlt).trans hj, hrest⟩

theorem createWatcher_inv (hs : s.Inv entryOf) (fileName : FileName) (events : UInt32)
    (callback : Nat) (notifyOk : Bool) :
    (s.createWatcher fileName events callback notifyOk).Inv entryOf := by
  rw [FileWatcher.createWatcher]
  split
  · exact hs
  · next hevents =>
    split
    · exact hs
    · rw [FileWatcher.addWatcherInfo]
      split
      · exact { hs with closed := nofun }
      · exact hs.addWatcher (fun hzero => hevents (.inl hzero)) rfl rfl

theorem createFile_inv (hs : s.Inv entryOf) {entry : Nat} (hfree : s.kernel.inode entry = none)
    (hunused : ∀ p, s.Used p → entryOf p ≠ entry) :
    ({ s with kernel := s.kernel.create entry } : FileWatcher).Inv entryOf :=
  { hs with
    watched := fun p file inode hfile hinode =>
      hs.watched p file inode hfile
        ((create_inode hfree (hunused p (hs.used p file hfile))).symm.trans hinode) }

theorem deleteFile_inv (hs : s.Inv entryOf) (entry : Nat) :
    ({ s with kernel := s.kernel.unlink entry } : FileWatcher).Inv entryOf := by
  refine { hs with watched := fun p file inode hfile hinode => ?_ }
  obtain ⟨hold, hwatch⟩ := unlink_inode hinode
  obtain ⟨watch, hsome, hrest⟩ := hs.watched p file inode hfile hold
  exact ⟨watch, hwatch.trans hsome, hrest⟩

/-! ## Runs -/

variable (entryOf)

/-- A watcher that was stopped is not started again, and none is started on an inode that is
watched under another path string; a watcher that has another descriptor than its path is stopped
only where the events that remain are all that are cached; and no file is made where a path of a
started watcher comes to. -/
def WatchStepOk (s : FileWatcher) : WatchAction → Prop
  | .start i _ => i ∈ s.watcherInfoCache ∧ ∀ info ∈ s.watcher i,
      ∀ inode ∈ s.kernel.inode (entryOf info.fileName), ∀ watch ∈ s.kernel.watch inode,
      ∃ file ∈ s.file info.fileName, file.wd = watch.wd
  | .stop i _ refused => ∀ info ∈ s.watcher i,
      (s.kernel.inode (entryOf info.fileName)).isSome → refused = none →
      ∀ file ∈ s.file info.fileName, file.wd ≠ info.wd →
      Covers (remainingEvents (s.stopped i info).infos info.fileName) file.events
  | .createFile entry => ∀ info ∈ s.watchers, info.active = true → entryOf info.fileName ≠ entry
  | _ => True

instance decidableWatchStepOk (s : FileWatcher) :
    ∀ a, Decidable (WatchStepOk entryOf s a)
  | .create .. => isTrue trivial
  | .start i _ => inferInstanceAs (Decidable (i ∈ s.watcherInfoCache ∧ ∀ info ∈ s.watcher i,
      ∀ inode ∈ s.kernel.inode (entryOf info.fileName), ∀ watch ∈ s.kernel.watch inode,
      ∃ file ∈ s.file info.fileName, file.wd = watch.wd))
  | .stop i _ refused => inferInstanceAs (Decidable (∀ info ∈ s.watcher i,
      (s.kernel.inode (entryOf info.fileName)).isSome → refused = none →
      ∀ file ∈ s.file info.fileName, file.wd ≠ info.wd →
      Covers (remainingEvents (s.stopped i info).infos info.fileName) file.events))
  | .createFile entry => inferInstanceAs (Decidable (∀ info ∈ s.watchers, info.active = true →
      entryOf info.fileName ≠ entry))
  | .deleteFile _ => isTrue trivial

/-- Every started watcher has the inode its path names watched with its events, and is found for
them, in whatever order the cache is gone through. -/
def FileWatcher.Subscribed (s : FileWatcher) : Prop :=
  ∀ i info inode, s.watcher i = some info → info.active = true →
    s.kernel.inode (entryOf info.fileName) = some inode →
    ∃ watch, s.kernel.watch inode = some watch ∧ Covers watch.mask info.events ∧
      ∀ files, files.Perm s.wdFileNameCache → ∀ event, event ≠ 0 → Covers info.events event →
        i ∈ s.findWatcherInfos files watch.wd event

variable {entryOf}

theorem watchStep_inv (s : FileWatcher) (a : WatchAction) (t : FileWatcher) (hs : s.Inv entryOf)
    (hok : WatchStepOk entryOf s a) (h : watchStep entryOf s a = some t) : t.Inv entryOf := by
  cases a with
  | create fileName events callback notifyOk =>
    cases h
    exact createWatcher_inv hs fileName events callback notifyOk
  | start i refused =>
    obtain ⟨info, hinfo, rfl⟩ := Option.map_eq_some_iff.mp h
    exact startNotify_inv hs hinfo hok.1 fun inode watch hinode hwatch =>
      hok.2 info hinfo inode hinode watch hwatch
  | stop i denied refused =>
    obtain ⟨info, hinfo, rfl⟩ := Option.map_eq_some_iff.mp h
    exact stopNotify_inv hs hinfo (hok info hinfo)
  | createFile entry =>
    rw [watchStep] at h
    split at h
    · next hfree =>
      cases h
      refine createFile_inv hs (Option.isNone_iff_eq_none.mp hfree) ?_
      rintro p ⟨j, other, hj, hactive, rfl⟩
      exact hok other (List.mem_of_getElem? hj) hactive
    · cases h
  | deleteFile entry =>
    rw [watchStep] at h
    split at h
    · cases h
      exact deleteFile_inv hs entry
    · cases h

theorem FileWatcher.Inv.subscribed (hs : s.Inv entryOf) :
    s.Subscribed entryOf := by
  intro i info inode hi hactive hinode
  obtain ⟨hmem, file, hfile, hwd, hcovers⟩ := hs.active i info hi hactive
  obtain ⟨watch, hwatch, hwatchWd, hmask⟩ := hs.watched _ file inode hfile hinode
  refine ⟨watch, hwatch, hmask.trans hcovers, fun files hperm event hevent hcover => ?_⟩
  obtain ⟨hin, hname⟩ := find_mem hfile
  have hfound : ∃ found, files.find? (·.wd = watch.wd) = some found ∧
      found.fileName = info.fileName := by
    cases hfind : files.find? (·.wd = watch.wd) with
    | none =>
      have hnone := List.find?_eq_none.mp hfind file (hperm.mem_iff.mpr hin)
      exact absurd (decide_eq_true hwatchWd.symm) hnone
    | some found =>
      refine ⟨found, rfl, ?_⟩
      have hfoundWd : found.wd = watch.wd := by simpa using List.find?_some hfind
      have hcached := find_of_mem hs.distinct (hperm.mem_iff.mp (List.mem_of_find?_eq_some hfind))
      exact hs.wds _ found _ file hcached hfile (hfoundWd.trans hwatchWd)
  obtain ⟨found, hfind, hfoundName⟩ := hfound
  have hi' : s.watchers[i]? = some info := hi
  rw [FileWatcher.findWatcherInfos, hfind]
  refine List.mem_filter.mpr ⟨hmem, ?_⟩
  have hpos : 0 < info.wd := hwd ▸ (hs.wd _ file hfile).1
  have hown : info.fileName = found.fileName ∧ 0 < info.wd := ⟨hfoundName.symm, hpos⟩
  simp only [hi']
  rw [if_pos hown, UInt32.and_comm, hcover]
  exact decide_eq_true (UInt32.pos_iff_ne_zero.mpr hevent)

/-- Whatever the files are, and whatever is done. -/
theorem watcher_subscribed {entries : List FileEntry} {nextInode : Nat} {as : List WatchAction}
    {s : FileWatcher}
    (hok : StepsOk (watchStep entryOf) (WatchStepOk entryOf) { kernel := { entries, nextInode } } as)
    (h : run (watchStep entryOf) { kernel := { entries, nextInode } } as = some s) :
    s.Subscribed entryOf := by
  have hinit : FileWatcher.Inv entryOf { kernel := { entries, nextInode } } := by
    refine ⟨⟨List.nodup_nil, nofun, fun _ => rfl, nofun, nofun, nofun, nofun, ?_, nofun, nofun,
      nofun, nofun, Int.zero_lt_one⟩, nofun⟩
    exact List.nodup_nil
  exact (run_invariant watchStep_inv hinit hok h).subscribed

/-- Two watchers of one file, and one of a file that is deleted. -/
def stopShared : List WatchAction :=
  [.create "/d/f".toList 2 0 true, .create "/d/f".toList 8 1 true, .create "/d/g".toList 2 0 true,
    .start 0 none, .start 1 none, .start 2 none, .deleteFile 1, .stop 0 false none]

/-- The directory entries of the two files. -/
def entryOfName (p : FileName) : Nat := if p = "/d/f".toList then 0 else 1

theorem watcher_subscribed_stopShared :
    ∃ s, run (watchStep entryOfName) { kernel := { entries := [⟨0, 0⟩, ⟨1, 1⟩], nextInode := 2 } }
      stopShared = some s ∧ s.kernel.watches = [⟨0, 1, 8⟩] ∧ s.watcherInfoCache = [1, 2] ∧
      s.Subscribed entryOfName := by
  have hrun : (run (watchStep entryOfName)
      { kernel := { entries := [⟨0, 0⟩, ⟨1, 1⟩], nextInode := 2 } } stopShared).map
      (fun s => (s.kernel.watches, s.watcherInfoCache)) = some ([⟨0, 1, 8⟩], [1, 2]) := by
    decide +kernel
  obtain ⟨s, hs, heq⟩ := Option.map_eq_some_iff.mp hrun
  obtain ⟨hwatches, hcache⟩ := Prod.mk.inj heq
  exact ⟨s, hs, hwatches, hcache, watcher_subscribed (by decide +kernel) hs⟩

/-! ### Two spellings, and a file that is replaced -/

/-- Two path strings of one file, each with a watcher. -/
def startAliases : List WatchAction :=
  [.create "/d/f".toList 2 0 true, .create "/d/./f".toList 8 1 true, .start 0 none, .start 1 none]

/-- A file is deleted and made again while it is watched. -/
def replaceWatched : List WatchAction :=
  [.create "/d/f".toList 2 0 true, .start 0 none, .deleteFile 0, .createFile 0]

/-- The mask is that of the second watcher alone, and no watch is left of a file that is
replaced. -/
theorem watcher_not_subscribed :
    (∃ s, run (watchStep fun _ => 0) { kernel := { entries := [⟨0, 0⟩], nextInode := 1 } }
        startAliases = some s ∧ s.kernel.watches = [⟨0, 1, 8⟩] ∧ ¬ s.Subscribed fun _ => 0) ∧
    ∃ s, run (watchStep fun _ => 0) { kernel := { entries := [⟨0, 0⟩], nextInode := 1 } }
        replaceWatched = some s ∧ s.kernel.watches = [] ∧ ¬ s.Subscribed fun _ => 0 := by
  constructor
  · have hrun : (run (watchStep fun _ => 0) { kernel := { entries := [⟨0, 0⟩], nextInode := 1 } }
        startAliases).map (fun s => (s.kernel.entries, s.kernel.watches, s.watchers)) =
        some ([⟨0, 0⟩], [⟨0, 1, 8⟩], [⟨"/d/f".toList, 2, 0, 1, true⟩, ⟨"/d/./f".toList, 8, 1, 1, true⟩]) := by
      decide +kernel
    obtain ⟨s, hs, heq⟩ := Option.map_eq_some_iff.mp hrun
    obtain ⟨hentries, heq⟩ := Prod.mk.inj heq
    obtain ⟨hwatches, hwatchers⟩ := Prod.mk.inj heq
    refine ⟨s, hs, hwatches, fun hsub => ?_⟩
    obtain ⟨watch, hwatch, hcovers, -⟩ := hsub 0 ⟨"/d/f".toList, 2, 0, 1, true⟩ 0
      (by rw [FileWatcher.watcher, hwatchers]; rfl) rfl (by rw [WatchKernel.inode, hentries]; rfl)
    rw [WatchKernel.watch, hwatches] at hwatch
    cases hwatch
    exact absurd hcovers (by decide)
  · have hrun : (run (watchStep fun _ => 0) { kernel := { entries := [⟨0, 0⟩], nextInode := 1 } }
        replaceWatched).map (fun s => (s.kernel.entries, s.kernel.watches, s.watchers)) =
        some ([⟨0, 1⟩], [], [⟨"/d/f".toList, 2, 0, 1, true⟩]) := by
      decide +kernel
    obtain ⟨s, hs, heq⟩ := Option.map_eq_some_iff.mp hrun
    obtain ⟨hentries, heq⟩ := Prod.mk.inj heq
    obtain ⟨hwatches, hwatchers⟩ := Prod.mk.inj heq
    refine ⟨s, hs, hwatches, fun hsub => ?_⟩
    obtain ⟨watch, hwatch, -⟩ := hsub 0 ⟨"/d/f".toList, 2, 0, 1, true⟩ 1
      (by rw [FileWatcher.watcher, hwatchers]; rfl) rfl (by rw [WatchKernel.inode, hentries]; rfl)
    rw [WatchKernel.watch, hwatches] at hwatch
    cases hwatch

end

end FileApi.ModFs
