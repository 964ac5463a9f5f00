import FileApi.ModFs.NotifyEvent
import Mathlib.Data.List.Perm.Basic

/-!
# The three implementations tell the watchers the same

Each does if one watcher at most is to be told of a file in a directory, and all that are to be
told have the callback that the manager was given.
-/

namespace FileApi.ModFs

variable {files : List WatchedFile} {event : InotifyEvent} {fileName : FileName}
  {infos : List WatcherInfo}

/-- The watchers of a file that are to be told of an event. -/
def included (infos : List WatcherInfo) (fileName : FileName) (event : InotifyEvent) :
    List WatcherInfo :=
  infos.filter (·.included fileName event.mask)

/-- What watchers are to be told: each of those of the event's path, by its own callback. -/
def toBeTold (files : List WatchedFile) (infos : List WatcherInfo) (event : InotifyEvent) :
    List WatchEvent :=
  match files.find? (·.wd = event.wd) with
  | none => []
  | some file =>
      (included infos file.fileName event).map fun info =>
        event.trigger info.callback (event.append file.fileName)

/-- The orders in which the two sets of watchers are gone through, and with each watcher whether the
file name is copied for it. -/
structure SetOrders (infos : List WatcherInfo) where
  exporter : List WatcherInfo
  exporter_perm : exporter.Perm infos
  manager : List (WatcherInfo × Bool)
  manager_perm : (manager.map Prod.fst).Perm infos

/-- All three tell the watchers what they are to be told. -/
structure TellSame (s : FileWatcher) (files : List WatchedFile) (orders : SetOrders s.infos)
    (callback : Nat) (event : InotifyEvent) : Prop where
  core : (s.notifyEvent files event).Perm (toBeTold files s.infos event)
  exporter : (notifyEventN files orders.exporter event).Perm (toBeTold files s.infos event)
  manager : (notifyEventC files orders.manager callback event).Perm (toBeTold files s.infos event)

/-- One watcher at most is told a name, no watcher of the empty path is told of an unknown
descriptor, and the manager has the callback of each watcher and copies its file name. -/
structure ToldApart (files : List WatchedFile) {infos : List WatcherInfo} (orders : SetOrders infos)
    (callback : Nat) (event : InotifyEvent) : Prop where
  single : event.name = none ∨ (included infos (tempFileName files event.wd) event).length ≤ 1
  known : (∃ file ∈ files, file.wd = event.wd) ∨ included infos [] event = []
  own : ∀ told ∈ orders.manager, told.1.included (tempFileName files event.wd) event.mask →
    told.1.callback = callback ∧ told.2 = true

/-! ## `FsFileWatcher` -/

variable {file : WatchedFile}

theorem found_included (s : FileWatcher) {wd : Int} {mask : UInt32}
    (hfile : files.find? (·.wd = wd) = some file) :
    (s.findWatcherInfos files wd mask).filterMap (s.watchers[·]?) =
      s.infos.filter (·.included file.fileName mask) := by
  unfold FileWatcher.findWatcherInfos FileWatcher.infos
  rw [hfile]
  dsimp only
  induction s.watcherInfoCache with
  | nil => rfl
  | cons i cache ih =>
    cases hinfo : s.watchers[i]? with
    | none =>
      rw [List.filter_cons_of_neg (by rw [hinfo]; exact Bool.false_ne_true),
        List.filterMap_cons_none hinfo, ih]
    | some info =>
      rw [List.filterMap_cons_some hinfo]
      by_cases hincluded : info.included file.fileName mask = true
      · rw [List.filter_cons_of_pos (by rw [hinfo]; exact hincluded),
          List.filterMap_cons_some hinfo, ih]
        exact (List.filter_cons_of_pos (p := fun x : WatcherInfo => x.included file.fileName mask) hincluded).symm
      · rw [List.filter_cons_of_neg (by rw [hinfo]; exact hincluded), ih]
        exact (List.filter_cons_of_neg (p := fun x : WatcherInfo => x.included file.fileName mask) hincluded).symm

theorem triggerCallbacks_of_none (h : event.name = none) (infos : List WatcherInfo) :
    triggerCallbacks event fileName infos =
      infos.map fun info => event.trigger info.callback (event.append fileName) := by
  have happend : event.append fileName = fileName := by
    unfold InotifyEvent.append
    rw [h]
  induction infos with
  | nil => rfl
  | cons info infos ih => rw [triggerCallbacks, happend, ih, List.map_cons, happend]

theorem triggerCallbacks_of_length (h : infos.length ≤ 1) :
    triggerCallbacks event fileName infos =
      infos.map fun info => event.trigger info.callback (event.append fileName) := by
  match infos with
  | [] => rfl
  | [info] => rfl
  | info :: other :: infos => exact absurd h (by simp)

theorem append_append_ne {name : FileName} (h : event.name = some name) :
    event.append (event.append fileName) ≠ event.append fileName := by
  intro heq
  have hlength := congrArg List.length heq
  simp only [InotifyEvent.append, h, List.length_append, List.length_cons] at hlength
  omega

theorem triggerCallbacks_perm_iff (infos : List WatcherInfo) :
    (triggerCallbacks event fileName infos).Perm
        (infos.map fun info => event.trigger info.callback (event.append fileName)) ↔
      event.name = none ∨ infos.length ≤ 1 := by
  constructor
  · intro hperm
    cases hname : event.name with
    | none => exact .inl rfl
    | some name =>
      right
      match infos with
      | [] => exact Nat.zero_le 1
      | [info] => exact Nat.le_refl 1
      | info :: other :: infos =>
        have hmem : event.trigger other.callback (event.append (event.append fileName)) ∈
            triggerCallbacks event fileName (info :: other :: infos) :=
          List.mem_cons_of_mem _ (List.mem_cons_self ..)
        obtain ⟨told, -, htold⟩ := List.mem_map.mp (hperm.mem_iff.mp hmem)
        exact absurd (congrArg WatchEvent.fileName htold).symm (append_append_ne hname)
  · rintro (hname | hlength)
    · rw [triggerCallbacks_of_none hname]
    · rw [triggerCallbacks_of_length hlength]

/-! ## The exporter and the manager -/

theorem tempFileName_of_some {wd : Int} (h : files.find? (·.wd = wd) = some file) :
    tempFileName files wd = file.fileName := by
  rw [tempFileName, h]

theorem tempFileName_of_none {wd : Int} (h : files.find? (·.wd = wd) = none) :
    tempFileName files wd = [] := by
  rw [tempFileName, h]

theorem notifyEventN_eq (infos : List WatcherInfo) :
    notifyEventN files infos event =
      (included infos (tempFileName files event.wd) event).map fun info =>
        event.trigger info.callback (event.append (tempFileName files event.wd)) := by
  unfold notifyEventN included
  induction infos with
  | nil => rfl
  | cons info infos ih =>
    rw [List.filterMap_cons, List.filter_cons, ih]
    by_cases hincluded : info.included (tempFileName files event.wd) event.mask = true
    · simp [hincluded]
    · simp [hincluded]

theorem notifyEventN_perm {set : List WatcherInfo} (hperm : set.Perm infos) :
    (notifyEventN files set event).Perm (notifyEventN files infos event) :=
  hperm.filterMap _

/-- The watchers that the manager calls its callback for. -/
def called (set : List (WatcherInfo × Bool)) (fileName : FileName) (event : InotifyEvent) :
    List (WatcherInfo × Bool) :=
  set.filter fun told => told.1.included fileName event.mask && told.2

theorem notifyEventC_eq (set : List (WatcherInfo × Bool)) (callback : Nat) :
    notifyEventC files set callback event =
      (called set (tempFileName files event.wd) event).map fun _ =>
        event.trigger callback (event.append (tempFileName files event.wd)) := by
  unfold notifyEventC called
  induction set with
  | nil => rfl
  | cons told set ih =>
    rw [List.filterMap_cons, List.filter_cons, ih]
    by_cases hincluded : told.1.included (tempFileName files event.wd) event.mask = true
    · cases hcopied : told.2 <;> simp [hincluded, hcopied]
    · simp [hincluded]

/-- The manager calls its callback as often as there are watchers to be told exactly when it copies
every name. -/
theorem length_called_iff (fileName : FileName) (event : InotifyEvent)
    {set : List (WatcherInfo × Bool)} (hperm : (set.map Prod.fst).Perm infos) :
    (called set fileName event).length = (included infos fileName event).length ↔
      ∀ told ∈ set, told.1.included fileName event.mask → told.2 = true := by
  have hlength : (included infos fileName event).length =
      (set.filter fun told => told.1.included fileName event.mask).length := by
    unfold included
    rw [← (hperm.filter _).length_eq, List.filter_map, List.length_map]
    rfl
  have hcalled : called set fileName event =
      (set.filter fun told => told.1.included fileName event.mask).filter (·.2) := by
    rw [List.filter_filter]
    exact List.filter_congr fun told _ => Bool.and_comm _ _
  rw [hlength, hcalled, List.length_filter_eq_length_iff]
  constructor
  · intro h told hmem hincluded
    exact h told (List.mem_filter.mpr ⟨hmem, hincluded⟩)
  · intro h told hmem
    exact h told (List.mem_filter.mp hmem).1 (List.mem_filter.mp hmem).2

/-! ## The three together -/

variable {s : FileWatcher} {orders : SetOrders s.infos} {callback : Nat}

theorem known_iff_find :
    (∃ file ∈ files, file.wd = event.wd) ↔ (files.find? (·.wd = event.wd)).isSome := by
  rw [List.find?_isSome]
  simp only [decide_eq_true_eq]

theorem tellSame_iff_unknown (hfile : files.find? (·.wd = event.wd) = none) :
    TellSame s files orders callback event ↔ included s.infos [] event = [] := by
  have htold : toBeTold files s.infos event = [] := by rw [toBeTold, hfile]
  have hcore : s.notifyEvent files event = [] := by rw [FileWatcher.notifyEvent, hfile]
  have htemp := tempFileName_of_none hfile
  have hexporter : (notifyEventN files orders.exporter event).length =
      (included s.infos [] event).length := by
    rw [(notifyEventN_perm orders.exporter_perm).length_eq, notifyEventN_eq, List.length_map, htemp]
  constructor
  · intro h
    have hlength := h.exporter.length_eq
    rw [hexporter, htold] at hlength
    exact List.length_eq_zero_iff.mp hlength
  · intro hnone
    refine ⟨?_, ?_, ?_⟩
    · rw [hcore, htold]
    · rw [hnone] at hexporter
      rw [htold, List.length_eq_zero_iff.mp hexporter]
    · have hcalled : called orders.manager [] event = [] := by
        refine List.filter_eq_nil_iff.mpr fun told hmem hincluded => ?_
        have hinfo : told.1 ∈ s.infos :=
          orders.manager_perm.mem_iff.mp (List.mem_map_of_mem hmem)
        exact List.filter_eq_nil_iff.mp hnone told.1 hinfo (Bool.and_eq_true_iff.mp hincluded).1
      rw [notifyEventC_eq, htemp, hcalled, htold]
      exact List.Perm.refl []

theorem manager_iff (hfile : files.find? (·.wd = event.wd) = some file) :
    (notifyEventC files orders.manager callback event).Perm (toBeTold files s.infos event) ↔
      ∀ told ∈ orders.manager, told.1.included file.fileName event.mask →
        told.1.callback = callback ∧ told.2 = true := by
  have htold : toBeTold files s.infos event =
      (included s.infos file.fileName event).map fun info =>
        event.trigger info.callback (event.append file.fileName) := by
    rw [toBeTold, hfile]
  have hlength := length_called_iff file.fileName event orders.manager_perm
  rw [notifyEventC_eq, tempFileName_of_some hfile, htold]
  constructor
  · intro hperm told hmem hincluded
    have hcount := hperm.length_eq
    rw [List.length_map, List.length_map] at hcount
    refine ⟨?_, hlength.mp hcount told hmem hincluded⟩
    have hinfo : told.1 ∈ s.infos := orders.manager_perm.mem_iff.mp (List.mem_map_of_mem hmem)
    have hown := hperm.mem_iff.mpr (List.mem_map_of_mem
      (List.mem_filter.mpr ⟨hinfo, hincluded⟩ : told.1 ∈ included s.infos file.fileName event))
    obtain ⟨other, -, hother⟩ := List.mem_map.mp hown
    exact (congrArg WatchEvent.callback hother).symm
  · intro hown
    have hcount := hlength.mpr fun told hmem hincluded => (hown told hmem hincluded).2
    have hmap : ((included s.infos file.fileName event).map fun info =>
        event.trigger info.callback (event.append file.fileName)) =
        (included s.infos file.fileName event).map fun _ =>
          event.trigger callback (event.append file.fileName) := by
      refine List.map_congr_left fun info hmem => ?_
      obtain ⟨hinfo, hincluded⟩ := List.mem_filter.mp hmem
      obtain ⟨told, htoldmem, rfl⟩ := List.mem_map.mp (orders.manager_perm.mem_iff.mpr hinfo)
      rw [(hown told htoldmem hincluded).1]
    rw [hmap, List.map_const', List.map_const', hcount]

theorem tellSame_iff_known (hfile : files.find? (·.wd = event.wd) = some file) :
    TellSame s files orders callback event ↔
      (event.name = none ∨ (included s.infos file.fileName event).length ≤ 1) ∧
      ∀ told ∈ orders.manager, told.1.included file.fileName event.mask →
        told.1.callback = callback ∧ told.2 = true := by
  have htold : toBeTold files s.infos event =
      (included s.infos file.fileName event).map fun info =>
        event.trigger info.callback (event.append file.fileName) := by
    rw [toBeTold, hfile]
  have hcore : s.notifyEvent files event =
      triggerCallbacks event file.fileName (included s.infos file.fileName event) := by
    rw [FileWatcher.notifyEvent, hfile]
    dsimp only
    rw [found_included s hfile]
    rfl
  have hexporter : (notifyEventN files orders.exporter event).Perm
      (toBeTold files s.infos event) := by
    refine (notifyEventN_perm orders.exporter_perm).trans ?_
    rw [notifyEventN_eq, tempFileName_of_some hfile, htold]
  rw [← manager_iff hfile, ← triggerCallbacks_perm_iff, ← hcore, ← htold]
  exact ⟨fun h => ⟨h.core, h.manager⟩, fun h => ⟨h.1, hexporter, h.2⟩⟩

/-- The three implementations tell the watchers the same exactly when they are told apart. -/
theorem tellSame_iff_toldApart (s : FileWatcher) (files : List WatchedFile)
    (orders : SetOrders s.infos) (callback : Nat) (event : InotifyEvent) :
    TellSame s files orders callback event ↔ ToldApart files orders callback event := by
  cases hfile : files.find? (·.wd = event.wd) with
  | none =>
    have hunknown : ¬ ∃ file ∈ files, file.wd = event.wd := by
      rw [known_iff_find, hfile]
      exact Bool.false_ne_true
    rw [tellSame_iff_unknown hfile]
    constructor
    · intro hnone
      refine ⟨.inr ?_, .inr hnone, fun told hmem hincluded => ?_⟩
      · rw [tempFileName_of_none hfile, hnone]
        exact Nat.zero_le 1
      · rw [tempFileName_of_none hfile] at hincluded
        have hinfo : told.1 ∈ s.infos := orders.manager_perm.mem_iff.mp (List.mem_map_of_mem hmem)
        exact absurd hincluded (List.filter_eq_nil_iff.mp hnone told.1 hinfo)
    · intro h
      exact h.known.resolve_left hunknown
  | some file =>
    have hknown : ∃ file ∈ files, file.wd = event.wd := by
      rw [known_iff_find, hfile]
      rfl
    rw [tellSame_iff_known hfile]
    have htemp := tempFileName_of_some hfile
    constructor
    · rintro ⟨hsingle, hown⟩
      exact ⟨htemp ▸ hsingle, .inl hknown, htemp ▸ hown⟩
    · intro h
      exact ⟨htemp ▸ h.single, htemp ▸ h.own⟩

/-- Two watchers of a directory, a file in it is made. -/
theorem not_tellSame :
    ¬ ∀ (s : FileWatcher) (files : List WatchedFile) (orders : SetOrders s.infos) (callback : Nat)
      (event : InotifyEvent), TellSame s files orders callback event := by
  intro h
  let dir : FileName := ['/', 'd']
  let s : FileWatcher :=
    { watchers := [⟨dir, 0x100, 0, 1, true⟩, ⟨dir, 0x100, 1, 1, true⟩], watcherInfoCache := [0, 1] }
  have hsame := h s [⟨dir, 1, 0x100⟩]
    ⟨s.infos, List.Perm.refl _, s.infos.map (·, true), by decide⟩ 0 ⟨1, 0x100, 0, some ['f']⟩
  exact absurd hsame.core (by decide)

end FileApi.ModFs
