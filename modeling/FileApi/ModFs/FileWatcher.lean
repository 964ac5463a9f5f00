import FileApi.Misc.Keyed
import FileApi.Misc.Machine
import FileApi.ModFs.AtomicFile

/-!
# File watchers

`FsFileWatcher` with its `WatcherDataCache` (`fs_file_watcher.cpp:29-190`, `299-306`,
`watcher_data_cache.cpp:21-137`) and the checks of `DoCreateWatcher` (`watcher_core.cpp:27-94`),
above an inotify instance. Calls come one after the other; the harvest thread is not part of this
model. The cache goes by path strings, the kernel by inodes: a path string comes to a directory
entry, and entries name inodes.
-/

namespace FileApi.ModFs

open Keyed

/-! ## The kernel -/

structure FileEntry where
  entry : Nat
  inode : Nat
  deriving DecidableEq

structure Watch where
  inode : Nat
  wd : Int
  mask : UInt32
  deriving DecidableEq

/-- The directory entries and the watches of the inotify instance. A descriptor is never used
twice. -/
structure WatchKernel where
  entries : List FileEntry := []
  nextInode : Nat := 0
  watches : List Watch := []
  nextWd : Int := 1
  deriving DecidableEq

def WatchKernel.inode (k : WatchKernel) (entry : Nat) : Option Nat :=
  (find FileEntry.entry k.entries entry).map FileEntry.inode

def WatchKernel.watch (k : WatchKernel) (inode : Nat) : Option Watch :=
  find Watch.inode k.watches inode

/-- `inotify_add_watch` of an inode. -/
def WatchKernel.addWatch (k : WatchKernel) (inode : Nat) (mask : UInt32) : Int × WatchKernel :=
  match k.watch inode with
  | some watch =>
      (watch.wd, { k with watches := modify Watch.inode k.watches inode fun w => { w with mask } })
  | none => (k.nextWd, { k with watches := k.watches ++ [⟨inode, k.nextWd, mask⟩]
                                nextWd := k.nextWd + 1 })

/-- `inotify_rm_watch`; `none` for a descriptor that is not in use. -/
def WatchKernel.rmWatch (k : WatchKernel) (wd : Int) : Option WatchKernel :=
  if k.watches.any (·.wd = wd) then some { k with watches := k.watches.filter (·.wd ≠ wd) }
  else none

/-- A file is made. -/
def WatchKernel.create (k : WatchKernel) (entry : Nat) : WatchKernel :=
  { k with entries := k.entries ++ [⟨entry, k.nextInode⟩], nextInode := k.nextInode + 1 }

/-- A file is deleted; with the last entry of an inode its watch goes. -/
def WatchKernel.unlink (k : WatchKernel) (entry : Nat) : WatchKernel :=
  let entries := erase FileEntry.entry k.entries entry
  { k with
    entries
    watches := k.watches.filter fun w =>
      k.inode entry ≠ some w.inode ∨ entries.any (·.inode = w.inode) }

/-! ## Watchers -/

/-- `IN_ALL_EVENTS`. -/
def IN_ALL_EVENTS : UInt32 := 0xfff

/-- `WatcherInfo`. `active`: `StartNotify` has returned success, and `StopNotify` was not called
since. -/
structure WatcherInfo where
  fileName : FileName
  events : UInt32
  callback : Nat
  wd : Int := -1
  active : Bool := false
  deriving DecidableEq

/-- An entry of `wdFileNameCache_`. -/
structure WatchedFile where
  fileName : FileName
  wd : Int
  events : UInt32
  deriving DecidableEq

/-- All watchers by the order they were made in, the list of those that were added and not removed,
and the descriptors by file name. -/
structure FileWatcher where
  kernel : WatchKernel := {}
  notifyOpen : Bool := false
  watchers : List WatcherInfo := []
  watcherInfoCache : List Nat := []
  wdFileNameCache : List WatchedFile := []
  deriving DecidableEq

/-- The status of the calls; `errno` is what a call of the system left. -/
inductive WatchErr where
  | einval | eio
  | errno (e : Nat)
  deriving DecidableEq

/-! ## `WatcherDataCache` -/

/-- The watchers of `watcherInfoCache_`. -/
def FileWatcher.infos (s : FileWatcher) : List WatcherInfo :=
  s.watcherInfoCache.filterMap (s.watchers[·]?)

/-- `AddWatcherInfo`; two callbacks are the same if they have one number. -/
def FileWatcher.addWatcherInfo (s : FileWatcher) (info : WatcherInfo) : Bool × FileWatcher :=
  if s.infos.any fun other => other.fileName = info.fileName ∧ other.events = info.events ∧
      other.callback = info.callback then (false, s)
  else (true, { s with
    watchers := s.watchers ++ [info]
    watcherInfoCache := s.watcherInfoCache ++ [s.watchers.length] })

/-- The events of the watchers of a file that have a descriptor. -/
def remainingEvents (infos : List WatcherInfo) (fileName : FileName) : UInt32 :=
  infos.foldl (fun events info =>
    if info.fileName = fileName ∧ 0 < info.wd then events ||| info.events else events) 0

/-- `RemoveWatcherInfo`. -/
def FileWatcher.removeWatcherInfo (s : FileWatcher) (i : Nat) (info : WatcherInfo) :
    UInt32 × FileWatcher :=
  let s := { s with watcherInfoCache := s.watcherInfoCache.erase i }
  (remainingEvents s.infos info.fileName, s)

/-- `RemoveWatchedEvents`. -/
def FileWatcher.removeWatchedEvents (s : FileWatcher) (fileName : FileName) : FileWatcher :=
  { s with wdFileNameCache := erase WatchedFile.fileName s.wdFileNameCache fileName }

/-- `FindWatchedEvents`. -/
def FileWatcher.findWatchedEvents (s : FileWatcher) (fileName : FileName) (event : UInt32) :
    Bool × Int × UInt32 :=
  match find WatchedFile.fileName s.wdFileNameCache fileName with
  | none => (false, -1, 0)
  | some file => (file.events &&& event = event, file.wd, file.events)

/-- `UpdateWatchedEvents`. -/
def FileWatcher.updateWatchedEvents (s : FileWatcher) (fileName : FileName) (wd : Int)
    (events : UInt32) : FileWatcher :=
  { s with wdFileNameCache := put WatchedFile.fileName s.wdFileNameCache ⟨fileName, wd, events⟩ }

/-- `FindWatcherInfos`, with the entries of `wdFileNameCache_` in the order they are looked at;
the watchers by their numbers. -/
def FileWatcher.findWatcherInfos (s : FileWatcher) (files : List WatchedFile) (wd : Int)
    (eventMask : UInt32) : List Nat :=
  match files.find? (·.wd = wd) with
  | none => []
  | some file => s.watcherInfoCache.filter fun i =>
      match s.watchers[i]? with
      | none => false
      | some info =>
          let watchEvent := if info.fileName = file.fileName ∧ 0 < info.wd then info.events else 0
          eventMask &&& watchEvent > 0

/-! ## `FsFileWatcher` -/

/-- A watcher changes. -/
def FileWatcher.setInfo (s : FileWatcher) (i : Nat) (info : WatcherInfo) : FileWatcher :=
  { s with watchers := s.watchers.set i info }

section

-- the directory entry a path string comes to
variable (entryOf : FileName → Nat)

/-- `inotify_add_watch` of a path, unless the system fails it with `refused`. -/
def FileWatcher.inotifyAddWatch (s : FileWatcher) (fileName : FileName) (mask : UInt32)
    (refused : Option Nat) : Except Nat (Int × FileWatcher) :=
  match refused, s.kernel.inode (entryOf fileName) with
  | some e, _ => .error e
  | none, none => .error 2
  | none, some inode =>
      let (wd, kernel) := s.kernel.addWatch inode mask
      .ok (wd, { s with kernel })

/-- `StartNotify`. -/
def FileWatcher.startNotify (s : FileWatcher) (i : Nat) (info : WatcherInfo)
    (refused : Option Nat) : Except WatchErr Unit × FileWatcher :=
  if s.notifyOpen = false then (.error .eio, s)
  else
    let (isWatched, wd, events) := s.findWatchedEvents info.fileName info.events
    if isWatched ∧ 0 < wd then (.ok (), s.setInfo i { info with wd, active := true })
    else
      let watchEvents := if wd ≠ -1 then events ||| info.events else info.events
      match s.inotifyAddWatch entryOf info.fileName watchEvents refused with
      | .error e => (.error (.errno e), s)
      | .ok (newWd, s) =>
          (.ok (), (s.setInfo i { info with wd := newWd, active := true }).updateWatchedEvents
            info.fileName newWd watchEvents)

/-- `NotifyToWatchNewEvents`. -/
def FileWatcher.notifyToWatchNewEvents (s : FileWatcher) (fileName : FileName) (wd : Int)
    (watchEvents : UInt32) (refused : Option Nat) : Except WatchErr Unit × FileWatcher :=
  match s.inotifyAddWatch entryOf fileName watchEvents refused with
  | .error e => (.error (.errno e), s)
  | .ok (newWd, s) =>
      if newWd ≠ wd then (.error .eio, s)
      else (.ok (), s.updateWatchedEvents fileName wd watchEvents)

/-- `CloseNotifyFd`, through `CloseNotifyFdLocked` with no read going on. -/
def FileWatcher.closeNotifyFd (s : FileWatcher) : FileWatcher :=
  if s.watcherInfoCache = [] then
    { s with notifyOpen := false, kernel := { s.kernel with watches := [] } }
  else s

/-- `StopNotify`; `denied`: `access` does not find the file although it is there. -/
def FileWatcher.stopNotify (s : FileWatcher) (i : Nat) (info : WatcherInfo) (denied : Bool)
    (refused : Option Nat) : Except WatchErr Unit × FileWatcher :=
  let s := s.setInfo i { info with active := false }
  if s.notifyOpen = false then (.error .eio, s)
  else
    let there : Bool := (s.kernel.inode (entryOf info.fileName)).isSome && !denied
    let (remaining, s) := s.removeWatcherInfo i info
    if 0 < remaining then
      if there then s.notifyToWatchNewEvents entryOf info.fileName info.wd remaining refused
      else (.ok (), s)
    else
      match s.kernel.rmWatch info.wd with
      | some kernel =>
          (.ok (), ({ s with kernel }.removeWatchedEvents info.fileName).closeNotifyFd)
      | none =>
          (if there then .error (.errno 22) else .ok (),
            (s.removeWatchedEvents info.fileName).closeNotifyFd)

/-! ## Sequences of calls -/

/-- A call, or what happens to a file. `notifyOk`: `TryInitNotify` succeeds. -/
inductive WatchAction where
  | create (fileName : FileName) (events : UInt32) (callback : Nat) (notifyOk : Bool)
  | start (i : Nat) (refused : Option Nat)
  | stop (i : Nat) (denied : Bool) (refused : Option Nat)
  | createFile (entry : Nat)
  | deleteFile (entry : Nat)
  deriving DecidableEq

/-- `DoCreateWatcher`; without a watcher nothing is left but an open instance. -/
def FileWatcher.createWatcher (s : FileWatcher) (fileName : FileName) (events : UInt32)
    (callback : Nat) (notifyOk : Bool) : FileWatcher :=
  if events = 0 ∨ events &&& IN_ALL_EVENTS ≠ events then s
  else if s.notifyOpen = false ∧ notifyOk = false then s
  else ({ s with notifyOpen := true }.addWatcherInfo { fileName, events, callback }).2

/-- A watcher that is started or stopped is there; a file that is made is not, one that is deleted
is. -/
def watchStep (s : FileWatcher) : WatchAction → Option FileWatcher
  | .create fileName events callback notifyOk =>
      some (s.createWatcher fileName events callback notifyOk)
  | .start i refused => s.watchers[i]?.map fun info => (s.startNotify entryOf i info refused).2
  | .stop i denied refused =>
      s.watchers[i]?.map fun info => (s.stopNotify entryOf i info denied refused).2
  | .createFile entry =>
      if (s.kernel.inode entry).isNone then some { s with kernel := s.kernel.create entry } else none
  | .deleteFile entry =>
      if (s.kernel.inode entry).isSome then some { s with kernel := s.kernel.unlink entry } else none

end

end FileApi.ModFs
