import FileApi.ModFs.FileWatcher

/-!
# What the watchers are told

`NotifyEvent` of `FsFileWatcher` (`fs_file_watcher.cpp:317-337`), of `FileWatcher`
(`watcher_entity.cpp:308-345`) and of the Cangjie `FileWatcherManager`
(`watcher_impl.cpp:149-240`), over the same watchers and paths. The paths are in the order in which
the table is looked through, a set of watchers in the order in which it is gone through.
-/

namespace FileApi.ModFs

/-- `inotify_event`; the name is there if `len` is not 0. -/
structure InotifyEvent where
  wd : Int
  mask : UInt32
  cookie : UInt32
  name : Option FileName := none
  deriving DecidableEq

/-- A call of a callback. -/
structure WatchEvent where
  callback : Nat
  fileName : FileName
  event : UInt32
  cookie : UInt32
  deriving DecidableEq

/-- `CheckIncludeEvent` with the events that a watcher has of a file. -/
def WatcherInfo.included (info : WatcherInfo) (fileName : FileName) (eventMask : UInt32) : Bool :=
  let watchEvent := if info.fileName = fileName ∧ 0 < info.wd then info.events else 0
  eventMask &&& watchEvent > 0

/-- `fileName += "/" + string(event->name)` for an event that has a name. -/
def InotifyEvent.append (event : InotifyEvent) (fileName : FileName) : FileName :=
  match event.name with
  | none => fileName
  | some name => fileName ++ '/' :: name

/-- A callback is called for an event. -/
def InotifyEvent.trigger (event : InotifyEvent) (callback : Nat) (fileName : FileName) :
    WatchEvent :=
  ⟨callback, fileName, event.mask &&& IN_ALL_EVENTS, event.cookie⟩

/-! ## `FsFileWatcher` -/

/-- The loop of `NotifyEvent`, with its `fileName`. -/
def triggerCallbacks (event : InotifyEvent) (fileName : FileName) :
    List WatcherInfo → List WatchEvent
  | [] => []
  | info :: infos =>
      let fileName := event.append fileName
      event.trigger info.callback fileName :: triggerCallbacks event fileName infos

/-- `NotifyEvent`, with the file name and the watchers that `FindWatcherInfos` returns. -/
def FileWatcher.notifyEvent (s : FileWatcher) (files : List WatchedFile) (event : InotifyEvent) :
    List WatchEvent :=
  match files.find? (·.wd = event.wd) with
  | none => []
  | some file =>
      triggerCallbacks event file.fileName
        ((s.findWatcherInfos files event.wd event.mask).filterMap (s.watchers[·]?))

/-! ## `FileWatcher` and `FileWatcherManager` -/

/-- `tempFileName`, which stays empty if the descriptor is not found. -/
def tempFileName (files : List WatchedFile) (wd : Int) : FileName :=
  match files.find? (·.wd = wd) with
  | none => []
  | some file => file.fileName

/-- `NotifyEvent` of the exporter. -/
def notifyEventN (files : List WatchedFile) (watcherInfoSet : List WatcherInfo)
    (event : InotifyEvent) : List WatchEvent :=
  watcherInfoSet.filterMap fun iter =>
    let fileName := tempFileName files event.wd
    if ¬ iter.included fileName event.mask then none
    else some (event.trigger iter.callback (event.append fileName))

/-- `NotifyEvent` of the manager, which was given the callback of the watcher that `GetNotifyEvent`
was called with; with each watcher whether the file name is copied for it. -/
def notifyEventC (files : List WatchedFile) (watcherInfoSet : List (WatcherInfo × Bool))
    (callback : Nat) (event : InotifyEvent) : List WatchEvent :=
  watcherInfoSet.filterMap fun (iter, copied) =>
    let fileName := tempFileName files event.wd
    if ¬ iter.included fileName event.mask then none
    else if copied = false then none
    else some (event.trigger callback (event.append fileName))

end FileApi.ModFs
