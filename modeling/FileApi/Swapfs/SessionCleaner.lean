import Mathlib.Logic.Function.Basic
import FileApi.Misc.Machine

/-!
# The sessions below a swap root

`PrepareSession`, `CreateSessionLocked` and `RemoveSessionDir` of any number of managers
(`swapfs_manager.cpp:214-309`, `358-390`) and the passes of `SwapfsSessionCleaner`
(`swapfs_session_cleaner.cpp:111-346`), one system call a step. A party is an `Init` with the
manager that comes of it, or a cleaner alone. A directory keeps its identity when it is renamed,
and so does a lock file; an `flock` belongs to the party whose descriptor took it and ends with
the party. The contents of a data directory are counted.
-/

namespace FileApi.Swapfs

/-- The names in the swap root that a cleaner looks at: with `CREATING_PREFIX` and with
`SESSION_PREFIX`. -/
inductive SessionName where
  | creating (id : Nat)
  | session (id : Nat)
  deriving DecidableEq

/-- What is in a session directory; `lock` is the inode of `session.lock`. -/
structure SessionDir where
  marker : Bool := false
  data : Bool := false
  lock : Option Nat := none
  files : Nat := 0
  deriving DecidableEq

inductive DirEntry where
  | data | lock | file
  deriving DecidableEq

/-- Who removes a tree: a cleaner, which holds `session.lock` if there is one, a failed
`CreateSessionLocked`, or `RemoveSessionDir`. -/
inductive Purpose where
  | clean (lock : Option Nat)
  | rollback
  | destroy
  deriving DecidableEq

/-- Where a party stands. `n` and `m` are the ids of `creatingName` and `finalName`. -/
inductive SessionPc where
  | acquire
  | scan
  | opened (name : SessionName) (dir : Nat)
  | marked (name : SessionName) (dir : Nat)
  | locking (name : SessionName) (dir lock : Nat)
  | remove (purpose : Purpose) (name : SessionName)
  | removing (purpose : Purpose) (name : SessionName) (dir : Nat) (failed : Bool)
  | rmdir (purpose : Purpose) (name : SessionName)
  | finish (purpose : Purpose)
  | makeDir
  | openDir (n m : Nat)
  | makeMarker (n m dir : Nat)
  | makeData (n m dir : Nat)
  | makeLock (n m dir : Nat)
  | lockSession (n m dir : Nat)
  | rename (n m dir : Nat)
  | closeFailed (n : Nat)
  | release (ok : Bool)
  | prepared
  | running
  | closeLock
  | done
  | crashed
  deriving DecidableEq

/-- An `Init`, or a cleaner alone. `created` is the directory it has made and `unlinked` whether
it has removed its own `session.lock` in `RemoveSessionDir`. -/
structure Party where
  creates : Bool
  pc : SessionPc := .acquire
  sessionLockFd : Option Nat := none
  sessionPath : Option Nat := none
  created : Option Nat := none
  unlinked : Bool := false
  deriving DecidableEq

/-- Where `RemoveSessionDir` begins; without a path it does nothing. -/
def Party.removeSessionDir (p : Party) : SessionPc :=
  match p.sessionPath with
  | none => .closeLock
  | some m => .remove .destroy (.session m)

/-- The swap root: its names, the directories, who holds which `flock`, and the parties. -/
structure SwapRoot where
  names : SessionName → Option Nat := fun _ => none
  dirs : List SessionDir := []
  nextLock : Nat := 0
  cleanupLock : Option Nat := none
  locks : Nat → Option Nat := fun _ => none
  parties : List Party := []

/-- How a system call turns out; which entry `readdir` gave; which names were drawn. -/
inductive SessionEvent where
  | ok
  | fail
  | entry (name : SessionName)
  | drawn (n m : Nat)
  | unlink (e : DirEntry)
  | file
  | destroy

inductive SessionAction where
  | start (creates : Bool)
  | go (i : Nat) (event : SessionEvent)
  | crash (i : Nat)

def SessionName.isSession : SessionName → Bool
  | .creating _ => false
  | .session _ => true

namespace SessionDir

variable (d : SessionDir)

def isEmpty : Bool := !d.marker && !d.data && d.lock.isNone && d.files == 0

/-- `RemoveEntryAt` of an entry; the data directory has to be empty. -/
def unlink : DirEntry → Option SessionDir
  | .data => if d.data && d.files == 0 then some { d with data := false } else none
  | .lock => if d.lock.isSome then some { d with lock := none } else none
  | .file => if 0 < d.files then some { d with files := d.files - 1 } else none

end SessionDir

namespace SwapRoot

variable (s : SwapRoot)

/-- The inode of the `session.lock` in a directory. -/
def lockOf (dir : Nat) : Option Nat := (s.dirs[dir]?).bind SessionDir.lock

/-- Whether a directory has an entry. -/
def has (entry : SessionDir → Bool) (dir : Nat) : Bool := ((s.dirs[dir]?).map entry).getD false

def modifyDir (dir : Nat) (f : SessionDir → SessionDir) : SwapRoot :=
  { s with dirs := s.dirs.modify dir f }

/-- `close` of a descriptor of a lock file. -/
def close (i : Nat) : Option Nat → SwapRoot
  | none => s
  | some l => if s.locks l = some i then { s with locks := Function.update s.locks l none } else s

/-- The end of a process: its locks are dropped. -/
def dropLocks (i : Nat) : SwapRoot :=
  { s with
    cleanupLock := if s.cleanupLock = some i then none else s.cleanupLock
    locks := fun l => if s.locks l = some i then none else s.locks l }

/-- `AcquireCleanupLock`, `CleanupInactiveSessionsLocked` and `GetSessionStateAt`. -/
def stepClean (i : Nat) (p : Party) : SessionPc → SessionEvent → Option (SwapRoot × Party)
  | .acquire, .ok =>
      if s.cleanupLock.isNone then
        some ({ s with cleanupLock := some i }, { p with pc := .scan })
      else none
  | .acquire, .fail => some (s, { p with pc := .done })
  | .scan, .entry name =>
      match s.names name with
      | none => some (s, p)
      | some dir => some (s, { p with pc := .opened name dir })
  | .scan, .ok => some (s, { p with pc := if p.creates then .makeDir else .release false })
  | .scan, .fail => some (s, { p with pc := .release false })
  | .opened name dir, .ok =>
      if name.isSession && !s.has SessionDir.marker dir then
        some (s, { p with pc := .scan })
      else some (s, { p with pc := .marked name dir })
  | .opened _ _, .fail => some (s, { p with pc := .scan })
  | .marked name dir, .ok =>
      match s.lockOf dir with
      | none => some (s, { p with pc := .remove (.clean none) name })
      | some lock => some (s, { p with pc := .locking name dir lock })
  | .marked _ _, .fail => some (s, { p with pc := .scan })
  | .locking name _ lock, .ok =>
      if (s.locks lock).isNone then
        some ({ s with locks := Function.update s.locks lock (some i) },
          { p with pc := .remove (.clean (some lock)) name })
      else some (s, { p with pc := .scan })
  | .locking _ _ _, .fail => some (s, { p with pc := .scan })
  | _, _ => none

/-- `RemoveEntryAt` of a session directory, and `RemoveSessionTree`, which do the same. The marker
goes last, when all else could be removed. -/
def stepRemove (i : Nat) (p : Party) : SessionPc → SessionEvent → Option (SwapRoot × Party)
  | .remove purpose name, .ok =>
      match s.names name with
      | none => some (s, { p with pc := .finish purpose })
      | some dir => some (s, { p with pc := .removing purpose name dir false })
  | .remove purpose _, .fail => some (s, { p with pc := .finish purpose })
  | .removing purpose _ dir _, .unlink e =>
      (((s.dirs[dir]?).bind fun d => d.unlink e)).map fun d =>
        (s.modifyDir dir fun _ => d,
          { p with unlinked := p.unlinked || (purpose == .destroy && e == .lock) })
  | .removing purpose name dir _, .fail => some (s, { p with pc := .removing purpose name dir true })
  | .removing purpose name dir failed, .ok =>
      if failed then some (s, { p with pc := .finish purpose })
      else
        some (s.modifyDir dir fun d => { d with marker := false },
          { p with pc := .rmdir purpose name })
  | .rmdir purpose name, .ok =>
      match (s.names name).bind fun dir => s.dirs[dir]? with
      | none => some (s, { p with pc := .finish purpose })
      | some d =>
          if d.isEmpty then
            some ({ s with names := Function.update s.names name none },
              { p with pc := .finish purpose })
          else some (s, { p with pc := .finish purpose })
  | .rmdir purpose _, .fail => some (s, { p with pc := .finish purpose })
  | .finish (.clean lock), .ok => some (s.close i lock, { p with pc := .scan })
  | .finish .rollback, .ok => some (s, { p with pc := .release false })
  | .finish .destroy, .ok => some (s, { p with pc := .closeLock })
  | _, _ => none

/-- `CreateSessionLayoutAt` and `CreateSessionLocked`; what is there already cannot be made. -/
def stepCreate (i : Nat) (p : Party) : SessionPc → SessionEvent → Option (SwapRoot × Party)
  | .makeDir, .drawn n m =>
      match s.names (.creating n) with
      | some _ => some (s, { p with pc := .release false })
      | none =>
          some ({ s with
              names := Function.update s.names (.creating n) (some s.dirs.length)
              dirs := s.dirs ++ [{}] },
            { p with pc := .openDir n m, created := some s.dirs.length })
  | .makeDir, .fail => some (s, { p with pc := .release false })
  | .openDir n m, .ok =>
      match s.names (.creating n) with
      | none => some (s, { p with pc := .remove .rollback (.creating n) })
      | some dir => some (s, { p with pc := .makeMarker n m dir })
  | .openDir n _, .fail => some (s, { p with pc := .remove .rollback (.creating n) })
  | .makeMarker n m dir, .ok =>
      if s.has SessionDir.marker dir then none
      else
        some (s.modifyDir dir fun d => { d with marker := true }, { p with pc := .makeData n m dir })
  | .makeMarker n _ _, .fail => some (s, { p with pc := .remove .rollback (.creating n) })
  | .makeData n m dir, .ok =>
      if s.has SessionDir.data dir then none
      else some (s.modifyDir dir fun d => { d with data := true }, { p with pc := .makeLock n m dir })
  | .makeData n _ _, .fail => some (s, { p with pc := .remove .rollback (.creating n) })
  | .makeLock n m dir, .ok =>
      if (s.lockOf dir).isSome then none
      else
        some ({ s.modifyDir dir fun d => { d with lock := some s.nextLock } with
            nextLock := s.nextLock + 1 },
          { p with pc := .lockSession n m dir, sessionLockFd := some s.nextLock })
  | .makeLock n _ _, .fail => some (s, { p with pc := .remove .rollback (.creating n) })
  | .lockSession n m dir, .ok =>
      match p.sessionLockFd with
      | none => none
      | some lock =>
          if (s.locks lock).isNone then
            some ({ s with locks := Function.update s.locks lock (some i) },
              { p with pc := .rename n m dir })
          else some (s, { p with pc := .closeFailed n })
  | .lockSession n _ _, .fail => some (s, { p with pc := .closeFailed n })
  | .rename n m _, .ok =>
      match s.names (.creating n) with
      | none => some (s, { p with pc := .closeFailed n })
      | some dir =>
          if (((s.names (.session m)).bind fun d => s.dirs[d]?).map SessionDir.isEmpty).getD true then
            some ({ s with
                names := Function.update (Function.update s.names (.creating n) none) (.session m)
                  (some dir) },
              { p with pc := .release true, sessionPath := some m })
          else some (s, { p with pc := .closeFailed n })
  | .rename n _ _, .fail => some (s, { p with pc := .closeFailed n })
  | .closeFailed n, .ok =>
      some (s.close i p.sessionLockFd,
        { p with pc := .remove .rollback (.creating n), sessionLockFd := none })
  | _, _ => none

/-- The end of `PrepareSession`, `control_->Init`, a manager that writes, `Destroy`, and the
destructor, which leaves the session to a cleaner when its wait was too long. -/
def stepManager (i : Nat) (p : Party) : SessionPc → SessionEvent → Option (SwapRoot × Party)
  | .release ok, .ok =>
      some ({ s with cleanupLock := if s.cleanupLock = some i then none else s.cleanupLock },
        { p with pc := if ok then .prepared else .done })
  | .prepared, .ok => some (s, { p with pc := .running })
  | .prepared, .fail =>
      some (s, { p with pc := p.removeSessionDir })
  | .running, .file =>
      (p.sessionPath.bind fun m => s.names (.session m)).map fun dir =>
        (s.modifyDir dir fun d => if d.data then { d with files := d.files + 1 } else d, p)
  | .running, .destroy =>
      some (s, { p with pc := p.removeSessionDir })
  | .running, .fail => some (s, { p with pc := .closeLock })
  | .closeLock, .ok =>
      some (s.close i p.sessionLockFd, { p with pc := .done, sessionLockFd := none })
  | _, _ => none

/-- A step of a party. -/
def stepParty (i : Nat) (p : Party) (event : SessionEvent) : Option (SwapRoot × Party) :=
  match p.pc with
  | .acquire | .scan | .opened _ _ | .marked _ _ | .locking _ _ _ => s.stepClean i p p.pc event
  | .remove _ _ | .removing _ _ _ _ | .rmdir _ _ | .finish _ => s.stepRemove i p p.pc event
  | .makeDir | .openDir _ _ | .makeMarker _ _ _ | .makeData _ _ _ | .makeLock _ _ _
  | .lockSession _ _ _ | .rename _ _ _ | .closeFailed _ => s.stepCreate i p p.pc event
  | .release _ | .prepared | .running | .closeLock => s.stepManager i p p.pc event
  | .done | .crashed => none

def step : SessionAction → Option SwapRoot
  | .start creates => some { s with parties := s.parties ++ [{ creates }] }
  | .go i event =>
      match s.parties[i]? with
      | none => none
      | some p => (s.stepParty i p event).map fun r => { r.1 with parties := s.parties.set i r.2 }
  | .crash i =>
      match s.parties[i]? with
      | none => none
      | some p => some { s.dropLocks i with parties := s.parties.set i { p with pc := .crashed } }

end SwapRoot

end FileApi.Swapfs
