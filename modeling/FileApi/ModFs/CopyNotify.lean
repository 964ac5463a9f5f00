import FileApi.Misc.Machine

/-!
# The notify descriptors of a copy

The copying thread and the notify thread of `fs.copy` (`copy_core.cpp:401-463`, `607-753`,
`782-887`): who opens, reads and closes the inotify descriptor and the eventfd. A step is one
access to what the threads share, or one section under `readMutex` or `cvLock`. A descriptor that
is not there, `-1` in the source, is `none`. What the copy itself does, and what is in the events,
is left to the system.
-/

namespace FileApi.ModFs

/-- `FsFileInfos`: read and written without a lock. -/
structure CopyInfos where
  notifyFd : Option Nat := none
  eventFd : Option Nat := none
  run : Bool := true
  exceptionCode : Nat := 0
  deriving DecidableEq

/-- `FsCallbackObject`. -/
structure CopyCallback where
  notifyFd : Option Nat := none
  eventFd : Option Nat := none
  reading : Bool := false
  closed : Bool := false
  deriving DecidableEq

/-- The steps of `CloseNotifyFd`. -/
inductive CloseStep where
  | reset | eventFd | notifyFd | closeFd
  deriving DecidableEq

/-- Where `DoCopy` stands. `CloseNotifyFdLocked` is called when `SubscribeLocalListener` has failed
behind the two descriptors, and `last` when the copy is over. -/
inductive CopierPc where
  | subscribe | eventfd | addWatch | copying
  | locking (last : Bool)
  | closing (last : Bool) (next : CloseStep)
  | stop | join | returned
  deriving DecidableEq

/-- Where `GetNotifyEvent` stands; the four checks are those of its loop. -/
inductive NotifierPc where
  | notStarted
  | checkRun | checkException | checkEventFd | checkNotifyFd
  | poll
  | locking
  | readRun | fetch
  | call (fd : Option Nat)
  | reading (fd : Option Nat)
  | handle
  | leave
  | closing (next : CloseStep)
  | wait
  | returned
  deriving DecidableEq

/-- The two threads, what they share, whether the notify thread holds `readMutex` on its way
through `CloseNotifyFd`, the descriptors that are open, and those that `close` was called for. -/
structure CopyState where
  copier : CopierPc := .subscribe
  notifier : NotifierPc := .notStarted
  infos : CopyInfos := {}
  callback : CopyCallback := {}
  locked : Bool := false
  opened : List Nat := []
  closes : List Nat := []
  deriving DecidableEq

/-- `close` of a descriptor. -/
def CopyState.closeOne (s : CopyState) : Option Nat → CopyState
  | none => s
  | some fd => { s with opened := s.opened.filter (· ≠ fd), closes := s.closes ++ [fd] }

/-- `FsCallbackObject::CloseFd`. -/
def CopyState.closeFd (s : CopyState) : CopyState :=
  let closed := (s.closeOne s.callback.eventFd).closeOne s.callback.notifyFd
  { closed with callback := { s.callback with eventFd := none, notifyFd := none } }

/-- A step of `CloseNotifyFd`, and the one behind it. -/
def CopyState.closeNotifyFd (s : CopyState) : CloseStep → CopyState × Option CloseStep
  | .reset => ({ s with callback := { s.callback with closed := false } }, some .eventFd)
  | .eventFd => ({ s with infos := { s.infos with eventFd := none } }, some .notifyFd)
  | .notifyFd => ({ s with infos := { s.infos with notifyFd := none } }, some .closeFd)
  | .closeFd => (s.closeFd, none)

/-- How `SubscribeLocalListener` ends behind `inotify_add_watch`: it closes the descriptors itself,
returns an error, or returns well and the notify thread is started. -/
inductive SubscribeEnd where
  | closes | fails | starts
  deriving DecidableEq

/-- What the system answers the copying thread: a new descriptor or none, and the rest. -/
inductive CopierMove where
  /-- There is no listener, or an error comes first. -/
  | unsubscribed
  | opened (fd : Option Nat)
  | watched (result : SubscribeEnd)
  | next
  deriving DecidableEq

/-- What `poll` finds. -/
inductive PollEnd where
  | invalid | input | nothing | interrupted
  | fails (errno : Nat)
  deriving DecidableEq

/-- What the events say: there is more to come, the copy is complete, or an error. -/
inductive HandleEnd where
  | more | complete
  | exception (errCode : Nat)
  deriving DecidableEq

inductive NotifierMove where
  | polled (result : PollEnd)
  | read (interrupted : Bool)
  | handled (result : HandleEnd)
  | next
  deriving DecidableEq

inductive CopyAction where
  | copier (move : CopierMove)
  | notifier (move : NotifierMove)
  deriving DecidableEq

/-- `CloseNotifyFdLocked`, its section under `readMutex`. -/
def CopyState.closeLocked (s : CopyState) (last : Bool) : CopyState :=
  let s := { s with callback := { s.callback with closed := true } }
  if s.callback.reading then { s with copier := if last then .stop else .locking true }
  else { s with copier := .closing last .reset }

/-- A step of the copying thread. -/
def copierStep (s : CopyState) : CopierMove → Option CopyState
  | .unsubscribed =>
      match s.copier with
      | .subscribe => some { s with copier := .locking true }
      | _ => none
  | .opened fd =>
      match s.copier, fd with
      | .subscribe, none => some { s with copier := .locking true }
      | .subscribe, some fd =>
          if fd ∈ s.opened then none
          else some { s with
            copier := .eventfd, infos := { s.infos with notifyFd := some fd }
            opened := fd :: s.opened }
      | .eventfd, none => some { s with copier := .locking true }
      | .eventfd, some fd =>
          if fd ∈ s.opened then none
          else some { s with
            copier := .addWatch, infos := { s.infos with eventFd := some fd }
            callback := { s.callback with notifyFd := s.infos.notifyFd, eventFd := some fd }
            opened := fd :: s.opened }
      | _, _ => none
  | .watched result =>
      match s.copier, result with
      | .addWatch, .closes => some { s with copier := .locking false }
      | .addWatch, .fails => some { s with copier := .locking true }
      | .addWatch, .starts => some { s with copier := .copying, notifier := .checkRun }
      | _, _ => none
  | .next =>
      match s.copier with
      | .copying => some { s with copier := .locking true }
      | .locking last => if s.locked then none else some (s.closeLocked last)
      | .closing last step =>
          match s.closeNotifyFd step with
          | (s, some step) => some { s with copier := .closing last step }
          | (s, none) => some { s with copier := if last then .stop else .locking true }
      | .stop => some { s with copier := .join, infos := { s.infos with run := false } }
      | .join =>
          if s.notifier = .notStarted ∨ s.notifier = .returned then
            some { s with copier := .returned }
          else none
      | _ => none

/-- The loop of `GetNotifyEvent` goes on, or returns. -/
def NotifierPc.goesOn (goes : Bool) (pc : NotifierPc) : NotifierPc := if goes then pc else .returned

/-- A step of the notify thread. -/
def notifierStep (s : CopyState) : NotifierMove → Option CopyState
  | .polled result =>
      match s.notifier, result with
      | .poll, .invalid =>
          some { s with notifier := .returned, infos := { s.infos with run := false } }
      | .poll, .input => some { s with notifier := .locking }
      | .poll, .nothing => some { s with notifier := .wait }
      | .poll, .interrupted => some { s with notifier := .checkRun }
      | .poll, .fails errno =>
          some { s with notifier := .returned, infos := { s.infos with exceptionCode := errno } }
      | _, _ => none
  | .read interrupted =>
      match s.notifier with
      | .reading _ => some { s with notifier := if interrupted then .readRun else .handle }
      | _ => none
  | .handled result =>
      match s.notifier, result with
      | .handle, .more => some { s with notifier := .leave }
      | .handle, .complete =>
          some { s with notifier := .leave, infos := { s.infos with run := false } }
      | .handle, .exception errCode =>
          some { s with notifier := .leave, infos := { s.infos with exceptionCode := errCode } }
      | _, _ => none
  | .next =>
      match s.notifier with
      | .checkRun => some { s with notifier := .goesOn s.infos.run .checkException }
      | .checkException =>
          some { s with notifier := .goesOn (s.infos.exceptionCode = 0) .checkEventFd }
      | .checkEventFd => some { s with notifier := .goesOn s.infos.eventFd.isSome .checkNotifyFd }
      | .checkNotifyFd => some { s with notifier := .goesOn s.infos.notifyFd.isSome .poll }
      | .locking =>
          -- `ReadNotifyEventLocked`, the first section
          if s.callback.closed then some { s with notifier := .wait }
          else some { s with notifier := .readRun, callback := { s.callback with reading := true } }
      | .readRun => some { s with notifier := if s.infos.run then .fetch else .leave }
      | .fetch => some { s with notifier := .call s.infos.notifyFd }
      | .call fd => some { s with notifier := .reading fd }
      | .leave =>
          let s := { s with callback := { s.callback with reading := false } }
          if s.callback.closed then some { s with notifier := .closing .reset, locked := true }
          else some { s with notifier := .wait }
      | .closing step =>
          match s.closeNotifyFd step with
          | (s, some step) => some { s with notifier := .closing step }
          | (s, none) => some { s with notifier := .wait, locked := false }
      | .wait => some { s with notifier := .checkRun }
      | _ => none

/-- A step of `DoCopy` or of its notify thread. -/
def copyStep (s : CopyState) : CopyAction → Option CopyState
  | .copier move => copierStep s move
  | .notifier move => notifierStep s move

end FileApi.ModFs
