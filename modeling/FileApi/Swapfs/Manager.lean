import FileApi.Misc.Keyed
import FileApi.Misc.Machine
import FileApi.Swapfs.Control

/-!
# The swapfs manager

`SwapfsManager` (`swapfs_manager.cpp:395-852`) with any number of calls going on at once. A step
is one section under a mutex or one system call; its outcome (success, a count of bytes, an error,
the time, the free space) is part of the action. The manager is initialised and not shut down.

A file of the session is named by its key: `<key>.tmp` while it is written, `<key>.swap` behind
the rename.
-/

namespace FileApi.Swapfs

open Keyed

/-- `SWAPFS_DIO_ALIGNMENT`. -/
def dioAlignment : UInt64 := 4096

/-- `IsDioAligned`. -/
def isDioAligned (address size : UInt64) : Bool :=
  address % dioAlignment = 0 ∧ size % dioAlignment = 0

/-- `OH_SwapfsKeyStatus`. -/
inductive KeyStatus where
  | active | removing
  deriving DecidableEq

/-- `SwapKeyEntry`; the path is the one of the key, the creation time is not used. -/
structure SwapKeyEntry where
  keyId : UInt64
  dataSize : UInt64
  status : KeyStatus := .active
  readCount : UInt32 := 0
  deriving DecidableEq

/-- The files below the data directory. -/
inductive SwapFile where
  | tmp (keyId : UInt64)
  | swap (keyId : UInt64)
  deriving DecidableEq

/-- The data directory: names and the contents of the files, which open descriptors refer to. -/
structure Disk where
  names : SwapFile → Option Nat := fun _ => none
  files : List (List UInt8) := []

/-- The file a name stands for, with its content. -/
def Disk.lookup (d : Disk) (path : SwapFile) : Option (Nat × List UInt8) :=
  (d.names path).bind fun file => (d.files[file]?).map fun content => (file, content)

/-- `open` with `O_CREAT | O_TRUNC`. -/
def Disk.create (d : Disk) (path : SwapFile) : Nat × Disk :=
  match d.names path with
  | some file => (file, { d with files := d.files.set file [] })
  | none =>
      (d.files.length,
        { names := Function.update d.names path (some d.files.length), files := d.files ++ [[]] })

/-- `write` to a descriptor at the end of the file. -/
def Disk.append (d : Disk) (file : Nat) (bytes : List UInt8) : Disk :=
  { d with files := d.files.modify file (· ++ bytes) }

/-- `rename` of a file that is there. -/
def Disk.rename (d : Disk) (source target : SwapFile) : Option Disk :=
  match d.names source with
  | none => none
  | some file =>
      some { d with
        names := Function.update (Function.update d.names target (some file)) source none }

/-- `unlink` of a file that is there. -/
def Disk.unlink (d : Disk) (path : SwapFile) : Option Disk :=
  match d.names path with
  | none => none
  | some _ => some { d with names := Function.update d.names path none }

/-- `OH_SwapfsSwapOutRequest`: the bytes in the buffer, and its address. -/
structure SwapOutRequest where
  buffer : List UInt8
  address : UInt64
  fits : buffer.length < 2 ^ 64

def SwapOutRequest.bufferSize (r : SwapOutRequest) : UInt64 := UInt64.ofNat r.buffer.length

/-- `OH_SwapfsSwapInRequest`. -/
structure SwapInRequest where
  keyId : UInt64
  address : UInt64
  bufferSize : UInt64
  deriving DecidableEq

/-- Where a `SwapOut` stands. -/
inductive OutPc where
  | refresh
  | refreshing (now : Int) (committedAtStart : UInt64)
  | reserve
  | openTmp
  | write (fd : Nat) (written : Nat)
  | fsync
  | rename
  | cleanup (err : SwapfsErr)
  | cancel (err : SwapfsErr)
  | commit
  | endOperation (result : Except SwapfsErr UInt64)
  | done (result : Except SwapfsErr UInt64)

/-- Where a `SwapIn` stands; its result is what it put into the buffer. -/
inductive InPc where
  | lookup
  | openSwap (entry : SwapKeyEntry)
  | read (entry : SwapKeyEntry) (uring : Bool) (fd : Nat) (got : List UInt8)
  | finish (result : Except SwapfsErr (List UInt8))
  | unlink (removedSize : UInt64) (result : Except SwapfsErr (List UInt8))
  | finishRemoval (removedSize : UInt64) (removed : Bool) (result : Except SwapfsErr (List UInt8))
  | endOperation (result : Except SwapfsErr (List UInt8))
  | done (result : Except SwapfsErr (List UInt8))

/-- Where a `RemoveData` stands. -/
inductive RemovePc where
  | unlink (entry : SwapKeyEntry)
  | finalize (entry : SwapKeyEntry) (result : Except SwapfsErr Unit)
  | endOperation (result : Except SwapfsErr Unit)
  | done (result : Except SwapfsErr Unit)

/-- Where a `RemoveAllData` stands. -/
inductive RemoveAllPc where
  | unlink (todo : List SwapKeyEntry) (removed : List (SwapKeyEntry × Bool))
      (firstError : Option SwapfsErr)
  | finalize (removed : List (SwapKeyEntry × Bool)) (firstError : Option SwapfsErr)
  | endOperation (result : Except SwapfsErr Unit)
  | done (result : Except SwapfsErr Unit)

/-- Where a `GetStats` stands. -/
inductive StatsPc where
  | refresh
  | refreshing (now : Int) (committedAtStart : UInt64)
  | fillStats
  | endOperation
  | done

/-- A call. One that was refused in its first section is `refused`. -/
inductive Call where
  | swapOut (request : SwapOutRequest) (keyId : UInt64) (pc : OutPc)
  | swapIn (request : SwapInRequest) (pc : InPc)
  | removeData (keyId : UInt64) (pc : RemovePc)
  | removeAllData (pc : RemoveAllPc)
  | getStats (pc : StatsPc)
  | refused (err : SwapfsErr)

/-- The manager, its control, the data directory, and all calls made so far. -/
structure State where
  useDirectIo : Bool
  control : Control
  entries : List SwapKeyEntry := []
  nextKeyId : UInt64 := 1
  activeOps : UInt32 := 0
  removeAllInProgress : Bool := false
  disk : Disk := {}
  calls : List Call := []

/-- A new call. -/
inductive Request where
  | swapOut (request : SwapOutRequest)
  | swapIn (request : SwapInRequest)
  | removeData (keyId : UInt64)
  | removeAllData
  | getStats

/-- How the step of a call turns out. -/
inductive Outcome where
  | ok
  | error (err : SwapfsErr)
  | bytes (n : Nat)
  | opened (uring : Bool)
  | time (now : Int)
  | space (free : Option UInt64)

inductive Action where
  | start (request : Request)
  | go (i : Nat) (outcome : Outcome)

abbrev findEntry (s : State) (k : UInt64) : Option SwapKeyEntry := find SwapKeyEntry.keyId s.entries k

/-! ## First sections -/

/-- `SwapOut` up to the end of `PrepareForSwapOut`. -/
def startSwapOut (s : State) (request : SwapOutRequest) : State × Call :=
  if request.bufferSize = 0 then (s, .refused .inval)
  else if s.useDirectIo ∧ !isDioAligned request.address request.bufferSize then
    (s, .refused .dioAlign)
  else if s.removeAllInProgress then (s, .refused .busy)
  else
    ({ s with activeOps := s.activeOps + 1, nextKeyId := s.nextKeyId + 1 },
      .swapOut request s.nextKeyId .refresh)

/-- `SwapIn` up to `LookupKeyForSwapIn`. -/
def startSwapIn (s : State) (request : SwapInRequest) : State × Call :=
  if request.keyId = 0 ∨ request.bufferSize = 0 then (s, .refused .inval)
  else
    ({ s with activeOps := s.activeOps + 1 },
      .swapIn request
        (if s.useDirectIo ∧ !isDioAligned request.address request.bufferSize then
          .endOperation (.error .dioAlign)
        else .lookup))

/-- `RemoveData` up to the end of `PrepareRemoveEntry`: an entry that is read is removed by its
last reader. -/
def startRemoveData (s : State) (keyId : UInt64) : State × Call :=
  if keyId = 0 then (s, .refused .inval)
  else
    match findEntry s keyId with
    | none => (s, .refused .keyNotFound)
    | some entry =>
        if entry.status ≠ .active then (s, .refused .keyStateInvalid)
        else
          let marked := { entry with status := .removing }
          let entries := modify SwapKeyEntry.keyId s.entries keyId fun e => { e with status := .removing }
          if entry.readCount = 0 then
            ({ s with entries, activeOps := s.activeOps + 1 }, .removeData keyId (.unlink marked))
          else ({ s with entries }, .removeData keyId (.done (.ok ())))

/-- `RemoveAllData` up to the end of `CollectRemovableEntries`. -/
def startRemoveAllData (s : State) : State × Call :=
  if 0 < s.activeOps then (s, .refused .busy)
  else if s.entries = [] then (s, .removeAllData (.done (.ok ())))
  else
    ({ s with
        entries := s.entries.map fun e => { e with status := .removing }
        removeAllInProgress := true
        activeOps := s.activeOps + 1 },
      .removeAllData (.unlink s.entries [] none))

/-- `GetStats` up to `FillStats`. -/
def startGetStats (s : State) : State × Call :=
  ({ s with activeOps := s.activeOps + 1 }, .getStats .refresh)

def start (s : State) : Request → State × Call
  | .swapOut request => startSwapOut s request
  | .swapIn request => startSwapIn s request
  | .removeData keyId => startRemoveData s keyId
  | .removeAllData => startRemoveAllData s
  | .getStats => startGetStats s

/-! ## Later sections -/

/-- `EndOperation`. -/
def endOperation (s : State) : State := { s with activeOps := s.activeOps - 1 }

/-- `RefreshAvailableSpaceIfNeeded`, first section: waits for `refreshMutex_`; `none` for no
refresh. -/
def refreshBegin (s : State) (now : Int) : Option (State × Option UInt64) :=
  if s.control.refreshing then none
  else
    match s.control.refreshBegin now with
    | none => some (s, none)
    | some committedAtStart =>
        some ({ s with control := { s.control with refreshing := true } }, some committedAtStart)

def refreshEnd (s : State) (now : Int) (committedAtStart : UInt64) (free : Option UInt64) : State :=
  { s with control := s.control.refreshEnd now committedAtStart free }

/-- `CommitSwapOutEntry`. -/
def commitSwapOutEntry (s : State) (entry : SwapKeyEntry) : State :=
  { s with
    entries := put SwapKeyEntry.keyId s.entries entry
    control := s.control.onSwapOutCommitted entry.dataSize entry.dataSize }

/-- An entry whose file was unlinked, or could not be unlinked; entries that are gone are left
alone. The end of `FinishSwapIn`, `FinalizeRemoveEntry` and the loop of `RemoveAllData`. -/
def finalizeEntry (s : State) (keyId dataSize : UInt64) (removed : Bool) : State :=
  match findEntry s keyId with
  | none => s
  | some _ =>
      if removed then
        { s with
          control := s.control.onEntryRemoved dataSize dataSize
          entries := erase SwapKeyEntry.keyId s.entries keyId }
      else
        { s with
          entries := modify SwapKeyEntry.keyId s.entries keyId fun e => { e with status := .active } }

/-- `SwapOut` behind its first section. -/
def stepSwapOut (s : State) (request : SwapOutRequest) (keyId : UInt64) :
    OutPc → Outcome → Option (State × OutPc)
  | .refresh, .time now =>
      (refreshBegin s now).map fun
        | (s, none) => (s, .reserve)
        | (s, some committedAtStart) => (s, .refreshing now committedAtStart)
  | .refreshing now committedAtStart, .space free =>
      some (refreshEnd s now committedAtStart free, .reserve)
  | .reserve, .ok =>
      match s.control.reserveSwapOut request.bufferSize with
      | (.error err, control) => some ({ s with control }, .endOperation (.error err))
      | (.ok (), control) => some ({ s with control }, .openTmp)
  | .openTmp, .ok =>
      let (fd, disk) := s.disk.create (.tmp keyId)
      some ({ s with disk }, .write fd 0)
  | .openTmp, .error err => some (s, .cleanup err)
  | .write fd written, .bytes n =>
      if n = 0 then some (s, .cleanup .ioError)
      else if request.buffer.length < written + n then none
      else
        some ({ s with disk := s.disk.append fd ((request.buffer.drop written).take n) },
          if written + n = request.buffer.length then .fsync else .write fd (written + n))
  | .write _ _, .error err => some (s, .cleanup err)
  | .fsync, .ok => some (s, .rename)
  | .fsync, .error err => some (s, .cleanup err)
  | .rename, .ok =>
      (s.disk.rename (.tmp keyId) (.swap keyId)).map fun disk => ({ s with disk }, .commit)
  | .rename, .error err => some (s, .cleanup err)
  | .cleanup err, .ok => (s.disk.unlink (.tmp keyId)).map fun disk => ({ s with disk }, .cancel err)
  | .cleanup err, .error _ => some (s, .cancel err)
  | .cancel err, .ok =>
      some ({ s with control := s.control.cancelReservedSwapOut request.bufferSize },
        .endOperation (.error err))
  | .commit, .ok =>
      some (commitSwapOutEntry s { keyId, dataSize := request.bufferSize },
        .endOperation (.ok keyId))
  | .endOperation result, .ok => some (endOperation s, .done result)
  | _, _ => none

/-- `LookupKeyForSwapIn` and the check of the buffer behind it. -/
def lookupKeyForSwapIn (s : State) (request : SwapInRequest) : State × InPc :=
  match findEntry s request.keyId with
  | none => (s, .endOperation (.error .keyNotFound))
  | some entry =>
      if entry.status ≠ .active then (s, .endOperation (.error .keyStateInvalid))
      else
        let entries := modify SwapKeyEntry.keyId s.entries request.keyId
          fun e => { e with readCount := e.readCount + 1 }
        ({ s with entries },
          if request.bufferSize < entry.dataSize then .finish (.error .bufferTooSmall)
          else .openSwap { entry with readCount := entry.readCount + 1 })

/-- The first section of `FinishSwapIn`: the last reader of an entry that is being removed goes
on to remove it. -/
def finishSwapIn (s : State) (keyId : UInt64) (result : Except SwapfsErr (List UInt8)) :
    State × InPc :=
  match findEntry s keyId with
  | none => (s, .endOperation result)
  | some entry =>
      let entries := modify SwapKeyEntry.keyId s.entries keyId
        fun e => { e with readCount := e.readCount - 1 }
      if entry.status ≠ .removing ∨ 0 < entry.readCount - 1 then
        ({ s with entries }, .endOperation result)
      else ({ s with entries }, .unlink entry.dataSize result)

/-- `SwapIn` behind its first section. A read through the ring is one read of the whole size, and
its result is an `int`. -/
def stepSwapIn (s : State) (request : SwapInRequest) : InPc → Outcome → Option (State × InPc)
  | .lookup, .ok => some (lookupKeyForSwapIn s request)
  | .openSwap entry, .opened uring =>
      if s.useDirectIo ∧ !isDioAligned request.address entry.dataSize then
        some (s, .finish (.error .dioAlign))
      else if entry.dataSize = 0 then some (s, .finish (.error .inval))
      else if uring ∧ !s.useDirectIo then none
      else
        match s.disk.names (.swap entry.keyId) with
        | none => none
        | some fd => some (s, .read entry uring fd [])
  | .openSwap _, .error err => some (s, .finish (.error err))
  | .read entry uring fd got, .bytes n =>
      match s.disk.files[fd]? with
      | none => none
      | some content =>
          let chunk := (content.drop got.length).take n
          if chunk.length ≠ n ∨ entry.dataSize.toNat < got.length + n ∨ uring ∧ 2 ^ 31 ≤ n then none
          else if got.length + n = entry.dataSize.toNat then some (s, .finish (.ok (got ++ chunk)))
          else if n = 0 ∨ uring then some (s, .finish (.error .ioError))
          else some (s, .read entry uring fd (got ++ chunk))
  | .read _ _ _ _, .error err => some (s, .finish (.error err))
  | .finish result, .ok => some (finishSwapIn s request.keyId result)
  | .unlink removedSize result, .ok =>
      (s.disk.unlink (.swap request.keyId)).map fun disk =>
        ({ s with disk }, .finishRemoval removedSize true result)
  | .unlink removedSize result, .error _ => some (s, .finishRemoval removedSize false result)
  | .finishRemoval removedSize removed result, .ok =>
      some (finalizeEntry s request.keyId removedSize removed, .endOperation result)
  | .endOperation result, .ok => some (endOperation s, .done result)
  | _, _ => none

/-- `RemoveData` behind its first section. -/
def stepRemoveData (s : State) : RemovePc → Outcome → Option (State × RemovePc)
  | .unlink entry, .ok =>
      (s.disk.unlink (.swap entry.keyId)).map fun disk => ({ s with disk }, .finalize entry (.ok ()))
  | .unlink entry, .error err => some (s, .finalize entry (.error err))
  | .finalize entry result, .ok =>
      some (finalizeEntry s entry.keyId entry.dataSize result.isOk, .endOperation result)
  | .endOperation result, .ok => some (endOperation s, .done result)
  | _, _ => none

/-- `RemoveAllData` behind its first section. -/
def stepRemoveAllData (s : State) : RemoveAllPc → Outcome → Option (State × RemoveAllPc)
  | .unlink [] removed firstError, .ok => some (s, .finalize removed firstError)
  | .unlink (entry :: todo) removed firstError, .ok =>
      (s.disk.unlink (.swap entry.keyId)).map fun disk =>
        ({ s with disk }, .unlink todo (removed ++ [(entry, true)]) firstError)
  | .unlink (entry :: todo) removed firstError, .error err =>
      some (s, .unlink todo (removed ++ [(entry, false)]) (firstError.or (some err)))
  | .finalize removed firstError, .ok =>
      some ({ removed.foldl (fun s r => finalizeEntry s r.1.keyId r.1.dataSize r.2) s with
          removeAllInProgress := false },
        .endOperation (match firstError with
          | none => .ok ()
          | some err => .error err))
  | .endOperation result, .ok => some (endOperation s, .done result)
  | _, _ => none

/-- `GetStats` behind its first section. -/
def stepGetStats (s : State) : StatsPc → Outcome → Option (State × StatsPc)
  | .refresh, .time now =>
      (refreshBegin s now).map fun
        | (s, none) => (s, .fillStats)
        | (s, some committedAtStart) => (s, .refreshing now committedAtStart)
  | .refreshing now committedAtStart, .space free =>
      some (refreshEnd s now committedAtStart free, .fillStats)
  | .fillStats, .ok => some (s, .endOperation)
  | .endOperation, .ok => some (endOperation s, .done)
  | _, _ => none

/-- `QueryData`, which is one section and changes nothing. -/
def queryData (s : State) (keyId : UInt64) : Except SwapfsErr SwapKeyEntry :=
  if keyId = 0 then .error .inval
  else
    match findEntry s keyId with
    | none => .error .keyNotFound
    | some entry => if entry.status ≠ .active then .error .keyStateInvalid else .ok entry

/-- One step of a call. -/
def stepCall (s : State) (outcome : Outcome) : Call → Option (State × Call)
  | .swapOut request keyId pc =>
      (stepSwapOut s request keyId pc outcome).map fun r => (r.1, .swapOut request keyId r.2)
  | .swapIn request pc =>
      (stepSwapIn s request pc outcome).map fun r => (r.1, .swapIn request r.2)
  | .removeData keyId pc =>
      (stepRemoveData s pc outcome).map fun r => (r.1, .removeData keyId r.2)
  | .removeAllData pc => (stepRemoveAllData s pc outcome).map fun r => (r.1, .removeAllData r.2)
  | .getStats pc => (stepGetStats s pc outcome).map fun r => (r.1, .getStats r.2)
  | .refused _ => none

/-- A new call, or a step of one that is going on. -/
def step (s : State) : Action → Option State
  | .start request =>
      let r := start s request
      some { r.1 with calls := r.1.calls ++ [r.2] }
  | .go i outcome =>
      match s.calls[i]? with
      | none => none
      | some call =>
          (stepCall s outcome call).map fun r => { r.1 with calls := r.1.calls.set i r.2 }

/-- A manager after `Init`. -/
def init (useDirectIo : Bool) (control : Control) : State := { useDirectIo, control }

end FileApi.Swapfs
