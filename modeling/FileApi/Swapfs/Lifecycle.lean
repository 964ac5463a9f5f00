import FileApi.Swapfs.Manager

/-!
# Init and Destroy

The manager with the two flags that `Init` and `Destroy` set (`swapfs_manager.cpp:311-413`). Any
number of threads may call `Destroy`; each of them sets `shuttingDown_`, waits for `activeOps_` to
become zero or for the time to be up, and in its last section either cleans up or gives up.
-/

namespace FileApi.Swapfs

open Keyed

/-- Where a `Destroy` stands: in `WaitForActiveOps`, in front of its last section with the wait
over in time or not, or behind it. -/
inductive DestroyPc where
  | wait
  | cleanup
  | reset
  | done (result : Except SwapfsErr Unit)

/-- A call of `Destroy` that has not returned. -/
def DestroyPc.inFlight : DestroyPc → Bool
  | .done _ => false
  | _ => true

/-- A manager with `initialized_`, `shuttingDown_` and its `Destroy` calls. -/
structure Session where
  manager : State
  initialized : Bool
  shuttingDown : Bool := false
  destroys : List DestroyPc := []

inductive LifeAction where
  | call (action : Action)
  | init (useDirectIo : Bool) (available limit : UInt64) (intervalMs : UInt32) (now : Int)
  | destroy
  /-- A step of a `Destroy`; `left` are the files that `RemoveSessionDir` could not remove. -/
  | goDestroy (i : Nat) (left : SwapFile → Bool)

/-- Parameters that are refused before anything else. -/
def Request.invalid : Request → Bool
  | .swapOut request => request.bufferSize = 0
  | .swapIn request => request.keyId = 0 ∨ request.bufferSize = 0
  | .removeData keyId => keyId = 0
  | .removeAllData => false
  | .getStats => false

namespace Session

/-- The first section of a call, with the checks of the two flags in it. -/
def start (s : Session) (request : Request) : State × Call :=
  if !s.initialized then (s.manager, .refused .inval)
  else if s.shuttingDown then
    (s.manager, .refused (if request.invalid then .inval else .shuttingDown))
  else Swapfs.start s.manager request

/-- `Init` of a manager that is not initialised: the control starts anew, the keys go on. The new
session directory has a new name, and no key is used again. -/
def initManager (m : State) (useDirectIo : Bool) (available limit : UInt64) (intervalMs : UInt32)
    (now : Int) : State :=
  { m with
    useDirectIo
    control := { Control.initWithAvailableSpace available limit intervalMs now with
      refreshing := m.control.refreshing
      clamped := m.control.clamped } }

/-- `RemoveSessionDir`, `entries_.clear()` and `OnAllEntriesRemoved`. -/
def cleanup (m : State) (left : SwapFile → Bool) : State :=
  { m with
    entries := []
    control := { m.control with totalKeys := 0, totalDataSize := 0, totalOccupiedSize := 0 }
    disk := { m.disk with names := fun p => if left p then m.disk.names p else none } }

/-- One step of a `Destroy`. A wait that is over in time has seen `activeOps_` at zero, and one
whose time is up has seen it above. -/
def stepDestroy (s : Session) (i : Nat) (left : SwapFile → Bool) : DestroyPc → Option Session
  | .wait =>
      some { s with
        destroys := s.destroys.set i (if s.manager.activeOps = 0 then .cleanup else .reset) }
  | .cleanup =>
      some { s with
        manager := cleanup s.manager left
        initialized := false
        shuttingDown := false
        destroys := s.destroys.set i (.done (.ok ())) }
  | .reset =>
      some { s with
        shuttingDown := false
        destroys := s.destroys.set i (.done (.error .busy)) }
  | .done _ => none

def step (s : Session) : LifeAction → Option Session
  | .call (.start request) =>
      let r := s.start request
      some { s with manager := { r.1 with calls := r.1.calls ++ [r.2] } }
  | .call (.go i outcome) =>
      (Swapfs.step s.manager (.go i outcome)).map fun m => { s with manager := m }
  | .init useDirectIo available limit intervalMs now =>
      if s.initialized then some s
      else
        some { s with
          initialized := true
          manager := initManager s.manager useDirectIo available limit intervalMs now }
  | .destroy => some { s with shuttingDown := true, destroys := s.destroys ++ [.wait] }
  | .goDestroy i left =>
      match s.destroys[i]? with
      | none => none
      | some pc => s.stepDestroy i left pc

/-- A manager that was made, before `Init`. -/
def new : Session :=
  { manager := Swapfs.init false (Control.initWithAvailableSpace 0 0 0 0), initialized := false }

end Session

end FileApi.Swapfs
