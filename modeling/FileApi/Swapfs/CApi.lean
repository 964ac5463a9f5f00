import FileApi.Swapfs.Lifecycle

/-!
# The C entry points

The registry of handles and the functions of `swapfs_c_api.cpp:28-250` over it, called by any
number of threads with any handles. A handle is an address. Memory that was freed may be given out
again, and a step of a method on an object that is not there any more is recorded as a fault; so
is one on an object that has not been registered yet.
-/

namespace FileApi.Swapfs

/-- `OH_SwapfsManager *`; `0` is `nullptr`. -/
abbrev Handle := Nat

/-- `ManagerApiState`. -/
structure ManagerApiState where
  activeCalls : UInt32 := 0
  destroying : Bool := false
  deriving DecidableEq

/-- An `OH_SwapfsManager`, and whether it was handed to `RegisterManager`. -/
structure ApiObject where
  session : Session := Session.new
  registered : Bool := false

/-- The memory at an address: the object that lives there, and how many have. -/
structure Cell where
  generation : Nat := 0
  object : Option ApiObject := none

/-- The kinds of manager methods. -/
inductive Method where
  | init | data | destroy
  deriving DecidableEq

/-- What must not happen. -/
inductive Fault where
  | dead (method : Method)
  | unregistered (method : Method)
  | deletedTwice
  deriving DecidableEq

/-- A data call behind the checks of its own parameters. -/
inductive DataCall where
  | op (request : Request)
  | query (keyId : UInt64)

/-- A call of an entry point; pointers to results are given or `nullptr`. -/
inductive ApiRequest where
  | createManager (manager : Bool)
  | destroyManager (manager : Handle)
  | swapOut (manager : Handle) (request : Option SwapOutRequest) (keyId : Bool)
  | swapIn (manager : Handle) (request : Option SwapInRequest)
  | queryData (manager : Handle) (keyId : UInt64) (info : Bool)
  | getStats (manager : Handle) (stats : Bool)
  | removeData (manager : Handle) (keyId : UInt64)
  | removeAllData (manager : Handle)

/-- Where a call stands. A method that runs has the generation of its object, and the number of
its call in the manager. -/
inductive ApiPc where
  | new
  | init (h : Handle)
  | initialising (h : Handle) (this : Nat)
  | discard (h : Handle) (ret : SwapfsErr)
  | register (h : Handle)
  | guard (h : Handle) (call : DataCall)
  | enter (h : Handle) (call : DataCall)
  | run (h : Handle) (this i : Nat)
  | release (h : Handle) (ret : Except SwapfsErr Unit)
  | beginDestroy (h : Handle)
  | destroy (h : Handle)
  | destroying (h : Handle) (this i : Nat)
  | unregister (h : Handle)
  | delete (h : Handle)
  | restore (h : Handle) (ret : SwapfsErr)
  | done (ret : Except SwapfsErr Unit)

/-- How a step turns out: where `new` found memory, how `Init` ended, what a step of the manager
met. -/
inductive ApiResponse where
  | ok
  | address (h : Option Handle)
  | inited (useDirectIo : Bool) (available limit : UInt64) (intervalMs : UInt32) (now : Int)
  | error (err : SwapfsErr)
  | outcome (outcome : Outcome)
  | left (left : SwapFile → Bool)

inductive ApiAction where
  | call (request : ApiRequest)
  | go (t : Nat) (response : ApiResponse)

/-- The registry, the memory, the calls, and what went wrong. -/
structure Api where
  states : Handle → Option ManagerApiState := fun _ => none
  memory : Handle → Cell := fun _ => {}
  threads : List ApiPc := []
  faults : List Fault := []

/-- What an entry point does before it looks at the registry. -/
def ApiRequest.begin : ApiRequest → ApiPc
  | .createManager manager => if manager then .new else .done (.error .inval)
  | .destroyManager h => if h = 0 then .done (.error .inval) else .beginDestroy h
  | .swapOut h (some request) true => .guard h (.op (.swapOut request))
  | .swapOut _ _ _ => .done (.error .inval)
  | .swapIn h (some request) => .guard h (.op (.swapIn request))
  | .swapIn _ none => .done (.error .inval)
  | .queryData h keyId info =>
      if keyId = 0 ∨ !info then .done (.error .inval) else .guard h (.query keyId)
  | .getStats h stats => if stats then .guard h (.op .getStats) else .done (.error .inval)
  | .removeData h keyId => if keyId = 0 then .done (.error .inval) else .guard h (.op (.removeData keyId))
  | .removeAllData h => .guard h (.op .removeAllData)

/-- What a finished call of the manager returns. -/
def Call.ret : Call → Option (Except SwapfsErr Unit)
  | .swapOut _ _ (.done result) => some (result.map fun _ => ())
  | .swapIn _ (.done result) => some (result.map fun _ => ())
  | .removeData _ (.done result) => some result
  | .removeAllData (.done result) => some result
  | .getStats .done => some (.ok ())
  | .refused err => some (.error err)
  | _ => none

/-- `QueryData`. -/
def Session.queryData (s : Session) (keyId : UInt64) : Except SwapfsErr SwapKeyEntry :=
  if keyId = 0 then .error .inval
  else if !s.initialized then .error .inval
  else if s.shuttingDown then .error .shuttingDown
  else Swapfs.queryData s.manager keyId

/-- A data call behind a step of its method. -/
def Session.runPc (s : Session) (h : Handle) (this i : Nat) : ApiPc :=
  match (s.manager.calls[i]?).bind Call.ret with
  | none => .run h this i
  | some ret => .release h ret

/-- A `SwapfsNativeDestroyManager` behind a step of `Destroy`. -/
def Session.destroyPc (s : Session) (h : Handle) (this i : Nat) : ApiPc :=
  match s.destroys[i]? with
  | some (.done (.ok ())) => .unregister h
  | some (.done (.error err)) => .restore h err
  | _ => .destroying h this i

namespace Api

variable (s : Api)

/-! ## The registry -/

/-- `RegisterManager`. -/
def registerManager (h : Handle) : Api :=
  { s with
    states := Function.update s.states h (some ((s.states h).getD {}))
    memory := Function.update s.memory h
      { s.memory h with object := (s.memory h).object.map fun o => { o with registered := true } } }

/-- The constructor of `ApiCallGuard`. -/
def apiCallGuard (h : Handle) : Except SwapfsErr Api :=
  if h = 0 then .error .inval
  else
    match s.states h with
    | none => .error .shuttingDown
    | some state =>
        if state.destroying then .error .shuttingDown
        else
          .ok { s with
            states := Function.update s.states h
              (some { state with activeCalls := state.activeCalls + 1 }) }

/-- The destructor of `ApiCallGuard`. -/
def apiCallGuardEnd (h : Handle) : Api :=
  match s.states h with
  | none => s
  | some state =>
      if 0 < state.activeCalls then
        { s with
          states := Function.update s.states h
            (some { state with activeCalls := state.activeCalls - 1 }) }
      else s

/-- `BeginDestroy`. -/
def beginDestroy (h : Handle) : Except SwapfsErr Api :=
  match s.states h with
  | none => .error .shuttingDown
  | some state =>
      if state.destroying ∨ 0 < state.activeCalls then .error .busy
      else .ok { s with states := Function.update s.states h (some { state with destroying := true }) }

/-- `RestoreDestroyable`. -/
def restoreDestroyable (h : Handle) : Api :=
  match s.states h with
  | none => s
  | some state =>
      { s with states := Function.update s.states h (some { state with destroying := false }) }

/-- `UnregisterManager`. -/
def unregisterManager (h : Handle) : Api := { s with states := Function.update s.states h none }

/-! ## The memory -/

/-- `new (std::nothrow) OH_SwapfsManager()` at an address that is free. -/
def allocate (h : Handle) : Option Api :=
  if h ≠ 0 ∧ (s.memory h).object.isNone then
    some { s with
      memory := Function.update s.memory h
        { generation := (s.memory h).generation + 1, object := some {} } }
  else none

/-- `delete manager`. -/
def deleteManager (h : Handle) : Api :=
  match (s.memory h).object with
  | none => { s with faults := s.faults ++ [.deletedTwice] }
  | some _ => { s with memory := Function.update s.memory h { s.memory h with object := none } }

/-- A step of a method on the object that was at the address when it was entered. A method whose
object is gone does nothing more and its call goes on at `dead`. -/
def onObject (h : Handle) (this : Nat) (m : Method) (dead : ApiPc)
    (f : Session → Option (Session × ApiPc)) : Option (Api × ApiPc) :=
  match (s.memory h).object with
  | none => some ({ s with faults := s.faults ++ [.dead m] }, dead)
  | some object =>
      if (s.memory h).generation ≠ this then
        some ({ s with faults := s.faults ++ [.dead m] }, dead)
      else
        (f object.session).map fun r =>
          ({ s with
              memory := Function.update s.memory h
                { s.memory h with object := some { object with session := r.1 } }
              faults := if object.registered then s.faults else s.faults ++ [.unregistered m] },
            r.2)

/-! ## The calls -/

/-- `SwapfsNativeCreateManager` behind the check of its parameter. -/
def stepCreate : ApiPc → ApiResponse → Option (Api × ApiPc)
  | .new, .address none => some (s, .done (.error .noMem))
  | .new, .address (some h) => (s.allocate h).map fun s => (s, .init h)
  | .init h, .ok =>
      s.onObject h (s.memory h).generation .init (.register h) fun session =>
        some (session, .initialising h (s.memory h).generation)
  | .initialising h this, .inited useDirectIo available limit intervalMs now =>
      s.onObject h this .init (.register h) fun session =>
        (session.step (.init useDirectIo available limit intervalMs now)).map fun session =>
          (session, .register h)
  | .initialising h this, .error err =>
      s.onObject h this .init (.discard h err) fun session => some (session, .discard h err)
  | .discard h ret, .ok => some (s.deleteManager h, .done (.error ret))
  | .register h, .ok => some (s.registerManager h, .done (.ok ()))
  | _, _ => none

/-- A data call behind the checks of its parameters. -/
def stepData : ApiPc → ApiResponse → Option (Api × ApiPc)
  | .guard h call, .ok =>
      match s.apiCallGuard h with
      | .error err => some (s, .done (.error err))
      | .ok s => some (s, .enter h call)
  | .enter h (.op request), .ok =>
      let this := (s.memory h).generation
      s.onObject h this .data (.release h (.error .inval)) fun session =>
        (session.step (.call (.start request))).map fun session' =>
          (session', session'.runPc h this session.manager.calls.length)
  | .enter h (.query keyId), .ok =>
      s.onObject h (s.memory h).generation .data (.release h (.error .inval)) fun session =>
        some (session, .release h ((session.queryData keyId).map fun _ => ()))
  | .run h this i, .outcome outcome =>
      s.onObject h this .data (.release h (.error .inval)) fun session =>
        (session.step (.call (.go i outcome))).map fun session' =>
          (session', session'.runPc h this i)
  | .release h ret, .ok => some (s.apiCallGuardEnd h, .done ret)
  | _, _ => none

/-- `SwapfsNativeDestroyManager` behind the check of its parameter. -/
def stepDestroy : ApiPc → ApiResponse → Option (Api × ApiPc)
  | .beginDestroy h, .ok =>
      match s.beginDestroy h with
      | .error err => some (s, .done (.error err))
      | .ok s => some (s, .destroy h)
  | .destroy h, .ok =>
      let this := (s.memory h).generation
      s.onObject h this .destroy (.unregister h) fun session =>
        (session.step .destroy).map fun session' =>
          (session', .destroying h this session.destroys.length)
  | .destroying h this i, .left left =>
      s.onObject h this .destroy (.unregister h) fun session =>
        (session.step (.goDestroy i left)).map fun session' =>
          (session', session'.destroyPc h this i)
  | .unregister h, .ok => some (s.unregisterManager h, .delete h)
  | .delete h, .ok => some (s.deleteManager h, .done (.ok ()))
  | .restore h ret, .ok => some (s.restoreDestroyable h, .done (.error ret))
  | _, _ => none

/-- A step of a call. -/
def stepPc (pc : ApiPc) (response : ApiResponse) : Option (Api × ApiPc) :=
  match pc with
  | .new | .init _ | .initialising _ _ | .discard _ _ | .register _ => s.stepCreate pc response
  | .guard _ _ | .enter _ _ | .run _ _ _ | .release _ _ => s.stepData pc response
  | .beginDestroy _ | .destroy _ | .destroying _ _ _ | .unregister _ | .delete _ | .restore _ _ =>
      s.stepDestroy pc response
  | .done _ => none

def step : ApiAction → Option Api
  | .call request => some { s with threads := s.threads ++ [request.begin] }
  | .go t response =>
      match s.threads[t]? with
      | none => none
      | some pc => (s.stepPc pc response).map fun r => { r.1 with threads := r.1.threads.set t r.2 }

end Api

end FileApi.Swapfs
