import FileApi.HyperAio.Machine

/-!
# The life of a HyperAio object

`CtxInit`, the checks in front of the three request calls, and `DestroyCtx`
(`hyperaio.cpp:89-165`, `364-393`) around the machine of one context. The calls on an object come
one after the other; the kernel and the harvest thread work on meanwhile. `DestroyCtx` waits for
the harvest thread, so it begins and ends.
-/

namespace FileApi.HyperAio

/-- `EOK`. -/
def eok : Int := 0

/-- `-EINVAL`. -/
def invalid : Int := -22

/-- A call on an object with what decides it: whether there is a callback and what
`io_uring_queue_init` would return, the requests if the pointers are not null. -/
inductive ApiCall where
  | ctxInit (callBack : Bool) (queueInit : Int)
  | start (kind : ReqKind) (reqs : Option (List UInt64))
  | destroyCtx
  deriving DecidableEq

/-- `HyperAio`: `impl` is whether there is a `pImpl_`, `thread` whether `harvestThread_` is
joinable, `destroying` whether `DestroyCtx` waits in its join. `calls` are the calls that have
returned, with what they returned, the last one first. -/
structure Object where
  impl : Bool := false
  thread : Bool := false
  stopThread : Bool := true
  initialized : Bool := false
  destroyed : Bool := false
  destroying : Bool := false
  context : State := {}
  calls : List (ApiCall × Int) := []
  deriving DecidableEq

namespace Object

variable (o : Object)

/-- A call returns. -/
def returns (call : ApiCall) (ret : Int) : Object := { o with calls := (call, ret) :: o.calls }

/-- `CtxInit`. -/
def ctxInit (callBack : Bool) (queueInit : Int) : Object × Int :=
  if o.initialized then (o, eok)
  else if !callBack then (o, invalid)
  else
    let o := { o with impl := true }
    if queueInit < 0 then (o, queueInit)
    else
      ({ o with
          context := { o.context with ring := {}, harvesting := false }
          stopThread := false, thread := true, initialized := true }, eok)

/-- `CheckParameter`. -/
def checkParameter (reqNum : Nat) : Int :=
  if !o.impl then invalid
  else if !o.initialized then invalid
  else if o.destroyed then invalid
  else if !validateReqNum reqNum then invalid
  else eok

/-- `StartOpenReqs`, `StartReadReqs` and `StartCancelReqs` up to their loop; what they return is
settled there. -/
def start (kind : ReqKind) : Option (List UInt64) → Option (Object × Int)
  | none => some (o, invalid)
  | some reqs =>
      if o.checkParameter reqs.length < 0 then some (o, o.checkParameter reqs.length)
      else (step o.context (.start kind reqs)).map fun context => ({ o with context }, eok)

/-- `DestroyCtx` up to the join. -/
def beginDestroy : Object :=
  if !o.initialized then o.returns .destroyCtx eok
  else { o with destroyed := true, stopThread := o.stopThread || o.thread, destroying := true }

/-- `DestroyCtx` from the join on: the harvest thread has left its loop, and the ring is taken
down. -/
def endDestroy : Object :=
  ({ o with
      context := { o.context with ring := {} }
      thread := false, initialized := false, destroying := false }).returns .destroyCtx eok

end Object

/-- What happens to an object: a call, a step of its context, the end of `DestroyCtx`. -/
inductive ObjectAction where
  | call (call : ApiCall)
  | inner (action : Action)
  | joined
  deriving DecidableEq

/-- A call comes when the one before has returned. -/
def Object.idle (o : Object) : Bool := !o.destroying && o.context.call.isNone

/-- `HarvestRes` leaves its loop when it was told to stop and nothing is pending. -/
def Object.harvested (o : Object) : Bool :=
  !o.thread || (o.stopThread && !o.context.harvesting && o.context.pendingCqeCount == 0)

/-- The steps of a context that are the harvest thread's. -/
def Action.harvests : Action → Bool
  | .harvest | .getIoResult _ | .rest => true
  | _ => false

def Action.starts : Action → Bool
  | .start _ _ => true
  | _ => false

def Object.step (o : Object) : ObjectAction → Option Object
  | .call call =>
      if !o.idle then none
      else
        match call with
        | .ctxInit callBack queueInit =>
            let (o, ret) := o.ctxInit callBack queueInit
            some (o.returns call ret)
        | .start kind reqs => (o.start kind reqs).map fun (o, ret) => o.returns call ret
        | .destroyCtx => some o.beginDestroy
  | .inner action =>
      if action.starts || (action.harvests && !o.thread) then none
      else (HyperAio.step o.context action).map fun context => { o with context }
  | .joined => if o.destroying && o.harvested then some o.endDestroy else none

end FileApi.HyperAio
