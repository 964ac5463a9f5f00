import FileApi.Misc.Machine

/-!
# Asynchronous I/O over a ring

`HyperAio` (`hyperaio.cpp:69-362`) as a machine of three parties: the thread that calls
`StartOpenReqs`, `StartReadReqs` or `StartCancelReqs`, the kernel behind the ring, and the thread
of `HarvestRes`. The ring is the one of liburing: entries wait in the submission queue until
`io_uring_submit` hands them over, and completions wait in the completion queue until they are
seen. When an entry is free, how much a submit takes and whether it or a wait fails is up to the
environment and part of the action.
-/

namespace FileApi.HyperAio

/-- `URING_QUEUE_SIZE`. -/
def uringQueueSize : Nat := 512

/-- `BATCH_SIZE`. -/
def batchSize : Nat := 128

/-- `RETRIES`. -/
def retries : Nat := 3

/-- `-EBUSY`. -/
def busy : Int := -16

/-- Which of the three calls it is; they differ in the operation they prepare. -/
inductive ReqKind where
  | open | read | cancel
  deriving DecidableEq

/-- A prepared submission entry. -/
structure Sqe where
  kind : ReqKind
  userData : UInt64
  deriving DecidableEq

/-- `IoResponse`, and a completion entry. -/
structure IoResponse where
  userData : UInt64
  res : Int
  flags : UInt32
  deriving DecidableEq

/-- `struct io_uring`: prepared entries, entries the kernel works on, completions. -/
structure Ring where
  sq : List Sqe := []
  inflight : List Sqe := []
  cq : List IoResponse := []
  deriving DecidableEq

/-- The completions the kernel still owes the process. -/
def Ring.owes (ring : Ring) : Nat := ring.inflight.length + ring.cq.length

/-- What `io_uring_submit` returns: how many entries it took, or an error without taking any. -/
inductive Submitted where
  | took (n : Nat)
  | error (ret : Int)
  deriving DecidableEq

/-- `io_uring_submit`. -/
def Ring.submit (ring : Ring) : Submitted → Ring
  | .took n => { ring with sq := ring.sq.drop n, inflight := ring.inflight ++ ring.sq.take n }
  | .error _ => ring

/-- Where the caller stands: in `GetSqeWithRetry` with the turns already made, at the submit in
it, at the submit behind a batch, in `HandleRequestError` after it failed, at the increment of the
counter, in `HandleSqeError`, in its `HandleRequestError`, in the last `HandleRequestError`. -/
inductive Pc where
  | getSqe (tries : Nat)
  | retry (tries : Nat)
  | submit
  | submitFailed
  | count
  | handleSqeError
  | remainingFailed (ret : Int)
  | handleRequestError
  deriving DecidableEq

/-- A call that is going on: the requests behind `i`, and its variables. -/
structure Call where
  kind : ReqKind
  todo : List UInt64
  count : Nat := 0
  infoVec : List UInt64 := []
  errorVec : List UInt64 := []
  pc : Pc := .getSqe 0
  deriving DecidableEq

/-- The context, with the requests of all calls so far and the responses given to the callback.
`harvesting` is whether the harvest thread is in its inner loop, where it holds `cqeMutex_`. -/
structure State where
  ring : Ring := {}
  pendingCqeCount : UInt32 := 0
  call : Option Call := none
  harvesting : Bool := false
  requested : List UInt64 := []
  delivered : List IoResponse := []
  deriving DecidableEq

/-- What the parties do. -/
inductive Action where
  | start (kind : ReqKind) (reqs : List UInt64)
  | getSqe (available : Bool)
  | submit (outcome : Submitted)
  | proceed
  | complete (n : Nat) (res : Int) (flags : UInt32)
  | harvest
  | getIoResult (waited : Bool)
  | rest
  deriving DecidableEq

/-- `ValidateReqNum`. -/
def validateReqNum (reqNum : Nat) : Bool := 0 < reqNum ∧ reqNum ≤ uringQueueSize

/-- `HandleRequestError` for the requests of a vector. -/
def handleRequestError (errorVec : List UInt64) (errorcode : Int) : List IoResponse :=
  errorVec.map fun userData => ⟨userData, errorcode, 0⟩

/-- `io_uring_get_sqe` in the turn `tries` of `GetSqeWithRetry`, and what follows an entry: it is
prepared, and the batch is submitted when it is full or the last. -/
def getSqe (s : State) (c : Call) (tries : Nat) (available : Bool) : Option State :=
  match c.todo with
  | [] => none
  | userData :: todo =>
      if available ∧ s.ring.sq.length < uringQueueSize then
        some { s with
          ring := { s.ring with sq := s.ring.sq ++ [⟨c.kind, userData⟩] }
          call := some { c with
            todo
            count := c.count + 1
            infoVec := c.infoVec ++ [userData]
            pc := if batchSize ≤ c.count + 1 ∨ todo = [] then .submit else .getSqe 0 } }
      else some { s with call := some { c with pc := .retry tries } }

/-- The submits: between two turns of `GetSqeWithRetry`, behind a batch, and in
`HandleSqeError`. -/
def submit (s : State) (c : Call) (outcome : Submitted) : Option State :=
  let s := { s with ring := s.ring.submit outcome }
  match c.pc with
  | .retry tries =>
      if tries + 1 < retries then some { s with call := some { c with pc := .getSqe (tries + 1) } }
      else
        some { s with call := some { c with
          todo := [], errorVec := c.errorVec ++ c.todo, pc := .handleSqeError } }
  | .submit =>
      match outcome with
      | .took _ => some { s with call := some { c with pc := .count } }
      | .error _ => some { s with call := some { c with pc := .submitFailed } }
  | .handleSqeError =>
      if c.count = 0 then none
      else
        match outcome with
        | .took _ => some { s with call := some { c with pc := .handleRequestError } }
        | .error ret => some { s with call := some { c with pc := .remainingFailed ret } }
  | _ => none

/-- The other steps of the caller. The counter is changed under the mutex. -/
def proceed (s : State) (c : Call) : Option State :=
  match c.pc with
  | .submitFailed =>
      some { s with
        delivered := s.delivered ++ handleRequestError c.infoVec busy
        call := some { c with infoVec := [], pc := .count } }
  | .count =>
      if s.harvesting then none
      else
        some { s with
          pendingCqeCount := s.pendingCqeCount + UInt32.ofNat c.count
          call := if c.todo = [] then none else some { c with count := 0, pc := .getSqe 0 } }
  | .handleSqeError =>
      if c.count = 0 then some { s with call := some { c with pc := .handleRequestError } } else none
  | .remainingFailed ret =>
      some { s with
        delivered := s.delivered ++ handleRequestError c.infoVec ret
        call := some { c with infoVec := [], pc := .handleRequestError } }
  | .handleRequestError =>
      some { s with
        delivered := s.delivered ++ handleRequestError c.errorVec busy
        call := none }
  | _ => none

/-- `GetIoResult`: the counter goes down whether or not the wait gave a completion. -/
def getIoResult (s : State) (waited : Bool) : Option State :=
  if s.harvesting = false ∨ s.pendingCqeCount = 0 then none
  else if waited = false then some { s with pendingCqeCount := s.pendingCqeCount - 1 }
  else
    match s.ring.cq with
    | [] => none
    | response :: cq =>
        some { s with
          ring := { s.ring with cq }
          pendingCqeCount := s.pendingCqeCount - 1
          delivered := s.delivered ++ [response] }

/-- One step of one party. -/
def step (s : State) : Action → Option State
  | .start kind reqs =>
      match s.call with
      | some _ => none
      | none =>
          if validateReqNum reqs.length then
            some { s with call := some { kind, todo := reqs }, requested := s.requested ++ reqs }
          else some s
  | .getSqe available =>
      match s.call with
      | some c =>
          match c.pc with
          | .getSqe tries => getSqe s c tries available
          | _ => none
      | none => none
  | .submit outcome =>
      match s.call with
      | some c => submit s c outcome
      | none => none
  | .proceed =>
      match s.call with
      | some c => proceed s c
      | none => none
  | .complete n res flags =>
      match s.ring.inflight[n]? with
      | none => none
      | some sqe =>
          some { s with ring := { s.ring with
            inflight := s.ring.inflight.eraseIdx n
            cq := s.ring.cq ++ [⟨sqe.userData, res, flags⟩] } }
  | .harvest =>
      if s.harvesting ∨ s.pendingCqeCount = 0 then none else some { s with harvesting := true }
  | .getIoResult waited => getIoResult s waited
  | .rest =>
      if s.harvesting ∧ s.pendingCqeCount = 0 then some { s with harvesting := false } else none

end FileApi.HyperAio
