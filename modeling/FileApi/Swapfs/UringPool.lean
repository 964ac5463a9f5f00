import FileApi.Swapfs.ReadEngines

/-!
# The pool of rings

`UringReadEngine` with any number of `Read` calls at once: the slots behind `poolMutex_`
(`swapfs_uring_read_engine.cpp:159-205`, `301-330`) and the rings in them. The ring adapter
responds as it likes; a ring holds the requests it accepted until they are completed, in any order,
and the completions until they are taken.
-/

namespace FileApi.Swapfs

/-- A request in a ring, or its completion: its user data, and which call's read it is; a request
to cancel is no read. -/
structure RingEntry where
  userData : UInt64
  read : Option Nat
  deriving DecidableEq

/-- `RingSlot`. -/
structure RingSlot where
  available : Bool
  inUse : Bool := false
  outstanding : List RingEntry := []
  completions : List (RingEntry × Int) := []

/-- A `Read`; whether a ring accepted its request, and whether the completion it took for its own
is its own. -/
structure Reader where
  request : ReadRequest
  pc : UringPc := .isAvailable
  accepted : Bool := false
  consumed : Bool := false

/-- The engine after `InitializePool`, and how many request ids it has handed out. -/
structure Engine where
  slots : List RingSlot
  nextRequestId : UInt64 := 1
  shuttingDown : Bool := false
  readers : List Reader := []
  issued : Nat := 0

/-- A new call, a step of one with a response other than a completion, the taking of the `j`-th
completion of its ring, the completion of the `j`-th request of a ring, and the destructor. -/
inductive EngineAction where
  | read (request : ReadRequest)
  | go (i : Nat) (response : Response)
  | reap (i j : Nat)
  | complete (slot j : Nat) (res : Int)
  | shutDown

/-- The slot a call holds. -/
def UringPc.slot : UringPc → Option Nat
  | .openFile k => some k
  | .getSqe k => some k
  | .submit k _ => some k
  | .waitCqe k _ _ => some k
  | .cancel k _ _ _ => some k
  | .rebuild k _ => some k
  | .release k _ => some k
  | _ => none

/-- What a call does to its ring and to the flags of its slot. -/
def RingSlot.after (slot : RingSlot) (i : Nat) : UringPc → Response → RingSlot
  | .submit _ id, .ret ret =>
      if 0 < ret then { slot with outstanding := slot.outstanding ++ [⟨id, some i⟩] } else slot
  | .cancel _ _ cancelId _, .ret ret =>
      { slot with outstanding := slot.outstanding ++ List.replicate ret.toNat ⟨cancelId, none⟩ }
  | .rebuild _ _, .flag rebuilt =>
      { slot with available := rebuilt, outstanding := [], completions := [] }
  | .release _ _, _ => { slot with inUse := false }
  | _, _ => slot

/-- Whether the ring has just accepted the request of the call. -/
def Response.accepts : Response → UringPc → Bool
  | .ret value, .submit _ _ => 0 < value
  | _, _ => false

/-- The ids handed out in a step of a call. -/
def UringPc.issues : UringPc → UringPc → Nat
  | .getSqe _, _ => 1
  | .waitCqe _ _ _, .cancel _ _ _ _ => 1
  | _, _ => 0

namespace Engine

variable (s : Engine)

/-- `HasAvailableRing`. -/
def hasAvailableRing : Bool := s.slots.any RingSlot.available

/-- The slot that `AcquireSlot` finds. -/
def freeSlot : Option Nat := s.slots.findIdx? fun slot => slot.available && !slot.inUse

/-- The responses of the pool are those of its state; `AcquireSlot` waits while there is no free
slot. -/
def allows : UringPc → Response → Bool
  | .isAvailable, .flag available => available == (!s.shuttingDown && s.hasAvailableRing)
  | .acquireSlot, .slot k =>
      if s.shuttingDown || !s.hasAvailableRing then k.isNone else k.isSome && k == s.freeSlot
  | .waitCqe _ _ _, .cqe _ _ => false
  | _, _ => true

/-- The slots after a step of a call. -/
def slotsAfter (i : Nat) (pc : UringPc) (response : Response) : List RingSlot :=
  match pc, response with
  | .acquireSlot, .slot (some k) => s.slots.modify k fun slot => { slot with inUse := true }
  | pc, response =>
      match pc.slot with
      | none => s.slots
      | some k => s.slots.modify k fun slot => slot.after i pc response

def step : EngineAction → Option Engine
  | .read request => some { s with readers := s.readers ++ [{ request }] }
  | .go i response =>
      match s.readers[i]? with
      | none => none
      | some reader =>
          if s.allows reader.pc response then
            (stepRead reader.request s.nextRequestId reader.pc response).map fun r =>
              { s with
                slots := s.slotsAfter i reader.pc response
                nextRequestId := r.2
                issued := s.issued + reader.pc.issues r.1
                readers := s.readers.set i { reader with
                  pc := r.1
                  accepted := reader.accepted || response.accepts reader.pc } }
          else none
  | .reap i j =>
      match s.readers[i]? with
      | none => none
      | some reader =>
          match reader.pc with
          | .waitCqe k id state =>
              match s.slots[k]? with
              | none => none
              | some slot =>
                  match slot.completions[j]? with
                  | none => none
                  | some (entry, res) =>
                      (stepRead reader.request s.nextRequestId (.waitCqe k id state)
                        (.cqe entry.userData res)).map fun r =>
                          { s with
                            slots := s.slots.set k
                              { slot with completions := slot.completions.eraseIdx j }
                            readers := s.readers.set i { reader with
                              pc := r.1
                              consumed := reader.consumed ||
                                (entry.userData == id && entry.read == some i) } }
          | _ => none
  | .complete k j res =>
      match s.slots[k]? with
      | none => none
      | some slot =>
          match slot.outstanding[j]? with
          | none => none
          | some entry =>
              some { s with
                slots := s.slots.set k
                  { slot with
                    outstanding := slot.outstanding.eraseIdx j
                    completions := slot.completions ++ [(entry, res)] } }
  | .shutDown => some { s with shuttingDown := true }

/-- The engine with the rings that could be set up. -/
def init (flags : List Bool) : Engine := { slots := flags.map fun available => { available } }

end Engine

end FileApi.Swapfs
