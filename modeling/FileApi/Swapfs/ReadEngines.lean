import FileApi.Swapfs.Manager

/-!
# The two read engines

`SyncReadEngine::Read` (`swapfs_sync_io_engine.cpp:58-119`), `UringReadEngine::Read` with what it
calls (`swapfs_uring_read_engine.cpp:159-330`), and `MapErrno` (`swapfs_err_mapper.cpp:19-49`). A
step of the ring engine takes the response of the system or of the ring adapter; the slots of the
pool and the rings are not part of it.
-/

namespace FileApi.Swapfs

/-! ## Errors -/

def EPERM : Int := 1
def ENOENT : Int := 2
def EINTR : Int := 4
def EIO : Int := 5
def ENOMEM : Int := 12
def EACCES : Int := 13
def EBUSY : Int := 16
def ENOTDIR : Int := 20
def EINVAL : Int := 22
def ENOSPC : Int := 28
def EDQUOT : Int := 122

inductive SwapfsErrContext where
  | pathOperation | keyOperation | ioOperation
  deriving DecidableEq

/-- `MapErrno`. -/
def mapErrno (err : Int) (context : SwapfsErrContext) : SwapfsErr :=
  if err = EINVAL then .inval
  else if err = EACCES ∨ err = EPERM then .acces
  else if err = ENOSPC then .noSpc
  else if err = EDQUOT then .quotaExceeded
  else if err = EBUSY then .busy
  else if err = EIO then .ioError
  else if err = ENOENT ∨ err = ENOTDIR then
    match context with
    | .pathOperation => .pathUnavailable
    | .ioOperation => .ioError
    | .keyOperation => .keyNotFound
  else if err = ENOMEM then .noMem
  else .ioError

/-! ## The file -/

/-- The answer of the system to one read. -/
inductive Answer where
  | error (err : Int)
  | bytes (n : Nat)
  deriving DecidableEq

/-- What one read of Linux moves at most, `MAX_RW_COUNT`. -/
def maxRwCount : Nat := 0x7ffff000

/-- Whether a read of `len` bytes at the offset can be answered so: it may be short, but it moves
nothing only at the end of the file. -/
def Answer.legal (content : List UInt8) (offset len : Nat) : Answer → Prop
  | .error err => 0 < err
  | .bytes n => n ≤ len ∧ n ≤ maxRwCount ∧ n ≤ content.length - offset ∧
      (n = 0 → len = 0 ∨ content.length ≤ offset)

instance (content : List UInt8) (offset len : Nat) (a : Answer) :
    Decidable (a.legal content offset len) :=
  match a with
  | .error err => inferInstanceAs (Decidable (0 < err))
  | .bytes n => inferInstanceAs (Decidable (n ≤ len ∧ n ≤ maxRwCount ∧
      n ≤ content.length - offset ∧ (n = 0 → len = 0 ∨ content.length ≤ offset)))

/-- The same answer to a request that may be shorter. -/
def Answer.cut (len : Nat) : Answer → Answer
  | .error err => .error err
  | .bytes n => .bytes (min n len)

/-- The swap file as the system shows it: its content, the outcome of `open`, and the answers to
the reads, one after another. -/
structure Kernel where
  content : List UInt8
  opened : Except Int Unit
  answers : List Answer

structure ReadRequest where
  address : UInt64
  size : UInt64

/-! ## `SyncReadEngine` -/

/-- `ReadFull` from the offset 0, with what was read so far; `none` while an answer is missing. -/
def readFull (content : List UInt8) (size : Nat) (got : List UInt8) (answers : List Answer) :
    Option (Except SwapfsErr (List UInt8) × List Answer) :=
  if size ≤ got.length then some (.ok got, answers)
  else
    match answers with
    | [] => none
    | answer :: rest =>
        if answer.legal content got.length (size - got.length) then
          match answer with
          | .error err =>
              if err = EINTR then readFull content size got rest
              else some (.error (mapErrno err .keyOperation), rest)
          | .bytes n =>
              if n = 0 then some (.error .ioError, rest)
              else readFull content size (got ++ (content.drop got.length).take n) rest
        else none

/-- `SyncReadEngine::Read` of a whole file, with direct I/O. -/
def syncRead (k : Kernel) (r : ReadRequest) :
    Option (Except SwapfsErr (List UInt8) × List Answer) :=
  if r.size = 0 then some (.error .inval, k.answers)
  else if !isDioAligned r.address r.size then some (.error .dioAlign, k.answers)
  else
    match k.opened with
    | .error err => some (.error (mapErrno err .keyOperation), k.answers)
    | .ok () => readFull k.content r.size.toNat [] k.answers

/-! ## `UringReadEngine` -/

/-- `WaitState`. -/
structure WaitState where
  error : Option SwapfsErr := none
  rebuild : Bool := false
  cancelAttempted : Bool := false
  deriving DecidableEq

/-- Where a `Read` stands, with its slot and the id of its request. -/
inductive UringPc where
  | isAvailable
  | acquireSlot
  | openFile (slot : Nat)
  | getSqe (slot : Nat)
  | submit (slot : Nat) (requestId : UInt64)
  | waitCqe (slot : Nat) (requestId : UInt64) (state : WaitState)
  | cancel (slot : Nat) (requestId cancelId : UInt64) (state : WaitState)
  | rebuild (slot : Nat) (result : Except SwapfsErr Unit)
  | release (slot : Nat) (result : Except SwapfsErr Unit)
  | done (result : Except SwapfsErr Unit)

/-- A response of the pool, of the system or of the ring adapter. -/
inductive Response where
  | flag (value : Bool)
  | slot (k : Option Nat)
  | ok
  | error (err : Int)
  | ret (value : Int)
  | cqe (userData : UInt64) (res : Int)

/-- What `SubmitRead` and `HandleWaitFailure` make of a result that is no success. -/
def ringErr (ret : Int) : SwapfsErr := if ret < 0 then mapErrno (-ret) .ioOperation else .ioError

/-- The end of `WaitForCompletion`, with the result of the completion. -/
def completed (r : ReadRequest) (state : WaitState) (res : Int) : Except SwapfsErr Unit :=
  match state.error with
  | some err => .error err
  | none =>
      if res < 0 then .error (mapErrno (-res) .ioOperation)
      else if res.toNat = r.size.toNat then .ok ()
      else .error .ioError

/-- One step of `UringReadEngine::Read`, with the counter of the request ids. -/
def stepRead (r : ReadRequest) (nextRequestId : UInt64) :
    UringPc → Response → Option (UringPc × UInt64)
  | .isAvailable, .flag available =>
      some (if !available then .done (.error .featureDisabled)
        else if !isDioAligned r.address r.size then .done (.error .dioAlign)
        else .acquireSlot, nextRequestId)
  | .acquireSlot, .slot none => some (.done (.error .featureDisabled), nextRequestId)
  | .acquireSlot, .slot (some k) => some (.openFile k, nextRequestId)
  | .openFile k, .error err => some (.release k (.error (mapErrno err .ioOperation)), nextRequestId)
  | .openFile k, .ok => some (.getSqe k, nextRequestId)
  | .getSqe k, .flag true => some (.submit k nextRequestId, nextRequestId + 1)
  | .getSqe k, .flag false => some (.rebuild k (.error .ioError), nextRequestId + 1)
  | .submit k id, .ret ret =>
      some (if ret = -EINTR then .submit k id
        else if ret ≤ 0 then .rebuild k (.error (ringErr ret))
        else if ret = 1 then .waitCqe k id {}
        else .waitCqe k id { error := some .ioError, rebuild := true }, nextRequestId)
  | .waitCqe k id state, .ret ret =>
      if ret = -EINTR then some (.waitCqe k id state, nextRequestId)
      else
        let state := { state with error := state.error.or (some (ringErr ret)), rebuild := true }
        if state.cancelAttempted then some (.waitCqe k id state, nextRequestId)
        else some (.cancel k id nextRequestId state, nextRequestId + 1)
  | .cancel k id cancelId state, .ret ret =>
      some (if ret = -EINTR then .cancel k id cancelId state
        else .waitCqe k id { state with cancelAttempted := true }, nextRequestId)
  | .waitCqe k id state, .cqe userData res =>
      some (if userData ≠ id then
          .waitCqe k id { state with error := some .ioError, rebuild := true }
        else if state.rebuild then .rebuild k (completed r state res)
        else .release k (completed r state res), nextRequestId)
  | .rebuild k result, .flag _ => some (.release k result, nextRequestId)
  | .release _ result, .ok => some (.done result, nextRequestId)
  | _, _ => none

/-- The length of the request in the ring: `io_uring_prep_read` takes an `unsigned`. -/
def ringLength (r : ReadRequest) : Nat := r.size.toNat % 2 ^ 32

/-- The result in the completion of the request. -/
def Answer.res : Answer → Int
  | .error err => -err
  | .bytes n => n

/-- The responses are those of this file: the outcome of its `open`, and the first answer, to a
request of the length in the ring. -/
def Kernel.responds (k : Kernel) (r : ReadRequest) : UringPc → Response → Prop
  | .openFile _, .ok => k.opened = .ok ()
  | .openFile _, .error err => k.opened = .error err
  | .waitCqe _ id _, .cqe userData res =>
      userData = id → ∃ a, (k.answers.head?.map (Answer.cut (ringLength r))) = some a ∧
        a.legal k.content 0 (ringLength r) ∧ res = a.res
  | _, _ => True

/-- What the buffer holds after a read through the ring that succeeded. -/
def Kernel.delivered (k : Kernel) (r : ReadRequest) (result : Except SwapfsErr Unit) :
    Except SwapfsErr (List UInt8) :=
  result.map fun _ => k.content.take r.size.toNat

end FileApi.Swapfs
