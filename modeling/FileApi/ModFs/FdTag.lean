import FileApi.Misc.Machine
import FileApi.Misc.Registers

/-!
# Tags of descriptors

`GetFdTag` and `SetFdTag` (`fdtag_func.cpp:26-109`, and the same in `common_func.cpp:410-479`),
called any number of times at once. A step of a call is one access to what the calls share. A call
that reads or writes through a pointer to nothing ends the process.
-/

namespace FileApi.ModFs.FdTag

open Machine

/-- The two files that have the table. -/
inductive Copy where
  | fdTagFunc | commonFunc
  deriving DecidableEq

def FD_SAN_TABLE_SIZE : Nat := 128
def FD_SAN_OVERFLOW_END : Nat := 2048
def ALIGN_SIZE : UInt64 := 4096

/-- `sizeof(struct FdSanTableOverflow)` and `sizeof(struct FdSanEntry)`. -/
def overflowHeaderSize : UInt64 := 8
def fdSanEntrySize : UInt64 := 8

namespace Copy

/-- `FS_ALIGN`. -/
def fsAlign (x y : UInt64) : Copy → UInt64
  | .fdTagFunc => if y = 0 then 0 else (x + y - 1) / y * y
  | .commonFunc => (x + y - 1) &&& -y

def alignedSize (copy : Copy) : UInt64 :=
  let overflowCount := UInt64.ofNat (FD_SAN_OVERFLOW_END - FD_SAN_TABLE_SIZE)
  copy.fsAlign (overflowHeaderSize + overflowCount * fdSanEntrySize) ALIGN_SIZE

def alignedCount (copy : Copy) : UInt64 := (copy.alignedSize - overflowHeaderSize) / fdSanEntrySize

end Copy

/-! ## Memory -/

/-- What `mmap` returns. -/
inductive Pointer where
  | mapFailed
  | at (address : Nat)
  deriving DecidableEq

/-- A mapping with `struct FdSanTableOverflow` in it, and the call that had it mapped. -/
structure FdSanTableOverflow where
  creator : Nat
  len : UInt64 := 0
  closeTags : Nat → UInt64 := fun _ => 0

/-- `struct FdSanEntry *`. -/
inductive FdSanEntry where
  | entries (idx : Nat)
  | overflow (address offset : Nat)
  deriving DecidableEq

/-- `g_fdTable`, the mappings there are, and the accesses to the tags so far. -/
structure Memory where
  entries : Nat → UInt64 := fun _ => 0
  overflow : Option Pointer := none
  mappings : Nat → Option FdSanTableOverflow := fun _ => none
  history : List (Registers.Access Nat Int UInt64) := []
  faulted : Bool := false

namespace Memory

variable (m : Memory)

/-- The process ends. -/
def fault : Memory := { m with faulted := true }

/-- What a pointer leads to. -/
def deref : Option Pointer → Option (Nat × FdSanTableOverflow)
  | some (.at a) => (m.mappings a).map fun table => (a, table)
  | _ => none

/-- Something is mapped, changed or unmapped. -/
def setMapping (a : Nat) (table : Option FdSanTableOverflow) : Memory :=
  { m with mappings := fun b => if b = a then table else m.mappings b }

/-- `munmap`; it refuses what is no address. -/
def unmap : Pointer → Memory
  | .mapFailed => m
  | .at a => m.setMapping a none

/-- `atomic_load` of a tag. -/
def load : FdSanEntry → Option UInt64
  | .entries idx => some (m.entries idx)
  | .overflow a offset => (m.mappings a).map fun table => table.closeTags offset

/-- `atomic_store` of a tag. -/
def store (tag : UInt64) : FdSanEntry → Option Memory
  | .entries idx =>
      some { m with entries := fun k => if k = idx then tag else m.entries k }
  | .overflow a offset => (m.mappings a).map fun table =>
      m.setMapping a (some { table with
        closeTags := fun k => if k = offset then tag else table.closeTags k })

/-- The access is put down. -/
def record (access : Registers.Access Nat Int UInt64) : Memory :=
  { m with history := m.history ++ [access] }

end Memory

/-! ## Calls -/

inductive Request where
  | getFdTag (fd : Int)
  | setFdTag (fd : Int) (tag : UInt64)
  deriving DecidableEq

def Request.fd : Request → Int
  | .getFdTag fd => fd
  | .setFdTag fd _ => fd

/-- What a call does next; `localOverflow` and `allocation` are its variables. `done` has the entry
it found, if any, and what it returns. -/
inductive Pc where
  | getFdSanEntry
  | loadOverflow
  | mmap
  | reloadOverflow
  | storeLen (allocation : Pointer) (localOverflow : Option Pointer)
  | compareExchange (allocation : Pointer) (localOverflow : Option Pointer)
  | munmap (allocation : Pointer) (localOverflow : Option Pointer)
  | loadLen (localOverflow : Option Pointer)
  | access (fde : FdSanEntry)
  | done (fde : Option FdSanEntry) (tag : UInt64)
  deriving DecidableEq

/-- A call; whether its `mmap` has failed. -/
structure Call where
  request : Request
  pc : Pc := .getFdSanEntry
  failed : Bool := false
  deriving DecidableEq

def Call.goto (pc : Pc) (c : Call) : Call := { c with pc }

/-- The checks of `GetFdSanEntry` and those in front of the overflow table. -/
def Request.check (request : Request) : Pc :=
  if request.fd < 0 then .done none 0
  else if request.fd.toNat ≥ FD_SAN_OVERFLOW_END then .done none 0
  else if request.fd.toNat < FD_SAN_TABLE_SIZE then .access (.entries request.fd.toNat)
  else .loadOverflow

/-- Behind a `mmap` that failed; `FdTagFunc` looks at the table again. -/
def Copy.mmapFailed : Copy → Pc
  | .fdTagFunc => .reloadOverflow
  | .commonFunc => .done none 0

/-- The tag is loaded or stored. -/
def accessTag (i : Nat) (fde : FdSanEntry) (m : Memory) (c : Call) : Memory × Call :=
  match c.request with
  | .getFdTag fd =>
      match m.load fde with
      | none => (m.fault, c)
      | some tag => (m.record (.get i fd tag), c.goto (.done (some fde) tag))
  | .setFdTag fd tag =>
      match m.store tag fde with
      | none => (m.fault, c)
      | some m => (m.record (.set i fd tag), c.goto (.done (some fde) 0))

/-- A step of the `i`-th call. `address` is what `mmap` returns, if it is called: where nothing is
mapped yet, or nothing. -/
def stepCall (copy : Copy) (i : Nat) (address : Option Nat) (m : Memory) (c : Call) :
    Option (Memory × Call) :=
  match c.pc with
  | .getFdSanEntry => some (m, c.goto c.request.check)
  | .loadOverflow =>
      match m.overflow with
      | none => some (m, c.goto .mmap)
      | some localOverflow => some (m, c.goto (.loadLen (some localOverflow)))
  | .mmap =>
      match address with
      | none => some (m, { c with pc := copy.mmapFailed, failed := true })
      | some a =>
          if (m.mappings a).isSome then none
          else some (m.setMapping a (some { creator := i }), c.goto (.storeLen (.at a) none))
  | .reloadOverflow =>
      match m.overflow with
      | none => some (m, c.goto (.done none 0))
      | some localOverflow => some (m, c.goto (.storeLen .mapFailed (some localOverflow)))
  | .storeLen allocation localOverflow =>
      match m.deref (some allocation) with
      | none => some (m.fault, c)
      | some (a, table) => some (m.setMapping a (some { table with len := copy.alignedCount }),
          c.goto (.compareExchange allocation localOverflow))
  | .compareExchange allocation localOverflow =>
      if m.overflow = localOverflow then
        some ({ m with overflow := some allocation }, c.goto (.loadLen (some allocation)))
      else some (m, c.goto (.munmap allocation m.overflow))
  | .munmap allocation localOverflow => some (m.unmap allocation, c.goto (.loadLen localOverflow))
  | .loadLen localOverflow =>
      match m.deref localOverflow with
      | none => some (m.fault, c)
      | some (a, table) =>
          let offset := c.request.fd.toNat - FD_SAN_TABLE_SIZE
          if table.len.toNat ≤ offset then some (m, c.goto (.done none 0))
          else some (m, c.goto (.access (.overflow a offset)))
  | .access fde => some (accessTag i fde m c)
  | .done _ _ => none

/-- The calls so far, and what they share. -/
structure State where
  memory : Memory := {}
  calls : List Call := []

/-- A new call, or a step of the `i`-th one. -/
inductive Action where
  | call (request : Request)
  | go (i : Nat) (address : Option Nat)
  deriving DecidableEq

def step (copy : Copy) (s : State) : Action → Option State
  | .call request => if s.memory.faulted then none
      else some { s with calls := s.calls ++ [{ request }] }
  | .go i address =>
      if s.memory.faulted then none
      else match s.calls[i]? with
        | none => none
        | some c => (stepCall copy i address s.memory c).map fun r =>
            { memory := r.1, calls := s.calls.set i r.2 }

end FileApi.ModFs.FdTag
