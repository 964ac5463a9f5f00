import FileApi.Swapfs.Manager

/-!
# The device under the manager

The free space of the device, which only the files of the manager use, and the storage manager,
which answers a refresh with the free space at that moment; the answer is applied later
(`swapfs_proxy_control.cpp:129-176`).
-/

namespace FileApi.Swapfs

/-- The bytes of the file behind a name. -/
def Disk.size (d : Disk) (path : SwapFile) : Nat := ((d.lookup path).map fun f => f.2.length).getD 0

/-- The manager, the free space, the answers to the calls that refresh, and whether a reservation
was ever granted. -/
structure Device where
  manager : State
  free : Nat
  answers : Nat → Option UInt64 := fun _ => none
  granted : Bool := false

inductive DeviceAction where
  | act (action : Action)
  | answer (i : Nat) (space : UInt64)

/-- The free space after a step of a call. A `write` fails when there is not enough of it. -/
def spaceAfter (d : Disk) (free : Nat) (outcome : Outcome) : Call → Option Nat
  | .swapOut _ keyId pc =>
      match pc, outcome with
      | .openTmp, .ok => some (free + d.size (.tmp keyId))
      | .write _ _, .bytes n => if n ≤ free then some (free - n) else none
      | .rename, .ok => some (free + d.size (.swap keyId))
      | .cleanup _, .ok => some (free + d.size (.tmp keyId))
      | _, _ => some free
  | .swapIn request pc =>
      match pc, outcome with
      | .unlink _ _, .ok => some (free + d.size (.swap request.keyId))
      | _, _ => some free
  | .removeData _ pc =>
      match pc, outcome with
      | .unlink entry, .ok => some (free + d.size (.swap entry.keyId))
      | _, _ => some free
  | .removeAllData pc =>
      match pc, outcome with
      | .unlink (entry :: _) _ _, .ok => some (free + d.size (.swap entry.keyId))
      | _, _ => some free
  | _ => some free

/-- A call that refreshes, between its two locked sections. -/
def Call.refreshing : Call → Bool
  | .swapOut _ _ (.refreshing _ _) => true
  | .getStats (.refreshing _ _) => true
  | _ => false

/-- A `SwapOut` whose reservation was granted in its last step. -/
def Call.justGranted : Call → Bool
  | .swapOut _ _ .openTmp => true
  | _ => false

namespace Device

/-- A refresh is applied with the answer it got, if it got one. -/
def answered (s : Device) (i : Nat) : Outcome → Bool
  | .space (some space) => s.answers i = some space
  | _ => true

def step (s : Device) : DeviceAction → Option Device
  | .act (.start request) =>
      (Swapfs.step s.manager (.start request)).map fun manager => { s with manager }
  | .act (.go i outcome) =>
      match s.manager.calls[i]? with
      | none => none
      | some call =>
          if s.answered i outcome then
            (Swapfs.step s.manager (.go i outcome)).bind fun manager =>
              (spaceAfter s.manager.disk s.free outcome call).map fun free =>
                { s with
                  manager, free
                  granted := s.granted || (manager.calls[i]?.map Call.justGranted).getD false }
          else none
  | .answer i space =>
      if (s.manager.calls[i]?.map Call.refreshing).getD false ∧ space.toNat = s.free then
        some { s with answers := Function.update s.answers i (some space) }
      else none

/-- A manager after `Init`, which asked for the free space; without an answer it takes none. -/
def init (useDirectIo : Bool) (free : UInt64) (asked : Bool) (limit : UInt64)
    (intervalMs : UInt32) (now : Int) : Device :=
  { manager := Swapfs.init useDirectIo
      (Control.initWithAvailableSpace (if asked then free else 0) limit intervalMs now)
    free := free.toNat }

end Device

end FileApi.Swapfs
