import Mathlib.Data.List.Basic

/-!
# Space control of swapfs

`ProxySwapControlProvider` (`swapfs_proxy_control.cpp:97-260`): the counters, the refresh of the
available space in two locked sections around the call of the storage manager, and the
reservation of space. `clamped` records that a subtraction was cut off at zero.
-/

namespace FileApi.Swapfs

/-- The `SWAPFS_E_*` codes; `SWAPFS_E_OK` is `Except.ok`. -/
inductive SwapfsErr where
  | inval | dioAlign | bufferTooSmall | keyNotFound | keyStateInvalid | busy | noSpc
  | quotaExceeded | ioError | featureDisabled | acces | pathUnavailable | noMem | shuttingDown
  deriving DecidableEq

/-- `DEFAULT_SPACE_LIMIT_BYTES`. -/
def defaultSpaceLimitBytes : UInt64 := 1024 * 1024 * 1024

/-- `MIN_AVAILABLE_DEVICE_SPACE_BYTES`. -/
def minAvailableDeviceSpaceBytes : UInt64 := 5 * 1024 * 1024 * 1024

/-- The state of `ProxySwapControlProvider`. `refreshing` is whether `refreshMutex_` is held. -/
structure Control where
  intervalMs : UInt32
  spaceLimitBytes : UInt64
  availableDeviceSpace : UInt64
  lastSpaceCheckTime : Int
  featureEnabled : Bool
  totalKeys : UInt64 := 0
  totalDataSize : UInt64 := 0
  totalOccupiedSize : UInt64 := 0
  pendingOccupiedSize : UInt64 := 0
  committedSinceSpaceCheckBytes : UInt64 := 0
  accumulatedWriteBytes : UInt64 := 0
  refreshing : Bool := false
  clamped : Bool := false
  deriving DecidableEq

/-- `InitWithAvailableSpace`. -/
def Control.initWithAvailableSpace (availableDeviceSpace spaceLimitBytes : UInt64)
    (intervalMs : UInt32) (now : Int) : Control where
  intervalMs
  spaceLimitBytes := if spaceLimitBytes = 0 then defaultSpaceLimitBytes else spaceLimitBytes
  availableDeviceSpace
  lastSpaceCheckTime := now
  featureEnabled := minAvailableDeviceSpaceBytes ≤ availableDeviceSpace

/-- `a >= b ? a - b : 0`. -/
def clampedSub (a b : UInt64) : UInt64 := if b ≤ a then a - b else 0

namespace Control

variable (c : Control)

/-- The first locked section of `RefreshAvailableSpaceIfNeeded`: `none` when no refresh is due,
else the bytes committed so far; `refreshMutex_` is taken. -/
def refreshBegin (now : Int) : Option UInt64 :=
  if 0 < c.intervalMs ∧ now - c.lastSpaceCheckTime < c.intervalMs.toNat then none
  else some c.committedSinceSpaceCheckBytes

/-- Its second locked section, with the free space the storage manager gave, if it gave one. -/
def refreshEnd (now : Int) (committedAtStart : UInt64) (refreshed : Option UInt64) : Control :=
  let c :=
    match refreshed with
    | none => c
    | some space =>
        { c with
          availableDeviceSpace := space
          committedSinceSpaceCheckBytes :=
            clampedSub c.committedSinceSpaceCheckBytes committedAtStart
          clamped := c.clamped || decide (c.committedSinceSpaceCheckBytes < committedAtStart) }
  { c with
    lastSpaceCheckTime := now
    featureEnabled := minAvailableDeviceSpaceBytes ≤ c.availableDeviceSpace
    refreshing := false }

/-- `CheckSwapOutAllowedLocked`. -/
def checkSwapOutAllowedLocked (occupiedSize : UInt64) : Except SwapfsErr Unit :=
  if !c.featureEnabled then .error .noSpc
  else
    let usedSize := c.totalOccupiedSize + c.pendingOccupiedSize
    if c.spaceLimitBytes < usedSize ∨ c.spaceLimitBytes - usedSize < occupiedSize then
      .error .quotaExceeded
    else
      let writableSpace := c.availableDeviceSpace - minAvailableDeviceSpaceBytes
      let inFlightSpace := c.pendingOccupiedSize + c.committedSinceSpaceCheckBytes
      if inFlightSpace < c.pendingOccupiedSize ∨ writableSpace < inFlightSpace ∨
          writableSpace - inFlightSpace < occupiedSize then .error .noSpc
      else .ok ()

/-- `ReserveSwapOut` behind the refresh. -/
def reserveSwapOut (occupiedSize : UInt64) : Except SwapfsErr Unit × Control :=
  match c.checkSwapOutAllowedLocked occupiedSize with
  | .error err => (.error err, c)
  | .ok () => (.ok (), { c with pendingOccupiedSize := c.pendingOccupiedSize + occupiedSize })

/-- `CancelReservedSwapOut`. -/
def cancelReservedSwapOut (occupiedSize : UInt64) : Control :=
  { c with
    pendingOccupiedSize := clampedSub c.pendingOccupiedSize occupiedSize
    clamped := c.clamped || decide (c.pendingOccupiedSize < occupiedSize) }

/-- `OnSwapOutCommitted`. -/
def onSwapOutCommitted (dataSize occupiedSize : UInt64) : Control :=
  { c with
    pendingOccupiedSize := clampedSub c.pendingOccupiedSize occupiedSize
    totalKeys := c.totalKeys + 1
    totalDataSize := c.totalDataSize + dataSize
    totalOccupiedSize := c.totalOccupiedSize + occupiedSize
    accumulatedWriteBytes := c.accumulatedWriteBytes + occupiedSize
    committedSinceSpaceCheckBytes := c.committedSinceSpaceCheckBytes + occupiedSize
    clamped := c.clamped || decide (c.pendingOccupiedSize < occupiedSize) }

/-- `OnEntryRemoved`. -/
def onEntryRemoved (dataSize occupiedSize : UInt64) : Control :=
  { c with
    totalKeys := if 0 < c.totalKeys then c.totalKeys - 1 else c.totalKeys
    totalDataSize := clampedSub c.totalDataSize dataSize
    totalOccupiedSize := clampedSub c.totalOccupiedSize occupiedSize
    clamped := c.clamped || decide (c.totalKeys = 0) || decide (c.totalDataSize < dataSize) ||
      decide (c.totalOccupiedSize < occupiedSize) }

end Control

end FileApi.Swapfs
