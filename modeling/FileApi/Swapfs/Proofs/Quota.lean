import FileApi.Swapfs.Proofs.Keys
import Mathlib.Tactic.Tauto

/-!
# The accounts of the space control

The counters of `ProxySwapControlProvider` are the sums over the entries and over the calls in
flight. The entry a call removes has the size the call remembers, because a key names one
`SwapOut`; this is what the sums need, and it fails once the counter of the keys has come round.
-/

namespace FileApi.Swapfs

open Pool Keyed Machine

/-! ## The counters -/

/-- The part of the accounts that is about the control alone. -/
structure ControlInv (c : Control) : Prop where
  limit : c.totalOccupiedSize.toNat + c.pendingOccupiedSize.toNat ≤ c.spaceLimitBytes.toNat
  inFlight : c.pendingOccupiedSize.toNat + c.committedSinceSpaceCheckBytes.toNat < 2 ^ 64
  unclamped : c.clamped = false

theorem toNat_clampedSub {a b : UInt64} (h : b.toNat ≤ a.toNat) :
    (clampedSub a b).toNat = a.toNat - b.toNat := by
  have hle : b ≤ a := UInt64.le_iff_toNat_le.mpr h
  rw [clampedSub, if_pos hle, UInt64.toNat_sub_of_le _ _ hle]

theorem not_lt_of_toNat {a b : UInt64} (h : b.toNat ≤ a.toNat) : decide (a < b) = false := by
  rw [decide_eq_false_iff_not, UInt64.lt_iff_toNat_lt]
  omega

variable {size : UInt64}

theorem Control.reserveSwapOut_ok {c c' : Control} (inv : ControlInv c)
    (h : c.reserveSwapOut size = (.ok (), c')) :
    c' = { c with pendingOccupiedSize := c.pendingOccupiedSize + size } ∧
    (c.pendingOccupiedSize + size).toNat = c.pendingOccupiedSize.toNat + size.toNat ∧
    ControlInv c' := by
  unfold Control.reserveSwapOut at h
  split at h
  · cases h
  next hcheck =>
  cases h
  unfold Control.checkSwapOutAllowedLocked at hcheck
  split at hcheck
  · cases hcheck
  simp only at hcheck
  split at hcheck
  · cases hcheck
  next hquota =>
  split at hcheck
  · cases hcheck
  next hspace =>
  have hlimit := inv.limit
  have hinFlight := inv.inFlight
  simp only [not_or, UInt64.not_lt, UInt64.le_iff_toNat_le] at hquota hspace
  obtain ⟨hused, hquota⟩ := hquota
  obtain ⟨-, hwritable, hspace⟩ := hspace
  rw [UInt64.toNat_sub_of_le _ _ (UInt64.le_iff_toNat_le.mpr hused)] at hquota
  rw [UInt64.toNat_sub_of_le _ _ (UInt64.le_iff_toNat_le.mpr hwritable)] at hspace
  rw [UInt64.toNat_add] at hused hquota hwritable hspace
  have hspaceLimit := c.spaceLimitBytes.toNat_lt
  have hdevice := (c.availableDeviceSpace - minAvailableDeviceSpaceBytes).toNat_lt
  have hadd : (c.pendingOccupiedSize + size).toNat = c.pendingOccupiedSize.toNat + size.toNat := by
    rw [UInt64.toNat_add]
    omega
  refine ⟨rfl, hadd, ⟨?_, ?_, inv.unclamped⟩⟩
  · simp only [hadd]
    omega
  · simp only [hadd]
    omega

theorem Control.reserveSwapOut_error {c c' : Control} {err : SwapfsErr}
    (h : c.reserveSwapOut size = (.error err, c')) : c' = c := by
  unfold Control.reserveSwapOut at h
  split at h
  · cases h
    rfl
  · cases h

theorem Control.cancelReservedSwapOut_inv {c : Control} (inv : ControlInv c)
    (hsize : size.toNat ≤ c.pendingOccupiedSize.toNat) :
    (c.cancelReservedSwapOut size).pendingOccupiedSize.toNat =
      c.pendingOccupiedSize.toNat - size.toNat ∧ ControlInv (c.cancelReservedSwapOut size) := by
  have hlimit := inv.limit
  have hinFlight := inv.inFlight
  have hsub := toNat_clampedSub hsize
  refine ⟨hsub, ⟨?_, ?_, ?_⟩⟩
  · simp only [Control.cancelReservedSwapOut, hsub]
    omega
  · simp only [Control.cancelReservedSwapOut, hsub]
    omega
  · simp [Control.cancelReservedSwapOut, inv.unclamped, not_lt_of_toNat hsize]

theorem Control.onSwapOutCommitted_inv {c : Control} (inv : ControlInv c)
    (hsize : size.toNat ≤ c.pendingOccupiedSize.toNat) :
    (c.onSwapOutCommitted size size).pendingOccupiedSize.toNat =
      c.pendingOccupiedSize.toNat - size.toNat ∧
    (c.onSwapOutCommitted size size).totalOccupiedSize.toNat =
      c.totalOccupiedSize.toNat + size.toNat ∧
    (c.onSwapOutCommitted size size).committedSinceSpaceCheckBytes.toNat =
      c.committedSinceSpaceCheckBytes.toNat + size.toNat ∧
    ControlInv (c.onSwapOutCommitted size size) := by
  have hlimit := inv.limit
  have hinFlight := inv.inFlight
  have hspaceLimit := c.spaceLimitBytes.toNat_lt
  have hsub := toNat_clampedSub hsize
  have hocc : (c.totalOccupiedSize + size).toNat = c.totalOccupiedSize.toNat + size.toNat := by
    rw [UInt64.toNat_add]
    omega
  have hcommitted : (c.committedSinceSpaceCheckBytes + size).toNat =
      c.committedSinceSpaceCheckBytes.toNat + size.toNat := by
    rw [UInt64.toNat_add]
    omega
  refine ⟨hsub, hocc, hcommitted, ⟨?_, ?_, ?_⟩⟩
  · simp only [Control.onSwapOutCommitted, hsub, hocc]
    omega
  · simp only [Control.onSwapOutCommitted, hsub, hcommitted]
    omega
  · simp [Control.onSwapOutCommitted, inv.unclamped, not_lt_of_toNat hsize]

theorem Control.refreshEnd_inv {c : Control} {now : Int} {committedAtStart : UInt64}
    {refreshed : Option UInt64} (inv : ControlInv c)
    (hstart : committedAtStart.toNat ≤ c.committedSinceSpaceCheckBytes.toNat) :
    ControlInv (c.refreshEnd now committedAtStart refreshed) := by
  have hinFlight := inv.inFlight
  cases refreshed with
  | none => exact ⟨inv.limit, inv.inFlight, inv.unclamped⟩
  | some space =>
    refine ⟨inv.limit, ?_, ?_⟩
    · simp only [Control.refreshEnd, toNat_clampedSub hstart]
      omega
    · simp [Control.refreshEnd, inv.unclamped, not_lt_of_toNat hstart]

theorem Control.refreshEnd_counters (c : Control) (now : Int) (committedAtStart : UInt64)
    (refreshed : Option UInt64) :
    (c.refreshEnd now committedAtStart refreshed).totalKeys = c.totalKeys ∧
    (c.refreshEnd now committedAtStart refreshed).totalDataSize = c.totalDataSize ∧
    (c.refreshEnd now committedAtStart refreshed).totalOccupiedSize = c.totalOccupiedSize ∧
    (c.refreshEnd now committedAtStart refreshed).pendingOccupiedSize = c.pendingOccupiedSize ∧
    (c.refreshEnd now committedAtStart refreshed).refreshing = false := by
  cases refreshed with
  | none => exact ⟨rfl, rfl, rfl, rfl, rfl⟩
  | some space => exact ⟨rfl, rfl, rfl, rfl, rfl⟩

theorem Control.onEntryRemoved_inv {c : Control} (inv : ControlInv c)
    (hkeys : 0 < c.totalKeys.toNat) (hdata : size.toNat ≤ c.totalDataSize.toNat)
    (hocc : size.toNat ≤ c.totalOccupiedSize.toNat) :
    (c.onEntryRemoved size size).totalKeys.toNat = c.totalKeys.toNat - 1 ∧
    (c.onEntryRemoved size size).totalDataSize.toNat = c.totalDataSize.toNat - size.toNat ∧
    (c.onEntryRemoved size size).totalOccupiedSize.toNat =
      c.totalOccupiedSize.toNat - size.toNat ∧
    ControlInv (c.onEntryRemoved size size) := by
  have hlimit := inv.limit
  have hpos : 0 < c.totalKeys := UInt64.lt_iff_toNat_lt.mpr hkeys
  have hone : (1 : UInt64) ≤ c.totalKeys := UInt64.le_iff_toNat_le.mpr hkeys
  have hne : c.totalKeys ≠ 0 := fun h0 => by simp [h0] at hkeys
  have hsub := toNat_clampedSub hocc
  refine ⟨?_, toNat_clampedSub hdata, hsub, ⟨?_, inv.inFlight, ?_⟩⟩
  · simp only [Control.onEntryRemoved, if_pos hpos, UInt64.toNat_sub_of_le _ _ hone]
    rfl
  · simp only [Control.onEntryRemoved, hsub]
    omega
  · simp [Control.onEntryRemoved, inv.unclamped, not_lt_of_toNat hdata, not_lt_of_toNat hocc, hne]

/-! ## What the calls hold -/

/-- The bytes a call has reserved. -/
def Call.reserved : Call → Nat
  | .swapOut request _ pc =>
      match pc with
      | .openTmp | .write _ _ | .fsync | .rename | .cleanup _ | .cancel _ | .commit =>
          request.bufferSize.toNat
      | _ => 0
  | _ => 0

/-- A call that is in the middle of a refresh, with the bytes committed at its start. -/
def Call.refreshStart : Call → Option UInt64
  | .swapOut _ _ (.refreshing _ committedAtStart) => some committedAtStart
  | .getStats (.refreshing _ committedAtStart) => some committedAtStart
  | _ => none

def Call.refreshers (c : Call) : Nat := if c.refreshStart.isSome then 1 else 0

/-- A `SwapOut` that has committed its entry. -/
def Call.committed : Call → Option (UInt64 × SwapOutRequest)
  | .swapOut request keyId (.endOperation (.ok _)) => some (keyId, request)
  | .swapOut request keyId (.done (.ok _)) => some (keyId, request)
  | _ => none

/-- The keys and sizes of the entries a call is about to remove. -/
def Call.copies : Call → List (UInt64 × UInt64)
  | .swapIn request (.unlink removedSize _) => [(request.keyId, removedSize)]
  | .swapIn request (.finishRemoval removedSize _ _) => [(request.keyId, removedSize)]
  | .removeData _ (.unlink entry) => [(entry.keyId, entry.dataSize)]
  | .removeData _ (.finalize entry _) => [(entry.keyId, entry.dataSize)]
  | .removeAllData (.unlink todo removed _) =>
      (todo ++ removed.map Prod.fst).map fun e => (e.keyId, e.dataSize)
  | .removeAllData (.finalize removed _) => removed.map fun r => (r.1.keyId, r.1.dataSize)
  | _ => []

theorem Call.made_of_committed {c : Call} {x : UInt64 × SwapOutRequest}
    (h : c.committed = some x) : c.made = some x := by
  unfold Call.committed at h
  split at h
  · exact h
  · exact h
  · cases h

/-- What is known of an entry for the accounts. -/
def SwapKeyEntry.sized (e : SwapKeyEntry) : UInt64 × UInt64 := (e.keyId, e.dataSize)

/-- Some `SwapOut` has this key and this size. -/
def Made (calls : List Call) (x : UInt64 × UInt64) : Prop :=
  ∃ c ∈ calls, ∃ r, c.made = some (x.1, r) ∧ r.bufferSize = x.2

/-- Where entries and remembered sizes come from. -/
structure Provenance (entries : List SwapKeyEntry) (calls : List Call) : Prop where
  owned : ∀ e ∈ entries, ∃ c ∈ calls, ∃ r, c.committed = some (e.keyId, r) ∧
    r.bufferSize = e.dataSize
  copied : ∀ c ∈ calls, ∀ x ∈ c.copies, Made calls x
  sized : ∀ c ∈ calls, ∀ k r, c.made = some (k, r) → r.bufferSize ≠ 0

variable {e : SwapKeyEntry} {calls : List Call} {entries : List SwapKeyEntry}

theorem Provenance.entry_made (prov : Provenance entries calls) (he : e ∈ entries) :
    Made calls (e.keyId, e.dataSize) := by
  obtain ⟨c, hc, r, hcommitted, hsize⟩ := prov.owned e he
  exact ⟨c, hc, r, Call.made_of_committed hcommitted, hsize⟩

theorem Provenance.committed {c : Call} {k : UInt64} {r : SwapOutRequest}
    (prov : Provenance entries calls) (hnodup : (calls.filterMap Call.key).Nodup)
    (hfind : find SwapKeyEntry.keyId entries k = some e) (hc : c ∈ calls)
    (hmade : c.made = some (k, r)) :
    c.committed = some (k, r) ∧ r.bufferSize = e.dataSize := by
  obtain ⟨he, rfl⟩ := find_mem hfind
  obtain ⟨d, hd, r', hcommitted, hsize⟩ := prov.owned e he
  have hmade' := Call.made_of_committed hcommitted
  have hsame := made_unique hnodup hc hd hmade hmade'
  subst hsame
  obtain rfl : r = r' := (Prod.mk.inj (Option.some.inj (hmade.symm.trans hmade'))).2
  exact ⟨hcommitted, hsize⟩

theorem Provenance.absent {c : Call} {k : UInt64} {r : SwapOutRequest}
    (prov : Provenance entries calls) (hnodup : (calls.filterMap Call.key).Nodup) (hc : c ∈ calls)
    (hmade : c.made = some (k, r)) (hnone : c.committed = none) :
    find SwapKeyEntry.keyId entries k = none := by
  cases hfind : find SwapKeyEntry.keyId entries k with
  | none => rfl
  | some e =>
    have hsome := (prov.committed hnodup hfind hc hmade).1
    rw [hnone] at hsome
    cases hsome

section Moves

variable {entries entries' : List SwapKeyEntry} {control control' : Control} {calls : List Call}
  {i : Nat} {c c' : Call}

theorem Provenance.move (prov : Provenance entries calls) (h : calls[i]? = some c)
    (hmade : c'.made = c.made) (hcommitted : ∀ x, c.committed = some x → c'.committed = some x)
    (hcopies : ∀ x ∈ c'.copies, Made calls x)
    (hentries : ∀ e ∈ entries', (∃ e₀ ∈ entries, e₀.keyId = e.keyId ∧ e₀.dataSize = e.dataSize) ∨
      ∃ r, c'.committed = some (e.keyId, r) ∧ r.bufferSize = e.dataSize) :
    Provenance entries' (calls.set i c') := by
  have hi : i < calls.length := (List.getElem?_eq_some_iff.mp h).1
  have hmono : ∀ x, Made calls x → Made (calls.set i c') x := by
    intro x hx
    exact exists_mem_set h (fun ⟨r, hr, hsize⟩ => ⟨r, by rw [hmade, hr], hsize⟩) hx
  refine ⟨?_, ?_, ?_⟩
  · intro e he
    rcases hentries e he with ⟨e₀, he₀, hkey, hsize⟩ | ⟨r, hr, hsize⟩
    · have howned := prov.owned e₀ he₀
      rw [hkey, hsize] at howned
      exact exists_mem_set h (fun ⟨r, hr, hsize⟩ => ⟨r, hcommitted _ hr, hsize⟩) howned
    · exact ⟨c', List.mem_set hi c', r, hr, hsize⟩
  · exact forall_mem_set i (fun d hd x hx => hmono x (prov.copied d hd x hx))
      (fun x hx => hmono x (hcopies x hx))
  · refine forall_mem_set i prov.sized ?_
    rw [hmade]
    exact prov.sized c (List.mem_of_getElem? h)

theorem Provenance.start (prov : Provenance entries calls)
    (hsized : ∀ k r, c'.made = some (k, r) → r.bufferSize ≠ 0)
    (hcopies : ∀ x ∈ c'.copies, Made calls x)
    (hentries : ∀ e ∈ entries', ∃ e₀ ∈ entries, e₀.keyId = e.keyId ∧ e₀.dataSize = e.dataSize) :
    Provenance entries' (calls ++ [c']) := by
  have hmono : ∀ x, Made calls x → Made (calls ++ [c']) x := by
    intro x ⟨d, hd, hx⟩
    exact ⟨d, List.mem_append_left _ hd, hx⟩
  refine ⟨?_, ?_, forall_mem_append_singleton prov.sized hsized⟩
  · intro e he
    obtain ⟨e₀, he₀, hkey, hsize⟩ := hentries e he
    obtain ⟨d, hd, r, hr, hrsize⟩ := prov.owned e₀ he₀
    exact ⟨d, List.mem_append_left _ hd, r, by rw [hr, hkey], by rw [hrsize, hsize]⟩
  · exact forall_mem_append_singleton (fun d hd x hx => hmono x (prov.copied d hd x hx))
      (fun x hx => hmono x (hcopies x hx))

/-- The counters are the sums. -/
structure Ledger (entries : List SwapKeyEntry) (control : Control) (calls : List Call) : Prop where
  bounds : ControlInv control
  distinct : Distinct SwapKeyEntry.keyId entries
  keys : control.totalKeys.toNat = entries.length
  data : control.totalDataSize.toNat = total (fun e => e.dataSize.toNat) entries
  occupied : control.totalOccupiedSize.toNat = total (fun e => e.dataSize.toNat) entries
  pending : control.pendingOccupiedSize.toNat = total Call.reserved calls
  refreshing : total Call.refreshers calls = if control.refreshing then 1 else 0
  started : ∀ d ∈ calls, ∀ v, d.refreshStart = some v →
    v.toNat ≤ control.committedSinceSpaceCheckBytes.toNat

theorem Ledger.move (ledger : Ledger entries control calls) (h : calls[i]? = some c)
    (hreserved : c'.reserved = c.reserved) (hstart : c'.refreshStart = c.refreshStart) :
    Ledger entries control (calls.set i c') := by
  have hrefreshers : c'.refreshers = c.refreshers := by simp only [Call.refreshers, hstart]
  refine { ledger with pending := ?_, refreshing := ?_, started := ?_ }
  · have hset := total_set Call.reserved c' h
    rw [ledger.pending]
    omega
  · have hset := total_set Call.refreshers c' h
    rw [← ledger.refreshing]
    omega
  · refine forall_mem_set i ledger.started ?_
    rw [hstart]
    exact ledger.started c (List.mem_of_getElem? h)

theorem Ledger.start (ledger : Ledger entries control calls) (hreserved : c'.reserved = 0)
    (hstart : c'.refreshStart = none) : Ledger entries control (calls ++ [c']) := by
  refine { ledger with pending := ?_, refreshing := ?_, started := ?_ }
  · simp [ledger.pending, hreserved]
  · simp [← ledger.refreshing, Call.refreshers, hstart]
  · refine forall_mem_append_singleton ledger.started ?_
    rw [hstart]
    exact nofun

theorem Ledger.entries_congr (ledger : Ledger entries control calls)
    (h : entries'.map SwapKeyEntry.sized = entries.map SwapKeyEntry.sized) :
    Ledger entries' control calls := by
  have hkeys : entries'.map SwapKeyEntry.keyId = entries.map SwapKeyEntry.keyId := by
    simpa [List.map_map, Function.comp_def, SwapKeyEntry.sized] using congrArg (List.map Prod.fst) h
  have hsizes : entries'.map (fun e => e.dataSize.toNat) = entries.map fun e => e.dataSize.toNat := by
    simpa [List.map_map, Function.comp_def, SwapKeyEntry.sized] using
      congrArg (List.map fun x => x.2.toNat) h
  have hlength : entries'.length = entries.length := by
    simpa using congrArg List.length h
  refine { ledger with distinct := ?_, keys := ?_, data := ?_, occupied := ?_ }
  · unfold Distinct
    rw [hkeys]
    exact ledger.distinct
  · rw [ledger.keys, hlength]
  · rw [ledger.data, total, total, hsizes]
  · rw [ledger.occupied, total, total, hsizes]

theorem Ledger.refreshBegin (ledger : Ledger entries control calls) (h : calls[i]? = some c)
    (hfree : control.refreshing = false) (hreserved : c'.reserved = c.reserved)
    (hnone : c.refreshStart = none)
    (hstart : c'.refreshStart = some control.committedSinceSpaceCheckBytes) :
    Ledger entries { control with refreshing := true } (calls.set i c') := by
  refine { ledger with
    bounds := ⟨ledger.bounds.limit, ledger.bounds.inFlight, ledger.bounds.unclamped⟩
    pending := ?_, refreshing := ?_, started := ?_ }
  · have hset := total_set Call.reserved c' h
    simp only [ledger.pending]
    omega
  · have hset := total_set Call.refreshers c' h
    have hzero := ledger.refreshing
    simp only [Call.refreshers, hnone, hstart, hfree] at hset hzero ⊢
    simpa [hzero] using hset
  · refine forall_mem_set i ledger.started ?_
    rw [hstart]
    intro v hv
    cases hv
    exact Nat.le_refl _

theorem Ledger.refreshEnd (ledger : Ledger entries control calls) (h : calls[i]? = some c)
    {now : Int} {committedAtStart : UInt64} {free : Option UInt64}
    (hreserved : c'.reserved = c.reserved) (hstart : c.refreshStart = some committedAtStart)
    (hnone : c'.refreshStart = none) :
    Ledger entries (control.refreshEnd now committedAtStart free) (calls.set i c') := by
  obtain ⟨hkeys, hdata, hocc, hpending, hrefreshing⟩ :=
    control.refreshEnd_counters now committedAtStart free
  have hle := ledger.started c (List.mem_of_getElem? h) _ hstart
  have hset := total_set Call.refreshers c' h
  have hmine := le_total Call.refreshers h
  have hone := ledger.refreshing
  simp only [Call.refreshers, hstart, hnone, Option.isSome_some, Option.isSome_none, if_true,
    Bool.false_eq_true, if_false] at hset hmine
  have hnobody : total Call.refreshers (calls.set i c') = 0 := by
    have hle1 : total Call.refreshers calls ≤ 1 := by
      rw [hone]
      split <;> omega
    omega
  refine { ledger with
    bounds := Control.refreshEnd_inv ledger.bounds hle
    keys := by rw [hkeys, ledger.keys]
    data := by rw [hdata, ledger.data]
    occupied := by rw [hocc, ledger.occupied]
    pending := ?_, refreshing := ?_, started := ?_ }
  · have hset := total_set Call.reserved c' h
    rw [hpending, ledger.pending]
    omega
  · simpa [hrefreshing] using hnobody
  · intro d hd v hv
    obtain ⟨j, hj⟩ := List.mem_iff_getElem?.mp hd
    have hd1 := le_total Call.refreshers hj
    rw [hnobody] at hd1
    simp [Call.refreshers, hv] at hd1

theorem Ledger.reserve (ledger : Ledger entries control calls) (h : calls[i]? = some c)
    (hok : control.reserveSwapOut size = (.ok (), control')) (hnone : c.reserved = 0)
    (hsome : c'.reserved = size.toNat) (hstart : c'.refreshStart = c.refreshStart) :
    Ledger entries control' (calls.set i c') := by
  obtain ⟨rfl, hadd, hbounds⟩ := Control.reserveSwapOut_ok ledger.bounds hok
  have hrefreshers : c'.refreshers = c.refreshers := by simp only [Call.refreshers, hstart]
  refine { ledger with bounds := hbounds, pending := ?_, refreshing := ?_, started := ?_ }
  · have hset := total_set Call.reserved c' h
    simp only [hadd, ledger.pending]
    omega
  · have hset := total_set Call.refreshers c' h
    simp only [← ledger.refreshing]
    omega
  · refine forall_mem_set i ledger.started ?_
    rw [hstart]
    exact ledger.started c (List.mem_of_getElem? h)

theorem Ledger.reserved_le (ledger : Ledger entries control calls) (h : calls[i]? = some c)
    (hsome : c.reserved = size.toNat) :
    size.toNat ≤ control.pendingOccupiedSize.toNat := by
  have hle := le_total Call.reserved h
  rw [ledger.pending]
  omega

theorem Ledger.cancel (ledger : Ledger entries control calls) (h : calls[i]? = some c)
    (hsome : c.reserved = size.toNat) (hnone : c'.reserved = 0)
    (hstart : c'.refreshStart = c.refreshStart) :
    Ledger entries (control.cancelReservedSwapOut size) (calls.set i c') := by
  obtain ⟨hpending, hbounds⟩ :=
    Control.cancelReservedSwapOut_inv ledger.bounds (ledger.reserved_le h hsome)
  have hrefreshers : c'.refreshers = c.refreshers := by simp only [Call.refreshers, hstart]
  refine { ledger with bounds := hbounds, pending := ?_, refreshing := ?_, started := ?_ }
  · have hset := total_set Call.reserved c' h
    rw [hpending, ledger.pending]
    omega
  · have hset := total_set Call.refreshers c' h
    have hsame : total Call.refreshers (calls.set i c') = total Call.refreshers calls := by omega
    rw [hsame]
    exact ledger.refreshing
  · refine forall_mem_set i ledger.started ?_
    rw [hstart]
    exact ledger.started c (List.mem_of_getElem? h)

theorem length_le_total {f : SwapKeyEntry → Nat} (h : ∀ e ∈ entries, f e ≠ 0) :
    entries.length ≤ total f entries := by
  induction entries with
  | nil => exact Nat.le_refl _
  | cons e entries ih =>
    have hrest := ih fun e he => h e (List.mem_cons_of_mem _ he)
    have hpos := h e List.mem_cons_self
    rw [List.length_cons, total_cons]
    omega

theorem Ledger.commit (ledger : Ledger entries control calls) (h : calls[i]? = some c)
    (hsome : c.reserved = e.dataSize.toNat) (hnone : c'.reserved = 0)
    (hstart : c'.refreshStart = c.refreshStart)
    (hfresh : find SwapKeyEntry.keyId entries e.keyId = none)
    (hsized : ∀ d ∈ entries, d.dataSize.toNat ≠ 0) (hsize : e.dataSize.toNat ≠ 0) :
    Ledger (entries ++ [e]) (control.onSwapOutCommitted e.dataSize e.dataSize) (calls.set i c') := by
  obtain ⟨hpending, hocc, hcommitted, hbounds⟩ :=
    Control.onSwapOutCommitted_inv ledger.bounds (ledger.reserved_le h hsome)
  have hrefreshers : c'.refreshers = c.refreshers := by simp only [Call.refreshers, hstart]
  have hlimit := hbounds.limit
  have hspaceLimit := (control.onSwapOutCommitted e.dataSize e.dataSize).spaceLimitBytes.toNat_lt
  have hle := length_le_total hsized
  have hkeys := ledger.keys
  have hdata := ledger.data
  have hoccupied := ledger.occupied
  rw [hocc, hpending] at hlimit
  refine { ledger with
    bounds := hbounds, distinct := ledger.distinct.append_singleton hfresh
    keys := ?_, data := ?_, occupied := ?_, pending := ?_, refreshing := ?_, started := ?_ }
  · simp only [Control.onSwapOutCommitted, List.length_append, List.length_singleton,
      UInt64.toNat_add, UInt64.reduceToNat]
    omega
  · simp only [Control.onSwapOutCommitted, total_append, total_cons, total_nil, UInt64.toNat_add]
    omega
  · rw [hocc, total_append, total_cons, total_nil]
    omega
  · have hset := total_set Call.reserved c' h
    rw [hpending, ledger.pending]
    omega
  · have hset := total_set Call.refreshers c' h
    have hsame : total Call.refreshers (calls.set i c') = total Call.refreshers calls := by omega
    rw [hsame]
    exact ledger.refreshing
  · refine forall_mem_set i (fun d hd v hv => ?_) ?_
    · rw [hcommitted]
      exact Nat.le_trans (ledger.started d hd v hv) (Nat.le_add_right _ _)
    · rw [hstart, hcommitted]
      intro v hv
      exact Nat.le_trans (ledger.started c (List.mem_of_getElem? h) v hv) (Nat.le_add_right _ _)

theorem Ledger.remove (ledger : Ledger entries control calls) {k : UInt64}
    (hfind : find SwapKeyEntry.keyId entries k = some e) :
    Ledger (erase SwapKeyEntry.keyId entries k) (control.onEntryRemoved e.dataSize e.dataSize)
      calls := by
  have hsum := total_erase (fun e => e.dataSize.toNat) ledger.distinct hfind
  have hlength := total_erase (fun _ => 1) ledger.distinct hfind
  rw [← length_eq_total, ← length_eq_total] at hlength
  have hkeys := ledger.keys
  have hdata := ledger.data
  have hoccupied := ledger.occupied
  have hone : 0 < control.totalKeys.toNat := by omega
  have hle : e.dataSize.toNat ≤ control.totalDataSize.toNat := by omega
  obtain ⟨hkeys', hdata', hocc', hbounds⟩ := Control.onEntryRemoved_inv ledger.bounds hone hle
    (by omega)
  refine { ledger with
    bounds := hbounds, distinct := ledger.distinct.erase
    keys := ?_, data := ?_, occupied := ?_ }
  · rw [hkeys']
    omega
  · rw [hdata']
    omega
  · rw [hocc']
    omega

structure Accounts (entries : List SwapKeyEntry) (control : Control) (calls : List Call) : Prop where
  prov : Provenance entries calls
  ledger : Ledger entries control calls

theorem exists_of_map_sized (h : entries'.map SwapKeyEntry.sized = entries.map SwapKeyEntry.sized)
    (he : e ∈ entries') :
    ∃ e₀ ∈ entries, e₀.keyId = e.keyId ∧ e₀.dataSize = e.dataSize := by
  have hmem : e.sized ∈ entries.map SwapKeyEntry.sized := by
    rw [← h]
    exact List.mem_map_of_mem he
  obtain ⟨e₀, he₀, hsized⟩ := List.mem_map.mp hmem
  exact ⟨e₀, he₀, Prod.mk.inj hsized⟩

theorem Accounts.move (acc : Accounts entries control calls) (h : calls[i]? = some c)
    (hentries : entries'.map SwapKeyEntry.sized = entries.map SwapKeyEntry.sized)
    (hmade : c'.made = c.made) (hcommitted : c.committed = none ∨ c'.committed = c.committed)
    (hcopies : ∀ x ∈ c'.copies, Made calls x) (hreserved : c'.reserved = c.reserved)
    (hstart : c'.refreshStart = c.refreshStart) : Accounts entries' control (calls.set i c') := by
  refine ⟨acc.prov.move h hmade ?_ hcopies fun e he => .inl (exists_of_map_sized hentries he),
    (acc.ledger.entries_congr hentries).move h hreserved hstart⟩
  intro x hx
  rcases hcommitted with hnone | hsame
  · rw [hnone] at hx
    cases hx
  · rw [hsame, hx]

theorem Accounts.quiet (acc : Accounts entries control calls) (h : calls[i]? = some c)
    (hmade : c'.made = c.made := by rfl) (hcommitted : c.committed = none := by rfl)
    (hcopies : c'.copies = [] := by rfl) (hreserved : c'.reserved = c.reserved := by rfl)
    (hstart : c'.refreshStart = c.refreshStart := by rfl) :
    Accounts entries control (calls.set i c') :=
  acc.move h rfl hmade (.inl hcommitted) (by rw [hcopies]; exact List.forall_mem_nil _) hreserved
    hstart

theorem Accounts.settled {control' : Control} (acc : Accounts entries control calls)
    (h : calls[i]? = some c) (ledger : Ledger entries control' (calls.set i c'))
    (hmade : c'.made = c.made := by rfl) (hcommitted : c.committed = none := by rfl)
    (hcopies : c'.copies = [] := by rfl) : Accounts entries control' (calls.set i c') :=
  ⟨acc.prov.move h hmade (by rw [hcommitted]; nofun) (by rw [hcopies]; exact List.forall_mem_nil _)
    fun e he => .inl ⟨e, he, rfl, rfl⟩, ledger⟩

theorem Accounts.copies (acc : Accounts entries control calls) (h : calls[i]? = some c) :
    ∀ x ∈ c.copies, Made calls x :=
  acc.prov.copied c (List.mem_of_getElem? h)

theorem finalizeEntry_accounts {s : State} {k size : UInt64} (removed : Bool)
    (hnodup : (calls.filterMap Call.key).Nodup) (acc : Accounts s.entries s.control calls)
    (hmade : Made calls (k, size)) :
    Accounts (finalizeEntry s k size removed).entries (finalizeEntry s k size removed).control
      calls := by
  unfold finalizeEntry
  split
  · exact acc
  next e hfind =>
  split
  · -- the size of the entry is the size of the one call with its key
    obtain ⟨he, rfl⟩ := find_mem hfind
    obtain ⟨c, hc, r, hr, hrsize⟩ := acc.prov.entry_made he
    obtain ⟨d, hd, r', hr', hr'size⟩ := hmade
    obtain rfl := made_unique hnodup hc hd hr hr'
    obtain rfl : r = r' := (Prod.mk.inj (Option.some.inj (hr.symm.trans hr'))).2
    obtain rfl : e.dataSize = size := hrsize.symm.trans hr'size
    refine ⟨⟨fun e' he' => acc.prov.owned e' (List.mem_of_mem_filter he'), acc.prov.copied,
      acc.prov.sized⟩, acc.ledger.remove hfind⟩
  · have hsame : (modify SwapKeyEntry.keyId s.entries k fun e => { e with status := .active }).map
        SwapKeyEntry.sized = s.entries.map SwapKeyEntry.sized := map_modify _ fun _ => rfl
    refine ⟨⟨fun e' he' => ?_, acc.prov.copied, acc.prov.sized⟩, acc.ledger.entries_congr hsame⟩
    obtain ⟨e₀, he₀, hkey, hsize⟩ := exists_of_map_sized hsame he'
    rw [← hkey, ← hsize]
    exact acc.prov.owned e₀ he₀

end Moves

section Steps

variable {s s' : State} {i : Nat} {outcome : Outcome}

theorem refreshBegin_cases {now : Int} {start : Option UInt64}
    (h : refreshBegin s now = some (s', start)) :
    s' = s ∧ start = none ∨
    s.control.refreshing = false ∧
      s' = { s with control := { s.control with refreshing := true } } ∧
      start = some s.control.committedSinceSpaceCheckBytes := by
  unfold refreshBegin at h
  split at h
  · cases h
  next hfree =>
  split at h
  · cases h
    exact .inl ⟨rfl, rfl⟩
  · next committedAtStart hdue =>
    cases h
    unfold Control.refreshBegin at hdue
    split at hdue
    · cases hdue
    · cases hdue
      exact .inr ⟨by simpa using hfree, rfl, rfl⟩

theorem commit_accounts {request : SwapOutRequest} {keyId : UInt64}
    (hnodup : (s.calls.filterMap Call.key).Nodup) (acc : Accounts s.entries s.control s.calls)
    (h : s.calls[i]? = some (.swapOut request keyId .commit)) :
    Accounts (commitSwapOutEntry s { keyId, dataSize := request.bufferSize }).entries
      (commitSwapOutEntry s { keyId, dataSize := request.bufferSize }).control
      (s.calls.set i (.swapOut request keyId (.endOperation (.ok keyId)))) := by
  have hmem := List.mem_of_getElem? h
  have hfresh : find SwapKeyEntry.keyId s.entries keyId = none :=
    acc.prov.absent hnodup hmem rfl rfl
  have hput : put SwapKeyEntry.keyId s.entries { keyId, dataSize := request.bufferSize } =
      s.entries ++ [{ keyId, dataSize := request.bufferSize }] := put_of_absent hfresh
  have hne : ∀ {size : UInt64}, size ≠ 0 → size.toNat ≠ 0 :=
    fun h h0 => h (UInt64.toNat_inj.mp h0)
  simp only [commitSwapOutEntry, hput]
  refine ⟨acc.prov.move h rfl nofun nofun fun e he => ?_, acc.ledger.commit h rfl rfl rfl hfresh ?_ ?_⟩
  · rcases List.mem_append.mp he with he | he
    · exact .inl ⟨e, he, rfl, rfl⟩
    · obtain rfl := List.mem_singleton.mp he
      exact .inr ⟨request, rfl, rfl⟩
  · intro e he
    obtain ⟨d, hd, r, hcommitted, hsize⟩ := acc.prov.owned e he
    rw [← hsize]
    exact hne (acc.prov.sized d hd _ r (Call.made_of_committed hcommitted))
  · exact hne (acc.prov.sized _ hmem keyId request rfl)

/-- What a step of `SwapOut` does to the accounts. -/
theorem stepSwapOut_accounts {request : SwapOutRequest} {keyId : UInt64} {pc pc' : OutPc}
    (hnodup : (s.calls.filterMap Call.key).Nodup) (acc : Accounts s.entries s.control s.calls)
    (h : s.calls[i]? = some (.swapOut request keyId pc))
    (hstep : stepSwapOut s request keyId pc outcome = some (s', pc')) :
    Accounts s'.entries s'.control (s.calls.set i (.swapOut request keyId pc')) := by
  unfold stepSwapOut at hstep
  split at hstep
  · -- the refresh begins, or is not due
    obtain ⟨⟨s₁, start⟩, hbegin, hr⟩ := Option.map_eq_some_iff.mp hstep
    rcases refreshBegin_cases hbegin with ⟨rfl, rfl⟩ | ⟨hfree, rfl, rfl⟩
    · cases hr
      exact acc.quiet h
    · cases hr
      exact acc.settled h (acc.ledger.refreshBegin h hfree rfl rfl rfl)
  · cases hstep
    exact acc.settled h (acc.ledger.refreshEnd h rfl rfl rfl)
  · split at hstep
    · next hreserve =>
      cases hstep
      obtain rfl := Control.reserveSwapOut_error hreserve
      exact acc.quiet h
    · next hreserve =>
      cases hstep
      exact acc.settled h (acc.ledger.reserve h hreserve rfl rfl rfl)
  · cases hstep
    exact acc.quiet h
  · cases hstep
    exact acc.quiet h
  · split at hstep
    · cases hstep
      exact acc.quiet h
    split at hstep
    · cases hstep
    cases hstep
    refine acc.move h rfl rfl (.inl rfl) nofun ?_ ?_
    · split <;> rfl
    · split <;> rfl
  · cases hstep
    exact acc.quiet h
  · cases hstep
    exact acc.quiet h
  · cases hstep
    exact acc.quiet h
  · obtain ⟨disk, -, hr⟩ := Option.map_eq_some_iff.mp hstep
    cases hr
    exact acc.quiet h
  · cases hstep
    exact acc.quiet h
  · obtain ⟨disk, -, hr⟩ := Option.map_eq_some_iff.mp hstep
    cases hr
    exact acc.quiet h
  · cases hstep
    exact acc.quiet h
  · cases hstep
    exact acc.settled h (acc.ledger.cancel h rfl rfl rfl)
  · cases hstep
    exact commit_accounts hnodup acc h
  · next result =>
    cases hstep
    cases result with
    | ok key => exact acc.move h rfl rfl (.inr rfl) nofun rfl rfl
    | error err => exact acc.quiet h
  · cases hstep

/-- What a step of `SwapIn` does to the accounts. -/
theorem stepSwapIn_accounts {request : SwapInRequest} {pc pc' : InPc}
    (hnodup : (s.calls.filterMap Call.key).Nodup) (acc : Accounts s.entries s.control s.calls)
    (h : s.calls[i]? = some (.swapIn request pc))
    (hstep : stepSwapIn s request pc outcome = some (s', pc')) :
    Accounts s'.entries s'.control (s.calls.set i (.swapIn request pc')) := by
  unfold stepSwapIn at hstep
  split at hstep
  · have hr := Option.some.inj hstep
    unfold lookupKeyForSwapIn at hr
    split at hr
    · cases hr
      exact acc.quiet h
    split at hr
    · cases hr
      exact acc.quiet h
    cases hr
    refine acc.move h (map_modify _ fun _ => rfl) rfl (.inl rfl) ?_ rfl rfl
    intro x hx
    split at hx <;> cases hx
  · split at hstep
    · cases hstep
      exact acc.quiet h
    split at hstep
    · cases hstep
      exact acc.quiet h
    split at hstep
    · cases hstep
    split at hstep
    · cases hstep
    · cases hstep
      exact acc.quiet h
  · cases hstep
    exact acc.quiet h
  · split at hstep
    · cases hstep
    simp only at hstep
    split at hstep
    · cases hstep
    split at hstep
    · cases hstep
      exact acc.quiet h
    split at hstep
    · cases hstep
      exact acc.quiet h
    · cases hstep
      exact acc.quiet h
  · cases hstep
    exact acc.quiet h
  · have hr := Option.some.inj hstep
    unfold finishSwapIn at hr
    split at hr
    · cases hr
      exact acc.quiet h
    next entry hfind =>
    simp only at hr
    split at hr
    · cases hr
      exact acc.move h (map_modify _ fun _ => rfl) rfl (.inl rfl) (List.forall_mem_nil _) rfl rfl
    · cases hr
      refine acc.move h (map_modify _ fun _ => rfl) rfl (.inl rfl) ?_ rfl rfl
      intro x hx
      obtain ⟨he, hkey⟩ := find_mem hfind
      obtain rfl : x = (request.keyId, entry.dataSize) := by simpa [Call.copies] using hx
      rw [← hkey]
      exact acc.prov.entry_made he
  · obtain ⟨disk, -, hr⟩ := Option.map_eq_some_iff.mp hstep
    cases hr
    have hcopies := acc.copies h
    exact acc.move h rfl rfl (.inl rfl) hcopies rfl rfl
  · cases hstep
    have hcopies := acc.copies h
    exact acc.move h rfl rfl (.inl rfl) hcopies rfl rfl
  · next removedSize removed result =>
    cases hstep
    have hfinal := finalizeEntry_accounts removed hnodup acc
      (acc.copies h _ (List.mem_singleton_self _))
    exact hfinal.quiet h
  · cases hstep
    exact acc.quiet h
  · cases hstep

theorem stepRemoveData_accounts {keyId : UInt64} {pc pc' : RemovePc}
    (hnodup : (s.calls.filterMap Call.key).Nodup) (acc : Accounts s.entries s.control s.calls)
    (h : s.calls[i]? = some (.removeData keyId pc))
    (hstep : stepRemoveData s pc outcome = some (s', pc')) :
    Accounts s'.entries s'.control (s.calls.set i (.removeData keyId pc')) := by
  unfold stepRemoveData at hstep
  split at hstep
  · obtain ⟨disk, -, hr⟩ := Option.map_eq_some_iff.mp hstep
    cases hr
    have hcopies := acc.copies h
    exact acc.move h rfl rfl (.inl rfl) hcopies rfl rfl
  · cases hstep
    have hcopies := acc.copies h
    exact acc.move h rfl rfl (.inl rfl) hcopies rfl rfl
  · next entry result =>
    cases hstep
    have hfinal := finalizeEntry_accounts result.isOk hnodup acc
      (acc.copies h _ (List.mem_singleton_self _))
    exact hfinal.quiet h
  · cases hstep
    exact acc.quiet h
  · cases hstep

theorem finalizeEntries_accounts (hnodup : (calls.filterMap Call.key).Nodup)
    (removed : List (SwapKeyEntry × Bool)) : ∀ s : State, Accounts s.entries s.control calls →
    (∀ r ∈ removed, Made calls (r.1.keyId, r.1.dataSize)) →
    Accounts (removed.foldl (fun s r => finalizeEntry s r.1.keyId r.1.dataSize r.2) s).entries
      (removed.foldl (fun s r => finalizeEntry s r.1.keyId r.1.dataSize r.2) s).control calls := by
  induction removed with
  | nil =>
    intro s acc _
    exact acc
  | cons r removed ih =>
    intro s acc hmade
    exact ih _ (finalizeEntry_accounts _ hnodup acc (hmade r List.mem_cons_self))
      fun r' hr' => hmade r' (List.mem_cons_of_mem _ hr')

theorem stepRemoveAllData_accounts {pc pc' : RemoveAllPc}
    (hnodup : (s.calls.filterMap Call.key).Nodup) (acc : Accounts s.entries s.control s.calls)
    (h : s.calls[i]? = some (.removeAllData pc))
    (hstep : stepRemoveAllData s pc outcome = some (s', pc')) :
    Accounts s'.entries s'.control (s.calls.set i (.removeAllData pc')) := by
  have hcopies := acc.copies h
  unfold stepRemoveAllData at hstep
  split at hstep
  · cases hstep
    refine acc.move h rfl rfl (.inl rfl) ?_ rfl rfl
    simpa [Call.copies] using hcopies
  · obtain ⟨disk, -, hr⟩ := Option.map_eq_some_iff.mp hstep
    cases hr
    refine acc.move h rfl rfl (.inl rfl) (fun x hx => hcopies x ?_) rfl rfl
    simp only [Call.copies, List.map_append, List.mem_append, List.map_cons, List.map_nil,
      List.mem_cons] at hx ⊢
    tauto
  · cases hstep
    refine acc.move h rfl rfl (.inl rfl) (fun x hx => hcopies x ?_) rfl rfl
    simp only [Call.copies, List.map_append, List.mem_append, List.map_cons, List.map_nil,
      List.mem_cons] at hx ⊢
    tauto
  · cases hstep
    have hfinal := finalizeEntries_accounts hnodup _ s acc
      (fun r hr => hcopies _ (List.mem_map_of_mem hr))
    exact hfinal.quiet h
  · cases hstep
    exact acc.quiet h
  · cases hstep

theorem stepGetStats_accounts {pc pc' : StatsPc} (acc : Accounts s.entries s.control s.calls)
    (h : s.calls[i]? = some (.getStats pc))
    (hstep : stepGetStats s pc outcome = some (s', pc')) :
    Accounts s'.entries s'.control (s.calls.set i (.getStats pc')) := by
  unfold stepGetStats at hstep
  split at hstep
  · obtain ⟨⟨s₁, start⟩, hbegin, hr⟩ := Option.map_eq_some_iff.mp hstep
    rcases refreshBegin_cases hbegin with ⟨rfl, rfl⟩ | ⟨hfree, rfl, rfl⟩
    · cases hr
      exact acc.quiet h
    · cases hr
      exact acc.settled h (acc.ledger.refreshBegin h hfree rfl rfl rfl)
  · cases hstep
    exact acc.settled h (acc.ledger.refreshEnd h rfl rfl rfl)
  · cases hstep
    exact acc.quiet h
  · cases hstep
    exact acc.quiet h
  · cases hstep

theorem stepCall_accounts {c c' : Call} (hnodup : (s.calls.filterMap Call.key).Nodup)
    (acc : Accounts s.entries s.control s.calls) (h : s.calls[i]? = some c)
    (hstep : stepCall s outcome c = some (s', c')) :
    Accounts s'.entries s'.control (s.calls.set i c') := by
  cases callStep hstep with
  | swapOut hpc =>
    exact stepSwapOut_accounts hnodup acc h hpc
  | swapIn hpc =>
    exact stepSwapIn_accounts hnodup acc h hpc
  | removeData hpc =>
    exact stepRemoveData_accounts hnodup acc h hpc
  | removeAllData hpc =>
    exact stepRemoveAllData_accounts hnodup acc h hpc
  | getStats hpc =>
    exact stepGetStats_accounts acc h hpc

/-- What a first section does to the accounts. -/
theorem start_accounts (acc : Accounts s.entries s.control s.calls) (request : Request) :
    Accounts (start s request).1.entries (start s request).1.control
      (s.calls ++ [(start s request).2]) := by
  -- a call that holds nothing, with the entries as they were
  have hquiet : ∀ c : Call, (∀ k r, c.made = some (k, r) → r.bufferSize ≠ 0) → c.copies = [] →
      c.reserved = 0 → c.refreshStart = none → Accounts s.entries s.control (s.calls ++ [c]) := by
    intro c hsized hcopies hreserved hstart
    exact ⟨acc.prov.start hsized (by rw [hcopies]; exact List.forall_mem_nil _) fun e he => ⟨e, he, rfl, rfl⟩,
      acc.ledger.start hreserved hstart⟩
  cases request with
  | swapOut request =>
    simp only [start, startSwapOut]
    split
    · exact hquiet _ (by rintro _ _ ⟨⟩) rfl rfl rfl
    next hsize =>
    split
    · exact hquiet _ (by rintro _ _ ⟨⟩) rfl rfl rfl
    split
    · exact hquiet _ (by rintro _ _ ⟨⟩) rfl rfl rfl
    · refine hquiet _ ?_ rfl rfl rfl
      intro k r hmade
      cases hmade
      exact hsize
  | swapIn request =>
    simp only [start, startSwapIn]
    split
    · exact hquiet _ (by rintro _ _ ⟨⟩) rfl rfl rfl
    · refine hquiet _ (by rintro _ _ ⟨⟩) ?_ rfl rfl
      split <;> rfl
  | removeData keyId =>
    simp only [start, startRemoveData]
    split
    · exact hquiet _ (by rintro _ _ ⟨⟩) rfl rfl rfl
    split
    · exact hquiet _ (by rintro _ _ ⟨⟩) rfl rfl rfl
    next entry hfind =>
    split
    · exact hquiet _ (by rintro _ _ ⟨⟩) rfl rfl rfl
    have hsame : (modify SwapKeyEntry.keyId s.entries keyId fun e => { e with status := .removing }).map
        SwapKeyEntry.sized = s.entries.map SwapKeyEntry.sized := map_modify _ fun _ => rfl
    split
    · refine ⟨acc.prov.start (by rintro _ _ ⟨⟩) ?_ fun e he => exists_of_map_sized hsame he,
        (acc.ledger.entries_congr hsame).start rfl rfl⟩
      intro x hx
      obtain rfl := List.mem_singleton.mp hx
      have hmade := acc.prov.entry_made (find_mem hfind).1
      exact hmade
    · exact ⟨acc.prov.start (by rintro _ _ ⟨⟩) (List.forall_mem_nil _) fun e he => exists_of_map_sized hsame he,
        (acc.ledger.entries_congr hsame).start rfl rfl⟩
  | removeAllData =>
    simp only [start, startRemoveAllData]
    split
    · exact hquiet _ (by rintro _ _ ⟨⟩) rfl rfl rfl
    split
    · exact hquiet _ (by rintro _ _ ⟨⟩) rfl rfl rfl
    have hsame : (s.entries.map fun e => { e with status := .removing }).map SwapKeyEntry.sized =
        s.entries.map SwapKeyEntry.sized := by
      rw [List.map_map]
      rfl
    refine ⟨acc.prov.start (by rintro _ _ ⟨⟩) ?_ fun e he => exists_of_map_sized hsame he,
      (acc.ledger.entries_congr hsame).start rfl rfl⟩
    intro x hx
    simp only [Call.copies, List.map_nil, List.append_nil] at hx
    obtain ⟨e, he, rfl⟩ := List.mem_map.mp hx
    exact acc.prov.entry_made he
  | getStats => exact hquiet _ (by rintro _ _ ⟨⟩) rfl rfl rfl

end Steps

/-! ## Every reachable state -/

/-- The limit that a configured value stands for. -/
def configuredLimit (limit : UInt64) : UInt64 := if limit = 0 then defaultSpaceLimitBytes else limit

/-- The accounts, as they are meant. -/
structure QuotaAccounts (limit : UInt64) (s : State) : Prop where
  totalKeys : s.control.totalKeys.toNat = s.entries.length
  totalDataSize : s.control.totalDataSize.toNat = total (fun e => e.dataSize.toNat) s.entries
  totalOccupiedSize : s.control.totalOccupiedSize.toNat =
    total (fun e => e.dataSize.toNat) s.entries
  pending : s.control.pendingOccupiedSize.toNat = total Call.reserved s.calls
  limit : s.control.totalOccupiedSize.toNat + s.control.pendingOccupiedSize.toNat ≤ limit.toNat
  neverClamped : s.control.clamped = false

/-- The two invariants of a run; the accounts hold while the keys are different. -/
structure QuotaInv (limit : UInt64) (s : State) : Prop where
  keys : KeysInv s
  limit : s.control.spaceLimitBytes = limit
  accounts : s.issued ≤ 2 ^ 64 → Accounts s.entries s.control s.calls

theorem accounts_nil {control : Control} (hbounds : ControlInv control)
    (hkeys : control.totalKeys = 0) (hdata : control.totalDataSize = 0)
    (hoccupied : control.totalOccupiedSize = 0) (hpending : control.pendingOccupiedSize = 0)
    (hrefreshing : control.refreshing = false) : Accounts [] control [] where
  prov := ⟨List.forall_mem_nil _, List.forall_mem_nil _, List.forall_mem_nil _⟩
  ledger :=
    { bounds := hbounds
      distinct := List.nodup_nil
      keys := congrArg UInt64.toNat hkeys
      data := congrArg UInt64.toNat hdata
      occupied := congrArg UInt64.toNat hoccupied
      pending := congrArg UInt64.toNat hpending
      refreshing := by rw [hrefreshing]; rfl
      started := List.forall_mem_nil _ }

theorem init_quotaInv (useDirectIo : Bool) (available limit : UInt64) (intervalMs : UInt32)
    (now : Int) :
    QuotaInv (configuredLimit limit)
      (init useDirectIo (Control.initWithAvailableSpace available limit intervalMs now)) :=
  ⟨init_keysInv _ _, rfl, fun _ =>
    accounts_nil ⟨Nat.zero_le _, Nat.two_pow_pos 64, rfl⟩ rfl rfl rfl rfl rfl⟩

theorem step_quotaInv {limit : UInt64} (s : State) (a : Action) (t : State)
    (inv : QuotaInv limit s) (_ : True) (h : step s a = some t) : QuotaInv limit t := by
  obtain ⟨hkeys, hmono⟩ := step_keysInv inv.keys h
  refine ⟨hkeys, (step_spaceLimit h).trans inv.limit, fun hfew => ?_⟩
  have hfew' : s.issued ≤ 2 ^ 64 := Nat.le_trans hmono hfew
  have hnodup := inv.keys.nodup hfew'
  have acc := inv.accounts hfew'
  rcases step_cases h with ⟨request, -, rfl⟩ | ⟨i, outcome, c, s', c', -, hc, hstep, rfl⟩
  · exact start_accounts acc request
  · have hacc := stepCall_accounts hnodup acc hc hstep
    exact hacc

/-- In every state of every run in which no key was handed out twice, the counters are the sums,
the limit is kept and no subtraction was cut off. -/
theorem quotaAccounts_of_run {useDirectIo : Bool} {available limit : UInt64} {intervalMs : UInt32}
    {now : Int} {as : List Action} {s : State}
    (hrun : run step (init useDirectIo
      (Control.initWithAvailableSpace available limit intervalMs now)) as = some s)
    (hfew : s.issued ≤ 2 ^ 64) : QuotaAccounts (configuredLimit limit) s := by
  have inv := run_invariant step_quotaInv (init_quotaInv useDirectIo available limit intervalMs now)
    (stepsOk_true as _) hrun
  obtain ⟨-, ledger⟩ := inv.accounts hfew
  have hlimit := ledger.bounds.limit
  rw [inv.limit] at hlimit
  exact ⟨ledger.keys, ledger.data, ledger.occupied, ledger.pending, hlimit,
    ledger.bounds.unclamped⟩

/-! ### Coming round -/

def oneByte : SwapOutRequest := ⟨[7], 0, by decide⟩

/-- A limit of 8 bytes on a device with 6 GiB. -/
def smallControl : Control := Control.initWithAvailableSpace (6 * 1024 * 1024 * 1024) 8 1000 0

/-- The steps of a `SwapOut` that succeeds, and of one that cannot open its file. -/
def swapOutSteps (i : Nat) : List Action :=
  alone i (.swapOut oneByte) [.time 0, .ok, .ok, .bytes 1, .ok, .ok, .ok, .ok]

def failedSteps (i : Nat) : List Action :=
  alone i (.swapOut oneByte) [.time 0, .ok, .error .ioError, .error .ioError, .ok, .ok]

/-- The manager behind one call that succeeded. -/
def oneEntry : State :=
  { init false smallControl with
    control := { smallControl with
      totalKeys := 1
      totalDataSize := 1
      totalOccupiedSize := 1
      accumulatedWriteBytes := 1
      committedSinceSpaceCheckBytes := 1 }
    entries := [{ keyId := 1, dataSize := 1 }]
    nextKeyId := 2
    disk := ⟨Function.update (Function.update (Function.update (fun _ => none) (.tmp 1) (some 0))
      (.swap 1) (some 0)) (.tmp 1) none, [[7]]⟩
    calls := [.swapOut oneByte 1 (.done (.ok 1))] }

theorem run_oneEntry : run step (init false smallControl) (swapOutSteps 0) = some oneEntry := rfl

theorem quotaAccounts_of_run_oneByte :
    run step (init false smallControl) (swapOutSteps 0) = some oneEntry ∧
    oneEntry.issued ≤ 2 ^ 64 ∧ QuotaAccounts 8 oneEntry :=
  ⟨run_oneEntry, by decide, quotaAccounts_of_run run_oneEntry (by decide)⟩

/-- Nothing is reserved or refreshed, and a byte fits. -/
structure Ready (s : State) (reserved : Control) : Prop where
  useDirectIo : s.useDirectIo = false
  removeAll : s.removeAllInProgress = false
  refreshing : s.control.refreshing = false
  refresh : s.control.refreshBegin 0 = none
  reserve : s.control.reserveSwapOut 1 = (.ok (), reserved)

theorem bufferSize_oneByte : oneByte.bufferSize = 1 := rfl

theorem length_oneByte : oneByte.buffer.length = 1 := rfl

theorem Ready.start_oneByte {s : State} {reserved : Control} (ready : Ready s reserved) :
    start s (.swapOut oneByte) =
      ({ s with activeOps := s.activeOps + 1, nextKeyId := s.nextKeyId + 1 },
        .swapOut oneByte s.nextKeyId .refresh) := by
  simp [start, startSwapOut, ready.useDirectIo, ready.removeAll, bufferSize_oneByte]

theorem run_failed {s : State} {reserved : Control} (ready : Ready s reserved)
    (hcancel : reserved.cancelReservedSwapOut 1 = s.control) :
    run step s (failedSteps s.calls.length) = some { s with
      activeOps := s.activeOps + 1 - 1
      nextKeyId := s.nextKeyId + 1
      calls := s.calls ++ [Call.swapOut oneByte s.nextKeyId (.done (.error .ioError))] } := by
  rw [failedSteps, run_alone, ready.start_oneByte]
  simp only [stepsLast, stepCall, stepSwapOut, refreshBegin, ready.refreshing, ready.refresh,
    bufferSize_oneByte, ready.reserve, hcancel, endOperation, Option.map_some, Option.bind_some,
    Bool.false_eq_true, if_false]

theorem run_again {s : State} {reserved : Control} (ready : Ready s reserved)
    (hnone : s.disk.names (.tmp s.nextKeyId) = none) :
    ∃ t, run step s (swapOutSteps s.calls.length) = some t ∧
      t.control = reserved.onSwapOutCommitted 1 1 ∧
      t.entries = Keyed.put SwapKeyEntry.keyId s.entries { keyId := s.nextKeyId, dataSize := 1 } := by
  rw [swapOutSteps, run_alone, ready.start_oneByte]
  simp only [stepsLast, stepCall, stepSwapOut, refreshBegin, ready.refreshing, ready.refresh,
    bufferSize_oneByte, length_oneByte, ready.reserve, endOperation, Disk.create, Disk.rename,
    Disk.append, hnone, commitSwapOutEntry, Option.map_some, Option.bind_some, Bool.false_eq_true,
    if_false, if_true, Nat.succ_ne_self, Nat.lt_irrefl, zero_add, Function.update_self,
    UInt32.add_sub_cancel, Option.some.injEq, exists_eq_left', and_self]

/-- The manager of `oneEntry`, behind calls that failed. -/
def idle (nextKeyId : UInt64) (activeOps : UInt32) (calls : List Call) : State :=
  { oneEntry with nextKeyId, activeOps, calls }

theorem reserve_oneEntry : oneEntry.control.reserveSwapOut 1 =
    (.ok (), { oneEntry.control with pendingOccupiedSize := 1 }) := rfl

theorem idle_ready (nextKeyId : UInt64) (activeOps : UInt32) (calls : List Call) :
    Ready (idle nextKeyId activeOps calls)
      { oneEntry.control with pendingOccupiedSize := 1 } :=
  ⟨rfl, rfl, rfl, rfl, reserve_oneEntry⟩

theorem run_failed_times (n : Nat) : ∀ (k : UInt64) (ops : UInt32) (l : List Call),
    ∃ as ops' l', run step (idle k ops l) as = some (idle (k + UInt64.ofNat n) ops' l') := by
  induction n with
  | zero =>
    intro k ops l
    exact ⟨[], ops, l, by simp [run]⟩
  | succ n ih =>
    intro k ops l
    have hfirst := run_failed (idle_ready k ops l) rfl
    obtain ⟨as, ops', l', hrest⟩ := ih (k + 1) (ops + 1 - 1)
      (l ++ [Call.swapOut oneByte k (.done (.error .ioError))])
    refine ⟨failedSteps l.length ++ as, ops', l', ?_⟩
    rw [run_append]
    refine Eq.trans (congrArg (·.bind fun t => run step t as) hfirst) ?_
    refine Eq.trans hrest ?_
    rw [UInt64.ofNat_add, UInt64.add_assoc, UInt64.add_comm 1, UInt64.ofNat_one]

/-- The key that was handed out first is handed out again: its entry is replaced, and counted
twice. -/
theorem keyAgain_not_quotaAccounts :
    ∃ as s, run step (init false smallControl) as = some s ∧ ¬ QuotaAccounts 8 s := by
  obtain ⟨as, ops, l, hfailed⟩ := run_failed_times (2 ^ 64 - 1) 2 0 oneEntry.calls
  have hround : (2 : UInt64) + UInt64.ofNat (2 ^ 64 - 1) = 1 := by decide
  rw [hround] at hfailed
  obtain ⟨t, hagain, hcontrol, hentries⟩ := run_again (idle_ready 1 ops l) rfl
  refine ⟨swapOutSteps 0 ++ (as ++ swapOutSteps l.length), t, ?_, ?_⟩
  · rw [run_append, run_oneEntry, Option.bind_some, run_append]
    exact (congrArg (·.bind fun t => run step t (swapOutSteps l.length)) hfailed).trans hagain
  · intro hacc
    have hcount := hacc.totalKeys
    have htwice : t.control.totalKeys = 2 := by rw [hcontrol]; rfl
    have hone : t.entries = [{ keyId := 1, dataSize := 1 }] := hentries
    rw [htwice, hone] at hcount
    exact absurd hcount (by decide)

end FileApi.Swapfs
