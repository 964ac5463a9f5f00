import FileApi.Swapfs.Device
import FileApi.Swapfs.Proofs.Integrity

/-!
# The floor of the free space

What the control takes for available is at most the free space, the bytes of the writers and the
bytes committed since the last refresh together; an answer that is not applied yet is so, too,
with the bytes committed before the refresh on its side. So a reservation that is granted leaves
room for what is not written yet above the floor.
-/

namespace FileApi.Swapfs

open Pool Keyed Machine

/-! ## The files of the writers -/

/-- The bytes a `SwapOut` has on the device and has not committed. -/
def Call.onDisk (d : Disk) : Call → Nat
  | .swapOut _ k (.write _ _) => d.size (.tmp k)
  | .swapOut _ k .fsync => d.size (.tmp k)
  | .swapOut _ k .rename => d.size (.tmp k)
  | .swapOut _ k (.cleanup _) => d.size (.tmp k)
  | .swapOut _ k .commit => d.size (.swap k)
  | _ => 0

/-- The bytes of a reservation that are still to be written. -/
def Call.unwritten : Call → Nat
  | .swapOut r _ .openTmp => r.buffer.length
  | .swapOut r _ (.write _ written) => r.buffer.length - written
  | _ => 0

/-- What a `SwapOut` knows of the size of its file. -/
def TmpOk (d : Disk) : Call → Prop
  | .swapOut _ k .refresh => d.size (.tmp k) = 0
  | .swapOut _ k (.refreshing _ _) => d.size (.tmp k) = 0
  | .swapOut _ k .reserve => d.size (.tmp k) = 0
  | .swapOut _ k .openTmp => d.size (.tmp k) = 0
  | .swapOut r k (.write fd written) => ∃ bytes, d.lookup (.tmp k) = some (fd, bytes) ∧
      bytes.length = written ∧ written ≤ r.buffer.length
  | .swapOut r k .fsync => d.size (.tmp k) ≤ r.buffer.length
  | .swapOut r k .rename => d.size (.tmp k) ≤ r.buffer.length
  | .swapOut r k (.cleanup _) => d.size (.tmp k) ≤ r.buffer.length
  | .swapOut r k .commit => d.size (.swap k) ≤ r.buffer.length
  | _ => True

theorem SwapOutRequest.toNat_bufferSize (r : SwapOutRequest) :
    r.bufferSize.toNat = r.buffer.length := by
  rw [SwapOutRequest.bufferSize, UInt64.toNat_ofNat']
  exact Nat.mod_eq_of_lt r.fits

theorem Disk.size_of_lookup {d : Disk} {p : SwapFile} {f : Nat} {bytes : List UInt8}
    (h : d.lookup p = some (f, bytes)) : d.size p = bytes.length := by
  rw [Disk.size, h]
  rfl

theorem Disk.size_congr {d d' : Disk} {p q : SwapFile} (h : d'.lookup q = d.lookup p) :
    d'.size q = d.size p := by
  rw [Disk.size, h, Disk.size]

theorem TmpOk.writer {d : Disk} {c : Call} (hfile : TmpOk d c) (r : SwapOutRequest) (k : UInt64)
    (fd n : Nat) (hc : c = .swapOut r k (.write fd n)) :
    ∃ bytes, d.lookup (.tmp k) = some (fd, bytes) := by
  subst hc
  obtain ⟨bytes, hlookup, -⟩ := hfile
  exact ⟨bytes, hlookup⟩

theorem TmpOk.held {d : Disk} {c : Call} (hfile : TmpOk d c) :
    c.onDisk d + c.unwritten ≤ c.reserved := by
  cases c with
  | swapOut r k pc =>
    have hsize := r.toNat_bufferSize
    cases pc with
    | write fd written =>
      obtain ⟨bytes, hlookup, hlength, hle⟩ := hfile
      have honDisk := Disk.size_of_lookup hlookup
      simp only [Call.onDisk, Call.unwritten, Call.reserved]
      omega
    | _ =>
      simp only [TmpOk] at hfile
      simp only [Call.onDisk, Call.unwritten, Call.reserved]
      omega
  | _ => exact Nat.le_refl 0

theorem TmpOk.frame {d d' : Disk} {c : Call}
    (htmp : ∀ k, c.key = some k → d'.lookup (.tmp k) = d.lookup (.tmp k))
    (hswap : ∀ k, c.key = some k → c.committed = none → d'.lookup (.swap k) = d.lookup (.swap k))
    (hfile : TmpOk d c) : TmpOk d' c ∧ c.onDisk d' = c.onDisk d := by
  cases c with
  | swapOut r k pc =>
    have hsize := Disk.size_congr (htmp k rfl)
    cases pc with
    | write fd written =>
      refine ⟨?_, hsize⟩
      simp only [TmpOk, htmp k rfl]
      exact hfile
    | commit =>
      have hsize := Disk.size_congr (hswap k rfl rfl)
      simp only [TmpOk, Call.onDisk, hsize] at hfile ⊢
      exact ⟨hfile, trivial⟩
    | _ =>
      simp only [TmpOk, Call.onDisk, hsize] at hfile ⊢
      exact ⟨hfile, trivial⟩
  | _ => exact ⟨trivial, rfl⟩

/-! ## What a step does to the space -/

/-- A call that has not come to its refresh yet. -/
def Call.mayRefresh : Call → Bool
  | .swapOut _ _ .refresh => true
  | .getStats .refresh => true
  | _ => false

/-- The part of the control that the refreshes and the commits change. -/
structure SameSpace (c c' : Control) : Prop where
  available : c'.availableDeviceSpace = c.availableDeviceSpace
  enabled : c'.featureEnabled = c.featureEnabled

/-- What a call does to the free space and to the control. -/
inductive SpaceStep (s s' : State) (free free' : Nat) (outcome : Outcome) (c c' : Call) : Prop where
  | quiet (hsame : SameSpace s.control s'.control)
      (hspace : free + c.onDisk s.disk + s.control.committedSinceSpaceCheckBytes.toNat ≤
        free' + c'.onDisk s'.disk + s'.control.committedSinceSpaceCheckBytes.toNat)
      (hunwritten : c'.unwritten + free ≤ c.unwritten + free')
      (hgranted : c'.justGranted = false) (hlate : c'.mayRefresh = false)
      (hstart : c.mayRefresh = true ∨ c'.refreshStart = none)
  | grant (r : SwapOutRequest) (k : UInt64) (control : Control)
      (hreserve : s.control.reserveSwapOut r.bufferSize = (.ok (), control))
      (hs : s' = { s with control }) (hfree : free' = free)
      (hc : c = .swapOut r k .reserve) (hc' : c' = .swapOut r k .openTmp)
  | refreshEnd (now : Int) (start : UInt64) (answer : Option UInt64)
      (houtcome : outcome = .space answer) (hs : s' = refreshEnd s now start answer)
      (hfree : free' = free) (hc : c.refreshStart = some start) (hc' : c'.refreshStart = none)
      (honDisk : c.onDisk s.disk = 0 ∧ c'.onDisk s.disk = 0) (hunwritten : c'.unwritten = 0)
      (hgranted : c'.justGranted = false) (hlate : c'.mayRefresh = false)

section Steps

variable {s s' : State} {outcome : Outcome} {c c' : Call} {free free' : Nat}

theorem SpaceStep.same (hcontrol : s'.control = s.control)
    (hspace : free + c.onDisk s.disk ≤ free' + c'.onDisk s'.disk)
    (hunwritten : c'.unwritten + free ≤ c.unwritten + free') (hgranted : c'.justGranted = false)
    (hlate : c'.mayRefresh = false) (hstart : c.mayRefresh = true ∨ c'.refreshStart = none) :
    SpaceStep s s' free free' outcome c c' := by
  refine .quiet ⟨by rw [hcontrol], by rw [hcontrol]⟩ ?_ hunwritten hgranted hlate hstart
  rw [hcontrol]
  omega

theorem refreshBegin_space {now : Int} {start : Option UInt64}
    (h : refreshBegin s now = some (s', start)) : SameSpace s.control s'.control ∧
      s'.control.committedSinceSpaceCheckBytes = s.control.committedSinceSpaceCheckBytes ∧
      s'.disk = s.disk := by
  rcases refreshBegin_cases h with ⟨rfl, -⟩ | ⟨-, rfl, -⟩
  · exact ⟨⟨rfl, rfl⟩, rfl, rfl⟩
  · exact ⟨⟨rfl, rfl⟩, rfl, rfl⟩

/-- A `SwapOut` writes what it has reserved, to its own file. -/
theorem stepSwapOut_space {request : SwapOutRequest} {keyId : UInt64} {pc pc' : OutPc}
    (ok : s.disk.Ok) (bounds : ControlInv s.control)
    (hreserved : (Call.swapOut request keyId pc).reserved ≤ s.control.pendingOccupiedSize.toNat)
    (hfile : TmpOk s.disk (.swapOut request keyId pc))
    (hunlink : ∀ err err', pc = .cleanup err → outcome = .error err' →
      s.disk.size (.tmp keyId) = 0)
    (h : stepSwapOut s request keyId pc outcome = some (s', pc'))
    (hfree : spaceAfter s.disk free outcome (.swapOut request keyId pc) = some free') :
    TmpOk s'.disk (.swapOut request keyId pc') ∧
    SpaceStep s s' free free' outcome (.swapOut request keyId pc) (.swapOut request keyId pc') := by
  have hsize := request.toNat_bufferSize
  unfold stepSwapOut at h
  split at h
  case h_1 now =>
    obtain rfl : free = free' := Option.some.inj hfree
    obtain ⟨⟨s₁, start⟩, hbegin, hr⟩ := Option.map_eq_some_iff.mp h
    obtain ⟨hsame, hcommitted, hdisk⟩ := refreshBegin_space hbegin
    cases start with
    | none =>
      cases hr
      refine ⟨hdisk ▸ hfile, .quiet hsame ?_ (Nat.le_refl _) rfl rfl (.inl rfl)⟩
      rw [hcommitted, hdisk]
      exact Nat.le_refl _
    | some start =>
      cases hr
      refine ⟨hdisk ▸ hfile, .quiet hsame ?_ (Nat.le_refl _) rfl rfl (.inl rfl)⟩
      rw [hcommitted, hdisk]
      exact Nat.le_refl _
  case h_2 now start answer =>
    obtain rfl : free = free' := Option.some.inj hfree
    cases h
    exact ⟨hfile, .refreshEnd now start answer rfl rfl rfl rfl rfl ⟨rfl, rfl⟩ rfl rfl rfl⟩
  case h_3 =>
    obtain rfl : free = free' := Option.some.inj hfree
    split at h
    · next err control hreserve =>
      cases h
      obtain rfl := Control.reserveSwapOut_error hreserve
      exact ⟨trivial, .same rfl (Nat.le_refl _) (Nat.le_refl _) rfl rfl (.inr rfl)⟩
    · next control hreserve =>
      cases h
      exact ⟨hfile, .grant request keyId control hreserve rfl rfl rfl rfl⟩
  case h_4 =>
    obtain rfl : free + s.disk.size (.tmp keyId) = free' := Option.some.inj hfree
    cases h
    have hlookup := (Disk.create_spec ok (.tmp keyId)).2.1
    refine ⟨⟨[], hlookup, rfl, Nat.zero_le _⟩, .same rfl ?_ ?_ rfl rfl (.inr rfl)⟩
    · simp only [Call.onDisk]
      omega
    · simp only [Call.unwritten]
      omega
  case h_5 =>
    obtain rfl : free = free' := Option.some.inj hfree
    cases h
    simp only [TmpOk] at hfile
    refine ⟨?_, .same rfl ?_ ?_ rfl rfl (.inr rfl)⟩
    · simp only [TmpOk]
      omega
    · simp only [Call.onDisk]
      omega
    · simp only [Call.unwritten]
      omega
  case h_6 fd written n =>
    obtain ⟨bytes, hlookup, hlength, hle⟩ := hfile
    have honDisk := Disk.size_of_lookup hlookup
    simp only [spaceAfter] at hfree
    split at hfree
    case isFalse => cases hfree
    cases hfree
    split at h
    · next hzero =>
      cases h
      refine ⟨?_, .same rfl ?_ ?_ rfl rfl (.inr rfl)⟩
      · simp only [TmpOk]
        omega
      · simp only [Call.onDisk]
        omega
      · simp only [Call.unwritten]
        omega
    split at h
    · cases h
    next hfits =>
    have happend := (Disk.append_spec ok ((request.buffer.drop written).take n) hlookup).2.1
    have hsize' := Disk.size_of_lookup happend
    have hchunk : ((request.buffer.drop written).take n).length = n := by
      rw [List.length_take, List.length_drop]
      omega
    rw [List.length_append, hchunk] at hsize'
    split at h
    · cases h
      refine ⟨?_, .same rfl ?_ ?_ rfl rfl (.inr rfl)⟩
      · simp only [TmpOk]
        omega
      · simp only [Call.onDisk]
        omega
      · simp only [Call.unwritten]
        omega
    · cases h
      refine ⟨⟨_, happend, ?_, ?_⟩, .same rfl ?_ ?_ rfl rfl (.inr rfl)⟩
      · rw [List.length_append, hchunk]
        omega
      · omega
      · simp only [Call.onDisk]
        omega
      · simp only [Call.unwritten]
        omega
  case h_7 =>
    obtain rfl : free = free' := Option.some.inj hfree
    cases h
    obtain ⟨bytes, hlookup, hlength, hle⟩ := hfile
    have honDisk := Disk.size_of_lookup hlookup
    refine ⟨?_, .same rfl (Nat.le_refl _) ?_ rfl rfl (.inr rfl)⟩
    · simp only [TmpOk]
      omega
    · simp only [Call.unwritten]
      omega
  case h_10 =>
    obtain rfl : free + s.disk.size (.swap keyId) = free' := Option.some.inj hfree
    obtain ⟨disk, hrename, hr⟩ := Option.map_eq_some_iff.mp h
    cases hr
    have hmoved := Disk.size_congr (Disk.rename_spec ok (by nofun) hrename).2.1
    simp only [TmpOk] at hfile
    refine ⟨?_, .same rfl ?_ ?_ rfl rfl (.inr rfl)⟩
    · simp only [TmpOk]
      omega
    · simp only [Call.onDisk]
      omega
    · simp only [Call.unwritten]
      omega
  case h_12 =>
    obtain rfl : free + s.disk.size (.tmp keyId) = free' := Option.some.inj hfree
    obtain ⟨disk, hunlinked, hr⟩ := Option.map_eq_some_iff.mp h
    cases hr
    refine ⟨trivial, .same rfl (Nat.le_refl _) ?_ rfl rfl (.inr rfl)⟩
    simp only [Call.unwritten]
    omega
  case h_13 err err' =>
    obtain rfl : free = free' := Option.some.inj hfree
    cases h
    have hgone := hunlink err err' rfl rfl
    refine ⟨trivial, .same rfl ?_ (Nat.le_refl _) rfl rfl (.inr rfl)⟩
    simp only [Call.onDisk]
    omega
  case h_14 =>
    obtain rfl : free = free' := Option.some.inj hfree
    cases h
    exact ⟨trivial, .quiet ⟨rfl, rfl⟩ (Nat.le_refl _) (Nat.le_refl _) rfl rfl (.inr rfl)⟩
  case h_15 =>
    obtain rfl : free = free' := Option.some.inj hfree
    cases h
    obtain ⟨-, -, hcommitted, -⟩ := Control.onSwapOutCommitted_inv bounds hreserved
    simp only [TmpOk] at hfile
    refine ⟨trivial, .quiet ⟨rfl, rfl⟩ ?_ (Nat.le_refl _) rfl rfl (.inr rfl)⟩
    simp only [commitSwapOutEntry, hcommitted, Call.onDisk]
    omega
  case h_8 | h_9 | h_11 =>
    obtain rfl : free = free' := Option.some.inj hfree
    cases h
    exact ⟨hfile, .same rfl (Nat.le_refl _) (Nat.le_refl _) rfl rfl (.inr rfl)⟩
  case h_16 =>
    obtain rfl : free = free' := Option.some.inj hfree
    cases h
    exact ⟨trivial, .same rfl (Nat.le_refl _) (Nat.le_refl _) rfl rfl (.inr rfl)⟩
  case h_17 => cases h

/-- The control is the same for the floor. -/
structure SameFloor (s s' : State) : Prop extends SameSpace s.control s'.control where
  committed : s'.control.committedSinceSpaceCheckBytes = s.control.committedSinceSpaceCheckBytes

theorem finalizeEntry_floor (s : State) (k size : UInt64) (removed : Bool) :
    SameFloor s (finalizeEntry s k size removed) := by
  unfold finalizeEntry
  split
  · exact ⟨⟨rfl, rfl⟩, rfl⟩
  · split
    · exact ⟨⟨rfl, rfl⟩, rfl⟩
    · exact ⟨⟨rfl, rfl⟩, rfl⟩

theorem finalizeEntries_floor (removed : List (SwapKeyEntry × Bool)) : ∀ s : State,
    SameFloor s (removed.foldl (fun s r => finalizeEntry s r.1.keyId r.1.dataSize r.2) s) := by
  induction removed with
  | nil => exact fun s => ⟨⟨rfl, rfl⟩, rfl⟩
  | cons r removed ih =>
    intro s
    have hfirst := finalizeEntry_floor s r.1.keyId r.1.dataSize r.2
    have hrest := ih (finalizeEntry s r.1.keyId r.1.dataSize r.2)
    exact ⟨⟨hrest.available.trans hfirst.available, hrest.enabled.trans hfirst.enabled⟩,
      hrest.committed.trans hfirst.committed⟩

theorem stepSwapIn_floor {request : SwapInRequest} {pc pc' : InPc}
    (h : stepSwapIn s request pc outcome = some (s', pc')) : SameFloor s s' := by
  unfold stepSwapIn at h
  split at h
  case h_1 =>
    have hr := Option.some.inj h
    unfold lookupKeyForSwapIn at hr
    split at hr
    · cases hr; exact ⟨⟨rfl, rfl⟩, rfl⟩
    split at hr
    · cases hr; exact ⟨⟨rfl, rfl⟩, rfl⟩
    · cases hr; exact ⟨⟨rfl, rfl⟩, rfl⟩
  case h_2 =>
    split at h
    · cases h; exact ⟨⟨rfl, rfl⟩, rfl⟩
    split at h
    · cases h; exact ⟨⟨rfl, rfl⟩, rfl⟩
    split at h
    · cases h
    split at h
    · cases h
    · cases h; exact ⟨⟨rfl, rfl⟩, rfl⟩
  case h_4 =>
    split at h
    · cases h
    simp only at h
    split at h
    · cases h
    split at h
    · cases h; exact ⟨⟨rfl, rfl⟩, rfl⟩
    split at h
    · cases h; exact ⟨⟨rfl, rfl⟩, rfl⟩
    · cases h; exact ⟨⟨rfl, rfl⟩, rfl⟩
  case h_6 =>
    have hr := Option.some.inj h
    unfold finishSwapIn at hr
    split at hr
    · cases hr; exact ⟨⟨rfl, rfl⟩, rfl⟩
    simp only at hr
    split at hr
    · cases hr; exact ⟨⟨rfl, rfl⟩, rfl⟩
    · cases hr; exact ⟨⟨rfl, rfl⟩, rfl⟩
  case h_7 =>
    obtain ⟨disk, -, hr⟩ := Option.map_eq_some_iff.mp h
    cases hr; exact ⟨⟨rfl, rfl⟩, rfl⟩
  case h_9 => cases h; exact finalizeEntry_floor s _ _ _
  all_goals first | (cases h; exact ⟨⟨rfl, rfl⟩, rfl⟩) | cases h

theorem stepRemoveData_floor {pc pc' : RemovePc}
    (h : stepRemoveData s pc outcome = some (s', pc')) : SameFloor s s' := by
  unfold stepRemoveData at h
  split at h
  · obtain ⟨disk, -, hr⟩ := Option.map_eq_some_iff.mp h
    cases hr; exact ⟨⟨rfl, rfl⟩, rfl⟩
  · cases h; exact ⟨⟨rfl, rfl⟩, rfl⟩
  · cases h; exact finalizeEntry_floor s _ _ _
  · cases h; exact ⟨⟨rfl, rfl⟩, rfl⟩
  · cases h

theorem stepRemoveAllData_floor {pc pc' : RemoveAllPc}
    (h : stepRemoveAllData s pc outcome = some (s', pc')) : SameFloor s s' := by
  unfold stepRemoveAllData at h
  split at h
  · cases h; exact ⟨⟨rfl, rfl⟩, rfl⟩
  · obtain ⟨disk, -, hr⟩ := Option.map_eq_some_iff.mp h
    cases hr; exact ⟨⟨rfl, rfl⟩, rfl⟩
  · cases h; exact ⟨⟨rfl, rfl⟩, rfl⟩
  · next removed firstError =>
    cases h
    have hfloor := finalizeEntries_floor removed s
    exact ⟨⟨hfloor.available, hfloor.enabled⟩, hfloor.committed⟩
  · cases h; exact ⟨⟨rfl, rfl⟩, rfl⟩
  · cases h

theorem free_le_spaceAfter {d : Disk} (hkey : c.made = none)
    (h : spaceAfter d free outcome c = some free') : free ≤ free' := by
  cases c with
  | swapOut request keyId pc => cases hkey
  | getStats pc => exact Nat.le_of_eq (Option.some.inj h)
  | refused err => exact Nat.le_of_eq (Option.some.inj h)
  | _ =>
    simp only [spaceAfter] at h
    split at h
    · cases h; exact Nat.le_add_right _ _
    · cases h; exact Nat.le_refl _

theorem SameFloor.spaceStep (hfloor : SameFloor s s') (hle : free ≤ free')
    (hmade : c.made = none) (hmade' : c'.made = none) (hgranted : c'.justGranted = false)
    (hlate : c'.mayRefresh = false) (hstart : c.mayRefresh = true ∨ c'.refreshStart = none) :
    TmpOk s'.disk c' ∧ SpaceStep s s' free free' outcome c c' := by
  have hidle : ∀ (d : Disk) {c : Call}, c.made = none →
      TmpOk d c ∧ c.onDisk d = 0 ∧ c.unwritten = 0 := by
    intro d c hmade
    cases c with
    | swapOut request keyId pc => cases hmade
    | _ => exact ⟨trivial, rfl, rfl⟩
  refine ⟨(hidle s'.disk hmade').1, .quiet hfloor.toSameSpace ?_ ?_ hgranted hlate hstart⟩
  · rw [(hidle s.disk hmade).2.1, (hidle s'.disk hmade').2.1, hfloor.committed]
    omega
  · rw [(hidle s.disk hmade).2.2, (hidle s'.disk hmade').2.2]
    omega

theorem stepCall_space (ok : s.disk.Ok) (bounds : ControlInv s.control)
    (hreserved : c.reserved ≤ s.control.pendingOccupiedSize.toNat) (hfile : TmpOk s.disk c)
    (hunlink : ∀ r k err err', c = .swapOut r k (.cleanup err) → outcome = .error err' →
      s.disk.size (.tmp k) = 0)
    (h : stepCall s outcome c = some (s', c'))
    (hfree : spaceAfter s.disk free outcome c = some free') :
    TmpOk s'.disk c' ∧ SpaceStep s s' free free' outcome c c' := by
  cases callStep h with
  | @swapOut request keyId pc pc' hstep =>
    exact stepSwapOut_space ok bounds hreserved hfile
      (fun err err' hpc => hunlink request keyId err err' (hpc ▸ rfl)) hstep hfree
  | swapIn hstep =>
    exact (stepSwapIn_floor hstep).spaceStep (free_le_spaceAfter rfl hfree) rfl rfl rfl rfl (.inr rfl)
  | removeData hstep =>
    exact (stepRemoveData_floor hstep).spaceStep (free_le_spaceAfter rfl hfree) rfl rfl rfl rfl
      (.inr rfl)
  | removeAllData hstep =>
    exact (stepRemoveAllData_floor hstep).spaceStep (free_le_spaceAfter rfl hfree) rfl rfl rfl rfl
      (.inr rfl)
  | getStats hstep =>
    obtain rfl : free = free' := Option.some.inj hfree
    unfold stepGetStats at hstep
    split at hstep
    · obtain ⟨⟨s₂, start⟩, hbegin, hr⟩ := Option.map_eq_some_iff.mp hstep
      obtain ⟨hsame, hcommitted, -⟩ := refreshBegin_space hbegin
      have hfloor : SameFloor s s₂ := ⟨hsame, hcommitted⟩
      cases start <;> cases hr <;>
        exact hfloor.spaceStep (Nat.le_refl _) rfl rfl rfl rfl (.inl rfl)
    · next now start answer =>
      cases hstep
      exact ⟨trivial, .refreshEnd now start answer rfl rfl rfl rfl rfl ⟨rfl, rfl⟩ rfl rfl rfl⟩
    · cases hstep
      exact SameFloor.spaceStep ⟨⟨rfl, rfl⟩, rfl⟩ (Nat.le_refl _) rfl rfl rfl rfl (.inr rfl)
    · cases hstep
      exact SameFloor.spaceStep ⟨⟨rfl, rfl⟩, rfl⟩ (Nat.le_refl _) rfl rfl rfl rfl (.inr rfl)
    · cases hstep

end Steps

/-! ## The writers of a state -/

/-- The files of the writers: a key that was not handed out has none, and what is removed was
committed. -/
structure WritersInv (s : State) : Prop where
  disk : s.disk.Ok
  files : ∀ c ∈ s.calls, TmpOk s.disk c
  fresh : ∀ k, (∀ c ∈ s.calls, c.key ≠ some k) → s.disk.size (.tmp k) = 0
  removers : ∀ c ∈ s.calls, ∀ k ∈ c.removing, ∃ r, Committed s.calls k r

section Writers

variable {s s' : State} {outcome : Outcome} {c c' : Call} {i : Nat}

theorem WritersInv.frame (inv : WritersInv s) (hnodup : (s.calls.filterMap Call.key).Nodup)
    (hc : s.calls[i]? = some c) (hstep : DiskStep s.disk s'.disk c c') {j : Nat} {d : Call}
    (hd : s.calls[j]? = some d) (hij : j ≠ i) :
    TmpOk s'.disk d ∧ d.onDisk s'.disk = d.onDisk s.disk := by
  have hother : ∀ k, d.key = some k → c.key ≠ some k :=
    fun k hdk hck => hij (index_unique hnodup hd hc hdk hck)
  have hmem := List.mem_of_getElem? hd
  refine TmpOk.frame (fun k hk => ?_) (fun k hk hnone => ?_) (inv.files d hmem)
  · rcases hstep.tmp k with hsame | hck
    · exact hsame
    · exact absurd hck (hother k hk)
  · rcases hstep.swap k with hsame | ⟨hck, -⟩ | ⟨hremoving, -⟩
    · exact hsame
    · exact absurd hck (hother k hk)
    · -- a key that is removed is the one of a call that has committed
      obtain ⟨r, e, he, hcommitted⟩ := inv.removers c (List.mem_of_getElem? hc) k hremoving
      obtain ⟨r', hmade⟩ := Call.made_of_key hk
      obtain rfl := made_unique hnodup hmem he hmade (Call.made_of_committed hcommitted)
      rw [hnone] at hcommitted
      cases hcommitted

theorem Effect.removing {entries : List SwapKeyEntry} (effect : Effect s c entries c') {k : UInt64}
    (hk : k ∈ c'.removing) : k ∈ c.removing ∨ (findEntry s k).isSome := by
  cases effect with
  | quiet hreading hremoving => exact .inl (hremoving.mem_iff.mp hk)
  | commit request keyId => cases hk
  | acquire hfind hactive hreading hremoving =>
    rw [hremoving] at hk
    cases hk
  | release hfind hmore => cases hk
  | releaseLast hfind hremoving hlast =>
    obtain rfl := List.mem_singleton.mp hk
    exact .inr (by rw [hfind]; rfl)
  | lost hfind => cases hk
  | finalize removed hkeys hreading hreading' hremoving' =>
    rw [hremoving'] at hk
    cases hk

theorem Provenance.committed_of_entry (prov : Provenance s.entries s.calls) {k : UInt64}
    (h : (findEntry s k).isSome) : ∃ r, Committed s.calls k r := by
  obtain ⟨e, hfind⟩ := Option.isSome_iff_exists.mp h
  obtain ⟨he, rfl⟩ := find_mem hfind
  obtain ⟨d, hd, r, hr, -⟩ := prov.owned e he
  exact ⟨r, d, hd, hr⟩

theorem stepCall_writersInv (inv : WritersInv s) (prov : Provenance s.entries s.calls)
    (hnodup : (s.calls.filterMap Call.key).Nodup) (hc : s.calls[i]? = some c)
    (h : stepCall s outcome c = some (s', c')) (hfile : TmpOk s'.disk c') :
    WritersInv { s' with calls := s.calls.set i c' } := by
  have hmem := List.mem_of_getElem? hc
  have hi : i < s.calls.length := (List.getElem?_eq_some_iff.mp hc).1
  have hdisk := stepCall_disk inv.disk (inv.files c hmem).writer h
  have hmade := (stepCall_frame h).2.1
  have hcommitted : ∀ k, (∃ r, Committed s.calls k r) → ∃ r, Committed (s.calls.set i c') k r :=
    fun k ⟨r, hr⟩ => ⟨r, Committed.move hc h k r hr⟩
  refine ⟨hdisk.ok, ?_, ?_, ?_⟩
  · exact forall_mem_set_of_ne (fun j d hij hd => (inv.frame hnodup hc hdisk hd hij).1) hfile
  · intro k hnone
    have hmine : c.key ≠ some k := by
      have hne := hnone c' (List.mem_set hi c')
      rwa [Call.key, hmade] at hne
    have hold : s.disk.size (.tmp k) = 0 := by
      refine inv.fresh k fun d hd => ?_
      obtain ⟨j, hj⟩ := List.mem_iff_getElem?.mp hd
      by_cases hij : i = j
      · subst hij
        obtain rfl : c = d := Option.some.inj (hc.symm.trans hj)
        exact hmine
      · refine hnone d (List.mem_iff_getElem?.mpr ⟨j, ?_⟩)
        rw [List.getElem?_set_ne hij]
        exact hj
    rcases hdisk.tmp k with hsame | hck
    · exact (Disk.size_congr hsame).trans hold
    · exact absurd hck hmine
  · refine forall_mem_set i (fun d hd k hk => hcommitted k (inv.removers d hd k hk)) fun k hk => ?_
    refine hcommitted k ?_
    rcases (stepCall_effect h).removing hk with hk | hentry
    · exact inv.removers c hmem k hk
    · exact prov.committed_of_entry hentry

/-- A first section reserves and refreshes nothing, and removes entries only. -/
theorem start_call (s : State) (request : Request) :
    ((∃ r, (start s request).2 = .swapOut r s.nextKeyId .refresh) ∨
      (start s request).2.made = none) ∧
    (start s request).2.refreshStart = none ∧
    ∀ k ∈ (start s request).2.removing, (findEntry s k).isSome := by
  cases request with
  | swapOut request =>
    simp only [start, startSwapOut]
    split
    · exact ⟨.inr rfl, rfl, List.forall_mem_nil _⟩
    split
    · exact ⟨.inr rfl, rfl, List.forall_mem_nil _⟩
    split
    · exact ⟨.inr rfl, rfl, List.forall_mem_nil _⟩
    · exact ⟨.inl ⟨request, rfl⟩, rfl, List.forall_mem_nil _⟩
  | swapIn request =>
    simp only [start, startSwapIn]
    split
    · exact ⟨.inr rfl, rfl, List.forall_mem_nil _⟩
    · split
      · exact ⟨.inr rfl, rfl, List.forall_mem_nil _⟩
      · exact ⟨.inr rfl, rfl, List.forall_mem_nil _⟩
  | removeData keyId =>
    simp only [start, startRemoveData]
    split
    · exact ⟨.inr rfl, rfl, List.forall_mem_nil _⟩
    split
    · exact ⟨.inr rfl, rfl, List.forall_mem_nil _⟩
    next entry hfind =>
    split
    · exact ⟨.inr rfl, rfl, List.forall_mem_nil _⟩
    split
    · refine ⟨.inr rfl, rfl, fun k hk => ?_⟩
      obtain rfl := List.mem_singleton.mp hk
      rw [show entry.keyId = keyId from (find_mem hfind).2, hfind]
      rfl
    · exact ⟨.inr rfl, rfl, List.forall_mem_nil _⟩
  | removeAllData =>
    simp only [start, startRemoveAllData]
    split
    · exact ⟨.inr rfl, rfl, List.forall_mem_nil _⟩
    split
    · exact ⟨.inr rfl, rfl, List.forall_mem_nil _⟩
    · refine ⟨.inr rfl, rfl, fun k hk => ?_⟩
      simp only [Call.removing, Call.copies, List.map_nil, List.append_nil, List.map_map,
        List.mem_map] at hk
      obtain ⟨e, he, rfl⟩ := hk
      show (findEntry s e.keyId).isSome
      cases hfind : findEntry s e.keyId with
      | some e' => rfl
      | none => exact absurd rfl (find_none hfind he)
  | getStats => exact ⟨.inr rfl, rfl, List.forall_mem_nil _⟩

theorem start_writersInv (inv : WritersInv s) (prov : Provenance s.entries s.calls)
    (request : Request)
    (hnodup : ((s.calls ++ [(start s request).2]).filterMap Call.key).Nodup) :
    WritersInv { (start s request).1 with calls := s.calls ++ [(start s request).2] } := by
  have hdisk := (start_files s request).1
  obtain ⟨hcall, -, hremoving⟩ := start_call s request
  have hcommitted : ∀ k, (∃ r, Committed s.calls k r) →
      ∃ r, Committed (s.calls ++ [(start s request).2]) k r :=
    fun k ⟨r, d, hd, hr⟩ => ⟨r, d, List.mem_append_left _ hd, hr⟩
  refine ⟨hdisk ▸ inv.disk, ?_, ?_, ?_⟩
  · simp only [hdisk]
    refine forall_mem_append_singleton inv.files ?_
    rcases hcall with ⟨r, hr⟩ | hnone
    · -- a key that was not handed out before
      rw [hr]
      refine inv.fresh s.nextKeyId fun d hd hkey => ?_
      rw [List.filterMap_append, List.nodup_append] at hnodup
      refine hnodup.2.2 s.nextKeyId (List.mem_filterMap.mpr ⟨d, hd, hkey⟩) s.nextKeyId ?_ rfl
      rw [hr]
      exact List.mem_singleton_self _
    · cases hc : (start s request).2 with
      | swapOut r k pc =>
        rw [hc] at hnone
        cases hnone
      | _ => trivial
  · intro k hnone
    simp only [hdisk]
    exact inv.fresh k fun d hd => hnone d (List.mem_append_left _ hd)
  · refine forall_mem_append_singleton (fun d hd k hk => hcommitted k (inv.removers d hd k hk)) ?_
    exact fun k hk => hcommitted k (prov.committed_of_entry (hremoving k hk))

end Writers

/-! ## The room above the floor -/

theorem Control.reserveSwapOut_room {c c' : Control} {size : UInt64} (inv : ControlInv c)
    (henabled : c.featureEnabled = decide (minAvailableDeviceSpaceBytes ≤ c.availableDeviceSpace))
    (h : c.reserveSwapOut size = (.ok (), c')) :
    minAvailableDeviceSpaceBytes.toNat + c.pendingOccupiedSize.toNat +
      c.committedSinceSpaceCheckBytes.toNat + size.toNat ≤ c.availableDeviceSpace.toNat := by
  have hinFlight := inv.inFlight
  unfold Control.reserveSwapOut at h
  split at h
  · cases h
  next hcheck =>
  unfold Control.checkSwapOutAllowedLocked at hcheck
  split at hcheck
  · cases hcheck
  next hon =>
  simp only [henabled, Bool.not_eq_true', decide_eq_false_iff_not, not_not] at hon
  simp only at hcheck
  split at hcheck
  · cases hcheck
  split at hcheck
  · cases hcheck
  next hspace =>
  simp only [not_or, UInt64.not_lt, UInt64.le_iff_toNat_le] at hspace
  obtain ⟨-, hwritable, hroom⟩ := hspace
  have hfloor := UInt64.le_iff_toNat_le.mp hon
  rw [UInt64.toNat_sub_of_le _ _ (UInt64.le_iff_toNat_le.mpr hwritable)] at hroom
  rw [UInt64.toNat_sub_of_le _ _ hon, UInt64.toNat_add, Nat.mod_eq_of_lt hinFlight] at hwritable hroom
  omega

namespace Device

/-- The bytes of the writers. -/
def onDisk (s : Device) : Nat := total (Call.onDisk s.manager.disk) s.manager.calls

def unwritten (s : Device) : Nat := total Call.unwritten s.manager.calls

/-- What may be taken for available. -/
def ceiling (s : Device) : Nat :=
  s.free + s.onDisk + s.manager.control.committedSinceSpaceCheckBytes.toNat

end Device

/-- The space of a device with its manager. -/
structure SpaceInv (s : Device) : Prop where
  enabled : s.manager.control.featureEnabled =
    decide (minAvailableDeviceSpaceBytes ≤ s.manager.control.availableDeviceSpace)
  available : s.manager.control.availableDeviceSpace.toNat ≤ s.ceiling
  answered : ∀ i v, s.answers i = some v → ∃ c, s.manager.calls[i]? = some c ∧
    c.mayRefresh = false ∧ ∀ start, c.refreshStart = some start → v.toNat + start.toNat ≤ s.ceiling
  floor : s.granted = true → minAvailableDeviceSpaceBytes.toNat + s.unwritten ≤ s.free

section Space

variable {s : Device} {s' : State} {outcome : Outcome} {c c' : Call} {i : Nat} {free' : Nat}

/-- The device after a step of a call. -/
def Device.move (s : Device) (s' : State) (i : Nat) (c' : Call) (free' : Nat) : Device :=
  { s with
    manager := { s' with calls := s.manager.calls.set i c' }
    free := free'
    granted := s.granted || c'.justGranted }

theorem SpaceInv.answered_move (inv : SpaceInv s) (hc : s.manager.calls[i]? = some c)
    (hlate : c'.mayRefresh = false)
    (hstart : c.mayRefresh = true ∨ c'.refreshStart = none)
    (hle : ∀ j d start, j ≠ i → s.manager.calls[j]? = some d → d.refreshStart = some start →
      s.ceiling ≤ (s.move s' i c' free').ceiling) :
    ∀ j v, s.answers j = some v → ∃ d, (s.manager.calls.set i c')[j]? = some d ∧
      d.mayRefresh = false ∧ ∀ start, d.refreshStart = some start →
        v.toNat + start.toNat ≤ (s.move s' i c' free').ceiling := by
  intro j v hv
  obtain ⟨d, hd, hdlate, hbound⟩ := inv.answered j v hv
  have hi : i < s.manager.calls.length := (List.getElem?_eq_some_iff.mp hc).1
  by_cases hij : i = j
  · subst hij
    obtain rfl : c = d := Option.some.inj (hc.symm.trans hd)
    refine ⟨c', by rw [List.getElem?_set_self hi], hlate, fun start hs => ?_⟩
    rcases hstart with hmay | hnone
    · rw [hdlate] at hmay
      cases hmay
    · rw [hnone] at hs
      cases hs
  · refine ⟨d, by rw [List.getElem?_set_ne hij]; exact hd, hdlate, fun start hs => ?_⟩
    exact Nat.le_trans (hbound start hs) (hle j d start (Ne.symm hij) hd hs)

/-- A step of a call keeps the room above the floor. -/
theorem SpaceStep.spaceInv (hstep : SpaceStep s.manager s' s.free free' outcome c c')
    (inv : SpaceInv s) (ledger : Ledger s.manager.entries s.manager.control s.manager.calls)
    (hfiles : ∀ d ∈ s.manager.calls, TmpOk s.manager.disk d)
    (hothers : ∀ j d, j ≠ i → s.manager.calls[j]? = some d →
      d.onDisk s'.disk = d.onDisk s.manager.disk)
    (hc : s.manager.calls[i]? = some c) (hanswered : s.answered i outcome = true) :
    SpaceInv (s.move s' i c' free') := by
  have honDisk := total_set_congr c' hc hothers
  have hunwritten := total_set Call.unwritten c' hc
  have hceiling : (s.move s' i c' free').ceiling = free' +
      total (Call.onDisk s'.disk) (s.manager.calls.set i c') +
      s'.control.committedSinceSpaceCheckBytes.toNat := rfl
  have hceiling₀ : s.ceiling = s.free + total (Call.onDisk s.manager.disk) s.manager.calls +
      s.manager.control.committedSinceSpaceCheckBytes.toNat := rfl
  have hfloor₀ : s.granted = true → minAvailableDeviceSpaceBytes.toNat +
      total Call.unwritten s.manager.calls ≤ s.free := inv.floor
  have havailable₀ := inv.available
  cases hstep with
  | quiet hsame hspace hmine hgranted hlate hstart =>
    have hle : s.ceiling ≤ (s.move s' i c' free').ceiling := by omega
    refine ⟨?_, ?_, inv.answered_move hc hlate hstart fun _ _ _ _ _ _ => hle, fun hg => ?_⟩
    · show s'.control.featureEnabled = decide (_ ≤ s'.control.availableDeviceSpace)
      rw [hsame.enabled, hsame.available]
      exact inv.enabled
    · show s'.control.availableDeviceSpace.toNat ≤ _
      rw [hsame.available]
      omega
    · have hwas : s.granted = true := by simpa [Device.move, hgranted] using hg
      have hfloor := hfloor₀ hwas
      show minAvailableDeviceSpaceBytes.toNat +
        total Call.unwritten (s.manager.calls.set i c') ≤ free'
      omega
  | grant r k control hreserve hs hfree hcall hcall' =>
    subst hs hfree hcall hcall'
    have hcontrol := (Control.reserveSwapOut_ok ledger.bounds hreserve).1
    have hroom := Control.reserveSwapOut_room ledger.bounds inv.enabled hreserve
    -- what is written or not is reserved
    have hheld : total (Call.onDisk s.manager.disk) s.manager.calls +
        total Call.unwritten s.manager.calls ≤ total Call.reserved s.manager.calls := by
      rw [← total_add]
      exact total_le_total fun d hd => (hfiles d hd).held
    have hpending := ledger.pending
    have hsize := r.toNat_bufferSize
    subst hcontrol
    simp only [Call.onDisk, Call.unwritten] at honDisk hunwritten
    simp only at hceiling
    refine ⟨inv.enabled, ?_, inv.answered_move hc rfl (.inr rfl) fun _ _ _ _ _ _ => ?_, fun _ => ?_⟩
    · show s.manager.control.availableDeviceSpace.toNat ≤ _
      omega
    · omega
    · show minAvailableDeviceSpaceBytes.toNat +
        total Call.unwritten (s.manager.calls.set i (.swapOut r k .openTmp)) ≤ s.free
      omega
  | refreshEnd now start answer houtcome hs hfree hrefresh hrefresh' hzero hnone hgranted hlate =>
    subst hs hfree
    -- nobody else refreshes
    have halone : ∀ j d start', j ≠ i → s.manager.calls[j]? = some d → d.refreshStart = some start' →
        False := by
      intro j d start' hij hd hd'
      have htwo := add_le_total Call.refreshers hij hd hc
      rw [ledger.refreshing, Call.refreshers, Call.refreshers, hd', hrefresh] at htwo
      simp only [Option.isSome_some, if_true] at htwo
      split at htwo <;> omega
    have hfloor : (s.move (Swapfs.refreshEnd s.manager now start answer) i c' s.free).granted = true →
        minAvailableDeviceSpaceBytes.toNat +
          total Call.unwritten (s.manager.calls.set i c') ≤ s.free := by
      intro hg
      have hwas : s.granted = true := by simpa [Device.move, hgranted] using hg
      have hfloor := hfloor₀ hwas
      omega
    have hsame : total (Call.onDisk s.manager.disk) (s.manager.calls.set i c') =
        total (Call.onDisk s.manager.disk) s.manager.calls := by
      have hsum : total (Call.onDisk s.manager.disk) (s.manager.calls.set i c') +
        c.onDisk s.manager.disk = _ := honDisk
      have hzero' : c'.onDisk (Swapfs.refreshEnd s.manager now start answer).disk = 0 := hzero.2
      omega
    refine ⟨rfl, ?_, inv.answered_move hc hlate (.inr hrefresh')
      (fun j d start' hij hd hd' => (halone j d start' hij hd hd').elim), hfloor⟩
    rw [hceiling]
    show _ ≤ s.free + total (Call.onDisk s.manager.disk) (s.manager.calls.set i c') + _
    rw [hsame]
    cases answer with
    | none =>
      show s.manager.control.availableDeviceSpace.toNat ≤ _ +
        s.manager.control.committedSinceSpaceCheckBytes.toNat
      omega
    | some v =>
      subst houtcome
      have hv : s.answers i = some v := by simpa [Device.answered] using hanswered
      obtain ⟨d, hd, -, hbound⟩ := inv.answered i v hv
      obtain rfl : c = d := Option.some.inj (hc.symm.trans hd)
      have hle := hbound start hrefresh
      have hstarted := ledger.started c (List.mem_of_getElem? hc) start hrefresh
      show v.toNat ≤ _ +
        (clampedSub s.manager.control.committedSinceSpaceCheckBytes start).toNat
      rw [toNat_clampedSub hstarted]
      omega

end Space

/-! ## Every run -/

/-- The unlinking of a temporary file that is there succeeds. -/
def Device.UnlinkSucceeds (s : Device) : DeviceAction → Prop
  | .act (.go i (.error _)) => ∀ r k err, s.manager.calls[i]? = some (.swapOut r k (.cleanup err)) →
      s.manager.disk.names (.tmp k) = none
  | _ => True

/-- Once a reservation was granted, the free space is at the floor or above it. -/
def DeviceFloor (s : Device) : Prop :=
  s.granted = true → minAvailableDeviceSpaceBytes.toNat ≤ s.free

/-- What a step can be. -/
theorem Device.step_cases {s t : Device} {a : DeviceAction} (h : s.step a = some t) :
    (∃ request, a = .act (.start request) ∧ t = { s with
      manager := { (start s.manager request).1 with
        calls := s.manager.calls ++ [(start s.manager request).2] } }) ∨
    (∃ i outcome c s' c' free', a = .act (.go i outcome) ∧ s.manager.calls[i]? = some c ∧
      s.answered i outcome = true ∧ stepCall s.manager outcome c = some (s', c') ∧
      spaceAfter s.manager.disk s.free outcome c = some free' ∧ t = s.move s' i c' free') ∨
    (∃ i v c, a = .answer i v ∧ s.manager.calls[i]? = some c ∧ c.refreshing = true ∧
      v.toNat = s.free ∧ t = { s with answers := Function.update s.answers i (some v) }) := by
  cases a with
  | act action =>
    cases action with
    | start request =>
      left
      simp only [Device.step] at h
      obtain ⟨manager, hstep, rfl⟩ := Option.map_eq_some_iff.mp h
      refine ⟨request, rfl, ?_⟩
      rcases Swapfs.step_cases hstep with ⟨request', heq, rfl⟩ | ⟨i, outcome, c, s', c', heq, -⟩
      · cases heq
        rfl
      · cases heq
    | go i outcome =>
      right; left
      simp only [Device.step] at h
      split at h
      · cases h
      next c hc =>
      split at h
      next hanswered =>
        obtain ⟨manager, hstep, hmap⟩ := Option.bind_eq_some_iff.mp h
        obtain ⟨free', hfree, rfl⟩ := Option.map_eq_some_iff.mp hmap
        rcases Swapfs.step_cases hstep with ⟨request, heq, -⟩ |
          ⟨j, outcome', d, s', c', heq, hd, hcall, rfl⟩
        · cases heq
        · cases heq
          obtain rfl : c = d := Option.some.inj (hc.symm.trans hd)
          refine ⟨i, outcome, c, s', c', free', rfl, hc, hanswered, hcall, hfree, ?_⟩
          have hi : i < s.manager.calls.length := (List.getElem?_eq_some_iff.mp hc).1
          simp only [Device.move, List.getElem?_set_self hi, Option.map_some, Option.getD_some]
      · cases h
  | answer i v =>
    right; right
    simp only [Device.step] at h
    split at h
    next hasked =>
      obtain ⟨hrefreshing, hv⟩ := hasked
      cases h
      cases hc : s.manager.calls[i]? with
      | none => simp [hc] at hrefreshing
      | some c => exact ⟨i, v, c, rfl, hc, by simpa [hc] using hrefreshing, hv, rfl⟩
    · cases h

/-- The invariants of a run; the space is accounted for while the keys are different. -/
structure DeviceInv (limit : UInt64) (s : Device) : Prop where
  quota : QuotaInv limit s.manager
  writers : s.manager.issued ≤ 2 ^ 64 → WritersInv s.manager
  space : s.manager.issued ≤ 2 ^ 64 → SpaceInv s

theorem init_writersInv (useDirectIo : Bool) (control : Control) :
    WritersInv (Swapfs.init useDirectIo control) :=
  ⟨⟨nofun, nofun⟩, nofun, fun _ _ => rfl, nofun⟩

theorem init_deviceInv (useDirectIo : Bool) (free : UInt64) (asked : Bool) (limit : UInt64)
    (intervalMs : UInt32) (now : Int) : DeviceInv (configuredLimit limit)
      (Device.init useDirectIo free asked limit intervalMs now) := by
  refine ⟨init_quotaInv _ _ _ _ _, fun _ => init_writersInv useDirectIo _,
    fun _ => ⟨rfl, ?_, nofun, nofun⟩⟩
  show (if asked then free else 0).toNat ≤ free.toNat + 0 + 0
  split
  · exact Nat.le_refl _
  · exact Nat.zero_le _

theorem SpaceInv.start {s : Device} (inv : SpaceInv s) (request : Request) :
    SpaceInv { s with manager := { (Swapfs.start s.manager request).1 with
      calls := s.manager.calls ++ [(Swapfs.start s.manager request).2] } } := by
  have hcontrol := (start_frame s.manager request).2.1
  have hdisk := (start_files s.manager request).1
  obtain ⟨hcall, -, -⟩ := start_call s.manager request
  have hidle : ∀ d, (Swapfs.start s.manager request).2.onDisk d = 0 ∧
      (Swapfs.start s.manager request).2.unwritten = 0 := by
    intro d
    rcases hcall with ⟨r, hr⟩ | hnone
    · rw [hr]
      exact ⟨rfl, rfl⟩
    · cases hc : (Swapfs.start s.manager request).2 with
      | swapOut r k pc =>
        rw [hc] at hnone
        cases hnone
      | _ => exact ⟨rfl, rfl⟩
  have hceiling : Device.ceiling { s with manager := { (Swapfs.start s.manager request).1 with
      calls := s.manager.calls ++ [(Swapfs.start s.manager request).2] } } = s.ceiling := by
    simp only [Device.ceiling, Device.onDisk, hcontrol, hdisk, total_append, total_cons, total_nil,
      (hidle _).1, Nat.add_zero]
  refine ⟨?_, ?_, ?_, ?_⟩
  · rw [hcontrol]
    exact inv.enabled
  · rw [hceiling, hcontrol]
    exact inv.available
  · intro i v hv
    obtain ⟨c, hc, hlate, hbound⟩ := inv.answered i v hv
    refine ⟨c, ?_, hlate, ?_⟩
    · exact (List.getElem?_append_left (List.getElem?_eq_some_iff.mp hc).1).trans hc
    · rw [hceiling]
      exact hbound
  · intro hg
    have hfloor := inv.floor hg
    simp only [Device.unwritten, total_append, total_cons, total_nil, (hidle s.manager.disk).2,
      Nat.add_zero] at hfloor ⊢
    exact hfloor

theorem SpaceInv.answer {s : Device} (inv : SpaceInv s)
    (ledger : Ledger s.manager.entries s.manager.control s.manager.calls) {i : Nat} {v : UInt64}
    {c : Call} (hc : s.manager.calls[i]? = some c) (hrefreshing : c.refreshing = true)
    (hv : v.toNat = s.free) :
    SpaceInv { s with answers := Function.update s.answers i (some v) } := by
  refine ⟨inv.enabled, inv.available, fun j w hw => ?_, inv.floor⟩
  by_cases hij : j = i
  · subst hij
    obtain rfl : v = w := by simpa using hw
    refine ⟨c, hc, ?_, fun start hstart => ?_⟩
    · unfold Call.refreshing at hrefreshing
      split at hrefreshing
      · rfl
      · rfl
      · cases hrefreshing
    · have hle := ledger.started c (List.mem_of_getElem? hc) start hstart
      show v.toNat + start.toNat ≤ s.free + s.onDisk +
        s.manager.control.committedSinceSpaceCheckBytes.toNat
      omega
  · simp only [Function.update_of_ne hij] at hw
    exact inv.answered j w hw

theorem step_deviceInv {limit : UInt64} (s : Device) (a : DeviceAction) (t : Device)
    (inv : DeviceInv limit s) (hunlink : s.UnlinkSucceeds a) (h : s.step a = some t) :
    DeviceInv limit t := by
  rcases Device.step_cases h with ⟨request, rfl, rfl⟩ |
    ⟨i, outcome, c, s', c', free', rfl, hc, hanswered, hstep, hfree, rfl⟩ |
    ⟨i, v, c, rfl, hc, hrefreshing, hv, rfl⟩
  · have hmanager : step s.manager (.start request) = some { (start s.manager request).1 with
        calls := s.manager.calls ++ [(start s.manager request).2] } := by
      rw [← (start_frame s.manager request).1]
      rfl
    have hquota := step_quotaInv _ _ _ inv.quota trivial hmanager
    have hmono := (step_keysInv inv.quota.keys hmanager).2
    refine ⟨hquota, fun hfew => ?_, fun hfew => ?_⟩
    · have hfew' := Nat.le_trans hmono hfew
      exact start_writersInv (inv.writers hfew') (inv.quota.accounts hfew').1 request
        (hquota.keys.nodup hfew)
    · exact (inv.space (Nat.le_trans hmono hfew)).start request
  · have hmanager : step s.manager (.go i outcome) =
        some { s' with calls := s.manager.calls.set i c' } := by
      simp only [step, hc, hstep, Option.map_some, (stepCall_frame hstep).1.calls]
    have hmono := (step_keysInv inv.quota.keys hmanager).2
    -- the file and the space of the call that moves
    have hmine : s.manager.issued ≤ 2 ^ 64 →
        TmpOk s'.disk c' ∧ SpaceStep s.manager s' s.free free' outcome c c' := by
      intro hfew
      obtain ⟨-, ledger⟩ := inv.quota.accounts hfew
      have hwriters := inv.writers hfew
      refine stepCall_space hwriters.disk ledger.bounds ?_
        (hwriters.files c (List.mem_of_getElem? hc)) ?_ hstep hfree
      · rw [ledger.pending]
        exact le_total Call.reserved hc
      · rintro r k err err' rfl rfl
        have hnone := hunlink r k err hc
        simp [Disk.size, Disk.lookup, hnone]
    refine ⟨step_quotaInv _ _ _ inv.quota trivial hmanager, fun hfew => ?_, fun hfew => ?_⟩
    · have hfew' := Nat.le_trans hmono hfew
      exact stepCall_writersInv (inv.writers hfew') (inv.quota.accounts hfew').1
        (inv.quota.keys.nodup hfew') hc hstep (hmine hfew').1
    · have hfew' := Nat.le_trans hmono hfew
      have hwriters := inv.writers hfew'
      have hnodup := inv.quota.keys.nodup hfew'
      have hdisk := stepCall_disk hwriters.disk
        (hwriters.files c (List.mem_of_getElem? hc)).writer hstep
      exact (hmine hfew').2.spaceInv (inv.space hfew') (inv.quota.accounts hfew').2 hwriters.files
        (fun j d hij hd => (hwriters.frame hnodup hc hdisk hd hij).2) hc hanswered
  · exact ⟨inv.quota, inv.writers,
      fun hfew => (inv.space hfew).answer (inv.quota.accounts hfew).2 hc hrefreshing hv⟩

/-- In every run in which temporary files can be unlinked and no key is handed out twice, the free
space stays at the floor or above it from the first granted reservation on. -/
theorem deviceFloor_of_run {useDirectIo asked : Bool} {free limit : UInt64} {intervalMs : UInt32}
    {now : Int} {as : List DeviceAction} {s : Device}
    (hrun : run Device.step (Device.init useDirectIo free asked limit intervalMs now) as = some s)
    (hunlink : StepsOk Device.step Device.UnlinkSucceeds
      (Device.init useDirectIo free asked limit intervalMs now) as)
    (hfew : s.manager.issued ≤ 2 ^ 64) : DeviceFloor s := by
  have inv := run_invariant step_deviceInv
    (init_deviceInv useDirectIo free asked limit intervalMs now) hunlink hrun
  intro hg
  have hfloor := (inv.space hfew).floor hg
  omega

/-- A `SwapOut` that refreshes and writes a byte. -/
def refreshedSteps : List DeviceAction :=
  [.act (.start (.swapOut oneByte)), .act (.go 0 (.time 1000)), .answer 0 6442450944,
    .act (.go 0 (.space (some 6442450944))), .act (.go 0 .ok), .act (.go 0 .ok),
    .act (.go 0 (.bytes 1)), .act (.go 0 .ok)]

def sixGiB : Device := Device.init false 6442450944 true 8 1000 0

/-- The device behind it. -/
def oneWritten : Device :=
  { sixGiB with
    manager := { sixGiB.manager with
      control := { sixGiB.manager.control with lastSpaceCheckTime := 1000, pendingOccupiedSize := 1 }
      nextKeyId := 2
      activeOps := 1
      disk := ⟨Function.update (fun _ => none) (.tmp 1) (some 0), [[7]]⟩
      calls := [.swapOut oneByte 1 .rename] }
    free := 6442450943
    answers := Function.update (fun _ => none) 0 (some 6442450944)
    granted := true }

theorem run_oneWritten : run Device.step sixGiB refreshedSteps = some oneWritten := rfl

theorem deviceFloor_of_run_oneWritten :
    run Device.step sixGiB refreshedSteps = some oneWritten ∧ DeviceFloor oneWritten := by
  refine ⟨run_oneWritten, deviceFloor_of_run run_oneWritten (stepsOk_of_forall ?_ _) (by decide)⟩
  simp [refreshedSteps, Device.UnlinkSucceeds]

/-! ### Coming round -/

/-- The steps of the last call `c`, behind the calls `l`. -/
def Device.stepsLast (l : List Call) : Device → Call → List Outcome → Option Device
  | s, c, [] => some { s with manager := { s.manager with calls := l ++ [c] } }
  | s, c, outcome :: outcomes =>
      if s.answered l.length outcome then
        (stepCall { s.manager with calls := l ++ [c] } outcome c).bind fun r =>
          (spaceAfter s.manager.disk s.free outcome c).bind fun free =>
            Device.stepsLast l
              { s with manager := r.1, free, granted := s.granted || r.2.justGranted } r.2 outcomes
      else none

theorem Device.run_go_last (l : List Call) (outcomes : List Outcome) : ∀ (s : Device) (c : Call),
    run Device.step { s with manager := { s.manager with calls := l ++ [c] } }
      (outcomes.map fun outcome => .act (.go l.length outcome)) = s.stepsLast l c outcomes := by
  induction outcomes with
  | nil => exact fun s c => rfl
  | cons outcome outcomes ih =>
    intro s c
    simp only [List.map_cons, run, Device.step, Swapfs.step, List.getElem?_concat_length,
      Device.stepsLast]
    have hsame : Device.answered { s with manager := { s.manager with calls := l ++ [c] } }
        l.length outcome = s.answered l.length outcome := by
      cases outcome with
      | space answer => cases answer <;> rfl
      | _ => rfl
    rw [hsame]
    by_cases hanswered : s.answered l.length outcome = true
    · rw [if_pos hanswered, if_pos hanswered]
      cases hstep : stepCall { s.manager with calls := l ++ [c] } outcome c with
      | none => rfl
      | some r =>
        have hcalls := (stepCall_frame hstep).1.calls
        have hset : (l ++ [c]).set l.length r.2 = l ++ [r.2] := by simp
        simp only [Option.map_some, Option.bind_some, hcalls, hset, List.getElem?_concat_length,
          Option.getD_some]
        cases spaceAfter s.manager.disk s.free outcome c with
        | none => rfl
        | some free => exact ih { s with
            manager := r.1, free := free, granted := s.granted || r.2.justGranted } r.2
    · rw [if_neg hanswered, if_neg hanswered]
      rfl

/-- A call alone, on the device. -/
def Device.alone (i : Nat) (request : Request) (outcomes : List Outcome) : List DeviceAction :=
  .act (.start request) :: outcomes.map fun outcome => .act (.go i outcome)

theorem Device.run_alone (s : Device) (request : Request) (outcomes : List Outcome) :
    run Device.step s (Device.alone s.manager.calls.length request outcomes) =
      Device.stepsLast s.manager.calls
        { s with manager := (Swapfs.start s.manager request).1 } (Swapfs.start s.manager request).2
        outcomes := by
  simp only [Device.alone, run, Device.step, Swapfs.step, (start_frame s.manager request).1,
    Option.map_some, Option.bind_some]
  exact Device.run_go_last s.manager.calls outcomes
    { s with manager := (Swapfs.start s.manager request).1 } _

theorem Device.run_refused {s : Device} {request : SwapOutRequest} {err : SwapfsErr}
    (hstart : start s.manager (.swapOut request) =
      ({ s.manager with
          activeOps := s.manager.activeOps + 1, nextKeyId := s.manager.nextKeyId + 1 },
        .swapOut request s.manager.nextKeyId .refresh))
    (hrefreshing : s.manager.control.refreshing = false)
    (hrefresh : s.manager.control.refreshBegin 0 = none)
    (hreserve : s.manager.control.reserveSwapOut request.bufferSize =
      (.error err, s.manager.control)) :
    run Device.step s (Device.alone s.manager.calls.length (.swapOut request) [.time 0, .ok, .ok]) =
      some { s with manager := { s.manager with
        activeOps := s.manager.activeOps + 1 - 1
        nextKeyId := s.manager.nextKeyId + 1
        calls := s.manager.calls ++
          [.swapOut request s.manager.nextKeyId (.done (.error err))] } } := by
  rw [Device.run_alone, hstart]
  simp only [Device.stepsLast, stepCall, stepSwapOut, refreshBegin, hrefreshing, hrefresh, hreserve,
    Device.answered, spaceAfter, endOperation, Call.justGranted, Option.map_some, Option.bind_some,
    Bool.or_false, Bool.false_eq_true, if_true, if_false]

def threeBytes : SwapOutRequest := ⟨[8, 9, 10], 0, by decide⟩

/-- More than the limit. -/
def nineBytes : SwapOutRequest := ⟨[1, 2, 3, 4, 5, 6, 7, 8, 9], 0, by decide⟩

/-- Four bytes above the floor. -/
def fourAbove : Device := Device.init false 5368709124 true 8 1000 0

/-- The control with a byte pending. -/
def pendingByte : Control :=
  { Control.initWithAvailableSpace 5368709124 8 1000 0 with pendingOccupiedSize := 1 }

/-- A first call has written its byte and is about to rename its file. -/
def aboutToRename (nextKeyId : UInt64) (l : List Call) : Device where
  manager :=
    { init false pendingByte with
      nextKeyId
      activeOps := 1
      disk := ⟨Function.update (fun _ => none) (.tmp 1) (some 0), [[7]]⟩
      calls := .swapOut oneByte 1 .rename :: l }
  free := 5368709123
  granted := true

theorem run_aboutToRename : run Device.step fourAbove
    (Device.alone 0 (.swapOut oneByte) [.time 0, .ok, .ok, .bytes 1, .ok]) =
      some (aboutToRename 2 []) := rfl

theorem reserve_nineBytes :
    pendingByte.reserveSwapOut nineBytes.bufferSize = (.error .quotaExceeded, pendingByte) := rfl

theorem refreshBegin_pendingByte : pendingByte.refreshBegin 0 = none := rfl

theorem start_nineBytes (k : UInt64) (l : List Call) :
    start (aboutToRename k l).manager (.swapOut nineBytes) =
      ({ (aboutToRename k l).manager with activeOps := 2, nextKeyId := k + 1 },
        .swapOut nineBytes k .refresh) := by
  simp [start, startSwapOut, aboutToRename, init, nineBytes, SwapOutRequest.bufferSize]

theorem run_refused_aboutToRename (k : UInt64) (l : List Call) :
    run Device.step (aboutToRename k l)
      (Device.alone (l.length + 1) (.swapOut nineBytes) [.time 0, .ok, .ok]) =
    some (aboutToRename (k + 1)
      (l ++ [Call.swapOut nineBytes k (.done (.error .quotaExceeded))])) := by
  refine (Device.run_refused (start_nineBytes k l) rfl refreshBegin_pendingByte
    reserve_nineBytes).trans ?_
  dsimp only [aboutToRename]
  rfl

/-- Nothing fails in the action. -/
def DeviceAction.quiet : DeviceAction → Bool
  | .act (.go _ (.error _)) => false
  | _ => true

theorem stepsOk_of_quiet {as : List DeviceAction} (h : as.all DeviceAction.quiet = true)
    (s : Device) : StepsOk Device.step Device.UnlinkSucceeds s as := by
  refine stepsOk_of_forall (fun a ha t => ?_) s
  have hquiet := List.all_eq_true.mp h a ha
  unfold Device.UnlinkSucceeds
  split
  · cases hquiet
  · trivial

theorem run_refused_times (n : Nat) : ∀ (k : UInt64) (l : List Call),
    ∃ as l', run Device.step (aboutToRename k l) as =
      some (aboutToRename (k + UInt64.ofNat n) l') ∧ as.all DeviceAction.quiet = true := by
  induction n with
  | zero =>
    intro k l
    refine ⟨[], l, ?_, rfl⟩
    rw [show UInt64.ofNat 0 = 0 from rfl, UInt64.add_zero]
    rfl
  | succ n ih =>
    intro k l
    obtain ⟨as, l', hrest, hquiet⟩ := ih (k + 1)
      (l ++ [Call.swapOut nineBytes k (.done (.error .quotaExceeded))])
    refine ⟨Device.alone (l.length + 1) (.swapOut nineBytes) [.time 0, .ok, .ok] ++ as, l', ?_, ?_⟩
    · rw [run_append, run_refused_aboutToRename, Option.bind_some, hrest]
      rw [UInt64.ofNat_add, UInt64.add_assoc, UInt64.add_comm 1, UInt64.ofNat_one]
    · rw [List.all_append, hquiet]
      rfl

/-- A second call with the same key has opened the same file. -/
def opened (l : List Call) : Device where
  manager :=
    { init false { pendingByte with pendingOccupiedSize := 4 } with
      nextKeyId := 2
      activeOps := 2
      disk := ⟨Function.update (fun _ => none) (.tmp 1) (some 0), [[]]⟩
      calls := .swapOut oneByte 1 .rename :: (l ++ [.swapOut threeBytes 1 (.write 0 0)]) }
  free := 5368709124
  granted := true

theorem reserve_threeBytes : pendingByte.reserveSwapOut threeBytes.bufferSize =
    (.ok (), { pendingByte with pendingOccupiedSize := 4 }) := rfl

theorem start_threeBytes (s : State) (hdirect : s.useDirectIo = false)
    (hremove : s.removeAllInProgress = false) : start s (.swapOut threeBytes) =
      ({ s with activeOps := s.activeOps + 1, nextKeyId := s.nextKeyId + 1 },
        .swapOut threeBytes s.nextKeyId .refresh) := by
  simp [start, startSwapOut, hdirect, hremove, threeBytes, SwapOutRequest.bufferSize]

theorem run_opened (l : List Call) : run Device.step (aboutToRename 1 l)
    (Device.alone (l.length + 1) (.swapOut threeBytes) [.time 0, .ok, .ok]) = some (opened l) := by
  refine (Device.run_alone (aboutToRename 1 l) (.swapOut threeBytes) _).trans ?_
  rw [start_threeBytes _ rfl rfl]
  simp only [Device.stepsLast, stepCall, stepSwapOut, refreshBegin, refreshBegin_pendingByte,
    reserve_threeBytes, Device.answered, spaceAfter, Call.justGranted, aboutToRename, init,
    show pendingByte.refreshing = false from rfl, Option.map_some, Option.bind_some, if_true,
    Bool.false_eq_true, if_false]
  rfl

/-- A byte was committed, and nothing is pending. -/
def committedByte : Control :=
  { pendingByte with
    totalKeys := 1
    totalDataSize := 1
    totalOccupiedSize := 1
    pendingOccupiedSize := 0
    committedSinceSpaceCheckBytes := 1
    accumulatedWriteBytes := 1 }

/-- The first call has renamed the file of both and has committed its byte. -/
def threePending : Control := { committedByte with pendingOccupiedSize := 3 }

/-- The second call goes on to write to it. -/
def renamed (l : List Call) (content : List UInt8) (free : Nat) (pc : OutPc) : Device where
  manager :=
    { init false threePending with
      entries := [{ keyId := 1, dataSize := 1 }]
      nextKeyId := 2
      activeOps := 1
      disk := ⟨Function.update (Function.update (Function.update (fun _ => none) (.tmp 1) (some 0))
        (.swap 1) (some 0)) (.tmp 1) none, [content]⟩
      calls := .swapOut oneByte 1 (.done (.ok 1)) :: l ++ [.swapOut threeBytes 1 pc] }
  free
  granted := true

theorem run_renamed (l : List Call) : run Device.step (opened l)
    [.act (.go 0 .ok), .act (.go 0 .ok), .act (.go 0 .ok)] =
      some (renamed l [] 5368709124 (.write 0 0)) := by
  have hrename : (opened l).manager.disk.rename (.tmp 1) (.swap 1) =
    some (renamed l [] 5368709124 (.write 0 0)).manager.disk := rfl
  simp only [opened, init] at hrename
  simp only [run, Device.step, step, stepCall, stepSwapOut, opened, init, Device.answered,
    spaceAfter, commitSwapOutEntry, endOperation, hrename, List.getElem?_cons_zero,
    List.set_cons_zero, Option.map_some, Option.bind_some, if_true]
  rfl

theorem run_cut (l : List Call) : run Device.step (renamed l [] 5368709124 (.write 0 0))
    [.act (.go (l.length + 1) (.bytes 2)), .act (.go (l.length + 1) (.bytes 0))] =
      some (renamed l [8, 9] 5368709122 (.cleanup .ioError)) :=
  (Device.run_go_last (.swapOut oneByte 1 (.done (.ok 1)) :: l) [.bytes 2, .bytes 0]
    (renamed l [] 5368709124 (.write 0 0)) _).trans rfl

/-- The second call gives its reservation back; its bytes stay in the file. -/
def givenBack (l : List Call) : Device :=
  { renamed l [8, 9] 5368709122 (.done (.error .ioError)) with
    manager := { (renamed l [8, 9] 5368709122 (.done (.error .ioError))).manager with
      control := committedByte
      activeOps := 0 } }

theorem run_givenBack (l : List Call) : run Device.step
    (renamed l [8, 9] 5368709122 (.cleanup .ioError))
    [.act (.go (l.length + 1) (.error .ioError)), .act (.go (l.length + 1) .ok),
      .act (.go (l.length + 1) .ok)] = some (givenBack l) := by
  refine (Device.run_go_last (.swapOut oneByte 1 (.done (.ok 1)) :: l) [.error .ioError, .ok, .ok]
    (renamed l [8, 9] 5368709122 (.cleanup .ioError)) _).trans ?_
  simp only [Device.stepsLast, stepCall, stepSwapOut, renamed, Device.answered, spaceAfter,
    endOperation, Option.map_some, Option.bind_some, if_true]
  rfl

theorem reserve_committedByte : committedByte.reserveSwapOut threeBytes.bufferSize =
    (.ok (), threePending) := rfl

theorem refreshBegin_committedByte : committedByte.refreshBegin 0 = none := rfl

theorem run_below (l : List Call) : ∃ s, run Device.step (givenBack l)
    (Device.alone (l.length + 2) (.swapOut threeBytes) [.time 0, .ok, .ok, .bytes 3]) = some s ∧
      s.free = 5368709119 ∧ s.granted = true := by
  have hlength : (givenBack l).manager.calls.length = l.length + 2 := by
    simp [givenBack, renamed]
  rw [← hlength, Device.run_alone, start_threeBytes _ rfl rfl]
  simp only [Device.stepsLast, stepCall, stepSwapOut, refreshBegin, refreshBegin_committedByte,
    reserve_committedByte, show committedByte.refreshing = false from rfl, Device.answered,
    spaceAfter, Call.justGranted, givenBack, renamed, Option.map_some, Option.bind_some, if_true,
    Bool.false_eq_true, if_false]
  exact ⟨_, rfl, rfl, rfl⟩

/-- The key of a `SwapOut` that is not done is handed out again: two calls write to one file, and
more of it stays than was accounted for. -/
theorem sameFile_not_deviceFloor :
    ∃ as s, run Device.step fourAbove as = some s ∧
      StepsOk Device.step Device.UnlinkSucceeds fourAbove as ∧ ¬ DeviceFloor s := by
  obtain ⟨bs, l, hrefused, hquiet⟩ := run_refused_times (2 ^ 64 - 1) 2 []
  have hround : (2 : UInt64) + UInt64.ofNat (2 ^ 64 - 1) = 1 := by decide
  rw [hround] at hrefused
  obtain ⟨s, hbelow, hfree, hgranted⟩ := run_below l
  refine ⟨Device.alone 0 (.swapOut oneByte) [.time 0, .ok, .ok, .bytes 1, .ok] ++ (bs ++
    (Device.alone (l.length + 1) (.swapOut threeBytes) [.time 0, .ok, .ok] ++
    ([DeviceAction.act (.go 0 .ok), .act (.go 0 .ok), .act (.go 0 .ok)] ++
    ([DeviceAction.act (.go (l.length + 1) (.bytes 2)), .act (.go (l.length + 1) (.bytes 0))] ++
    ([DeviceAction.act (.go (l.length + 1) (.error .ioError)), .act (.go (l.length + 1) .ok),
      .act (.go (l.length + 1) .ok)] ++
    Device.alone (l.length + 2) (.swapOut threeBytes) [.time 0, .ok, .ok, .bytes 3]))))),
    s, ?_, ?_, ?_⟩
  · simp only [run_append, run_aboutToRename, hrefused, run_opened, run_renamed, run_cut,
      run_givenBack, Option.bind_some, hbelow]
  · refine StepsOk.append run_aboutToRename (stepsOk_of_quiet rfl _) ?_
    refine StepsOk.append hrefused (stepsOk_of_quiet hquiet _) ?_
    refine StepsOk.append (run_opened l) (stepsOk_of_quiet rfl _) ?_
    refine StepsOk.append (run_renamed l) (stepsOk_of_quiet rfl _) ?_
    refine StepsOk.append (run_cut l) (stepsOk_of_quiet rfl _) ?_
    refine StepsOk.append (run_givenBack l) ⟨?_, fun t _ => stepsOk_of_quiet rfl t⟩
      (stepsOk_of_quiet rfl _)
    -- the file has been renamed, there is none to unlink
    intro r k err hcall
    simp only [renamed, List.cons_append, List.getElem?_cons_succ,
      List.getElem?_concat_length] at hcall
    cases hcall
    rfl
  · intro hfloor
    have hle := hfloor hgranted
    rw [hfree] at hle
    exact absurd hle (by decide)

end FileApi.Swapfs
