import FileApi.Swapfs.Proofs.Integrity

/-!
# The shadow of a swap-out

A state without the bytes a `SwapOut` has reserved and without its temporary file. Other calls go
the same way there, and the call itself goes as a `GetStats` does.
-/

namespace FileApi.Swapfs

open Pool Keyed Machine

/-! ## Disks without a file -/

/-- The disk `e` is `d` without the temporary file of a key, whose number is `blank`. -/
structure DiskShadow (k : UInt64) (blank : Option Nat) (d e : Disk) : Prop where
  names : ∀ path, path ≠ .tmp k → e.names path = d.names path
  tmp : e.names (.tmp k) = none
  length : e.files.length = d.files.length
  files : ∀ n, blank ≠ some n → e.files[n]? = d.files[n]?
  bounded : ∀ path n, d.names path = some n → n < d.files.length
  inside : ∀ n, blank = some n → n < d.files.length
  hidden : ∀ path n, path ≠ .tmp k → d.names path = some n → blank ≠ some n

theorem Disk.rename_files {d d' : Disk} {source target : SwapFile}
    (h : d.rename source target = some d') : d'.files = d.files := by
  unfold Disk.rename at h
  split at h
  · cases h
  · cases h
    rfl

theorem Disk.unlink_files {d d' : Disk} {path : SwapFile} (h : d.unlink path = some d') :
    d'.files = d.files := by
  unfold Disk.unlink at h
  split at h
  · cases h
  · cases h
    rfl

namespace DiskShadow

variable {k : UInt64} {blank : Option Nat} {d d' e : Disk} {path source target : SwapFile}

/-- Another file is made, or cut to nothing. -/
theorem create (h : DiskShadow k blank d e) (hpath : path ≠ .tmp k) :
    (e.create path).1 = (d.create path).1 ∧
    DiskShadow k blank (d.create path).2 (e.create path).2 ∧
    blank ≠ some (d.create path).1 ∧ (d.create path).1 < (d.create path).2.files.length ∧
    d.files.length ≤ (d.create path).2.files.length := by
  have hsame := h.names path hpath
  unfold Disk.create
  cases hnode : d.names path with
  | some n =>
    rw [hsame, hnode]
    have hn := h.bounded path n hnode
    have hblank := h.hidden path n hpath hnode
    refine ⟨rfl, ⟨h.names, h.tmp, ?_, fun m hm => ?_, ?_, ?_, h.hidden⟩, hblank, ?_, ?_⟩
    · simpa using h.length
    · have hm' := h.files m hm
      by_cases hmn : n = m
      · subst hmn
        simp [hn, h.length]
      · simpa [List.getElem?_set_ne hmn] using hm'
    · simpa using h.bounded
    · simpa using h.inside
    · simpa using hn
    · simp
  | none =>
    rw [hsame, hnode]
    have hfresh : blank ≠ some d.files.length := fun heq =>
      absurd (h.inside _ heq) (Nat.lt_irrefl _)
    refine ⟨h.length, ⟨fun p hp => ?_, ?_, ?_, fun m hm => ?_, fun p m hm => ?_, fun m hm => ?_,
      fun p m hp hm => ?_⟩, hfresh, ?_, ?_⟩
    · by_cases hpp : p = path
      · subst hpp
        simp [h.length]
      · simpa [Function.update_of_ne hpp] using h.names p hp
    · simpa [Function.update_of_ne hpath.symm] using h.tmp
    · simp [h.length]
    · simp only [List.getElem?_append, h.length, h.files m hm]
    · by_cases hpp : p = path
      · subst hpp
        simp only [Function.update_self, Option.some.injEq] at hm
        simp [← hm]
      · simp only [Function.update_of_ne hpp] at hm
        have hlt := h.bounded p m hm
        simp only [List.length_append, List.length_singleton]
        omega
    · have hlt := h.inside m hm
      simp only [List.length_append, List.length_singleton]
      omega
    · by_cases hpp : p = path
      · subst hpp
        simp only [Function.update_self, Option.some.injEq] at hm
        exact hm ▸ hfresh
      · simp only [Function.update_of_ne hpp] at hm
        exact h.hidden p m hp hm
    · simp
    · simp

theorem append (h : DiskShadow k blank d e) (fd : Nat) (bytes : List UInt8) :
    DiskShadow k blank (d.append fd bytes) (e.append fd bytes) := by
  refine ⟨h.names, h.tmp, ?_, fun n hn => ?_, ?_, ?_, h.hidden⟩
  · simpa [Disk.append] using h.length
  · simp only [Disk.append, List.getElem?_modify, h.files n hn]
  · simpa [Disk.append] using h.bounded
  · simpa [Disk.append] using h.inside

/-- Another file is renamed. -/
theorem rename (h : DiskShadow k blank d e) (hsource : source ≠ .tmp k) (htarget : target ≠ .tmp k)
    (hrename : d.rename source target = some d') :
    ∃ e', e.rename source target = some e' ∧ DiskShadow k blank d' e' := by
  unfold Disk.rename at hrename ⊢
  rw [h.names source hsource]
  cases hnode : d.names source with
  | none =>
    rw [hnode] at hrename
    cases hrename
  | some n =>
    rw [hnode] at hrename
    cases hrename
    have hback : ∀ path m,
        Function.update (Function.update d.names target (some n)) source none path = some m →
          d.names path = some m ∨ path = target ∧ m = n := by
      intro path m hm
      by_cases hs : path = source
      · subst hs
        simp at hm
      · rw [Function.update_of_ne hs] at hm
        by_cases ht : path = target
        · subst ht
          rw [Function.update_self] at hm
          exact .inr ⟨rfl, (Option.some.inj hm).symm⟩
        · rw [Function.update_of_ne ht] at hm
          exact .inl hm
    refine ⟨_, rfl, ⟨fun path hpath => ?_, ?_, h.length, h.files, fun path m hm => ?_, h.inside,
      fun path m hpath hm => ?_⟩⟩
    · by_cases hs : path = source
      · subst hs
        simp
      · by_cases ht : path = target
        · subst ht
          simp [Function.update_of_ne hs]
        · simpa [Function.update_of_ne hs, Function.update_of_ne ht] using h.names path hpath
    · simpa [Function.update_of_ne hsource.symm, Function.update_of_ne htarget.symm] using h.tmp
    · rcases hback path m hm with hm | ⟨-, rfl⟩
      · exact h.bounded path m hm
      · exact h.bounded source m hnode
    · rcases hback path m hm with hm | ⟨-, rfl⟩
      · exact h.hidden path m hpath hm
      · exact h.hidden source m hsource hnode

theorem unlink (h : DiskShadow k blank d e) (hpath : path ≠ .tmp k)
    (hunlink : d.unlink path = some d') :
    ∃ e', e.unlink path = some e' ∧ DiskShadow k blank d' e' := by
  unfold Disk.unlink at hunlink ⊢
  rw [h.names path hpath]
  cases hnode : d.names path with
  | none =>
    rw [hnode] at hunlink
    cases hunlink
  | some n =>
    rw [hnode] at hunlink
    cases hunlink
    have hback : ∀ p m, Function.update d.names path none p = some m → d.names p = some m := by
      intro p m hm
      by_cases hp : p = path
      · subst hp
        simp at hm
      · rwa [Function.update_of_ne hp] at hm
    refine ⟨_, rfl, ⟨fun p hp => ?_, ?_, h.length, h.files, fun p m hm => h.bounded p m (hback p m hm),
      h.inside, fun p m hp hm => h.hidden p m hp (hback p m hm)⟩⟩
    · by_cases hpp : p = path
      · subst hpp
        simp
      · simpa [Function.update_of_ne hpp] using h.names p hp
    · simpa [Function.update_of_ne hpath.symm] using h.tmp

theorem create_own (h : DiskShadow k none d e) (hfree : d.names (.tmp k) = none) :
    (d.create (.tmp k)).1 = d.files.length ∧
    DiskShadow k (some d.files.length) (d.create (.tmp k)).2 { e with files := e.files ++ [[]] } := by
  unfold Disk.create
  rw [hfree]
  refine ⟨rfl, ⟨fun path hpath => ?_, h.tmp, ?_, fun n _ => ?_, fun path n hn => ?_, fun n hn => ?_,
    fun path n hpath hn => ?_⟩⟩
  · simpa [Function.update_of_ne hpath] using h.names path hpath
  · simp [h.length]
  · simp only [List.getElem?_append, h.length, h.files n nofun]
  · by_cases hpath : path = .tmp k
    · subst hpath
      simp only [Function.update_self, Option.some.injEq] at hn
      simp [← hn]
    · simp only [Function.update_of_ne hpath] at hn
      have hlt := h.bounded path n hn
      simp only [List.length_append, List.length_singleton]
      omega
  · cases hn
    simp
  · simp only [Function.update_of_ne hpath] at hn
    have hlt := h.bounded path n hn
    intro heq
    have heq := Option.some.inj heq
    omega

theorem append_own {fd : Nat} (h : DiskShadow k (some fd) d e) (bytes : List UInt8) :
    DiskShadow k (some fd) (d.append fd bytes) e := by
  refine ⟨h.names, h.tmp, ?_, fun n hn => ?_, ?_, ?_, h.hidden⟩
  · simpa [Disk.append] using h.length
  · have hne : fd ≠ n := fun heq => hn (congrArg some heq)
    simp only [Disk.append, List.getElem?_modify, h.files n hn, if_neg hne]
    simp
  · simpa [Disk.append] using h.bounded
  · simpa [Disk.append] using h.inside

theorem unlink_own (h : DiskShadow k blank d e) (hunlink : d.unlink (.tmp k) = some d') :
    d'.names (.tmp k) = none ∧ DiskShadow k blank d' e := by
  unfold Disk.unlink at hunlink
  split at hunlink
  · cases hunlink
  · cases hunlink
    have hback : ∀ p m, Function.update d.names (.tmp k) none p = some m →
        d.names p = some m := by
      intro p m hm
      by_cases hp : p = .tmp k
      · subst hp
        simp at hm
      · rwa [Function.update_of_ne hp] at hm
    refine ⟨Function.update_self _ _ _, ⟨fun path hpath => ?_, h.tmp, h.length, h.files,
      fun p m hm => h.bounded p m (hback p m hm), h.inside,
      fun p m hp hm => h.hidden p m hp (hback p m hm)⟩⟩
    simpa [Function.update_of_ne hpath] using h.names path hpath

theorem names_eq (h : DiskShadow k blank d e) (htmp : d.names (.tmp k) = none) :
    e.names = d.names := by
  funext path
  by_cases hpath : path = .tmp k
  · rw [hpath, h.tmp, htmp]
  · exact h.names path hpath

theorem lookup_eq (h : DiskShadow k blank d e) (htmp : d.names (.tmp k) = none)
    (path : SwapFile) : e.lookup path = d.lookup path := by
  have hnames := h.names_eq htmp
  refine Disk.lookup_of_names (congrFun hnames path) fun n hn => h.files n ?_
  refine h.hidden path n ?_ hn
  rintro rfl
  rw [htmp] at hn
  cases hn

end DiskShadow

/-! ## Control without a reservation -/

namespace Control

variable {c : Control} {held size : UInt64}

/-- The control without bytes that are reserved. -/
def lessPending (c : Control) (held : UInt64) : Control :=
  { c with pendingOccupiedSize := c.pendingOccupiedSize - held }

theorem lessPending_zero (c : Control) : c.lessPending 0 = c := by
  simp [lessPending]

theorem refreshEnd_lessPending (c : Control) (held : UInt64) (now : Int) (start : UInt64)
    (free : Option UInt64) :
    (c.lessPending held).refreshEnd now start free = (c.refreshEnd now start free).lessPending held := by
  cases free with
  | none => rfl
  | some space => rfl

theorem clampedSub_lessPending (h : held.toNat + size.toNat ≤ c.pendingOccupiedSize.toNat) :
    clampedSub (c.lessPending held).pendingOccupiedSize size =
        clampedSub c.pendingOccupiedSize size - held ∧
      decide ((c.lessPending held).pendingOccupiedSize < size) =
        decide (c.pendingOccupiedSize < size) := by
  have hheld : held ≤ c.pendingOccupiedSize := UInt64.le_iff_toNat_le.mpr (by omega)
  have hless : (c.lessPending held).pendingOccupiedSize.toNat =
      c.pendingOccupiedSize.toNat - held.toNat := UInt64.toNat_sub_of_le _ _ hheld
  have hsize : size.toNat ≤ c.pendingOccupiedSize.toNat := by omega
  have hsize' : size.toNat ≤ (c.lessPending held).pendingOccupiedSize.toNat := by omega
  constructor
  · rw [clampedSub, clampedSub, if_pos (UInt64.le_iff_toNat_le.mpr hsize),
      if_pos (UInt64.le_iff_toNat_le.mpr hsize'), lessPending]
    grind
  · rw [not_lt_of_toNat hsize, not_lt_of_toNat hsize']

theorem cancel_lessPending (h : held.toNat + size.toNat ≤ c.pendingOccupiedSize.toNat) :
    (c.lessPending held).cancelReservedSwapOut size =
      (c.cancelReservedSwapOut size).lessPending held := by
  obtain ⟨hsub, hclamped⟩ := clampedSub_lessPending h
  rw [cancelReservedSwapOut, hsub, hclamped]
  rfl

theorem commit_lessPending (h : held.toNat + size.toNat ≤ c.pendingOccupiedSize.toNat)
    (dataSize : UInt64) :
    (c.lessPending held).onSwapOutCommitted dataSize size =
      (c.onSwapOutCommitted dataSize size).lessPending held := by
  obtain ⟨hsub, hclamped⟩ := clampedSub_lessPending h
  rw [onSwapOutCommitted, hsub, hclamped]
  rfl

theorem reserve_lessPending
    (h : ((c.lessPending held).reserveSwapOut size).1 = (c.reserveSwapOut size).1) :
    (c.lessPending held).reserveSwapOut size =
      ((c.reserveSwapOut size).1, (c.reserveSwapOut size).2.lessPending held) := by
  unfold reserveSwapOut at h ⊢
  cases hcheck : c.checkSwapOutAllowedLocked size with
  | error err =>
    rw [hcheck] at h
    cases hless : (c.lessPending held).checkSwapOutAllowedLocked size with
    | error err' =>
      rw [hless] at h
      cases h
      rfl
    | ok u =>
      rw [hless] at h
      cases h
  | ok u =>
    rw [hcheck] at h
    cases hless : (c.lessPending held).checkSwapOutAllowedLocked size with
    | error err' =>
      rw [hless] at h
      cases h
    | ok u =>
      have hsum : c.pendingOccupiedSize - held + size = c.pendingOccupiedSize + size - held := by
        grind
      simp only [lessPending, hsum]

theorem reserve_less {c' : Control} (h : c.reserveSwapOut size = (.ok (), c')) :
    c'.lessPending size = c := by
  unfold reserveSwapOut at h
  split at h
  · cases h
  · cases h
    have hsum : c.pendingOccupiedSize + size - size = c.pendingOccupiedSize := by grind
    simp only [lessPending, hsum]

theorem cancel_held (h : held.toNat ≤ c.pendingOccupiedSize.toNat) :
    c.cancelReservedSwapOut held = c.lessPending held := by
  rw [cancelReservedSwapOut, clampedSub, if_pos (UInt64.le_iff_toNat_le.mpr h), not_lt_of_toNat h,
    Bool.or_false]
  rfl

end Control

/-! ## Other calls in the shadow -/

/-- A state without the bytes of a reservation and without a file, with other calls. -/
def State.shadow (s : State) (calls : List Call) (held : UInt64) (disk : Disk) : State :=
  { s with control := s.control.lessPending held, disk, calls }

/-- The files a call has open. -/
def Call.fds : Call → List Nat
  | .swapOut _ _ (.write fd _) => [fd]
  | .swapIn _ (.read _ _ fd _) => [fd]
  | _ => []

/-- The files a call has open are there, and none of them is the one that is left out. -/
def OpenElsewhere (blank : Option Nat) (d : Disk) (c : Call) : Prop :=
  ∀ fd ∈ c.fds, blank ≠ some fd ∧ fd < d.files.length

/-- The disks and the open files behind a step. -/
structure Follows (k : UInt64) (blank : Option Nat) (d d' e' : Disk) (c' : Call) : Prop where
  disk : DiskShadow k blank d' e'
  opened : OpenElsewhere blank d' c'
  length : d.files.length ≤ d'.files.length

theorem Follows.same {k : UInt64} {blank : Option Nat} {d d' e : Disk} {c' : Call}
    (h : DiskShadow k blank d e) (hsame : d' = d) (hfds : c'.fds = []) :
    Follows k blank d d' e c' := by
  subst hsame
  refine ⟨h, fun fd hfd => ?_, Nat.le_refl _⟩
  rw [hfds] at hfd
  cases hfd

section Others

variable {s s' : State} {l : List Call} {k held : UInt64} {blank : Option Nat} {e : Disk}
  {outcome : Outcome}

theorem refreshBegin_shadow (s : State) (l : List Call) (held : UInt64) (e : Disk) (now : Int) :
    refreshBegin (s.shadow l held e) now =
      (refreshBegin s now).map fun r => (r.1.shadow l held e, r.2) := by
  have hbegin : (s.control.lessPending held).refreshBegin now = s.control.refreshBegin now := rfl
  have hfree : (s.control.lessPending held).refreshing = s.control.refreshing := rfl
  unfold refreshBegin State.shadow
  simp only [hbegin, hfree]
  split
  · rfl
  · split
    · rfl
    · rfl

theorem refreshEnd_shadow (s : State) (l : List Call) (held : UInt64) (e : Disk) (now : Int) (start : UInt64)
    (free : Option UInt64) :
    refreshEnd (s.shadow l held e) now start free = (refreshEnd s now start free).shadow l held e := by
  unfold refreshEnd State.shadow
  simp only [Control.refreshEnd_lessPending]

theorem finalizeEntry_shadow (s : State) (l : List Call) (held : UInt64) (e : Disk) (keyId size : UInt64)
    (removed : Bool) :
    finalizeEntry (s.shadow l held e) keyId size removed =
      (finalizeEntry s keyId size removed).shadow l held e := by
  have hfind : findEntry (s.shadow l held e) keyId = findEntry s keyId := rfl
  unfold finalizeEntry
  rw [hfind]
  split
  · rfl
  · split
    · rfl
    · rfl

theorem finalizeEntries_shadow (removed : List (SwapKeyEntry × Bool)) (l : List Call)
    (held : UInt64) (e : Disk) :
    ∀ s : State,
      removed.foldl (fun s r => finalizeEntry s r.1.keyId r.1.dataSize r.2) (s.shadow l held e) =
        (removed.foldl (fun s r => finalizeEntry s r.1.keyId r.1.dataSize r.2) s).shadow l held e := by
  induction removed with
  | nil => exact fun s => rfl
  | cons r removed ih =>
    intro s
    rw [List.foldl_cons, List.foldl_cons, finalizeEntry_shadow, ih]

/-- Another `SwapOut`. -/
theorem stepSwapOut_shadow {request : SwapOutRequest} {key : UInt64} {pc pc' : OutPc}
    (hkey : key ≠ k) (hdisk : DiskShadow k blank s.disk e)
    (hpending : held.toNat + (Call.swapOut request key pc).reserved ≤
      s.control.pendingOccupiedSize.toNat)
    (hopen : OpenElsewhere blank s.disk (.swapOut request key pc))
    (hdecide : pc = .reserve → outcome = .ok →
      ((s.control.lessPending held).reserveSwapOut request.bufferSize).1 =
        (s.control.reserveSwapOut request.bufferSize).1)
    (h : stepSwapOut s request key pc outcome = some (s', pc')) :
    ∃ e', stepSwapOut (s.shadow l held e) request key pc outcome = some (s'.shadow l held e', pc') ∧
      Follows k blank s.disk s'.disk e' (.swapOut request key pc') := by
  have htmp : SwapFile.tmp key ≠ .tmp k := fun heq => hkey (SwapFile.tmp.inj heq)
  unfold stepSwapOut at h
  split at h
  · -- the refresh begins, or is not due
    next now =>
    obtain ⟨⟨mid, start⟩, hbegin, hr⟩ := Option.map_eq_some_iff.mp h
    have hsame := refreshBegin_disk hbegin
    have hshadow : refreshBegin (s.shadow l held e) now = some (mid.shadow l held e, start) := by
      rw [refreshBegin_shadow, hbegin]
      rfl
    cases start with
    | none =>
      cases hr
      refine ⟨e, ?_, .same hdisk hsame rfl⟩
      rw [stepSwapOut, hshadow]
      rfl
    | some committedAtStart =>
      cases hr
      refine ⟨e, ?_, .same hdisk hsame rfl⟩
      rw [stepSwapOut, hshadow]
      rfl
  · cases h
    exact ⟨e, by rw [stepSwapOut, refreshEnd_shadow], .same hdisk rfl rfl⟩
  · have hsame := Control.reserve_lessPending (hdecide rfl rfl)
    have hreserve : (s.shadow l held e).control.reserveSwapOut request.bufferSize =
        ((s.control.reserveSwapOut request.bufferSize).1,
          (s.control.reserveSwapOut request.bufferSize).2.lessPending held) := hsame
    split at h
    · next err control heq =>
      cases h
      refine ⟨e, ?_, .same hdisk rfl rfl⟩
      rw [stepSwapOut, hreserve, heq]
      rfl
    · next control heq =>
      cases h
      refine ⟨e, ?_, .same hdisk rfl rfl⟩
      rw [stepSwapOut, hreserve, heq]
      rfl
  · cases h
    obtain ⟨hfd, hview, hblank, hinside, hlength⟩ := hdisk.create htmp
    refine ⟨(e.create (.tmp key)).2, ?_, hview, ?_, hlength⟩
    · rw [stepSwapOut]
      show some ((s.shadow l held (e.create (.tmp key)).2), OutPc.write (e.create (.tmp key)).1 0) = _
      rw [hfd]
      rfl
    · intro fd hmem
      rw [List.mem_singleton.mp hmem]
      exact ⟨hblank, hinside⟩
  · cases h
    exact ⟨e, rfl, .same hdisk rfl rfl⟩
  · next fd written n =>
    obtain ⟨hfd, hinside⟩ := hopen fd List.mem_cons_self
    by_cases hzero : n = 0
    · rw [if_pos hzero] at h
      cases h
      refine ⟨e, ?_, .same hdisk rfl rfl⟩
      rw [stepSwapOut, if_pos hzero]
    · rw [if_neg hzero] at h
      by_cases hlong : request.buffer.length < written + n
      · rw [if_pos hlong] at h
        cases h
      · rw [if_neg hlong] at h
        cases h
        refine ⟨e.append fd ((request.buffer.drop written).take n), ?_, hdisk.append fd _, ?_, ?_⟩
        · rw [stepSwapOut, if_neg hzero, if_neg hlong]
          rfl
        · intro fd' hmem
          split at hmem
          · cases hmem
          · rw [List.mem_singleton.mp hmem]
            exact ⟨hfd, by simpa [Disk.append] using hinside⟩
        · simp [Disk.append]
  · cases h
    exact ⟨e, rfl, .same hdisk rfl rfl⟩
  · cases h
    exact ⟨e, rfl, .same hdisk rfl rfl⟩
  · cases h
    exact ⟨e, rfl, .same hdisk rfl rfl⟩
  · obtain ⟨disk, hrename, hr⟩ := Option.map_eq_some_iff.mp h
    cases hr
    obtain ⟨e', hrename', hview⟩ := hdisk.rename htmp (by rintro ⟨⟩) hrename
    refine ⟨e', ?_, hview, List.forall_mem_nil _, ?_⟩
    · rw [stepSwapOut]
      show (e.rename (.tmp key) (.swap key)).map _ = _
      rw [hrename']
      rfl
    · exact Nat.le_of_eq (congrArg List.length (Disk.rename_files hrename).symm)
  · cases h
    exact ⟨e, rfl, .same hdisk rfl rfl⟩
  · obtain ⟨disk, hunlink, hr⟩ := Option.map_eq_some_iff.mp h
    cases hr
    obtain ⟨e', hunlink', hview⟩ := hdisk.unlink htmp hunlink
    refine ⟨e', ?_, hview, List.forall_mem_nil _, ?_⟩
    · rw [stepSwapOut]
      show (e.unlink (.tmp key)).map _ = _
      rw [hunlink']
      rfl
    · exact Nat.le_of_eq (congrArg List.length (Disk.unlink_files hunlink).symm)
  · cases h
    exact ⟨e, rfl, .same hdisk rfl rfl⟩
  · cases h
    refine ⟨e, ?_, .same hdisk rfl rfl⟩
    rw [stepSwapOut]
    show some ({ s.shadow l held e with control :=
      (s.control.lessPending held).cancelReservedSwapOut request.bufferSize }, _) = _
    rw [Control.cancel_lessPending hpending]
    rfl
  · cases h
    refine ⟨e, ?_, .same hdisk rfl rfl⟩
    rw [stepSwapOut]
    show some ({ s.shadow l held e with
      entries := put SwapKeyEntry.keyId s.entries { keyId := key, dataSize := request.bufferSize }
      control := (s.control.lessPending held).onSwapOutCommitted request.bufferSize
        request.bufferSize }, _) = _
    rw [Control.commit_lessPending hpending]
    rfl
  · cases h
    exact ⟨e, rfl, .same hdisk rfl rfl⟩
  · cases h

theorem lookupKeyForSwapIn_shadow (s : State) (l : List Call) (held : UInt64) (e : Disk) (request : SwapInRequest) :
    lookupKeyForSwapIn (s.shadow l held e) request =
        ((lookupKeyForSwapIn s request).1.shadow l held e, (lookupKeyForSwapIn s request).2) ∧
      (lookupKeyForSwapIn s request).1.disk = s.disk ∧
      (Call.swapIn request (lookupKeyForSwapIn s request).2).fds = [] := by
  have hfind : findEntry (s.shadow l held e) request.keyId = findEntry s request.keyId := rfl
  unfold lookupKeyForSwapIn
  rw [hfind]
  split
  · exact ⟨rfl, rfl, rfl⟩
  · split
    · exact ⟨rfl, rfl, rfl⟩
    · refine ⟨rfl, rfl, ?_⟩
      dsimp only
      split
      · rfl
      · rfl

theorem finishSwapIn_shadow (s : State) (l : List Call) (held : UInt64) (e : Disk) (request : SwapInRequest)
    (result : Except SwapfsErr (List UInt8)) :
    finishSwapIn (s.shadow l held e) request.keyId result =
        ((finishSwapIn s request.keyId result).1.shadow l held e,
          (finishSwapIn s request.keyId result).2) ∧
      (finishSwapIn s request.keyId result).1.disk = s.disk ∧
      (Call.swapIn request (finishSwapIn s request.keyId result).2).fds = [] := by
  have hfind : findEntry (s.shadow l held e) request.keyId = findEntry s request.keyId := rfl
  unfold finishSwapIn
  rw [hfind]
  split
  · exact ⟨rfl, rfl, rfl⟩
  · dsimp only
    split
    · exact ⟨rfl, rfl, rfl⟩
    · exact ⟨rfl, rfl, rfl⟩

/-- A `SwapIn` reads only files of entries. -/
theorem stepSwapIn_shadow {request : SwapInRequest} {pc pc' : InPc} (l : List Call) (held : UInt64)
    (hdisk : DiskShadow k blank s.disk e) (hopen : OpenElsewhere blank s.disk (.swapIn request pc))
    (h : stepSwapIn s request pc outcome = some (s', pc')) :
    ∃ e', stepSwapIn (s.shadow l held e) request pc outcome = some (s'.shadow l held e', pc') ∧
      Follows k blank s.disk s'.disk e' (.swapIn request pc') := by
  unfold stepSwapIn at h
  split at h
  · obtain ⟨hlookup, hsame, hfds⟩ := lookupKeyForSwapIn_shadow s l held e request
    have hr := Option.some.inj h
    rw [hr] at hlookup hsame hfds
    refine ⟨e, ?_, .same hdisk hsame hfds⟩
    rw [stepSwapIn, hlookup]
  · next entry uring =>
    have hdirect : (s.shadow l held e).useDirectIo = s.useDirectIo := rfl
    have hnames : (s.shadow l held e).disk.names (.swap entry.keyId) =
        s.disk.names (.swap entry.keyId) := hdisk.names _ nofun
    rw [stepSwapIn, hdirect, hnames]
    split at h
    · next hcond =>
      cases h
      exact ⟨e, by rw [if_pos hcond], .same hdisk rfl rfl⟩
    next hcond =>
    rw [if_neg hcond]
    split at h
    · next hzero =>
      cases h
      exact ⟨e, by rw [if_pos hzero], .same hdisk rfl rfl⟩
    next hzero =>
    rw [if_neg hzero]
    split at h
    · cases h
    next huring =>
    rw [if_neg huring]
    cases hnode : s.disk.names (.swap entry.keyId) with
    | none =>
      rw [hnode] at h
      cases h
    | some fd =>
      rw [hnode] at h
      cases h
      refine ⟨e, rfl, hdisk, fun fd' hmem => ?_, Nat.le_refl _⟩
      rw [List.mem_singleton.mp hmem]
      exact ⟨hdisk.hidden (.swap entry.keyId) fd (by nofun) hnode, hdisk.bounded _ fd hnode⟩
  · cases h
    exact ⟨e, rfl, .same hdisk rfl rfl⟩
  · next entry uring fd got n =>
    have hfd := hopen fd List.mem_cons_self
    have hfile : (s.shadow l held e).disk.files[fd]? = s.disk.files[fd]? := hdisk.files fd hfd.1
    rw [stepSwapIn, hfile]
    cases hcontent : s.disk.files[fd]? with
    | none =>
      rw [hcontent] at h
      cases h
    | some content =>
      rw [hcontent] at h
      dsimp only at h ⊢
      split at h
      · cases h
      next hread =>
      rw [if_neg hread]
      split at h
      · next hall =>
        cases h
        exact ⟨e, by rw [if_pos hall], .same hdisk rfl rfl⟩
      next hall =>
      rw [if_neg hall]
      split at h
      · next hshort =>
        cases h
        exact ⟨e, by rw [if_pos hshort], .same hdisk rfl rfl⟩
      next hshort =>
      cases h
      exact ⟨e, by rw [if_neg hshort], hdisk, hopen, Nat.le_refl _⟩
  · cases h
    exact ⟨e, rfl, .same hdisk rfl rfl⟩
  · next result =>
    obtain ⟨hfinish, hsame, hfds⟩ := finishSwapIn_shadow s l held e request result
    have hr := Option.some.inj h
    rw [hr] at hfinish hsame hfds
    refine ⟨e, ?_, .same hdisk hsame hfds⟩
    rw [stepSwapIn, hfinish]
  · obtain ⟨disk, hunlink, hr⟩ := Option.map_eq_some_iff.mp h
    cases hr
    obtain ⟨e', hunlink', hview⟩ := hdisk.unlink (by nofun) hunlink
    refine ⟨e', ?_, hview, nofun,
      Nat.le_of_eq (congrArg List.length (Disk.unlink_files hunlink).symm)⟩
    rw [stepSwapIn]
    show (e.unlink (.swap request.keyId)).map _ = _
    rw [hunlink']
    rfl
  · cases h
    exact ⟨e, rfl, .same hdisk rfl rfl⟩
  · next removedSize removed result =>
    cases h
    refine ⟨e, ?_, .same hdisk (finalizeEntry_disk s _ _ _) rfl⟩
    rw [stepSwapIn, finalizeEntry_shadow]
  · cases h
    exact ⟨e, rfl, .same hdisk rfl rfl⟩
  · cases h

theorem stepRemoveData_shadow {keyId : UInt64} {pc pc' : RemovePc} (l : List Call) (held : UInt64)
    (hdisk : DiskShadow k blank s.disk e)
    (h : stepRemoveData s pc outcome = some (s', pc')) :
    ∃ e', stepRemoveData (s.shadow l held e) pc outcome = some (s'.shadow l held e', pc') ∧
      Follows k blank s.disk s'.disk e' (.removeData keyId pc') := by
  unfold stepRemoveData at h
  split at h
  · next entry =>
    obtain ⟨disk, hunlink, hr⟩ := Option.map_eq_some_iff.mp h
    cases hr
    obtain ⟨e', hunlink', hview⟩ := hdisk.unlink (by nofun) hunlink
    refine ⟨e', ?_, hview, nofun,
      Nat.le_of_eq (congrArg List.length (Disk.unlink_files hunlink).symm)⟩
    rw [stepRemoveData]
    show (e.unlink (.swap entry.keyId)).map _ = _
    rw [hunlink']
    rfl
  · cases h
    exact ⟨e, rfl, .same hdisk rfl rfl⟩
  · cases h
    refine ⟨e, ?_, .same hdisk (finalizeEntry_disk s _ _ _) rfl⟩
    rw [stepRemoveData, finalizeEntry_shadow]
  · cases h
    exact ⟨e, rfl, .same hdisk rfl rfl⟩
  · cases h

theorem stepRemoveAllData_shadow {pc pc' : RemoveAllPc} (l : List Call)
    (held : UInt64)
    (hdisk : DiskShadow k blank s.disk e)
    (h : stepRemoveAllData s pc outcome = some (s', pc')) :
    ∃ e', stepRemoveAllData (s.shadow l held e) pc outcome = some (s'.shadow l held e', pc') ∧
      Follows k blank s.disk s'.disk e' (.removeAllData pc') := by
  unfold stepRemoveAllData at h
  split at h
  · cases h
    exact ⟨e, rfl, .same hdisk rfl rfl⟩
  · next entry todo removed firstError =>
    obtain ⟨disk, hunlink, hr⟩ := Option.map_eq_some_iff.mp h
    cases hr
    obtain ⟨e', hunlink', hview⟩ := hdisk.unlink (by nofun) hunlink
    refine ⟨e', ?_, hview, nofun,
      Nat.le_of_eq (congrArg List.length (Disk.unlink_files hunlink).symm)⟩
    rw [stepRemoveAllData]
    show (e.unlink (.swap entry.keyId)).map _ = _
    rw [hunlink']
    rfl
  · cases h
    exact ⟨e, rfl, .same hdisk rfl rfl⟩
  · next removed firstError =>
    cases h
    refine ⟨e, ?_, .same hdisk (finalizeEntries_disk removed s) rfl⟩
    unfold stepRemoveAllData
    dsimp only
    rw [finalizeEntries_shadow]
    rfl
  · cases h
    exact ⟨e, rfl, .same hdisk rfl rfl⟩
  · cases h

theorem stepGetStats_shadow {pc pc' : StatsPc} (l : List Call) (held : UInt64)
    (hdisk : DiskShadow k blank s.disk e) (h : stepGetStats s pc outcome = some (s', pc')) :
    ∃ e', stepGetStats (s.shadow l held e) pc outcome = some (s'.shadow l held e', pc') ∧
      Follows k blank s.disk s'.disk e' (.getStats pc') := by
  unfold stepGetStats at h
  split at h
  · next now =>
    obtain ⟨⟨mid, start⟩, hbegin, hr⟩ := Option.map_eq_some_iff.mp h
    have hsame := refreshBegin_disk hbegin
    have hshadow : refreshBegin (s.shadow l held e) now = some (mid.shadow l held e, start) := by
      rw [refreshBegin_shadow, hbegin]
      rfl
    cases start with
    | none =>
      cases hr
      refine ⟨e, ?_, .same hdisk hsame rfl⟩
      rw [stepGetStats, hshadow]
      rfl
    | some committedAtStart =>
      cases hr
      refine ⟨e, ?_, .same hdisk hsame rfl⟩
      rw [stepGetStats, hshadow]
      rfl
  · cases h
    exact ⟨e, by rw [stepGetStats, refreshEnd_shadow], .same hdisk rfl rfl⟩
  · cases h
    exact ⟨e, rfl, .same hdisk rfl rfl⟩
  · cases h
    exact ⟨e, rfl, .same hdisk rfl rfl⟩
  · cases h

theorem stepCall_shadow (l : List Call) {c c' : Call} (hkey : c.key ≠ some k)
    (hdisk : DiskShadow k blank s.disk e) (hopen : OpenElsewhere blank s.disk c)
    (hpending : held.toNat + c.reserved ≤ s.control.pendingOccupiedSize.toNat)
    (hdecide : ∀ request key, c = .swapOut request key .reserve → outcome = .ok →
      ((s.control.lessPending held).reserveSwapOut request.bufferSize).1 =
        (s.control.reserveSwapOut request.bufferSize).1)
    (h : stepCall s outcome c = some (s', c')) :
    ∃ e', stepCall (s.shadow l held e) outcome c = some (s'.shadow l held e', c') ∧
      Follows k blank s.disk s'.disk e' c' := by
  cases callStep h with
  | @swapOut request key pc pc' hstep =>
    obtain ⟨e', hshadow, hfollows⟩ := stepSwapOut_shadow (fun heq => hkey (congrArg some heq)) hdisk
      hpending hopen (fun hpc => hdecide request key (hpc ▸ rfl)) hstep
    exact ⟨e', by rw [stepCall, hshadow]; rfl, hfollows⟩
  | swapIn hstep =>
    obtain ⟨e', hshadow, hfollows⟩ := stepSwapIn_shadow l held hdisk hopen hstep
    exact ⟨e', by rw [stepCall, hshadow]; rfl, hfollows⟩
  | removeData hstep =>
    obtain ⟨e', hshadow, hfollows⟩ := stepRemoveData_shadow l held hdisk hstep
    exact ⟨e', by rw [stepCall, hshadow]; rfl, hfollows⟩
  | removeAllData hstep =>
    obtain ⟨e', hshadow, hfollows⟩ := stepRemoveAllData_shadow l held hdisk hstep
    exact ⟨e', by rw [stepCall, hshadow]; rfl, hfollows⟩
  | getStats hstep =>
    obtain ⟨e', hshadow, hfollows⟩ := stepGetStats_shadow l held hdisk hstep
    exact ⟨e', by rw [stepCall, hshadow]; rfl, hfollows⟩

end Others

/-! ## The call itself -/

/-- Where the `GetStats` in the place of a `SwapOut` stands. -/
def shadowPc : OutPc → StatsPc
  | .refresh => .refresh
  | .refreshing now committedAtStart => .refreshing now committedAtStart
  | .done _ => .done
  | _ => .fillStats

/-- The bytes a call has reserved, as the control counts them. -/
def Call.held (c : Call) : UInt64 := UInt64.ofNat c.reserved

/-- What is known of the temporary file of a `SwapOut` that does not succeed. -/
def OwnFile (k : UInt64) (blank : Option Nat) (d : Disk) : OutPc → Prop
  | .refresh | .refreshing _ _ | .reserve | .openTmp => d.names (.tmp k) = none ∧ blank = none
  | .write fd _ => blank = some fd
  | .fsync | .rename | .cleanup _ => True
  | .cancel _ | .endOperation (.error _) | .done (.error _) => d.names (.tmp k) = none
  | .commit | .endOperation (.ok _) | .done (.ok _) => False

/-- A `SwapOut` that has renamed its file. -/
def OutPc.succeeds : OutPc → Prop
  | .commit | .endOperation (.ok _) | .done (.ok _) => True
  | _ => False

section Own

variable {s s' : State} {k : UInt64} {request : SwapOutRequest} {blank : Option Nat} {d e e' : Disk}
  {outcome : Outcome} {pc pc' : OutPc}

theorem held_toNat (c : Call) : c.held.toNat = c.reserved := by
  have hlt : c.reserved < 2 ^ 64 := by
    unfold Call.reserved
    split
    · split
      all_goals first | exact (SwapOutRequest.bufferSize _).toNat_lt | exact Nat.two_pow_pos 64
    · exact Nat.two_pow_pos 64
  rw [Call.held, UInt64.toNat_ofNat', Nat.mod_eq_of_lt hlt]

theorem held_of_reserved (h : (Call.swapOut request k pc).reserved = request.bufferSize.toNat) :
    (Call.swapOut request k pc).held = request.bufferSize := by
  rw [Call.held, h, UInt64.ofNat_toNat]

theorem held_of_zero {c : Call} (h : c.reserved = 0) : c.held = 0 := by
  rw [Call.held, h]
  rfl

/-- What the shadow does while the call does a step. -/
inductive OwnMove (s s' : State) (l : List Call) (held held' : UInt64) (e e' : Disk) (pc pc' : OutPc)
    (outcome : Outcome) : Prop where
  | quiet (hstate : s'.shadow l held' e' = s.shadow l held e) (hpc : shadowPc pc' = shadowPc pc)
  | blank (hdisk : e' = { e with files := e.files ++ [[]] })
      (hstate : s'.shadow l held' e' = s.shadow l held e') (hpc : shadowPc pc' = shadowPc pc)
  | same (hstep : stepGetStats (s.shadow l held e) (shadowPc pc) outcome =
      some (s'.shadow l held' e', shadowPc pc'))
  | finish (hstate : s'.shadow l held' e' = endOperation (s.shadow l held e))
      (hpc : shadowPc pc = .fillStats) (hpc' : shadowPc pc' = .done) (houtcome : outcome = .ok)

/-- The disks behind a step of the call, and the file that is left out there. -/
structure OwnFollows (k : UInt64) (blank blank' : Option Nat) (d d' e' : Disk) (pc' : OutPc) :
    Prop where
  disk : DiskShadow k blank' d' e'
  file : OwnFile k blank' d' pc'
  fresh : ∀ n, blank' = some n → blank = some n ∨ d.files.length ≤ n
  length : d.files.length ≤ d'.files.length

theorem OwnFollows.same {d' : Disk} (h : DiskShadow k blank d e) (hsame : d' = d)
    (hfile : OwnFile k blank d pc') : OwnFollows k blank blank d d' e pc' := by
  subst hsame
  exact ⟨h, hfile, fun _ hn => .inl hn, Nat.le_refl _⟩

theorem stepOwn_shadow (l : List Call) (hdisk : DiskShadow k blank s.disk e) (hown : OwnFile k blank s.disk pc)
    (hpending : (Call.swapOut request k pc).reserved ≤ s.control.pendingOccupiedSize.toNat)
    (hunlink : ∀ err err', pc = .cleanup err → outcome = .error err' →
      s.disk.names (.tmp k) = none)
    (h : stepSwapOut s request k pc outcome = some (s', pc')) (hfails : ¬ pc'.succeeds) :
    ∃ blank' e', OwnFollows k blank blank' s.disk s'.disk e' pc' ∧
      OwnMove s s' l (Call.swapOut request k pc).held (Call.swapOut request k pc').held e e' pc pc'
        outcome := by
  unfold stepSwapOut at h
  split at h
  · next now =>
    obtain ⟨⟨mid, start⟩, hbegin, hr⟩ := Option.map_eq_some_iff.mp h
    have hsame := refreshBegin_disk hbegin
    have hshadow : refreshBegin (s.shadow l 0 e) now = some (mid.shadow l 0 e, start) := by
      rw [refreshBegin_shadow, hbegin]
      rfl
    cases start with
    | none =>
      cases hr
      refine ⟨blank, e, .same hdisk hsame hown, .same ?_⟩
      show stepGetStats (s.shadow l 0 e) .refresh (.time now) = _
      rw [stepGetStats, hshadow]
      rfl
    | some committedAtStart =>
      cases hr
      refine ⟨blank, e, .same hdisk hsame hown, .same ?_⟩
      show stepGetStats (s.shadow l 0 e) .refresh (.time now) = _
      rw [stepGetStats, hshadow]
      rfl
  · next now committedAtStart free =>
    cases h
    refine ⟨blank, e, .same hdisk rfl hown, .same ?_⟩
    show stepGetStats (s.shadow l 0 e) (.refreshing now committedAtStart) (.space free) = _
    rw [stepGetStats, refreshEnd_shadow]
    rfl
  · split at h
    · next err control hreserve =>
      cases h
      obtain rfl := Control.reserveSwapOut_error hreserve
      exact ⟨blank, e, .same hdisk rfl hown.1, .quiet rfl rfl⟩
    · next control hreserve =>
      cases h
      refine ⟨blank, e, .same hdisk rfl hown, .quiet ?_ rfl⟩
      have hcontrol : control.lessPending request.bufferSize = s.control.lessPending 0 := by
        rw [Control.reserve_less hreserve, Control.lessPending_zero]
      have hheld : (Call.swapOut request k .openTmp).held = request.bufferSize :=
        held_of_reserved rfl
      have hzero : (Call.swapOut request k .reserve).held = 0 := held_of_zero rfl
      rw [hheld, hzero, State.shadow, hcontrol]
      rfl
  · cases h
    obtain ⟨hnone, rfl⟩ := hown
    obtain ⟨hfd, hview⟩ := hdisk.create_own hnone
    refine ⟨some s.disk.files.length, _, ⟨hview, ?_, fun n hn => .inr ?_, ?_⟩, .blank rfl rfl rfl⟩
    · exact congrArg some hfd.symm
    · cases hn
      exact Nat.le_refl _
    · exact Nat.le_of_lt (hview.inside _ rfl)
  · cases h
    exact ⟨blank, e, .same hdisk rfl trivial, .quiet rfl rfl⟩
  · next fd written n =>
    split at h
    · cases h
      exact ⟨blank, e, .same hdisk rfl trivial, .quiet rfl rfl⟩
    split at h
    · cases h
    cases h
    obtain rfl : blank = some fd := hown
    refine ⟨some fd, e, ⟨hdisk.append_own _, ?_, fun _ hn => .inl hn, ?_⟩, ?_⟩
    · split
      · trivial
      · rfl
    · simp [Disk.append]
    · split
      · exact .quiet rfl rfl
      · exact .quiet rfl rfl
  · cases h
    exact ⟨blank, e, .same hdisk rfl trivial, .quiet rfl rfl⟩
  · cases h
    exact ⟨blank, e, .same hdisk rfl trivial, .quiet rfl rfl⟩
  · cases h
    exact ⟨blank, e, .same hdisk rfl trivial, .quiet rfl rfl⟩
  · obtain ⟨disk, -, hr⟩ := Option.map_eq_some_iff.mp h
    cases hr
    exact absurd trivial hfails
  · cases h
    exact ⟨blank, e, .same hdisk rfl trivial, .quiet rfl rfl⟩
  · obtain ⟨disk, hrun, hr⟩ := Option.map_eq_some_iff.mp h
    cases hr
    obtain ⟨hnone, hview⟩ := hdisk.unlink_own hrun
    exact ⟨blank, e, ⟨hview, hnone, fun _ hn => .inl hn,
      Nat.le_of_eq (congrArg List.length (Disk.unlink_files hrun).symm)⟩, .quiet rfl rfl⟩
  · next err err' =>
    cases h
    exact ⟨blank, e, .same hdisk rfl (hunlink err err' rfl rfl), .quiet rfl rfl⟩
  · next err =>
    cases h
    refine ⟨blank, e, .same hdisk rfl hown, .quiet ?_ rfl⟩
    have hheld : (Call.swapOut request k (.cancel err)).held = request.bufferSize :=
      held_of_reserved rfl
    have hzero : (Call.swapOut request k (.endOperation (.error err))).held = 0 := held_of_zero rfl
    rw [hheld, hzero, State.shadow, Control.cancel_held hpending, Control.lessPending_zero]
    rfl
  · exact absurd hown id
  · next result =>
    cases h
    cases result with
    | ok key => exact absurd hown id
    | error err => exact ⟨blank, e, .same hdisk rfl hown, .finish rfl rfl rfl rfl⟩
  · cases h

end Own

end FileApi.Swapfs
