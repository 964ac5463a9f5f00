import FileApi.Swapfs.Proofs.Integrity
import FileApi.Swapfs.Proofs.Lifecycle

/-!
# Counts and states of the entries

While a `RemoveAllData` is under way no `SwapOut` is, and it has taken every entry. So its last
section leaves the entries whose files it could not unlink, and no others.
-/

namespace FileApi.Swapfs

open Pool Keyed Machine

/-! ## A `RemoveAllData` under way -/

/-- One for a `RemoveAllData` that has taken the entries. -/
def Call.collecting : Call → Nat
  | .removeAllData (.unlink _ _ _) => 1
  | .removeAllData (.finalize _ _) => 1
  | _ => 0

/-- One for a `SwapOut` in flight. -/
def Call.storing (c : Call) : Nat := if c.made.isSome then c.active else 0

/-- `removeAllInProgress_` is the `RemoveAllData` under way, which is alone with its entries. -/
structure RemoveAllInv (s : State) : Prop where
  flag : total Call.collecting s.calls = if s.removeAllInProgress then 1 else 0
  alone : s.removeAllInProgress = true → total Call.storing s.calls = 0
  covered : ∀ c ∈ s.calls, c.collecting = 1 → ∀ k, (findEntry s k).isSome → k ∈ c.removing

theorem Call.collecting_le_active (c : Call) : c.collecting ≤ c.active := by
  unfold Call.collecting
  split
  · exact Nat.le_refl 1
  · exact Nat.le_refl 1
  · exact Nat.zero_le _

theorem Call.storing_le_active (c : Call) : c.storing ≤ c.active := by
  unfold Call.storing
  split
  · exact Nat.le_refl _
  · exact Nat.zero_le _

section Steps

variable {s s' : State} {outcome : Outcome} {i : Nat} {c c' : Call}

theorem stepCall_collecting (h : stepCall s outcome c = some (s', c')) :
    s'.removeAllInProgress = s.removeAllInProgress ∧ c'.collecting = c.collecting ∧
      (c.collecting = 1 → c'.removing.Perm c.removing) ∨
    s'.removeAllInProgress = false ∧ c.collecting = 1 ∧ c'.collecting = 0 := by
  cases callStep h with
  | removeAllData hstep =>
    unfold stepRemoveAllData at hstep
    split at hstep
    · cases hstep
      refine .inl ⟨rfl, rfl, fun _ => .of_eq ?_⟩
      simp [Call.removing, Call.copies]
    · obtain ⟨disk, -, hr⟩ := Option.map_eq_some_iff.mp hstep
      cases hr
      exact .inl ⟨rfl, rfl, fun _ => perm_moved _ _ _ _ _ _⟩
    · cases hstep
      exact .inl ⟨rfl, rfl, fun _ => perm_moved _ _ _ _ _ _⟩
    · cases hstep
      exact .inr ⟨rfl, rfl, rfl⟩
    · cases hstep
      exact .inl ⟨rfl, rfl, by rintro ⟨⟩⟩
    · cases hstep
  | _ =>
    rcases (stepCall_frame h).2.2 with hflag | ⟨pc, hpc⟩
    · exact .inl ⟨hflag, rfl, by rintro ⟨⟩⟩
    · cases hpc

theorem stepCall_storing (h : stepCall s outcome c = some (s', c')) : c'.storing ≤ c.storing := by
  have hone := Call.active_of_step h
  have hle := c'.active_le_one
  simp only [Call.storing, (stepCall_frame h).2.1, hone]
  split
  · exact hle
  · exact Nat.le_refl 0

theorem RemoveAllInv.flag_of_collecting (inv : RemoveAllInv s) (hc : c ∈ s.calls)
    (hone : c.collecting = 1) : s.removeAllInProgress = true := by
  obtain ⟨i, hi⟩ := List.mem_iff_getElem?.mp hc
  have hle := le_total Call.collecting hi
  have hflag := inv.flag
  by_contra hoff
  rw [if_neg hoff] at hflag
  omega

theorem stepCall_removeAllInv (inv : RemoveAllInv s) (hc : s.calls[i]? = some c)
    (hfresh : ∀ r k, c = .swapOut r k .commit → findEntry s k = none)
    (h : stepCall s outcome c = some (s', c')) :
    RemoveAllInv { s' with calls := s.calls.set i c' } := by
  have hcollecting := total_set Call.collecting c' hc
  have hstoring := total_set Call.storing c' hc
  have hle := le_total Call.storing hc
  have hstored := stepCall_storing h
  have hflag := inv.flag
  -- no entry is made while a call has the entries
  have hentry : ∀ d ∈ s.calls, d.collecting = 1 → ∀ k, (findEntry s' k).isSome →
      k ∈ d.removing := by
    intro d hd hone k hk
    rcases (stepCall_effect h).entry hfresh hk with hold | ⟨r, rfl⟩
    · exact inv.covered d hd hone k hold
    · have hnone := inv.alone (inv.flag_of_collecting hd hone)
      have hone' : (Call.swapOut r k .commit).storing = 1 := rfl
      omega
  rcases stepCall_collecting h with ⟨hsame, hkeep, hperm⟩ | ⟨hoff, hone, hzero⟩
  · refine ⟨?_, ?_, ?_⟩
    · simp only [hsame]
      omega
    · intro hon
      have hnone := inv.alone (hsame ▸ hon)
      simp only
      omega
    · refine forall_mem_set_of_ne (fun j d _ hd => hentry d (List.mem_of_getElem? hd)) ?_
      intro hone k hk
      rw [hkeep] at hone
      exact (hperm hone).mem_iff.mpr (hentry c (List.mem_of_getElem? hc) hone k hk)
  · have hon := inv.flag_of_collecting (List.mem_of_getElem? hc) hone
    rw [if_pos hon] at hflag
    refine ⟨?_, ?_, ?_⟩
    · simp only [hoff, Bool.false_eq_true, if_false]
      omega
    · simp only [hoff]
      nofun
    · refine forall_mem_set_of_ne (fun j d _ hd => hentry d (List.mem_of_getElem? hd)) ?_
      rw [hzero]
      nofun

theorem RemoveAllInv.start (inv : RemoveAllInv s) {m : State} (hcalls : m.calls = s.calls)
    (hflag : m.removeAllInProgress = s.removeAllInProgress)
    (hentry : ∀ k, (findEntry m k).isSome → (findEntry s k).isSome) (hzero : c'.collecting = 0)
    (hstoring : s.removeAllInProgress = true → c'.storing = 0) :
    RemoveAllInv { m with calls := m.calls ++ [c'] } := by
  refine ⟨?_, fun hon => ?_, ?_⟩
  · simp only [hcalls, hflag, total_append, total_cons, total_nil, hzero]
    exact inv.flag
  · have hon' : s.removeAllInProgress = true := hflag ▸ hon
    simp only [hcalls, total_append, total_cons, total_nil, hstoring hon']
    exact inv.alone hon'
  · simp only [hcalls]
    refine forall_mem_append_singleton (fun d hd hone k hk => ?_) ?_
    · exact inv.covered d hd hone k (hentry k hk)
    · rw [hzero]
      nofun

/-- A first section takes the entries or leaves the flag alone, and lets no `SwapOut` in while it
is set. -/
theorem start_flag (s : State) (request : Request) :
    (start s request).1.removeAllInProgress = s.removeAllInProgress ∧
      (start s request).2.collecting = 0 ∧
      (s.removeAllInProgress = true → (start s request).2.storing = 0) ∨
    ¬ 0 < s.activeOps ∧ (start s request).1.removeAllInProgress = true ∧
      (start s request).2 = .removeAllData (.unlink s.entries [] none) := by
  cases request with
  | swapOut request =>
    simp only [start, startSwapOut]
    split
    · exact .inl ⟨rfl, rfl, fun _ => rfl⟩
    split
    · exact .inl ⟨rfl, rfl, fun _ => rfl⟩
    split
    · exact .inl ⟨rfl, rfl, fun _ => rfl⟩
    · next hoff => exact .inl ⟨rfl, rfl, fun hon => absurd hon hoff⟩
  | swapIn request =>
    simp only [start, startSwapIn]
    split
    · exact .inl ⟨rfl, rfl, fun _ => rfl⟩
    · exact .inl ⟨rfl, rfl, fun _ => rfl⟩
  | removeData keyId =>
    simp only [start, startRemoveData]
    split
    · exact .inl ⟨rfl, rfl, fun _ => rfl⟩
    split
    · exact .inl ⟨rfl, rfl, fun _ => rfl⟩
    split
    · exact .inl ⟨rfl, rfl, fun _ => rfl⟩
    split
    · exact .inl ⟨rfl, rfl, fun _ => rfl⟩
    · exact .inl ⟨rfl, rfl, fun _ => rfl⟩
  | removeAllData =>
    simp only [start, startRemoveAllData]
    split
    · exact .inl ⟨rfl, rfl, fun _ => rfl⟩
    next hops =>
    split
    · exact .inl ⟨rfl, rfl, fun _ => rfl⟩
    · exact .inr ⟨hops, rfl, rfl⟩
  | getStats => exact .inl ⟨rfl, rfl, fun _ => rfl⟩

theorem start_removeAllInv (inv : RemoveAllInv s) (hidle : ¬ 0 < s.activeOps → s.inFlight = 0)
    (request : Request) :
    RemoveAllInv { (start s request).1 with
      calls := (start s request).1.calls ++ [(start s request).2] } := by
  have hentry := (start_files s request).2.2.2
  have hcalls := (start_frame s request).1
  rcases start_flag s request with ⟨hflag, hzero, hstoring⟩ | ⟨hops, hon, hcall⟩
  · exact inv.start hcalls hflag hentry hzero hstoring
  · have hcollecting : total Call.collecting s.calls = 0 := by
      have hle := total_le_total fun c (_ : c ∈ s.calls) => c.collecting_le_active
      have hnone := hidle hops
      rw [State.inFlight] at hnone
      omega
    have hstoring : total Call.storing s.calls = 0 := by
      have hle := total_le_total fun c (_ : c ∈ s.calls) => c.storing_le_active
      have hnone := hidle hops
      rw [State.inFlight] at hnone
      omega
    refine ⟨?_, fun _ => ?_, ?_⟩
    · simp only [hcalls, hcall, hon, total_append, hcollecting]
      rfl
    · simp only [hcalls, hcall, total_append, hstoring]
      rfl
    · simp only [hcalls, hcall]
      refine forall_mem_append_singleton (fun d hd hone => ?_) fun _ k hk => ?_
      · have hnone := eq_zero_of_total Call.collecting hcollecting hd
        omega
      · cases hfind : findEntry s k with
        | none =>
          have hsome := hentry k hk
          rw [hfind] at hsome
          cases hsome
        | some e =>
          obtain ⟨he, rfl⟩ := find_mem hfind
          simp only [Call.removing, Call.copies, List.map_nil, List.append_nil, List.map_map]
          exact List.mem_map.mpr ⟨e, he, rfl⟩

end Steps

/-! ## The last section of `RemoveAllData` -/

theorem findEntry_finalizeEntries_kept (removed : List (SwapKeyEntry × Bool)) {k : UInt64} :
    ∀ s : State, (∀ r ∈ removed, r.1.keyId = k → r.2 = false) →
    findEntry (removed.foldl (fun s r => finalizeEntry s r.1.keyId r.1.dataSize r.2) s) k =
      if k ∈ removed.map (fun r => r.1.keyId) then
        (findEntry s k).map fun e => { e with status := .active }
      else findEntry s k := by
  induction removed with
  | nil => exact fun s _ => rfl
  | cons r removed ih =>
    intro s hkept
    have hrest := ih (finalizeEntry s r.1.keyId r.1.dataSize r.2)
      fun r' hr' => hkept r' (List.mem_cons_of_mem _ hr')
    rw [List.foldl_cons, hrest, findEntry_finalizeEntry]
    by_cases hk : k = r.1.keyId
    · have hfail := hkept r List.mem_cons_self hk.symm
      subst hk
      simp only [hfail, if_true, Bool.false_eq_true, if_false, List.map_cons, List.mem_cons,
        true_or, Option.map_map]
      split
      · rfl
      · rfl
    · simp only [hk, if_false, List.map_cons, List.mem_cons, false_or]

theorem eq_of_count_le_one {l : List (SwapKeyEntry × Bool)} {k : UInt64}
    (h : (l.map fun r => r.1.keyId).count k ≤ 1) {r r' : SwapKeyEntry × Bool} (hr : r ∈ l)
    (hr' : r' ∈ l) (hk : r.1.keyId = k) (hk' : r'.1.keyId = k) : r = r' := by
  induction l with
  | nil => cases hr
  | cons x l ih =>
    have hcount : ∀ {y : SwapKeyEntry × Bool}, y ∈ l → y.1.keyId = k →
        1 ≤ (l.map fun r => r.1.keyId).count k :=
      fun hy hky => List.count_pos_iff.mpr (List.mem_map.mpr ⟨_, hy, hky⟩)
    rw [List.map_cons, List.count_cons] at h
    rcases List.mem_cons.mp hr with rfl | hl <;> rcases List.mem_cons.mp hr' with rfl | hl'
    · rfl
    · have hpos := hcount hl' hk'
      simp only [hk, beq_self_eq_true, if_true] at h
      omega
    · have hpos := hcount hl hk
      simp only [hk', beq_self_eq_true, if_true] at h
      omega
    · exact ih (by omega) hl hl'

/-- What the entries look like behind the last section of a `RemoveAllData` that has tried to
unlink `removed`: the ones that failed are there, active, unread and removable. -/
structure PartlyRemoved (removed : List (SwapKeyEntry × Bool)) (t : State) : Prop where
  remain : ∀ k, (findEntry t k).isSome ↔ ∃ r ∈ removed, r.1.keyId = k ∧ r.2 = false
  active : ∀ e ∈ t.entries, e.status = .active ∧ e.readCount = 0
  removable : ∀ e ∈ t.entries,
    (start t (.removeData e.keyId)).2 = .removeData e.keyId (.unlink { e with status := .removing })

section Finalize

variable {s t : State} {i : Nat} {removed : List (SwapKeyEntry × Bool)}
  {firstError : Option SwapfsErr}

theorem findEntry_of_finalize
    (h : step s (.go i .ok) = some t)
    (hc : s.calls[i]? = some (.removeAllData (.finalize removed firstError)))
    (k : UInt64) : findEntry t k = findEntry
      (removed.foldl (fun s r => finalizeEntry s r.1.keyId r.1.dataSize r.2) s) k := by
  simp only [step, hc] at h
  cases h
  rfl

theorem partlyRemoved_of_finalize (inv : RemoveAllInv s) (ok : KeysOk s.entries s.calls)
    (hdistinct : Distinct SwapKeyEntry.keyId t.entries) (hkeys : ∀ e ∈ t.entries, e.keyId ≠ 0)
    (hc : s.calls[i]? = some (.removeAllData (.finalize removed firstError)))
    (h : step s (.go i .ok) = some t) : PartlyRemoved removed t := by
  have hmem := List.mem_of_getElem? hc
  have hremoving : (Call.removeAllData (.finalize removed firstError)).removing =
      removed.map fun r => r.1.keyId := by
    simp [Call.removing, Call.copies]
  have hfind := findEntry_of_finalize h hc
  -- an entry was taken once, and nobody reads it
  have htaken : ∀ r ∈ removed, (removed.map fun r => r.1.keyId).count r.1.keyId ≤ 1 ∧
      ∃ e, findEntry s r.1.keyId = some e ∧ e.readCount = 0 := by
    intro r hr
    have hk : r.1.keyId ∈ (Call.removeAllData (.finalize removed firstError)).removing := by
      rw [hremoving]
      exact List.mem_map.mpr ⟨r, hr, rfl⟩
    have hle := le_total (Call.removes r.1.keyId) hc
    have hone := (ok r.1.keyId).oneRemover
    have hpos : 0 < Call.removes r.1.keyId (.removeAllData (.finalize removed firstError)) :=
      List.count_pos_iff.mpr hk
    have hexclusive := (ok r.1.keyId).exclusive
    obtain ⟨e, he⟩ := Option.isSome_iff_exists.mp (ok.entry_of_removing hc hk)
    refine ⟨?_, e, he, ?_⟩
    · rw [← hremoving]
      exact Nat.le_trans hle hone
    · have hreads : total (Call.reads r.1.keyId) s.calls = 0 := by omega
      rw [(ok r.1.keyId).readCount e he, hreads]
      rfl
  have hkept : ∀ r ∈ removed, r.2 = false → ∃ e, findEntry s r.1.keyId = some e ∧
      e.readCount = 0 ∧ findEntry t r.1.keyId = some { e with status := .active } := by
    intro r hr hfail
    obtain ⟨hcount, e, he, hread⟩ := htaken r hr
    refine ⟨e, he, hread, ?_⟩
    have hall : ∀ r' ∈ removed, r'.1.keyId = r.1.keyId → r'.2 = false := by
      intro r' hr' hkey
      rw [eq_of_count_le_one hcount hr' hr hkey rfl]
      exact hfail
    rw [hfind, findEntry_finalizeEntries_kept removed s hall,
      if_pos (List.mem_map.mpr ⟨r, hr, rfl⟩), he]
    rfl
  have hremain : ∀ k, (findEntry t k).isSome ↔ ∃ r ∈ removed, r.1.keyId = k ∧ r.2 = false := by
    intro k
    constructor
    · intro hsome
      have hold : (findEntry s k).isSome := by
        cases hnone : findEntry s k with
        | some e => rfl
        | none =>
          rw [hfind, findEntry_finalizeEntries_none removed s (.inl hnone)] at hsome
          cases hsome
      have hk := inv.covered _ hmem rfl k hold
      rw [hremoving] at hk
      obtain ⟨r, hr, rfl⟩ := List.mem_map.mp hk
      refine ⟨r, hr, rfl, ?_⟩
      by_contra hdone
      rw [hfind, findEntry_finalizeEntries_none removed s
        (.inr ⟨r, hr, rfl, by simpa using hdone⟩)] at hsome
      cases hsome
    · rintro ⟨r, hr, rfl, hfail⟩
      obtain ⟨e, -, -, he⟩ := hkept r hr hfail
      rw [he]
      rfl
  have hactive : ∀ e ∈ t.entries, e.status = .active ∧ e.readCount = 0 := by
    intro e he
    have hself : findEntry t e.keyId = some e := find_of_mem hdistinct he
    obtain ⟨r, hr, hkey, hfail⟩ := (hremain e.keyId).mp (by rw [hself]; rfl)
    obtain ⟨e₀, -, hread, hnew⟩ := hkept r hr hfail
    rw [hkey, hself] at hnew
    cases hnew
    exact ⟨rfl, hread⟩
  refine ⟨hremain, hactive, fun e he => ?_⟩
  have hne := hkeys e he
  have hself : findEntry t e.keyId = some e := find_of_mem hdistinct he
  obtain ⟨hstatus, hread⟩ := hactive e he
  simp only [start, startRemoveData, if_neg hne, hself, hstatus, hread, ne_eq, not_true_eq_false,
    if_false, if_true]

end Finalize

/-! ## Every run -/

theorem QuotaInv.key_ne_zero {limit : UInt64} {s : State} (inv : QuotaInv limit s)
    (hissued : s.issued < 2 ^ 64) {e : SwapKeyEntry} (he : e ∈ s.entries) : e.keyId ≠ 0 := by
  obtain ⟨prov, -⟩ := inv.accounts (Nat.le_of_lt hissued)
  obtain ⟨c, hc, r, hcommitted, -⟩ := prov.owned e he
  have hmem : e.keyId ∈ s.calls.filterMap Call.key :=
    List.mem_filterMap.mpr ⟨c, hc, Call.key_of_made (Call.made_of_committed hcommitted)⟩
  rw [inv.keys.keys] at hmem
  obtain ⟨n, hn, hkey⟩ := List.mem_map.mp hmem
  have hlt := List.mem_range.mp hn
  intro hzero
  have hmod := congrArg UInt64.toNat (hkey.trans hzero)
  rw [UInt64.toNat_ofNat', UInt64.toNat_zero] at hmod
  omega

/-- `activeOps_` counts the calls in flight; when there are none, every entry is active and unread
and no `RemoveAllData` is under way; a `RemoveAllData` leaves what it could not unlink. -/
structure OperationsCounted (s : Session) : Prop where
  count : s.manager.activeOps.toNat = s.manager.inFlight
  idle : s.manager.activeOps = 0 → s.manager.removeAllInProgress = false ∧
    ∀ e ∈ s.manager.entries, e.status = .active ∧ e.readCount = 0
  partly : ∀ i removed firstError t,
    s.manager.calls[i]? = some (.removeAllData (.finalize removed firstError)) →
    step s.manager (.go i .ok) = some t → PartlyRemoved removed t

structure CountedInv (s : Session) : Prop where
  session : SessionInv s
  removeAll : s.manager.issued ≤ 2 ^ 64 → RemoveAllInv s.manager

theorem new_countedInv : CountedInv Session.new :=
  ⟨new_sessionInv, fun _ => ⟨rfl, nofun, nofun⟩⟩

theorem step_removeAllInv {limit : UInt64} {s t : State} {a : Action} (readers : ReadersInv limit s)
    (hfew : FewInFlight s) (inv : s.issued ≤ 2 ^ 64 → RemoveAllInv s) (h : step s a = some t)
    (hissued : t.issued ≤ 2 ^ 64) : RemoveAllInv t := by
  have hissued' : s.issued ≤ 2 ^ 64 := Nat.le_trans (step_keysInv readers.quota.keys h).2 hissued
  have hnodup := readers.quota.keys.nodup hissued'
  obtain ⟨prov, -⟩ := readers.quota.accounts hissued'
  rcases step_cases h with ⟨request, -, rfl⟩ | ⟨i, outcome, c, s', c', -, hc, hstep, rfl⟩
  · have hstart := start_removeAllInv (inv hissued') (fun hops => ?_) request
    · rw [(start_frame s request).1] at hstart
      exact hstart
    · have hzero := UInt32.le_zero_iff.mp (UInt32.not_lt.mp hops)
      exact ofNat_eq_zero hfew (readers.count.symm.trans hzero)
  · refine stepCall_removeAllInv (inv hissued') hc ?_ hstep
    rintro r k rfl
    exact prov.absent hnodup (List.mem_of_getElem? hc) rfl rfl

theorem step_countedInv (s : Session) (a : LifeAction) (t : Session) (inv : CountedInv s)
    (hok : LifeOk s a) (h : s.step a = some t) : CountedInv t := by
  refine ⟨step_sessionInv s a t inv.session hok h, ?_⟩
  obtain ⟨limit, readers⟩ := inv.session.readers
  cases a with
  | call action =>
    cases action with
    | start request =>
      simp only [Session.step, Option.some.injEq] at h
      have hrefuse : ∀ err, State.issued { s.manager with
          calls := s.manager.calls ++ [.refused err] } ≤ 2 ^ 64 →
          RemoveAllInv { s.manager with calls := s.manager.calls ++ [.refused err] } := by
        intro err hissued
        have hsame : State.issued { s.manager with calls := s.manager.calls ++ [.refused err] } =
            s.manager.issued := by
          simp only [State.issued, List.filterMap_append, List.length_append]
          rfl
        exact (inv.removeAll (hsame ▸ hissued)).start rfl rfl (fun _ hk => hk) rfl fun _ => rfl
      subst h
      simp only [Session.start]
      split
      · exact hrefuse _
      split
      · exact hrefuse _
      · exact fun hissued => step_removeAllInv (a := .start request) readers hok.1 inv.removeAll rfl
          hissued
    | go i outcome =>
      obtain ⟨m, hstep, rfl⟩ := Option.map_eq_some_iff.mp h
      exact fun hissued => step_removeAllInv readers hok.1 inv.removeAll hstep hissued
  | init useDirectIo available limit' intervalMs now =>
    simp only [Session.step] at h
    split at h
    · cases h
      exact inv.removeAll
    · cases h
      intro hissued
      obtain ⟨hflag, halone, hcovered⟩ := inv.removeAll hissued
      exact ⟨hflag, halone, hcovered⟩
  | destroy =>
    cases h
    exact inv.removeAll
  | goDestroy i left =>
    simp only [Session.step] at h
    split at h
    · cases h
    next pc hpc =>
    cases pc with
    | wait => cases h; exact inv.removeAll
    | cleanup =>
      cases h
      intro hissued
      obtain ⟨hflag, halone, -⟩ := inv.removeAll hissued
      exact ⟨hflag, halone, fun _ _ _ _ hk => by cases hk⟩
    | reset => cases h; exact inv.removeAll
    | done result => cases h

theorem CountedInv.operationsCounted {s : Session} (inv : CountedInv s)
    (hfew : FewInFlight s.manager) (hissued : s.manager.issued < 2 ^ 64) :
    OperationsCounted s := by
  obtain ⟨limit, readers⟩ := inv.session.readers
  have hissued' := Nat.le_of_lt hissued
  obtain ⟨-, ledger⟩ := readers.quota.accounts hissued'
  have ok := readers.keys hissued'
  have removeAll := inv.removeAll hissued'
  refine ⟨?_, fun hzero => ?_, fun i removed firstError t hc h => ?_⟩
  · rw [readers.count, UInt32.toNat_ofNat', Nat.mod_eq_of_lt hfew]
  · have hidle : s.manager.inFlight = 0 := ofNat_eq_zero hfew (readers.count.symm.trans hzero)
    have hcollecting : total Call.collecting s.manager.calls = 0 := by
      have hle := total_le_total fun c (_ : c ∈ s.manager.calls) => c.collecting_le_active
      rw [State.inFlight] at hidle
      omega
    refine ⟨?_, fun e he => ?_⟩
    · have hflag := removeAll.flag
      by_contra hon
      rw [hcollecting, if_pos (by simpa using hon)] at hflag
      cases hflag
    · have hfind : findEntry s.manager e.keyId = some e := find_of_mem ledger.distinct he
      obtain ⟨hreads, hremoves⟩ := quiet_of_inFlight hidle e.keyId
      have hkey := ok e.keyId
      rw [hreads, hremoves] at hkey
      refine ⟨?_, hkey.readCount e hfind⟩
      cases hstatus : e.status with
      | active => rfl
      | removing => exact absurd (hkey.removing e hfind hstatus) (by decide)
  · have readers' := step_readersInv readers hfew h
    have hsame : t.issued = s.manager.issued := by
      rcases step_cases h with ⟨request, hstart, -⟩ | ⟨j, outcome, c, s', c', -, hc', hstep, rfl⟩
      · cases hstart
      · have hmade := (stepCall_frame hstep).2.1
        simp only [State.issued]
        rw [filterMap_set Call.key c' hc' (by simp [Call.key, hmade])]
    have hissued'' : t.issued < 2 ^ 64 := hsame ▸ hissued
    obtain ⟨-, ledger'⟩ := readers'.quota.accounts (Nat.le_of_lt hissued'')
    exact partlyRemoved_of_finalize removeAll ok ledger'.distinct
      (fun e he => readers'.quota.key_ne_zero hissued'' he) hc h

theorem operationsCounted_of_run {as : List LifeAction} {s : Session}
    (hrun : run Session.step Session.new as = some s)
    (hok : StepsOk Session.step LifeOk Session.new as) (hfew : FewInFlight s.manager)
    (hissued : s.manager.issued < 2 ^ 64) : OperationsCounted s :=
  (run_invariant step_countedInv new_countedInv hok hrun).operationsCounted hfew hissued

/-- Two entries, one of which is read, and a `RemoveAllData` that cannot unlink the second. -/
def partlyRemovedSteps (outcomes : List Outcome) : List LifeAction :=
  smallInit :: (swapOutSteps 0 ++ swapOutSteps 1 ++ swapInSteps 2 ++
    alone 3 .removeAllData (.ok :: .error .ioError :: outcomes)).map .call

theorem stepsOk_partlyRemoved (outcomes : List Outcome) (h : outcomes.length < 2 ^ 31) :
    StepsOk Session.step LifeOk Session.new (partlyRemovedSteps outcomes) := by
  refine stepsOk_smallInit (openSession_open.stepsOk_calls (stepsOk_fewInFlight _ _ ?_))
  simp only [openSession, init, State.inFlight, swapOutSteps, swapInSteps, alone, List.length_append,
    List.length_cons, List.length_map, List.length_nil, total_nil]
  omega

theorem operationsCounted_partlyRemoved :
    ∃ s t, run Session.step Session.new (partlyRemovedSteps [.ok]) = some s ∧
      s.manager.calls[3]? = some (.removeAllData (.finalize
        [({ keyId := 1, dataSize := 1 }, true), ({ keyId := 2, dataSize := 1 }, false)]
        (some .ioError))) ∧
      OperationsCounted s ∧
      run Session.step Session.new (partlyRemovedSteps [.ok, .ok, .ok]) = some t ∧
      t.manager.entries = [{ keyId := 2, dataSize := 1 }] ∧ OperationsCounted t :=
  ⟨_, _, rfl, rfl,
    operationsCounted_of_run rfl (stepsOk_partlyRemoved [.ok] (by decide))
      (by unfold FewInFlight; decide) (by decide),
    rfl, rfl,
    operationsCounted_of_run rfl (stepsOk_partlyRemoved [.ok, .ok, .ok] (by decide))
      (by unfold FewInFlight; decide) (by decide)⟩
/-! ### Two `Destroy` calls and a `RemoveAllData` -/

/-- As `twoDestroys`, with an entry and a `RemoveAllData` that cannot unlink its file; the second
`Destroy` cleans up before its last section. -/
def removeAllUnderDestroy : List LifeAction :=
  smallInit :: (swapOutSteps 0).map LifeAction.call ++
    [LifeAction.call (.start .getStats), .destroy, .goDestroy 0 noneLeft] ++ statsSteps 1 ++
    [LifeAction.destroy, .goDestroy 1 noneLeft, .goDestroy 0 noneLeft, .call (.start .removeAllData),
      .call (.go 2 (.error .ioError)), .call (.go 2 .ok), .goDestroy 1 noneLeft]

/-- The `RemoveAllData` is in front of its last section, and the entries are gone. -/
def clearedUnderRemoveAll : Session :=
  { manager :=
      { Session.cleanup { oneEntry with activeOps := 1, removeAllInProgress := true } noneLeft with
        calls := [.swapOut oneByte 1 (.done (.ok 1)), .getStats .done,
          .removeAllData (.finalize [({ keyId := 1, dataSize := 1 }, false)] (some .ioError))] }
    initialized := false
    destroys := [.done (.error .busy), .done (.ok ())] }

theorem run_removeAllUnderDestroy :
    run Session.step Session.new removeAllUnderDestroy = some clearedUnderRemoveAll := rfl

theorem removeAllUnderDestroy_not_counted :
    run Session.step Session.new removeAllUnderDestroy = some clearedUnderRemoveAll ∧
    ¬ OperationsCounted clearedUnderRemoveAll := by
  refine ⟨run_removeAllUnderDestroy, fun hcounted => ?_⟩
  have hpartly := hcounted.partly 2 _ _ _ rfl rfl
  have hthere := (hpartly.remain 1).mpr ⟨_, List.mem_singleton_self _, rfl, rfl⟩
  cases hthere

end FileApi.Swapfs
