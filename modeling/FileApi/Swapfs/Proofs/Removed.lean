import FileApi.Swapfs.Proofs.RemoveAll

/-!
# Removed keys

A key that was removed has no entry, or an entry that waits for its last reader. The entry comes
back only when that reader cannot unlink the file.
-/

namespace FileApi.Swapfs

open Pool Keyed Machine

/-- The last reader of an entry, which has unlinked its file or is about to. -/
def Call.Deferred (c : Call) : Prop :=
  ∃ request size result, c = .swapIn request (.unlink size result) ∨
    c = .swapIn request (.finishRemoval size true result)

/-- The key was stored, and its entry is gone or waits for its last reader. -/
structure Removed (k : UInt64) (s : State) : Prop where
  committed : ∃ r, Committed s.calls k r
  gone : ∀ e, findEntry s k = some e → e.status = .removing ∧
    ∀ c ∈ s.calls, k ∈ c.removing → c.Deferred

/-- The step is not a last reader of the key that cannot unlink its file. -/
def NoDeferredFailure (k : UInt64) (s : State) (a : Action) : Prop :=
  ∀ i err request size result, a = .go i (.error err) →
    s.calls[i]? = some (.swapIn request (.unlink size result)) → request.keyId ≠ k

section Steps

variable {s s' : State} {k : UInt64} {outcome : Outcome} {i : Nat} {c c' : Call}

theorem not_commit_of_committed (hnodup : (s.calls.filterMap Call.key).Nodup)
    (hcommitted : ∃ r, Committed s.calls k r) (hc : c ∈ s.calls) (r : SwapOutRequest) :
    c ≠ .swapOut r k .commit := by
  rintro rfl
  obtain ⟨r', d, hd, hr'⟩ := hcommitted
  obtain rfl := made_unique hnodup hc hd rfl (Call.made_of_committed hr')
  cases hr'

theorem Removed.of_none (hcommitted : ∃ r, Committed s.calls k r) (hnone : findEntry s k = none) :
    Removed k s := by
  refine ⟨hcommitted, fun e he => ?_⟩
  rw [hnone] at he
  cases he

/-- An entry that waits for its last reader, when another call moves. -/
theorem Effect.waiting {entries : List SwapKeyEntry} (effect : Effect s c entries c')
    (hfresh : ∀ r, c ≠ .swapOut r k .commit)
    (habsent : ∀ r k', c = .swapOut r k' .commit → findEntry s k' = none)
    {e : SwapKeyEntry} (hfind : findEntry s k = some e) (hremoving : e.status = .removing)
    (hk : k ∉ c.removing) :
    (∃ e', find SwapKeyEntry.keyId entries k = some e' ∧ e'.status = .removing) ∧
    (k ∈ c'.removing → c'.Deferred) := by
  cases effect with
  | quiet hreading hperm =>
    exact ⟨⟨e, hfind, hremoving⟩, fun hmem => absurd (hperm.mem_iff.mp hmem) hk⟩
  | commit request keyId =>
    have hne : k ≠ keyId := by
      rintro rfl
      exact hfresh request rfl
    have hnone := habsent request keyId rfl
    rw [put_of_absent hnone, find_append_singleton hnone, if_neg hne]
    exact ⟨⟨e, hfind, hremoving⟩, nofun⟩
  | acquire hentry hactive hreading hnil =>
    next request e₀ pc =>
    have hne : k ≠ request.keyId := by
      rintro rfl
      obtain rfl : e = e₀ := Option.some.inj (hfind.symm.trans hentry)
      rw [hremoving] at hactive
      cases hactive
    rw [find_modify_of_ne (by exact fun _ => rfl) hne]
    refine ⟨⟨e, hfind, hremoving⟩, fun hmem => ?_⟩
    rw [hnil] at hmem
    cases hmem
  | release hentry hmore =>
    next request e₀ result =>
    refine ⟨?_, nofun⟩
    by_cases hkey : k = request.keyId
    · subst hkey
      simp only [findEntry] at hfind
      rw [find_modify_self (by exact fun _ => rfl), hfind]
      exact ⟨_, rfl, hremoving⟩
    · rw [find_modify_of_ne (by exact fun _ => rfl) hkey]
      exact ⟨e, hfind, hremoving⟩
  | releaseLast hentry hstatus hlast =>
    next request e₀ result =>
    refine ⟨?_, fun _ => ⟨request, _, _, .inl rfl⟩⟩
    by_cases hkey : k = request.keyId
    · subst hkey
      simp only [findEntry] at hfind
      rw [find_modify_self (by exact fun _ => rfl), hfind]
      exact ⟨_, rfl, hremoving⟩
    · rw [find_modify_of_ne (by exact fun _ => rfl) hkey]
      exact ⟨e, hfind, hremoving⟩
  | lost hnone => exact ⟨⟨e, hfind, hremoving⟩, nofun⟩
  | finalize removed hkeys hreading hreading' hnil =>
    rw [hkeys] at hk
    have hsame := findEntry_finalizeEntries_kept removed s (k := k)
      fun r hr hkey => absurd (List.mem_map.mpr ⟨r, hr, hkey⟩) hk
    rw [if_neg hk] at hsame
    refine ⟨⟨e, hsame.trans hfind, hremoving⟩, fun hmem => ?_⟩
    rw [hnil] at hmem
    cases hmem

/-- A removed key stays removed when a call moves. -/
theorem stepCall_removed (removed : Removed k s) (hnodup : (s.calls.filterMap Call.key).Nodup)
    (prov : Provenance s.entries s.calls) (hc : s.calls[i]? = some c)
    (hfail : NoDeferredFailure k s (.go i outcome)) (h : stepCall s outcome c = some (s', c')) :
    Removed k { s' with calls := s.calls.set i c' } := by
  have hmem := List.mem_of_getElem? hc
  obtain ⟨r, hr⟩ := removed.committed
  have hcommitted : ∃ r, Committed (s.calls.set i c') k r := ⟨r, Committed.move hc h k r hr⟩
  have hfresh := not_commit_of_committed hnodup removed.committed hmem
  have habsent : ∀ r k', c = .swapOut r k' .commit → findEntry s k' = none := by
    rintro r k' rfl
    exact prov.absent hnodup hmem rfl rfl
  cases hfind : findEntry s k with
  | none =>
    refine .of_none hcommitted ?_
    cases hfind' : findEntry s' k with
    | none => rfl
    | some e =>
      have hentry : (find SwapKeyEntry.keyId s'.entries k).isSome := Option.isSome_of_eq_some hfind'
      rcases (stepCall_effect h).entry habsent hentry with hsome | ⟨r, hcommit⟩
      · rw [hfind] at hsome
        cases hsome
      · exact absurd hcommit (hfresh r)
  | some e =>
    obtain ⟨hremoving, hdeferred⟩ := removed.gone e hfind
    by_cases hk : k ∈ c.removing
    · -- the call is the last reader of the entry
      obtain ⟨request, size, result, rfl | rfl⟩ := hdeferred c hmem hk
      · obtain rfl : k = request.keyId := List.mem_singleton.mp hk
        cases outcome with
        | ok =>
          obtain ⟨⟨s₁, pc'⟩, hstep, hr⟩ := Option.map_eq_some_iff.mp h
          cases hr
          obtain ⟨disk, -, hr⟩ := Option.map_eq_some_iff.mp hstep
          cases hr
          refine ⟨hcommitted, fun e' he' => ?_⟩
          obtain rfl : e = e' := Option.some.inj (hfind.symm.trans he')
          refine ⟨hremoving, forall_mem_set_of_ne (fun j d _ hd => hdeferred d (List.mem_of_getElem? hd)) ?_⟩
          exact fun _ => ⟨request, size, result, .inr rfl⟩
        | error err => exact absurd rfl (hfail i err request size result rfl hc)
        | _ => cases h
      · have hunlinked : k ∈ (Call.swapIn request (.finishRemoval size true result)).unlinked := hk
        rcases unlinked_of_step h hunlinked with hk' | hnone
        · cases outcome with
          | ok =>
            cases h
            cases hk'
          | _ => cases h
        · exact .of_none hcommitted hnone
    · obtain ⟨⟨e', he', hstatus'⟩, hmine⟩ :=
        (stepCall_effect h).waiting hfresh habsent hfind hremoving hk
      refine ⟨hcommitted, fun e₁ he₁ => ?_⟩
      obtain rfl : e' = e₁ := Option.some.inj (he'.symm.trans he₁)
      exact ⟨hstatus', forall_mem_set_of_ne (fun j d _ hd => hdeferred d (List.mem_of_getElem? hd)) hmine⟩

/-- What a first section can do to a key that is removed. -/
theorem start_waiting (hfew : FewInFlight s) (hcount : s.activeOps = UInt32.ofNat s.inFlight)
    (ok : KeysOk s.entries s.calls) (request : Request) {e : SwapKeyEntry}
    (hfind : findEntry s k = some e) (hremoving : e.status = .removing) :
    findEntry (start s request).1 k = some e ∧ k ∉ (start s request).2.removing := by
  cases request with
  | swapOut request =>
    simp only [start, startSwapOut]
    split
    · exact ⟨hfind, List.not_mem_nil⟩
    split
    · exact ⟨hfind, List.not_mem_nil⟩
    split
    · exact ⟨hfind, List.not_mem_nil⟩
    · exact ⟨hfind, List.not_mem_nil⟩
  | swapIn request =>
    simp only [start, startSwapIn]
    split
    · exact ⟨hfind, List.not_mem_nil⟩
    · refine ⟨hfind, ?_⟩
      split <;> exact List.not_mem_nil
  | removeData keyId =>
    simp only [start, startRemoveData]
    split
    · exact ⟨hfind, List.not_mem_nil⟩
    split
    · exact ⟨hfind, List.not_mem_nil⟩
    next e₀ hfind₀ =>
    split
    · exact ⟨hfind, List.not_mem_nil⟩
    next hstatus =>
    have hne : k ≠ keyId := by
      rintro rfl
      obtain rfl : e = e₀ := Option.some.inj (hfind.symm.trans hfind₀)
      exact hstatus (by rw [hremoving]; decide)
    have hsame : find SwapKeyEntry.keyId (modify SwapKeyEntry.keyId s.entries keyId
        fun e => { e with status := .removing }) k = some e :=
      (find_modify_of_ne (by exact fun _ => rfl) hne).trans hfind
    split
    · refine ⟨hsame, fun hmem => hne ?_⟩
      have hkey : k = e₀.keyId := List.mem_singleton.mp hmem
      rw [hkey]
      exact (find_mem hfind₀).2
    · exact ⟨hsame, List.not_mem_nil⟩
  | removeAllData =>
    simp only [start, startRemoveAllData]
    split
    · exact ⟨hfind, List.not_mem_nil⟩
    next hops =>
    split
    · exact ⟨hfind, List.not_mem_nil⟩
    · -- nobody is in flight, but somebody has to remove the entry
      have hzero := UInt32.le_zero_iff.mp (UInt32.not_lt.mp hops)
      have hidle : s.inFlight = 0 := ofNat_eq_zero hfew (hcount.symm.trans hzero)
      obtain ⟨hreads, hremoves⟩ := quiet_of_inFlight hidle k
      have hsome := (ok k).removing e hfind hremoving
      omega
  | getStats => exact ⟨hfind, List.not_mem_nil⟩

theorem start_removed (removed : Removed k s) (hfew : FewInFlight s)
    (hcount : s.activeOps = UInt32.ofNat s.inFlight) (ok : KeysOk s.entries s.calls)
    (request : Request) :
    Removed k { (start s request).1 with calls := s.calls ++ [(start s request).2] } := by
  obtain ⟨r, d, hd, hr⟩ := removed.committed
  have hcommitted : ∃ r, Committed (s.calls ++ [(start s request).2]) k r :=
    ⟨r, d, List.mem_append_left _ hd, hr⟩
  cases hfind : findEntry s k with
  | none =>
    refine .of_none hcommitted ?_
    cases hfind' : findEntry (start s request).1 k with
    | none => rfl
    | some e =>
      have hsome := (start_files s request).2.2.2 k (Option.isSome_of_eq_some hfind')
      rw [hfind] at hsome
      cases hsome
  | some e =>
    obtain ⟨hremoving, hdeferred⟩ := removed.gone e hfind
    obtain ⟨hsame, hmine⟩ := start_waiting hfew hcount ok request hfind hremoving
    refine ⟨hcommitted, fun e' he' => ?_⟩
    obtain rfl : e = e' := Option.some.inj (hsame.symm.trans he')
    exact ⟨hremoving, forall_mem_append_singleton hdeferred fun hmem => absurd hmem hmine⟩

end Steps

/-! ## Calls that begin later -/

/-- A call on a removed key: a `SwapIn` finds no entry, a `RemoveData` does not begin. -/
def Call.Fruitless (k : UInt64) : Call → Prop
  | .swapIn _ .lookup => True
  | .swapIn _ (.endOperation (.error _)) => True
  | .swapIn _ (.done (.error _)) => True
  | .swapIn request _ => request.keyId ≠ k
  | .removeData keyId _ => keyId ≠ k
  | _ => True

section Later

variable {s s' : State} {k : UInt64} {outcome : Outcome} {c c' : Call}

theorem start_fruitless (removed : Removed k s) (request : Request) :
    (start s request).2.Fruitless k := by
  cases request with
  | swapOut request =>
    simp only [start, startSwapOut]
    split
    · trivial
    split
    · trivial
    split
    · trivial
    · trivial
  | swapIn request =>
    simp only [start, startSwapIn]
    split
    · trivial
    · split <;> trivial
  | removeData keyId =>
    simp only [start, startRemoveData]
    split
    · trivial
    split
    · trivial
    next e hfind =>
    split
    · trivial
    next hstatus =>
    have hne : keyId ≠ k := by
      rintro rfl
      refine hstatus ?_
      rw [(removed.gone e hfind).1]
      decide
    split
    · exact hne
    · exact hne
  | removeAllData =>
    simp only [start, startRemoveAllData]
    split
    · trivial
    split
    · trivial
    · trivial
  | getStats => trivial

theorem stepCall_fruitless (removed : Removed k s) (hc : c.Fruitless k)
    (h : stepCall s outcome c = some (s', c')) : c'.Fruitless k := by
  cases callStep h with
  | @swapIn request pc pc' hstep =>
    by_cases hkey : request.keyId = k
    · subst hkey
      unfold stepSwapIn at hstep
      split at hstep
      case h_1 =>
        have hr := Option.some.inj hstep
        unfold lookupKeyForSwapIn at hr
        split at hr
        · cases hr; trivial
        next e hfind =>
        split at hr
        · cases hr; trivial
        next hstatus =>
        rw [(removed.gone e hfind).1] at hstatus
        exact absurd (by decide) hstatus
      case h_10 result =>
        cases hstep
        cases result with
        | ok got => exact absurd rfl hc
        | error err => trivial
      all_goals first | exact absurd rfl hc | cases hstep
    · unfold Call.Fruitless
      split <;> first | trivial | (next heq => cases heq; exact hkey)
  | removeData hstep => exact hc
  | _ => trivial

end Later

/-! ## The call that removes the key -/

/-- A call that removes the key and has not succeeded yet: it is about to unlink the file, has
unlinked it, or reports an error. -/
def Call.Taking (k : UInt64) : Call → Prop
  | .removeData _ (.unlink e) => e.keyId = k
  | .removeData _ (.finalize e (.ok _)) => e.keyId = k
  | .removeData _ (.finalize _ (.error _)) => True
  | .removeData _ (.endOperation (.error _)) => True
  | .removeData _ (.done (.error _)) => True
  | .removeAllData (.unlink todo removed err) =>
      k ∈ (todo ++ removed.map Prod.fst).map SwapKeyEntry.keyId ∧
        (err = none → ∀ r ∈ removed, r.2 = true)
  | .removeAllData (.finalize removed err) =>
      k ∈ (removed.map Prod.fst).map SwapKeyEntry.keyId ∧ (err = none → ∀ r ∈ removed, r.2 = true)
  | .removeAllData (.endOperation (.error _)) => True
  | .removeAllData (.done (.error _)) => True
  | .refused _ => True
  | _ => False

section Taking

variable {s s' : State} {k : UInt64} {outcome : Outcome} {c c' : Call}

/-- The call succeeds when the entry is gone. -/
theorem stepCall_taking (hc : c.Taking k) (h : stepCall s outcome c = some (s', c')) :
    c'.Taking k ∨ findEntry s' k = none := by
  cases callStep h with
  | removeData hstep =>
    unfold stepRemoveData at hstep
    split at hstep
    · obtain ⟨disk, -, hr⟩ := Option.map_eq_some_iff.mp hstep
      cases hr
      exact .inl hc
    · cases hstep
      exact .inl trivial
    · next entry result =>
      cases hstep
      cases result with
      | ok u =>
        obtain rfl : entry.keyId = k := hc
        right
        rw [findEntry_finalizeEntry, if_pos rfl]
        rfl
      | error err => exact .inl trivial
    · next result =>
      cases hstep
      cases result with
      | ok u => exact hc.elim
      | error err => exact .inl trivial
    · cases hstep
  | removeAllData hstep =>
    unfold stepRemoveAllData at hstep
    split at hstep
    · cases hstep
      exact .inl hc
    · next entry todo removed firstError =>
      obtain ⟨disk, -, hr⟩ := Option.map_eq_some_iff.mp hstep
      cases hr
      refine .inl ⟨?_, fun hnone r hr => ?_⟩
      · have hk := hc.1
        simp only [List.map_append, List.map_cons, List.map_nil, List.mem_append, List.mem_cons,
          List.cons_append] at hk ⊢
        tauto
      · rcases List.mem_append.mp hr with hr | hr
        · exact hc.2 hnone r hr
        · rw [List.mem_singleton.mp hr]
    · next entry todo removed firstError err =>
      cases hstep
      refine .inl ⟨?_, fun hnone => ?_⟩
      · have hk := hc.1
        simp only [List.map_append, List.map_cons, List.map_nil, List.mem_append, List.mem_cons,
          List.cons_append] at hk ⊢
        tauto
      · cases firstError <;> cases hnone
    · next removed firstError =>
      cases hstep
      cases firstError with
      | some err => exact .inl trivial
      | none =>
        right
        obtain ⟨hk, hall⟩ := hc
        rw [List.map_map] at hk
        obtain ⟨r, hr, hkey⟩ := List.mem_map.mp hk
        exact findEntry_finalizeEntries_none removed s (.inr ⟨r, hr, hkey, hall rfl r hr⟩)
    · next result =>
      cases hstep
      cases result with
      | ok u => exact hc.elim
      | error err => exact .inl trivial
    · cases hstep
  | _ => exact hc.elim

theorem committed_of_entry (prov : Provenance s.entries s.calls) {e : SwapKeyEntry}
    (hfind : findEntry s k = some e) (c : Call) : ∃ r, Committed (s.calls ++ [c]) k r := by
  obtain ⟨he, rfl⟩ := find_mem hfind
  obtain ⟨d, hd, r, hr, -⟩ := prov.owned e he
  exact ⟨r, d, List.mem_append_left _ hd, hr⟩

/-- The first section of the call. A `RemoveData` whose entry is read succeeds at once. -/
theorem start_taking (ok : KeysOk s.entries s.calls) (prov : Provenance s.entries s.calls)
    {remove : Request} (hremove : remove = .removeData k ∨
      remove = .removeAllData ∧ (findEntry s k).isSome) :
    Removed k { (start s remove).1 with calls := s.calls ++ [(start s remove).2] } ∨
    (start s remove).2.Taking k ∧ ((∃ err, (start s remove).2 = .refused err) ∨
      ∃ r, Committed (s.calls ++ [(start s remove).2]) k r) := by
  rcases hremove with rfl | ⟨rfl, hsome⟩
  · simp only [start, startRemoveData]
    split
    · exact .inr ⟨trivial, .inl ⟨_, rfl⟩⟩
    split
    · exact .inr ⟨trivial, .inl ⟨_, rfl⟩⟩
    next e hfind =>
    split
    · exact .inr ⟨trivial, .inl ⟨_, rfl⟩⟩
    next hstatus =>
    split
    · exact .inr ⟨(find_mem hfind).2, .inr (committed_of_entry prov hfind _)⟩
    · left
      have hnone := (ok k).active e hfind (not_not.mp hstatus)
      refine ⟨committed_of_entry prov hfind _, fun e' he' => ?_⟩
      have hmarked : find SwapKeyEntry.keyId (modify SwapKeyEntry.keyId s.entries k
          fun e => { e with status := .removing }) k = some { e with status := .removing } := by
        rw [find_modify_self (by exact fun _ => rfl)]
        exact congrArg _ hfind
      obtain rfl := Option.some.inj (hmarked.symm.trans he')
      refine ⟨rfl, forall_mem_append_singleton (fun d hd hk => ?_) fun hmem => absurd hmem List.not_mem_nil⟩
      have hzero := eq_zero_of_total (Call.removes k) hnone hd
      exact absurd hzero (Nat.pos_iff_ne_zero.mp (List.count_pos_iff.mpr hk))
  · right
    obtain ⟨e, hfind⟩ := Option.isSome_iff_exists.mp hsome
    refine ⟨?_, .inr (committed_of_entry prov hfind _)⟩
    simp only [start, startRemoveAllData]
    split
    · trivial
    split
    · next hempty =>
      simp only [findEntry, hempty] at hfind
      cases hfind
    · obtain ⟨he, hkey⟩ := find_mem hfind
      refine ⟨?_, fun _ => by rintro _ ⟨⟩⟩
      rw [List.map_nil, List.append_nil]
      exact List.mem_map.mpr ⟨e, he, hkey⟩

end Taking

/-! ## Every run -/

/-- The condition on a step. -/
def RemovalOk (k : UInt64) (s : State) (a : Action) : Prop :=
  FewInFlight s ∧ NoDeferredFailure k s a

/-- The call at `n` removes the key, or the key is removed. -/
structure RemovingInv (limit : UInt64) (k : UInt64) (n : Nat) (s : State) : Prop where
  readers : ReadersInv limit s
  taking : s.issued ≤ 2 ^ 64 → Removed k s ∨ ∃ c, s.calls[n]? = some c ∧ c.Taking k ∧
    ((∃ err, c = .refused err) ∨ ∃ r, Committed s.calls k r)

/-- The key is removed, and no call that began at `n` or later gets anything of it. -/
structure RemovedInv (limit : UInt64) (k : UInt64) (n : Nat) (s : State) : Prop where
  readers : ReadersInv limit s
  removed : s.issued ≤ 2 ^ 64 → Removed k s
  later : s.issued ≤ 2 ^ 64 → ∀ j c, n ≤ j → s.calls[j]? = some c → c.Fruitless k

variable {k : UInt64} {limit : UInt64}

theorem step_removed {s t : State} {a : Action} (readers : ReadersInv limit s)
    (removed : Removed k s) (hok : RemovalOk k s a) (h : step s a = some t)
    (hissued : s.issued ≤ 2 ^ 64) : Removed k t := by
  have hnodup := readers.quota.keys.nodup hissued
  obtain ⟨prov, -⟩ := readers.quota.accounts hissued
  rcases step_cases h with ⟨request, -, rfl⟩ | ⟨i, outcome, c, s', c', rfl, hc, hstep, rfl⟩
  · exact start_removed removed hok.1 readers.count (readers.keys hissued) request
  · exact stepCall_removed removed hnodup prov hc hok.2 hstep

theorem step_committed {s t : State} {a : Action} (h : step s a = some t)
    (hcommitted : ∃ r, Committed s.calls k r) : ∃ r, Committed t.calls k r := by
  obtain ⟨r, hr⟩ := hcommitted
  rcases step_cases h with ⟨request, -, rfl⟩ | ⟨i, outcome, c, s', c', -, hc, hstep, rfl⟩
  · obtain ⟨d, hd, hr⟩ := hr
    exact ⟨r, d, List.mem_append_left _ hd, hr⟩
  · exact ⟨r, Committed.move hc hstep k r hr⟩

theorem step_removingInv {n : Nat} (s : State) (a : Action) (t : State)
    (inv : RemovingInv limit k n s) (hok : RemovalOk k s a) (h : step s a = some t) :
    RemovingInv limit k n t := by
  have hmono := (step_keysInv inv.readers.quota.keys h).2
  refine ⟨step_readersInv inv.readers hok.1 h, fun hissued => ?_⟩
  have hissued' := Nat.le_trans hmono hissued
  rcases inv.taking hissued' with hremoved | ⟨c, hc, htaking, hrefused⟩
  · exact .inl (step_removed inv.readers hremoved hok h hissued')
  · have hrefused' : (∃ err, c = .refused err) ∨ ∃ r, Committed t.calls k r :=
      hrefused.imp_right fun hcommitted => step_committed h hcommitted
    rcases step_cases h with ⟨request, -, rfl⟩ | ⟨i, outcome, d, s', d', -, hd, hstep, rfl⟩
    · refine .inr ⟨c, ?_, htaking, hrefused'⟩
      have hn : n < s.calls.length := (List.getElem?_eq_some_iff.mp hc).1
      rw [List.getElem?_append_left hn]
      exact hc
    · by_cases hin : i = n
      · subst hin
        obtain rfl : c = d := Option.some.inj (hc.symm.trans hd)
        rcases hrefused' with ⟨err, rfl⟩ | hcommitted
        · cases hstep
        rcases stepCall_taking htaking hstep with htaking | hnone
        · refine .inr ⟨d', ?_, htaking, .inr hcommitted⟩
          rw [List.getElem?_set_self (List.getElem?_eq_some_iff.mp hc).1]
        · exact .inl (.of_none hcommitted hnone)
      · refine .inr ⟨c, ?_, htaking, hrefused'⟩
        rw [List.getElem?_set_ne hin]
        exact hc

theorem step_removedInv {n : Nat} (s : State) (a : Action) (t : State)
    (inv : RemovedInv limit k n s) (hok : RemovalOk k s a) (h : step s a = some t) :
    RemovedInv limit k n t := by
  have hmono := (step_keysInv inv.readers.quota.keys h).2
  refine ⟨step_readersInv inv.readers hok.1 h, fun hissued => ?_, fun hissued => ?_⟩
  · have hissued' := Nat.le_trans hmono hissued
    exact step_removed inv.readers (inv.removed hissued') hok h hissued'
  · have hissued' := Nat.le_trans hmono hissued
    have hremoved := inv.removed hissued'
    have hlater := inv.later hissued'
    rcases step_cases h with ⟨request, -, rfl⟩ | ⟨i, outcome, d, s', d', -, hd, hstep, rfl⟩
    · intro j c hj hc
      by_cases hlt : j < s.calls.length
      · rw [List.getElem?_append_left hlt] at hc
        exact hlater j c hj hc
      · rw [List.getElem?_append_right (Nat.le_of_not_lt hlt)] at hc
        obtain rfl := List.mem_singleton.mp (List.mem_of_getElem? hc)
        exact start_fruitless hremoved request
    · intro j c hj hc
      by_cases hij : i = j
      · subst hij
        have hi : i < s.calls.length := (List.getElem?_eq_some_iff.mp hd).1
        rw [List.getElem?_set_self hi] at hc
        cases hc
        exact stepCall_fruitless hremoved (hlater i d hj hd) hstep
      · rw [List.getElem?_set_ne hij] at hc
        exact hlater j c hj hc

/-- No call that began at `n` or later succeeds on the key. -/
structure StaysRemoved (k : UInt64) (n : Nat) (s : State) : Prop where
  query : ∀ e, queryData s k ≠ .ok e
  swapIn : ∀ j request got, n ≤ j → s.calls[j]? = some (.swapIn request (.done (.ok got))) →
    request.keyId ≠ k
  remove : ∀ j, n ≤ j → s.calls[j]? ≠ some (.removeData k (.done (.ok ())))

theorem RemovedInv.staysRemoved {n : Nat} {s : State} (inv : RemovedInv limit k n s)
    (hissued : s.issued ≤ 2 ^ 64) : StaysRemoved k n s := by
  have hlater := inv.later hissued
  refine ⟨fun e hquery => ?_, fun j request got hj hc => hlater j _ hj hc,
    fun j hj hc => hlater j _ hj hc rfl⟩
  unfold queryData at hquery
  split at hquery
  · cases hquery
  split at hquery
  · cases hquery
  next e' hfind =>
  have hremoving := ((inv.removed hissued).gone e' hfind).1
  rw [hremoving, if_pos nofun] at hquery
  cases hquery

/-- A `RemoveData` of the key, or a `RemoveAllData` that found its entry, begins in `s₀` and has
returned success in `t`. Then no call on the key that begins later succeeds, as long as no last
reader of the key fails to unlink its file. -/
theorem staysRemoved_of_run {useDirectIo : Bool} {available limit : UInt64} {intervalMs : UInt32}
    {now : Int} {as bs cs : List Action} {s₀ t u : State} {k : UInt64} {remove : Request}
    (hrun : run step (init useDirectIo
      (Control.initWithAvailableSpace available limit intervalMs now)) as = some s₀)
    (hfew : StepsOk step (fun s _ => FewInFlight s) (init useDirectIo
      (Control.initWithAvailableSpace available limit intervalMs now)) as)
    (hremove : remove = .removeData k ∨ remove = .removeAllData ∧ (findEntry s₀ k).isSome)
    (hremoving : run step s₀ (.start remove :: bs) = some t)
    (hok : StepsOk step (RemovalOk k) s₀ (.start remove :: bs))
    (hreturned : t.calls[s₀.calls.length]? = some (.removeData k (.done (.ok ()))) ∨
      t.calls[s₀.calls.length]? = some (.removeAllData (.done (.ok ()))))
    (hlater : run step t cs = some u) (hok' : StepsOk step (RemovalOk k) t cs)
    (hissued : u.issued ≤ 2 ^ 64) : StaysRemoved k t.calls.length u := by
  have hstep : ∀ s a s', ReadersInv (configuredLimit limit) s → FewInFlight s →
      step s a = some s' → ReadersInv (configuredLimit limit) s' :=
    fun s a s' inv hfew h => step_readersInv inv hfew h
  have readers := run_invariant hstep
    (init_readersInv useDirectIo available limit intervalMs now) hfew hrun
  obtain ⟨s₁, hfirst, hrest⟩ := Option.bind_eq_some_iff.mp hremoving
  have hmono := (step_keysInv readers.quota.keys hfirst).2
  have inv₁ : RemovingInv (configuredLimit limit) k s₀.calls.length s₁ := by
    refine ⟨step_readersInv readers hok.1.1 hfirst, fun hs₁ => ?_⟩
    have hs₀ := Nat.le_trans hmono hs₁
    obtain ⟨prov, -⟩ := readers.quota.accounts hs₀
    rcases step_cases hfirst with ⟨request, heq, rfl⟩ | ⟨i, outcome, c, s', c', heq, -⟩
    · cases heq
      rcases start_taking (readers.keys hs₀) prov hremove with hremoved | ⟨htaking, hrefused⟩
      · exact .inl hremoved
      · exact .inr ⟨_, List.getElem?_concat_length, htaking, hrefused⟩
    · cases heq
  have inv := run_invariant step_removingInv inv₁ (hok.2 s₁ hfirst) hrest
  have hremoved : t.issued ≤ 2 ^ 64 → Removed k t := by
    intro ht
    rcases inv.taking ht with hremoved | ⟨c, hc, htaking, -⟩
    · exact hremoved
    · rcases hreturned with hreturned | hreturned
      · rw [hreturned] at hc
        cases hc
        exact htaking.elim
      · rw [hreturned] at hc
        cases hc
        exact htaking.elim
  have inv' : RemovedInv (configuredLimit limit) k t.calls.length t := by
    refine ⟨inv.readers, hremoved, fun _ j c hj hc => ?_⟩
    have hlt : j < t.calls.length := (List.getElem?_eq_some_iff.mp hc).1
    omega
  exact (run_invariant step_removedInv inv' hok' hlater).staysRemoved hissued

/-! ### Removed for good, and back again -/

theorem stepsOk_removalOk (k : UInt64) (as : List Action) : ∀ s : State,
    s.inFlight + as.length < 2 ^ 32 → (∀ a ∈ as, ∀ i err, a ≠ .go i (.error err)) →
    StepsOk step (RemovalOk k) s as := by
  induction as with
  | nil => exact fun s _ _ => .nil
  | cons a as ih =>
    intro s hlt hclean
    rw [List.length_cons] at hlt
    refine ⟨⟨?_, ?_⟩, fun t ht => ih t ?_ fun b hb => hclean b (List.mem_cons_of_mem _ hb)⟩
    · unfold FewInFlight
      omega
    · intro i err request size result heq
      exact absurd heq (hclean a List.mem_cons_self i err)
    · have hle := step_inFlight_le ht
      omega

def removedByCall : State :=
  { oneEntry with
    control := { oneEntry.control with totalKeys := 0, totalDataSize := 0, totalOccupiedSize := 0 }
    entries := []
    disk := { oneEntry.disk with names := Function.update oneEntry.disk.names (.swap 1) none }
    calls := oneEntry.calls ++ [.removeData 1 (.done (.ok ()))] }

/-- The steps of a `RemoveData` behind its first section. -/
def removeSteps : List Action := [.go 1 .ok, .go 1 .ok, .go 1 .ok]

theorem run_removedByCall :
    run step oneEntry (.start (.removeData 1) :: removeSteps) = some removedByCall := rfl

/-- A `SwapIn` of the key that was removed. -/
def lateSwapIn : List Action := alone 2 (.swapIn ⟨1, 0, 1⟩) [.ok, .ok]

def lateState : State :=
  { removedByCall with
    calls := removedByCall.calls ++ [.swapIn ⟨1, 0, 1⟩ (.done (.error .keyNotFound))] }

theorem run_lateState : run step removedByCall lateSwapIn = some lateState := rfl

theorem staysRemoved_lateState :
    run step oneEntry (.start (.removeData 1) :: removeSteps) = some removedByCall ∧
    run step removedByCall lateSwapIn = some lateState ∧ StaysRemoved 1 2 lateState := by
  refine ⟨run_removedByCall, run_lateState, ?_⟩
  refine staysRemoved_of_run run_oneEntry (stepsOk_fewInFlight _ _ (by decide)) (.inl rfl)
    run_removedByCall (stepsOk_removalOk _ _ _ (by decide) ?_) (.inl rfl) run_lateState
    (stepsOk_removalOk _ _ _ (by decide) ?_) (by decide)
  · simp [removeSteps]
  · simp [lateSwapIn, alone]

/-- A reader, a `RemoveData` that leaves the removal to it, and the reader's `unlink`, which fails;
then another reader. -/
def deferredSteps : List Action :=
  swapOutSteps 0 ++ alone 1 (.swapIn ⟨1, 0, 1⟩) [.ok, .opened false] ++ [Action.start (.removeData 1)]

def backSteps : List Action :=
  [Action.go 1 (.bytes 1), .go 1 .ok, .go 1 (.error .ioError), .go 1 .ok, .go 1 .ok] ++
    alone 3 (.swapIn ⟨1, 0, 1⟩) [.ok, .opened false, .bytes 1, .ok, .ok]

theorem deferred_not_staysRemoved :
    ∃ t u, run step (init false smallControl) deferredSteps = some t ∧
      t.calls[2]? = some (.removeData 1 (.done (.ok ()))) ∧ t.calls.length = 3 ∧
      run step t backSteps = some u ∧
      u.calls[3]? = some (.swapIn ⟨1, 0, 1⟩ (.done (.ok [7]))) ∧ ¬ StaysRemoved 1 3 u :=
  ⟨_, _, rfl, rfl, rfl, rfl, rfl, fun h => h.swapIn 3 _ _ (Nat.le_refl 3) rfl rfl⟩

end FileApi.Swapfs
