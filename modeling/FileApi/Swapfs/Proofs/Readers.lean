import FileApi.Swapfs.Proofs.Quota

/-!
# Readers and removers

`activeOps_` counts the calls in flight and `readCount` the calls that read an entry, both modulo
`2 ^ 32`. As long as fewer calls are in flight, an entry that is read has nobody removing it, and
an entry has at most one call removing it.
-/

namespace FileApi.Swapfs

open Pool Keyed Machine

/-! ## What a call holds -/

/-- One for a call that is counted in `activeOps_`. -/
def Call.active : Call → Nat
  | .swapOut _ _ (.done _) => 0
  | .swapIn _ (.done _) => 0
  | .removeData _ (.done _) => 0
  | .removeAllData (.done _) => 0
  | .getStats .done => 0
  | .refused _ => 0
  | _ => 1

/-- The key of the entry a call reads. -/
def Call.reading : Call → Option UInt64
  | .swapIn request (.openSwap _) => some request.keyId
  | .swapIn request (.read _ _ _ _) => some request.keyId
  | .swapIn request (.finish _) => some request.keyId
  | _ => none

/-- The keys of the entries a call is about to remove. -/
def Call.removing (c : Call) : List UInt64 := c.copies.map Prod.fst

def Call.reads (k : UInt64) (c : Call) : Nat := if c.reading = some k then 1 else 0

def Call.removes (k : UInt64) (c : Call) : Nat := c.removing.count k

/-- The calls in flight. -/
def State.inFlight (s : State) : Nat := total Call.active s.calls

theorem Call.idle {c : Call} (h : c.active = 0) : c.reading = none ∧ c.removing = [] := by
  unfold Call.active at h
  split at h
  case h_7 => cases h
  all_goals exact ⟨rfl, rfl⟩

theorem Call.reads_le_active (k : UInt64) (c : Call) : c.reads k ≤ c.active := by
  by_cases h : c.active = 0
  · rw [Call.reads, (Call.idle h).1, h]
    exact Nat.le_refl 0
  · unfold Call.reads
    split <;> omega

theorem reads_le_inFlight (k : UInt64) (s : State) :
    total (Call.reads k) s.calls ≤ s.inFlight :=
  total_le_total fun c _ => c.reads_le_active k

/-! ## One key -/

/-- An entry, the number of its readers and the number of the calls that remove it. -/
structure KeyOk (entry : Option SwapKeyEntry) (readers removers : Nat) : Prop where
  absent : entry = none → readers = 0 ∧ removers = 0
  readCount : ∀ e, entry = some e → e.readCount = UInt32.ofNat readers
  oneRemover : removers ≤ 1
  active : ∀ e, entry = some e → e.status = .active → removers = 0
  exclusive : removers = 0 ∨ readers = 0
  removing : ∀ e, entry = some e → e.status = .removing → 1 ≤ readers + removers

theorem ofNat_eq_zero {n : Nat} (hn : n < 2 ^ 32) (h : UInt32.ofNat n = 0) : n = 0 := by
  have hmod := congrArg UInt32.toNat h
  rw [UInt32.toNat_ofNat', UInt32.toNat_zero] at hmod
  omega

theorem ofNat_succ_sub_one (n : Nat) : UInt32.ofNat (n + 1) - 1 = UInt32.ofNat n := by
  rw [UInt32.ofNat_add, UInt32.ofNat_one]
  exact UInt32.add_sub_cancel _ _

namespace KeyOk

variable {e : SwapKeyEntry} {n m : Nat}

theorem commit (ok : KeyOk none n m) (keyId dataSize : UInt64) :
    KeyOk (some { keyId, dataSize }) n m := by
  obtain ⟨rfl, rfl⟩ := ok.absent rfl
  refine ⟨nofun, ?_, Nat.zero_le 1, fun _ _ _ => rfl, .inl rfl, ?_⟩
  · rintro _ ⟨⟩
    rfl
  · rintro _ ⟨⟩ hremoving
    cases hremoving

theorem acquire (ok : KeyOk (some e) n m) (hactive : e.status = .active) :
    KeyOk (some { e with readCount := e.readCount + 1 }) (n + 1) m := by
  have hnone := ok.active e rfl hactive
  refine ⟨nofun, ?_, ok.oneRemover, fun _ _ _ => hnone, .inl hnone, fun _ _ _ => by omega⟩
  rintro _ ⟨⟩
  rw [ok.readCount e rfl, UInt32.ofNat_add, UInt32.ofNat_one]

theorem release (ok : KeyOk (some e) (n + 1) m)
    (hmore : e.status ≠ .removing ∨ 0 < e.readCount - 1) :
    KeyOk (some { e with readCount := e.readCount - 1 }) n m := by
  have hexclusive := ok.exclusive
  have hcount : e.readCount - 1 = UInt32.ofNat n := by
    rw [ok.readCount e rfl, ofNat_succ_sub_one]
  refine ⟨nofun, ?_, ok.oneRemover, ?_, by omega, ?_⟩
  · rintro _ ⟨⟩
    exact hcount
  · rintro _ ⟨⟩ hactive
    exact ok.active e rfl hactive
  · rintro _ ⟨⟩ hremoving
    rcases hmore with hstatus | hpos
    · exact absurd hremoving hstatus
    · have hne : n ≠ 0 := by
        rintro rfl
        rw [hcount] at hpos
        exact absurd hpos (by decide)
      omega

theorem releaseLast (ok : KeyOk (some e) (n + 1) m) (hn : n < 2 ^ 32)
    (hremoving : e.status = .removing) (hlast : e.readCount - 1 = 0) :
    KeyOk (some { e with readCount := e.readCount - 1 }) n (m + 1) := by
  have hcount : e.readCount - 1 = UInt32.ofNat n := by
    rw [ok.readCount e rfl, ofNat_succ_sub_one]
  have hzero : n = 0 := ofNat_eq_zero hn (hcount.symm.trans hlast)
  have hexclusive := ok.exclusive
  refine ⟨nofun, ?_, by omega, ?_, .inr hzero, fun _ _ _ => by omega⟩
  · rintro _ ⟨⟩
    exact hcount
  · rintro _ ⟨⟩ hactive
    rw [hremoving] at hactive
    cases hactive

theorem mark (ok : KeyOk (some e) n m) (hread : e.readCount ≠ 0) :
    KeyOk (some { e with status := .removing }) n m := by
  refine ⟨nofun, ?_, ok.oneRemover, ?_, ok.exclusive, ?_⟩
  · rintro _ ⟨⟩
    exact ok.readCount e rfl
  · rintro _ ⟨⟩ hactive
    cases hactive
  · rintro _ ⟨⟩ _
    have hne : n ≠ 0 := by
      rintro rfl
      exact hread (ok.readCount e rfl)
    omega

theorem take (ok : KeyOk (some e) 0 0) : KeyOk (some { e with status := .removing }) 0 1 := by
  refine ⟨nofun, ?_, Nat.le_refl 1, ?_, .inr rfl, fun _ _ _ => Nat.le_refl 1⟩
  · rintro _ ⟨⟩
    exact ok.readCount e rfl
  · rintro _ ⟨⟩ hactive
    cases hactive

theorem remove {entry : Option SwapKeyEntry} (ok : KeyOk entry n (m + 1)) : KeyOk none n m := by
  have hone := ok.oneRemover
  have hexclusive := ok.exclusive
  have hzero : n = 0 ∧ m = 0 := by omega
  exact ⟨fun _ => hzero, nofun, by omega, nofun, .inr hzero.1, nofun⟩

theorem restore (ok : KeyOk (some e) n (m + 1)) : KeyOk (some { e with status := .active }) n m := by
  have hone := ok.oneRemover
  have hzero : m = 0 := by omega
  refine ⟨nofun, ?_, by omega, fun _ _ _ => hzero, .inl hzero, ?_⟩
  · rintro _ ⟨⟩
    exact ok.readCount e rfl
  · rintro _ ⟨⟩ hremoving
    cases hremoving

end KeyOk

/-! ## What a step does to the entries -/

/-- What a call does to the entries in one step, and what it holds then. -/
inductive Effect (s : State) : Call → List SwapKeyEntry → Call → Prop where
  | quiet {c c' : Call} (hreading : c'.reading = c.reading)
      (hremoving : c'.removing.Perm c.removing) : Effect s c s.entries c'
  | commit (request : SwapOutRequest) (keyId : UInt64) :
      Effect s (.swapOut request keyId .commit)
        (put SwapKeyEntry.keyId s.entries { keyId, dataSize := request.bufferSize })
        (.swapOut request keyId (.endOperation (.ok keyId)))
  | acquire {request : SwapInRequest} {e : SwapKeyEntry} {pc : InPc}
      (hfind : findEntry s request.keyId = some e) (hactive : e.status = .active)
      (hreading : (Call.swapIn request pc).reading = some request.keyId)
      (hremoving : (Call.swapIn request pc).removing = []) :
      Effect s (.swapIn request .lookup)
        (modify SwapKeyEntry.keyId s.entries request.keyId
          fun e => { e with readCount := e.readCount + 1 }) (.swapIn request pc)
  | release {request : SwapInRequest} {e : SwapKeyEntry} {result : Except SwapfsErr (List UInt8)}
      (hfind : findEntry s request.keyId = some e)
      (hmore : e.status ≠ .removing ∨ 0 < e.readCount - 1) :
      Effect s (.swapIn request (.finish result))
        (modify SwapKeyEntry.keyId s.entries request.keyId
          fun e => { e with readCount := e.readCount - 1 }) (.swapIn request (.endOperation result))
  | releaseLast {request : SwapInRequest} {e : SwapKeyEntry}
      {result : Except SwapfsErr (List UInt8)} (hfind : findEntry s request.keyId = some e)
      (hremoving : e.status = .removing) (hlast : e.readCount - 1 = 0) :
      Effect s (.swapIn request (.finish result))
        (modify SwapKeyEntry.keyId s.entries request.keyId
          fun e => { e with readCount := e.readCount - 1 })
        (.swapIn request (.unlink e.dataSize result))
  | lost {request : SwapInRequest} {result : Except SwapfsErr (List UInt8)}
      (hfind : findEntry s request.keyId = none) :
      Effect s (.swapIn request (.finish result)) s.entries (.swapIn request (.endOperation result))
  | finalize {c c' : Call} (removed : List (SwapKeyEntry × Bool))
      (hkeys : c.removing = removed.map fun r => r.1.keyId) (hreading : c.reading = none)
      (hreading' : c'.reading = none) (hremoving' : c'.removing = []) :
      Effect s c (removed.foldl (fun s r => finalizeEntry s r.1.keyId r.1.dataSize r.2) s).entries c'

theorem refreshBegin_entries {s s' : State} {now : Int} {start : Option UInt64}
    (h : refreshBegin s now = some (s', start)) : s'.entries = s.entries := by
  rcases refreshBegin_cases h with ⟨rfl, -⟩ | ⟨-, rfl, -⟩
  · rfl
  · rfl

theorem perm_moved (e : SwapKeyEntry) (todo : List SwapKeyEntry)
    (removed : List (SwapKeyEntry × Bool)) (done : Bool) (err err' : Option SwapfsErr) :
    (Call.removeAllData (.unlink todo (removed ++ [(e, done)]) err)).removing.Perm
      (Call.removeAllData (.unlink (e :: todo) removed err')).removing := by
  simp only [Call.removing, Call.copies, List.map_append, List.map_cons, List.map_nil,
    List.cons_append]
  rw [← List.append_assoc]
  exact List.perm_append_singleton _ _

variable {request : SwapInRequest}

section Steps

variable {s s' : State} {outcome : Outcome}

theorem stepSwapOut_effect {request : SwapOutRequest} {keyId : UInt64} {pc pc' : OutPc}
    (h : stepSwapOut s request keyId pc outcome = some (s', pc')) :
    Effect s (.swapOut request keyId pc) s'.entries (.swapOut request keyId pc') := by
  unfold stepSwapOut at h
  split at h
  · obtain ⟨⟨s₁, start⟩, hbegin, hr⟩ := Option.map_eq_some_iff.mp h
    have hentries := refreshBegin_entries hbegin
    cases start
    all_goals
      cases hr
      rw [hentries]
      exact .quiet rfl .rfl
  case h_6 =>
    split at h
    · cases h; exact .quiet rfl .rfl
    · split at h
      · cases h
      · cases h; exact .quiet rfl .rfl
  case h_15 => cases h; exact .commit request keyId
  case h_3 =>
    split at h
    · cases h; exact .quiet rfl .rfl
    · cases h; exact .quiet rfl .rfl
  case h_10 | h_12 =>
    obtain ⟨disk, -, hr⟩ := Option.map_eq_some_iff.mp h
    cases hr; exact .quiet rfl .rfl
  all_goals first | (cases h; exact .quiet rfl .rfl) | cases h

theorem lookupKeyForSwapIn_effect {pc' : InPc} (h : lookupKeyForSwapIn s request = (s', pc')) :
    Effect s (.swapIn request .lookup) s'.entries (.swapIn request pc') := by
  unfold lookupKeyForSwapIn at h
  split at h
  · cases h; exact .quiet rfl .rfl
  next e hfind =>
  split at h
  · cases h; exact .quiet rfl .rfl
  next hstatus =>
  have hactive : e.status = .active := not_not.mp hstatus
  cases h
  split
  · exact .acquire hfind hactive rfl rfl
  · exact .acquire hfind hactive rfl rfl

theorem finishSwapIn_effect {result : Except SwapfsErr (List UInt8)} {pc' : InPc}
    (h : finishSwapIn s request.keyId result = (s', pc')) :
    Effect s (.swapIn request (.finish result)) s'.entries (.swapIn request pc') := by
  unfold finishSwapIn at h
  split at h
  · next hfind =>
    cases h
    exact .lost hfind
  next e hfind =>
  simp only at h
  split at h
  · next hmore =>
    cases h
    exact .release hfind hmore
  · next hlast =>
    cases h
    rw [not_or, not_not] at hlast
    refine .releaseLast hfind hlast.1 ?_
    have hle := UInt32.not_lt.mp hlast.2
    exact UInt32.le_zero_iff.mp hle

theorem stepSwapIn_effect {pc pc' : InPc} (h : stepSwapIn s request pc outcome = some (s', pc')) :
    Effect s (.swapIn request pc) s'.entries (.swapIn request pc') := by
  unfold stepSwapIn at h
  split at h
  case h_1 => exact lookupKeyForSwapIn_effect (Option.some.inj h)
  case h_2 =>
    split at h
    · cases h; exact .quiet rfl .rfl
    split at h
    · cases h; exact .quiet rfl .rfl
    split at h
    · cases h
    split at h
    · cases h
    · cases h; exact .quiet rfl .rfl
  case h_4 =>
    split at h
    · cases h
    simp only at h
    split at h
    · cases h
    split at h
    · cases h; exact .quiet rfl .rfl
    split at h
    · cases h; exact .quiet rfl .rfl
    · cases h; exact .quiet rfl .rfl
  case h_6 => exact finishSwapIn_effect (Option.some.inj h)
  case h_7 =>
    obtain ⟨disk, -, hr⟩ := Option.map_eq_some_iff.mp h
    cases hr; exact .quiet rfl .rfl
  case h_9 removedSize removed result =>
    cases h
    have heffect : Effect s (.swapIn request (.finishRemoval removedSize removed result))
        (finalizeEntry s request.keyId removedSize removed).entries
        (.swapIn request (.endOperation result)) :=
      .finalize [({ keyId := request.keyId, dataSize := removedSize }, removed)] rfl rfl rfl rfl
    exact heffect
  all_goals first | (cases h; exact .quiet rfl .rfl) | cases h

theorem stepRemoveData_effect {keyId : UInt64} {pc pc' : RemovePc}
    (h : stepRemoveData s pc outcome = some (s', pc')) :
    Effect s (.removeData keyId pc) s'.entries (.removeData keyId pc') := by
  unfold stepRemoveData at h
  split at h
  case h_1 =>
    obtain ⟨disk, -, hr⟩ := Option.map_eq_some_iff.mp h
    cases hr; exact .quiet rfl .rfl
  case h_3 entry result =>
    cases h
    exact .finalize [(entry, result.isOk)] rfl rfl rfl rfl
  all_goals first | (cases h; exact .quiet rfl .rfl) | cases h

theorem stepRemoveAllData_effect {pc pc' : RemoveAllPc}
    (h : stepRemoveAllData s pc outcome = some (s', pc')) :
    Effect s (.removeAllData pc) s'.entries (.removeAllData pc') := by
  unfold stepRemoveAllData at h
  split at h
  · cases h
    refine .quiet rfl (.of_eq ?_)
    simp [Call.removing, Call.copies]
  · obtain ⟨disk, -, hr⟩ := Option.map_eq_some_iff.mp h
    cases hr
    exact .quiet rfl (perm_moved _ _ _ _ _ _)
  · cases h
    exact .quiet rfl (perm_moved _ _ _ _ _ _)
  · next removed firstError =>
    cases h
    refine .finalize removed ?_ rfl rfl rfl
    simp [Call.removing, Call.copies]
  · cases h; exact .quiet rfl .rfl
  · cases h

theorem stepCall_effect {c c' : Call} (h : stepCall s outcome c = some (s', c')) :
    Effect s c s'.entries c' := by
  cases callStep h with
  | swapOut hstep =>
    exact stepSwapOut_effect hstep
  | swapIn hstep =>
    exact stepSwapIn_effect hstep
  | removeData hstep =>
    exact stepRemoveData_effect hstep
  | removeAllData hstep =>
    exact stepRemoveAllData_effect hstep
  | getStats hstep =>
    unfold stepGetStats at hstep
    split at hstep
    · obtain ⟨⟨s₁, start⟩, hbegin, hr⟩ := Option.map_eq_some_iff.mp hstep
      have hentries := refreshBegin_entries hbegin
      cases start
      all_goals
        cases hr
        rw [hentries]
        exact .quiet rfl .rfl
    all_goals first | (cases hstep; exact .quiet rfl .rfl) | cases hstep

end Steps

/-! ## What a step does to the counts -/

theorem findEntry_finalizeEntry (s : State) (k k' size : UInt64) (removed : Bool) :
    findEntry (finalizeEntry s k size removed) k' =
      if k' = k then
        (if removed then none else (findEntry s k).map fun e => { e with status := .active })
      else findEntry s k' := by
  unfold finalizeEntry
  split
  · next hfind =>
    by_cases hk : k' = k
    · subst hk
      rw [if_pos rfl, hfind]
      split <;> rfl
    · rw [if_neg hk]
  · next e hfind =>
    split
    · simp only [findEntry, find_erase]
    · simp only [findEntry]
      by_cases hk : k' = k
      · subst hk
        rw [if_pos rfl]
        exact find_modify_self fun _ => rfl
      · rw [if_neg hk]
        exact find_modify_of_ne (fun _ => rfl) hk

theorem finalizeEntries_keyOk (removed : List (SwapKeyEntry × Bool)) {k : UInt64} {n m : Nat} :
    ∀ s : State, KeyOk (findEntry s k) n (m + (removed.map fun r => r.1.keyId).count k) →
    KeyOk (findEntry (removed.foldl (fun s r => finalizeEntry s r.1.keyId r.1.dataSize r.2) s) k)
      n m := by
  induction removed with
  | nil => exact fun s ok => ok
  | cons r removed ih =>
    intro s ok
    refine ih _ ?_
    rw [findEntry_finalizeEntry]
    by_cases hk : k = r.1.keyId
    · subst hk
      rw [List.map_cons, List.count_cons_self, ← Nat.add_assoc] at ok
      rw [if_pos rfl]
      split
      · exact ok.remove
      · cases hfind : findEntry s r.1.keyId with
        | none =>
          have hzero := (ok.absent hfind).2
          omega
        | some e =>
          rw [hfind] at ok
          exact ok.restore
    · rw [if_neg hk]
      rwa [List.map_cons, List.count_cons_of_ne (Ne.symm hk)] at ok

/-- The entries of a state and the calls that read and remove them. -/
def KeysOk (entries : List SwapKeyEntry) (calls : List Call) : Prop :=
  ∀ k, KeyOk (find SwapKeyEntry.keyId entries k) (total (Call.reads k) calls)
    (total (Call.removes k) calls)

section Counts

variable {s : State} {entries : List SwapKeyEntry} {i : Nat} {c c' : Call}

theorem KeysOk.move (ok : KeysOk s.entries s.calls) (hi : s.calls[i]? = some c) {k : UInt64}
    {entry : Option SwapKeyEntry}
    (h : ∀ n m, n + c.reads k ≤ s.inFlight →
      KeyOk (findEntry s k) (n + c.reads k) (m + c.removes k) →
      KeyOk entry (n + c'.reads k) (m + c'.removes k)) :
    KeyOk entry (total (Call.reads k) (s.calls.set i c')) (total (Call.removes k) (s.calls.set i c')) := by
  have hreads := total_set (Call.reads k) c' hi
  have hremoves := total_set (Call.removes k) c' hi
  have hle := le_total (Call.reads k) hi
  have hle' := le_total (Call.removes k) hi
  have hflight := reads_le_inFlight k s
  have hok := ok k
  have h' := h (total (Call.reads k) s.calls - c.reads k)
    (total (Call.removes k) s.calls - c.removes k)
  rw [Nat.sub_add_cancel hle, Nat.sub_add_cancel hle'] at h'
  rw [Nat.eq_sub_of_add_eq hreads, Nat.eq_sub_of_add_eq hremoves, Nat.sub_add_comm hle,
    Nat.sub_add_comm hle']
  exact h' hflight hok

theorem Call.reads_of_reading {k : UInt64} (h : c.reading = some k) (k' : UInt64) :
    c.reads k' = if k' = k then 1 else 0 := by
  simp only [Call.reads, h, Option.some.injEq, eq_comm]

theorem Call.reads_of_none (h : c.reading = none) (k : UInt64) : c.reads k = 0 := by
  simp [Call.reads, h]

theorem Call.removes_of_nil (h : c.removing = []) (k : UInt64) : c.removes k = 0 := by
  simp [Call.removes, h]

theorem Call.removes_of_singleton {k : UInt64} (h : c.removing = [k]) (k' : UInt64) :
    c.removes k' = if k' = k then 1 else 0 := by
  rw [Call.removes, h, List.count_singleton]
  by_cases hk : k' = k
  · simp [hk]
  · simp [hk, Ne.symm hk]

theorem Effect.keysOk (effect : Effect s c entries c') (hi : s.calls[i]? = some c)
    (hfew : s.inFlight < 2 ^ 32) (hnodup : (s.calls.filterMap Call.key).Nodup)
    (prov : Provenance s.entries s.calls) (ok : KeysOk s.entries s.calls) :
    KeysOk entries (s.calls.set i c') := by
  intro k
  refine ok.move hi fun n m hle hk => ?_
  cases effect with
  | quiet hreading hremoving =>
    have hsame : c'.removes k = c.removes k := hremoving.count_eq k
    rw [Call.reads, hreading, hsame]
    exact hk
  | commit request keyId =>
    have hfresh : findEntry s keyId = none :=
      prov.absent hnodup (List.mem_of_getElem? hi) rfl rfl
    rw [put_of_absent hfresh, find_append_singleton hfresh]
    by_cases hkey : k = keyId
    · subst hkey
      rw [if_pos rfl]
      rw [hfresh] at hk
      exact hk.commit k request.bufferSize
    · rw [if_neg hkey]
      exact hk
  | acquire hfind hactive hreading hremoving =>
    next request e pc =>
    rw [Call.reads_of_reading hreading, Call.removes_of_nil hremoving]
    by_cases hkey : k = request.keyId
    · subst hkey
      rw [if_pos rfl, find_modify_self (by exact fun _ => rfl)]
      simp only [findEntry] at hfind hk
      rw [hfind] at hk ⊢
      exact hk.acquire hactive
    · rw [if_neg hkey, find_modify_of_ne (by exact fun _ => rfl) hkey]
      exact hk
  | release hfind hmore =>
    next request e result =>
    have hreads := Call.reads_of_reading (c := .swapIn request (.finish result)) rfl k
    rw [hreads] at hk
    by_cases hkey : k = request.keyId
    · subst hkey
      rw [find_modify_self (by exact fun _ => rfl)]
      rw [if_pos rfl] at hk
      simp only [findEntry] at hfind hk
      rw [hfind] at hk ⊢
      exact hk.release hmore
    · rw [find_modify_of_ne (by exact fun _ => rfl) hkey]
      rw [if_neg hkey] at hk
      exact hk
  | releaseLast hfind hremoving hlast =>
    next request e result =>
    have hreads := Call.reads_of_reading (c := .swapIn request (.finish result)) rfl k
    have hremoves := Call.removes_of_singleton (c := .swapIn request (.unlink e.dataSize result)) rfl k
    rw [hreads] at hk hle
    rw [hremoves]
    by_cases hkey : k = request.keyId
    · subst hkey
      rw [if_pos rfl, find_modify_self (by exact fun _ => rfl)]
      rw [if_pos rfl] at hk hle
      simp only [findEntry] at hfind hk
      rw [hfind] at hk ⊢
      exact hk.releaseLast (by omega) hremoving hlast
    · rw [if_neg hkey, find_modify_of_ne (by exact fun _ => rfl) hkey]
      rw [if_neg hkey] at hk
      exact hk
  | lost hfind =>
    next request result =>
    have hreads := Call.reads_of_reading (c := .swapIn request (.finish result)) rfl k
    rw [hreads] at hk
    by_cases hkey : k = request.keyId
    · -- an entry that is read is there
      subst hkey
      rw [if_pos rfl] at hk
      have hzero := (hk.absent hfind).1
      omega
    · rw [if_neg hkey] at hk
      exact hk
  | finalize removed hkeys hreading hreading' hremoving' =>
    rw [Call.reads_of_none hreading', Call.removes_of_nil hremoving']
    rw [Call.reads_of_none hreading, Call.removes, hkeys] at hk
    exact finalizeEntries_keyOk removed s hk

theorem KeysOk.start (ok : KeysOk entries s.calls) (hreading : c'.reading = none)
    (hremoving : c'.removing = []) : KeysOk entries (s.calls ++ [c']) := by
  intro k
  rw [total_append, total_append, total_cons, total_cons, Call.reads_of_none hreading,
    Call.removes_of_nil hremoving]
  exact ok k

theorem quiet_of_inFlight (h : s.inFlight = 0) (k : UInt64) :
    total (Call.reads k) s.calls = 0 ∧ total (Call.removes k) s.calls = 0 := by
  have hidle : ∀ c ∈ s.calls, c.active = 0 := fun c hc => eq_zero_of_total Call.active h hc
  refine ⟨total_eq_zero _ fun c hc => ?_, total_eq_zero _ fun c hc => ?_⟩
  · exact Call.reads_of_none (Call.idle (hidle c hc)).1 k
  · exact Call.removes_of_nil (Call.idle (hidle c hc)).2 k

/-- `PrepareRemoveEntry`. -/
theorem startRemoveData_keysOk (hfew : s.inFlight < 2 ^ 32) (ok : KeysOk s.entries s.calls)
    (keyId : UInt64) : KeysOk (startRemoveData s keyId).1.entries
      (s.calls ++ [(startRemoveData s keyId).2]) := by
  unfold startRemoveData
  split
  · exact ok.start rfl rfl
  split
  · exact ok.start rfl rfl
  next e hfind =>
  split
  · exact ok.start rfl rfl
  next hstatus =>
  have hactive : e.status = .active := not_not.mp hstatus
  simp only
  split
  · next hcount =>
    intro k
    have hk := ok k
    have hremoves := Call.removes_of_singleton
      (c := .removeData keyId (.unlink { e with status := .removing })) (congrArg (fun k => [k])
        (find_mem hfind).2) k
    rw [total_append, total_append, total_cons, total_cons, total_nil, total_nil, hremoves]
    by_cases hkey : k = keyId
    · subst hkey
      simp only [findEntry] at hfind
      rw [hfind] at hk
      have hzero : total (Call.reads k) s.calls = 0 := by
        refine ofNat_eq_zero (Nat.lt_of_le_of_lt (reads_le_inFlight k s) hfew) ?_
        rw [← hk.readCount e rfl, hcount]
      have hnone := hk.active e rfl hactive
      rw [hzero, hnone] at hk
      rw [find_modify_self (by exact fun _ => rfl), hfind, hzero, hnone, if_pos rfl]
      exact hk.take
    · rw [find_modify_of_ne (by exact fun _ => rfl) hkey, if_neg hkey]
      exact hk
  · next hcount =>
    refine KeysOk.start (fun k => ?_) rfl rfl
    have hk := ok k
    by_cases hkey : k = keyId
    · subst hkey
      simp only [findEntry] at hfind
      rw [hfind] at hk
      rw [find_modify_self (by exact fun _ => rfl), hfind]
      exact hk.mark hcount
    · rw [find_modify_of_ne (by exact fun _ => rfl) hkey]
      exact hk

theorem find_map_removing (k : UInt64) :
    find SwapKeyEntry.keyId (s.entries.map fun e => { e with status := .removing }) k =
      (findEntry s k).map fun e => { e with status := .removing } := by
  simp only [find, findEntry, List.find?_map]
  rfl

theorem count_keys (hdistinct : Distinct SwapKeyEntry.keyId s.entries) (k : UInt64) :
    (s.entries.map SwapKeyEntry.keyId).count k = if (findEntry s k).isSome then 1 else 0 := by
  cases hfind : findEntry s k with
  | none =>
    refine List.count_eq_zero.mpr fun hmem => ?_
    obtain ⟨e, he, hkey⟩ := List.mem_map.mp hmem
    exact find_none hfind he hkey
  | some e =>
    obtain ⟨he, rfl⟩ := find_mem hfind
    exact List.count_eq_one_of_mem hdistinct (List.mem_map_of_mem he)

/-- `CollectRemovableEntries`. -/
theorem startRemoveAllData_keysOk (hidle : ¬ 0 < s.activeOps → s.inFlight = 0)
    (hdistinct : Distinct SwapKeyEntry.keyId s.entries) (ok : KeysOk s.entries s.calls) :
    KeysOk (startRemoveAllData s).1.entries (s.calls ++ [(startRemoveAllData s).2]) := by
  unfold startRemoveAllData
  split
  · exact ok.start rfl rfl
  next hops =>
  split
  · exact ok.start rfl rfl
  intro k
  have hk := ok k
  obtain ⟨hreads, hremoves⟩ := quiet_of_inFlight (hidle hops) k
  have hmine : (Call.removeAllData (.unlink s.entries [] none)).removes k =
      (s.entries.map SwapKeyEntry.keyId).count k := by
    simp [Call.removes, Call.removing, Call.copies, Function.comp_def]
  rw [total_append, total_append, total_cons, total_cons, total_nil, total_nil, hmine,
    count_keys hdistinct, find_map_removing, hreads, hremoves]
  rw [hreads, hremoves] at hk
  cases hfind : findEntry s k with
  | none =>
    simp only [findEntry] at hfind
    rw [hfind] at hk
    exact hk
  | some e =>
    simp only [findEntry] at hfind
    rw [hfind] at hk
    exact hk.take

theorem start_keysOk (hfew : s.inFlight < 2 ^ 32) (hcount : s.activeOps = UInt32.ofNat s.inFlight)
    (hdistinct : Distinct SwapKeyEntry.keyId s.entries) (ok : KeysOk s.entries s.calls)
    (request : Request) : KeysOk (start s request).1.entries (s.calls ++ [(start s request).2]) := by
  cases request with
  | swapOut request =>
    simp only [start, startSwapOut]
    split
    · exact ok.start rfl rfl
    split
    · exact ok.start rfl rfl
    split
    · exact ok.start rfl rfl
    · exact ok.start rfl rfl
  | swapIn request =>
    simp only [start, startSwapIn]
    split
    · exact ok.start rfl rfl
    · refine ok.start ?_ ?_
      · split <;> rfl
      · split <;> rfl
  | removeData keyId => exact startRemoveData_keysOk hfew ok keyId
  | removeAllData =>
    refine startRemoveAllData_keysOk (fun hops => ?_) hdistinct ok
    have hzero := UInt32.le_zero_iff.mp (UInt32.not_lt.mp hops)
    exact ofNat_eq_zero hfew (hcount.symm.trans hzero)
  | getStats => exact ok.start rfl rfl

end Counts

/-! ## `activeOps_` -/

section Active

variable {s s' : State} {outcome : Outcome} {i : Nat} {c c' : Call}

/-- A section keeps `activeOps_`, or it is `EndOperation`. -/
def ActiveStep (ops ops' : UInt32) (c c' : Call) : Prop :=
  ops' = ops ∧ c'.active = c.active ∨ ops' = ops - 1 ∧ c.active = 1 ∧ c'.active = 0

theorem refreshBegin_activeOps {now : Int} {start : Option UInt64}
    (h : refreshBegin s now = some (s', start)) : s'.activeOps = s.activeOps := by
  rcases refreshBegin_cases h with ⟨rfl, -⟩ | ⟨-, rfl, -⟩
  · rfl
  · rfl

theorem finalizeEntry_activeOps (s : State) (k size : UInt64) (removed : Bool) :
    (finalizeEntry s k size removed).activeOps = s.activeOps := by
  unfold finalizeEntry
  split
  · rfl
  · split
    · rfl
    · rfl

theorem finalizeEntries_activeOps (removed : List (SwapKeyEntry × Bool)) : ∀ s : State,
    (removed.foldl (fun s r => finalizeEntry s r.1.keyId r.1.dataSize r.2) s).activeOps =
      s.activeOps := by
  induction removed with
  | nil => exact fun s => rfl
  | cons r removed ih => exact fun s => (ih _).trans (finalizeEntry_activeOps s _ _ _)

theorem stepSwapOut_active {request : SwapOutRequest} {keyId : UInt64} {pc pc' : OutPc}
    (h : stepSwapOut s request keyId pc outcome = some (s', pc')) :
    ActiveStep s.activeOps s'.activeOps (.swapOut request keyId pc) (.swapOut request keyId pc') := by
  unfold stepSwapOut at h
  split at h
  case h_1 =>
    obtain ⟨⟨s₁, start⟩, hbegin, hr⟩ := Option.map_eq_some_iff.mp h
    have hops := refreshBegin_activeOps hbegin
    cases start <;> cases hr <;> exact .inl ⟨hops, rfl⟩
  case h_3 => split at h <;> cases h <;> exact .inl ⟨rfl, rfl⟩
  case h_6 =>
    split at h
    · cases h; exact .inl ⟨rfl, rfl⟩
    split at h
    · cases h
    · cases h
      refine .inl ⟨rfl, ?_⟩
      split <;> rfl
  case h_10 | h_12 =>
    obtain ⟨disk, -, hr⟩ := Option.map_eq_some_iff.mp h
    cases hr; exact .inl ⟨rfl, rfl⟩
  case h_16 => cases h; exact .inr ⟨rfl, rfl, rfl⟩
  all_goals first | (cases h; exact .inl ⟨rfl, rfl⟩) | cases h

theorem stepSwapIn_active {pc pc' : InPc} (h : stepSwapIn s request pc outcome = some (s', pc')) :
    ActiveStep s.activeOps s'.activeOps (.swapIn request pc) (.swapIn request pc') := by
  unfold stepSwapIn at h
  split at h
  case h_1 =>
    have hr := Option.some.inj h
    unfold lookupKeyForSwapIn at hr
    split at hr
    · cases hr; exact .inl ⟨rfl, rfl⟩
    split at hr
    · cases hr; exact .inl ⟨rfl, rfl⟩
    · cases hr
      refine .inl ⟨rfl, ?_⟩
      split <;> rfl
  case h_2 =>
    split at h
    · cases h; exact .inl ⟨rfl, rfl⟩
    split at h
    · cases h; exact .inl ⟨rfl, rfl⟩
    split at h
    · cases h
    split at h
    · cases h
    · cases h; exact .inl ⟨rfl, rfl⟩
  case h_4 =>
    split at h
    · cases h
    simp only at h
    split at h
    · cases h
    split at h
    · cases h; exact .inl ⟨rfl, rfl⟩
    split at h
    · cases h; exact .inl ⟨rfl, rfl⟩
    · cases h; exact .inl ⟨rfl, rfl⟩
  case h_6 =>
    have hr := Option.some.inj h
    unfold finishSwapIn at hr
    split at hr
    · cases hr; exact .inl ⟨rfl, rfl⟩
    simp only at hr
    split at hr
    · cases hr; exact .inl ⟨rfl, rfl⟩
    · cases hr; exact .inl ⟨rfl, rfl⟩
  case h_7 =>
    obtain ⟨disk, -, hr⟩ := Option.map_eq_some_iff.mp h
    cases hr; exact .inl ⟨rfl, rfl⟩
  case h_9 => cases h; exact .inl ⟨finalizeEntry_activeOps _ _ _ _, rfl⟩
  case h_10 => cases h; exact .inr ⟨rfl, rfl, rfl⟩
  all_goals first | (cases h; exact .inl ⟨rfl, rfl⟩) | cases h

theorem stepCall_active (h : stepCall s outcome c = some (s', c')) :
    ActiveStep s.activeOps s'.activeOps c c' := by
  cases callStep h with
  | swapOut hstep =>
    exact stepSwapOut_active hstep
  | swapIn hstep =>
    exact stepSwapIn_active hstep
  | removeData hstep =>
    unfold stepRemoveData at hstep
    split at hstep
    case h_1 =>
      obtain ⟨disk, -, hr⟩ := Option.map_eq_some_iff.mp hstep
      cases hr; exact .inl ⟨rfl, rfl⟩
    case h_3 => cases hstep; exact .inl ⟨finalizeEntry_activeOps _ _ _ _, rfl⟩
    case h_4 => cases hstep; exact .inr ⟨rfl, rfl, rfl⟩
    all_goals first | (cases hstep; exact .inl ⟨rfl, rfl⟩) | cases hstep
  | removeAllData hstep =>
    unfold stepRemoveAllData at hstep
    split at hstep
    case h_2 =>
      obtain ⟨disk, -, hr⟩ := Option.map_eq_some_iff.mp hstep
      cases hr; exact .inl ⟨rfl, rfl⟩
    case h_4 => cases hstep; exact .inl ⟨finalizeEntries_activeOps _ _, rfl⟩
    case h_5 => cases hstep; exact .inr ⟨rfl, rfl, rfl⟩
    all_goals first | (cases hstep; exact .inl ⟨rfl, rfl⟩) | cases hstep
  | getStats hstep =>
    unfold stepGetStats at hstep
    split at hstep
    case h_1 =>
      obtain ⟨⟨s₁, start⟩, hbegin, hr⟩ := Option.map_eq_some_iff.mp hstep
      have hops := refreshBegin_activeOps hbegin
      cases start <;> cases hr <;> exact .inl ⟨hops, rfl⟩
    case h_4 => cases hstep; exact .inr ⟨rfl, rfl, rfl⟩
    all_goals first | (cases hstep; exact .inl ⟨rfl, rfl⟩) | cases hstep

theorem start_active (s : State) (request : Request) :
    (start s request).1.activeOps = s.activeOps + UInt32.ofNat (start s request).2.active := by
  have hzero : s.activeOps = s.activeOps + UInt32.ofNat 0 := (UInt32.add_zero _).symm
  cases request with
  | swapOut request =>
    simp only [start, startSwapOut]
    split
    · exact hzero
    split
    · exact hzero
    split
    · exact hzero
    · rfl
  | swapIn request =>
    simp only [start, startSwapIn]
    split
    · exact hzero
    · split <;> rfl
  | removeData keyId =>
    simp only [start, startRemoveData]
    split
    · exact hzero
    split
    · exact hzero
    split
    · exact hzero
    split
    · rfl
    · exact hzero
  | removeAllData =>
    simp only [start, startRemoveAllData]
    split
    · exact hzero
    split
    · exact hzero
    · rfl
  | getStats => rfl

theorem step_activeOps {t : State} {a : Action} (hcount : s.activeOps = UInt32.ofNat s.inFlight)
    (h : step s a = some t) : t.activeOps = UInt32.ofNat t.inFlight := by
  rcases step_cases h with ⟨request, -, rfl⟩ | ⟨i, outcome, c, s', c', -, hc, hstep, rfl⟩
  · simp only [State.inFlight, total_append, total_cons, total_nil, Nat.add_zero]
    rw [start_active, hcount, UInt32.ofNat_add]
    rfl
  · have hset := total_set Call.active c' hc
    simp only [State.inFlight]
    rcases stepCall_active hstep with ⟨hops, hsame⟩ | ⟨hops, hone, hzero⟩
    · rw [hops, hcount, State.inFlight]
      congr 1
      omega
    · rw [hops, hcount, State.inFlight]
      have hsucc : total Call.active s.calls = total Call.active (s.calls.set i c') + 1 := by omega
      rw [hsucc, ofNat_succ_sub_one]

end Active

/-! ## Every run -/

/-- The counts of the calls in flight and of the readers and removers of every key. -/
structure ReadersInv (limit : UInt64) (s : State) : Prop where
  quota : QuotaInv limit s
  count : s.activeOps = UInt32.ofNat s.inFlight
  keys : s.issued ≤ 2 ^ 64 → KeysOk s.entries s.calls

/-- Fewer calls are in flight than `activeOps_` can count. -/
def FewInFlight (s : State) : Prop := s.inFlight < 2 ^ 32

theorem Call.active_le_one (c : Call) : c.active ≤ 1 := by
  unfold Call.active
  split <;> omega

theorem step_inFlight_le {s t : State} {a : Action} (h : step s a = some t) :
    t.inFlight ≤ s.inFlight + 1 := by
  rcases step_cases h with ⟨request, -, rfl⟩ | ⟨i, outcome, c, s', c', -, hc, hstep, rfl⟩
  · have hone := (start s request).2.active_le_one
    simp only [State.inFlight, total_append, total_cons, total_nil]
    omega
  · have hset := total_set Call.active c' hc
    have hone := c'.active_le_one
    simp only [State.inFlight]
    omega

theorem stepsOk_fewInFlight (as : List Action) : ∀ s : State, s.inFlight + as.length < 2 ^ 32 →
    StepsOk step (fun s _ => FewInFlight s) s as := by
  induction as with
  | nil => exact fun s _ => .nil
  | cons a as ih =>
    intro s hlt
    rw [List.length_cons] at hlt
    refine ⟨?_, fun t ht => ih t ?_⟩
    · unfold FewInFlight
      omega
    · have hle := step_inFlight_le ht
      omega

theorem init_readersInv (useDirectIo : Bool) (available limit : UInt64) (intervalMs : UInt32)
    (now : Int) :
    ReadersInv (configuredLimit limit)
      (init useDirectIo (Control.initWithAvailableSpace available limit intervalMs now)) :=
  ⟨init_quotaInv useDirectIo available limit intervalMs now, rfl,
    fun _ _ => ⟨fun _ => ⟨rfl, rfl⟩, nofun, Nat.zero_le 1, nofun, .inl rfl, nofun⟩⟩

theorem step_readersInv {limit : UInt64} {s t : State} {a : Action} (inv : ReadersInv limit s)
    (hfew : FewInFlight s) (h : step s a = some t) : ReadersInv limit t := by
  refine ⟨step_quotaInv s a t inv.quota trivial h, step_activeOps inv.count h, fun hissued => ?_⟩
  have hissued' : s.issued ≤ 2 ^ 64 := Nat.le_trans (step_keysInv inv.quota.keys h).2 hissued
  have hnodup := inv.quota.keys.nodup hissued'
  obtain ⟨prov, ledger⟩ := inv.quota.accounts hissued'
  have hkeys := inv.keys hissued'
  rcases step_cases h with ⟨request, -, rfl⟩ | ⟨i, outcome, c, s', c', -, hc, hstep, rfl⟩
  · exact start_keysOk hfew inv.count ledger.distinct hkeys request
  · exact (stepCall_effect hstep).keysOk hc hfew hnodup prov hkeys

end FileApi.Swapfs
