import FileApi.Swapfs.History
import FileApi.Swapfs.Proofs.Integrity

/-!
# The manager is a key-value store

Every run of the manager, with any number of calls going on at once, is a sequential run of a store
whose keys are used once, from the empty store to the one that the entries and the files stand for.
-/

namespace FileApi.Swapfs

open Pool Keyed Machine KeyStore

variable {s s' : State} {outcome : Outcome} {c c' : Call} {i : Nat} {k : UInt64}

/-! ## The slots -/

variable {e : SwapKeyEntry}

theorem view_entry (h : findEntry s k = some e) :
    s.view k = some (slotOf e.status (s.content k)) := by
  simp only [State.view, h]

theorem view_absent (h : findEntry s k = none) :
    s.view k = if Used s.calls k then some .gone else none := by
  simp only [State.view, h]

theorem view_congr
    (hstatus : (findEntry s' k).map SwapKeyEntry.status = (findEntry s k).map SwapKeyEntry.status)
    (hcontent : (findEntry s k).isSome → s'.content k = s.content k)
    (hused : Used s'.calls k ↔ Used s.calls k) : s'.view k = s.view k := by
  cases hfind : findEntry s k with
  | none =>
    rw [hfind, Option.map_none, Option.map_eq_none_iff] at hstatus
    rw [view_absent hfind, view_absent hstatus]
    simp only [hused]
  | some e =>
    rw [hfind, Option.map_some] at hstatus
    obtain ⟨e', hfind', hstatus'⟩ := Option.map_eq_some_iff.mp hstatus
    rw [view_entry hfind, view_entry hfind', hstatus', hcontent (by rw [hfind]; rfl)]

variable {calls : List Call}

theorem used_iff : Used calls k ↔ ∃ r, Committed calls k r := by
  constructor
  · rintro ⟨c, hc, hkey⟩
    obtain ⟨⟨k', r⟩, hr, rfl⟩ := Option.map_eq_some_iff.mp hkey
    exact ⟨r, c, hc, hr⟩
  · rintro ⟨r, c, hc, hr⟩
    exact ⟨c, hc, by rw [hr]; rfl⟩

theorem used_set (hc : calls[i]? = some c)
    (h : c'.committed.map Prod.fst = some k ↔ c.committed.map Prod.fst = some k) :
    Used (calls.set i c') k ↔ Used calls k := by
  obtain ⟨hi, hcall⟩ := List.getElem?_eq_some_iff.mp hc
  constructor
  · intro hused
    have hback := exists_mem_set (b := c) (List.getElem?_set_self hi) h.mp hused
    rwa [List.set_set, ← hcall, List.set_getElem_self] at hback
  · exact fun hused => exists_mem_set hc h.mpr hused

theorem used_append (h : c.committed = none) :
    Used (calls ++ [c]) k ↔ Used calls k := by
  simp [Used, h, or_and_right, exists_or]

/-! ## What is known of a state -/

/-- The files that were unlinked are not there. -/
def Unlinked (s : State) : Prop :=
  ∀ c ∈ s.calls, ∀ k ∈ c.unlinked, s.disk.lookup (.swap k) = none

/-- What the store needs of a state of a run. -/
structure Sound (s : State) : Prop where
  nodup : (s.calls.filterMap Call.key).Nodup
  prov : Provenance s.entries s.calls
  keys : KeysOk s.entries s.calls
  files : FilesInv s
  unlinked : Unlinked s

/-- A value that some `SwapOut` committed. -/
def Seen (calls : List Call) (k : UInt64) (v : List UInt8) : Prop :=
  ∃ r, Committed calls k r ∧ r.buffer = v

theorem Sound.seen_unique (sound : Sound s) {v w : List UInt8} (hv : Seen s.calls k v)
    (hw : Seen s.calls k w) : v = w := by
  obtain ⟨r, ⟨d, hd, hr⟩, rfl⟩ := hv
  obtain ⟨r', ⟨d', hd', hr'⟩, rfl⟩ := hw
  have hmade := Call.made_of_committed hr
  have hmade' := Call.made_of_committed hr'
  obtain rfl := made_unique sound.nodup hd hd' hmade hmade'
  rw [(Prod.mk.inj (Option.some.inj (hmade.symm.trans hmade'))).2]

theorem Sound.used (sound : Sound s) (h : findEntry s k = some e) :
    Used s.calls k := by
  obtain ⟨he, rfl⟩ := find_mem h
  obtain ⟨d, hd, r, hr, -⟩ := sound.prov.owned e he
  exact ⟨d, hd, by rw [hr]; rfl⟩

theorem Sound.stored (sound : Sound s) (h : (findEntry s k).isSome)
    (hnone : ∀ d ∈ s.calls, k ∉ d.unlinked) : ∃ v, Seen s.calls k v ∧ s.content k = some v := by
  obtain ⟨r, fd, hr, hlookup⟩ := sound.files.stored k h hnone
  exact ⟨r.buffer, ⟨r, hr, rfl⟩, by rw [State.content, hlookup]; rfl⟩

theorem removers_pos (hd : c ∈ s.calls) (hk : k ∈ c.removing) :
    0 < total (Call.removes k) s.calls := by
  obtain ⟨j, hj⟩ := List.mem_iff_getElem?.mp hd
  exact Nat.lt_of_lt_of_le (List.count_pos_iff.mpr hk) (le_total (Call.removes k) hj)

theorem Sound.active (sound : Sound s) (h : findEntry s k = some e) (hactive : e.status = .active) :
    ∃ v, Seen s.calls k v ∧ s.content k = some v ∧ s.view k = some (.shown v) := by
  have hnone := (sound.keys k).active e h hactive
  obtain ⟨v, hv, hcontent⟩ := sound.stored (by rw [h]; rfl) fun d hd hk => by
    have hpos := removers_pos hd (Call.removing_of_unlinked hk)
    omega
  exact ⟨v, hv, hcontent, by rw [view_entry h, hactive, hcontent]; rfl⟩

variable {v : List UInt8}

theorem entry_of_shown (h : s.view k = some (.shown v)) :
    ∃ e, findEntry s k = some e ∧ e.status = .active := by
  cases hfind : findEntry s k with
  | none =>
    rw [view_absent hfind] at h
    split at h <;> simp at h
  | some e =>
    rw [view_entry hfind] at h
    refine ⟨e, rfl, ?_⟩
    cases hstatus : e.status with
    | active => rfl
    | removing => cases hcontent : s.content k <;> simp [hstatus, hcontent, slotOf] at h

theorem value_eq_none (h : ∀ e, findEntry s k = some e → e.status ≠ .active) :
    s.view.value k = none := by
  refine Option.eq_none_iff_forall_ne_some.mpr fun v hv => ?_
  obtain ⟨e, he, hactive⟩ := entry_of_shown (Store.value_eq_some.mp hv)
  exact h e he hactive

theorem Sound.removing (sound : Sound s) (hc : s.calls[i]? = some c) (hk : k ∈ c.removing) :
    ∃ e, findEntry s k = some e ∧ e.status = .removing := by
  obtain ⟨e, he⟩ := Option.isSome_iff_exists.mp (sound.keys.entry_of_removing hc hk)
  refine ⟨e, he, ?_⟩
  cases hstatus : e.status with
  | removing => rfl
  | active =>
    have hnone := (sound.keys k).active e he hstatus
    have hpos := removers_pos (List.mem_of_getElem? hc) hk
    omega

theorem Sound.hidden (sound : Sound s) (hc : s.calls[i]? = some c) (hk : k ∈ c.removing)
    (hnot : k ∉ c.unlinked) :
    ∃ v, s.content k = some v ∧ s.view k = some (.hidden v) := by
  obtain ⟨e, he, hstatus⟩ := sound.removing hc hk
  obtain ⟨v, -, hcontent⟩ := sound.stored (by rw [he]; rfl) fun d hd hdk => by
    -- nobody else removes the entry
    obtain ⟨j, hj⟩ := List.mem_iff_getElem?.mp hd
    have hone := (sound.keys k).oneRemover
    by_cases hij : i = j
    · subst hij
      obtain rfl : c = d := Option.some.inj (hc.symm.trans hj)
      exact hnot hdk
    · have htwo := add_le_total (Call.removes k) hij hc hj
      have hpos : 0 < c.removes k := List.count_pos_iff.mpr hk
      have hpos' : 0 < d.removes k := List.count_pos_iff.mpr (Call.removing_of_unlinked hdk)
      omega
  exact ⟨v, hcontent, by rw [view_entry he, hstatus, hcontent]; rfl⟩

/-! ## Steps that change no slot -/

/-- A step that changes no slot: a `SwapOut` may touch files that have no entry yet. -/
structure Quiet (s s' : State) (c c' : Call) : Prop where
  status : ∀ k, (findEntry s' k).map SwapKeyEntry.status =
    (findEntry s k).map SwapKeyEntry.status
  files : ∀ k, s'.disk.lookup (.swap k) = s.disk.lookup (.swap k) ∨
    c.key = some k ∧ c.committed = none
  committed : c'.committed = c.committed

theorem Quiet.of_eq (hentries : s'.entries = s.entries) (hdisk : s'.disk = s.disk)
    (hcommitted : c'.committed = c.committed) : Quiet s s' c c' :=
  ⟨fun k => by rw [findEntry, hentries], fun k => .inl (by rw [hdisk]), hcommitted⟩

theorem Sound.view_quiet (sound : Sound s) (hc : s.calls[i]? = some c) (quiet : Quiet s s' c c') :
    State.view { s' with calls := s.calls.set i c' } = s.view := by
  funext k
  refine view_congr (quiet.status k) (fun hentry => ?_) (used_set hc (by rw [quiet.committed]))
  rcases quiet.files k with hsame | ⟨hkey, hnone⟩
  · exact congrArg (Option.map Prod.snd) hsame
  · obtain ⟨r, hmade⟩ := Call.made_of_key hkey
    have habsent := sound.prov.absent sound.nodup (List.mem_of_getElem? hc) hmade hnone
    rw [findEntry, habsent] at hentry
    cases hentry

theorem find_modify_status {l : List SwapKeyEntry} {g : SwapKeyEntry → SwapKeyEntry} (k k' : UInt64)
    (hkey : ∀ e, (g e).keyId = e.keyId) (hstatus : ∀ e, (g e).status = e.status) :
    (find SwapKeyEntry.keyId (modify SwapKeyEntry.keyId l k g) k').map SwapKeyEntry.status =
      (find SwapKeyEntry.keyId l k').map SwapKeyEntry.status := by
  rw [find_modify hkey, Option.map_map]
  congr 1
  funext e
  by_cases h : e.keyId = k <;> simp [h, hstatus]

variable {keyId : UInt64}

theorem stepSwapOut_quiet {request : SwapOutRequest} {pc pc' : OutPc} (hpc : pc ≠ .commit)
    (sound : Sound s) (hc : s.calls[i]? = some (.swapOut request keyId pc))
    (h : stepSwapOut s request keyId pc outcome = some (s', pc')) :
    Quiet s s' (.swapOut request keyId pc) (.swapOut request keyId pc') := by
  have hdisk := stepSwapOut_disk sound.files.disk
    (fun fd n hpc => (sound.files.files _ (List.mem_of_getElem? hc)).writer request keyId fd n
      (by rw [hpc])) h
  have hfiles : ∀ k, s'.disk.lookup (.swap k) = s.disk.lookup (.swap k) ∨
      (Call.swapOut request keyId pc).key = some k ∧
        (Call.swapOut request keyId pc).committed = none := by
    intro k
    rcases hdisk.swap k with hsame | hmine | ⟨hremoving, -⟩
    · exact .inl hsame
    · exact .inr hmine
    · simp [Call.removing, Call.copies] at hremoving
  have hentries : s'.entries = s.entries ∧
      (Call.swapOut request keyId pc').committed = (Call.swapOut request keyId pc).committed := by
    unfold stepSwapOut at h
    split at h
    case h_1 =>
      obtain ⟨⟨s₁, start⟩, hbegin, hr⟩ := Option.map_eq_some_iff.mp h
      have hentries := refreshBegin_entries hbegin
      cases start <;> cases hr <;> exact ⟨hentries, rfl⟩
    case h_3 => split at h <;> cases h <;> exact ⟨rfl, rfl⟩
    case h_6 =>
      split at h
      · cases h; exact ⟨rfl, rfl⟩
      split at h
      · cases h
      · cases h
        refine ⟨rfl, ?_⟩
        split <;> rfl
    case h_10 | h_12 =>
      obtain ⟨disk, -, hr⟩ := Option.map_eq_some_iff.mp h
      cases hr; exact ⟨rfl, rfl⟩
    case h_15 => exact absurd rfl hpc
    case h_16 result => cases h; cases result <;> exact ⟨rfl, rfl⟩
    all_goals first | (cases h; exact ⟨rfl, rfl⟩) | cases h
  exact ⟨fun k => by rw [findEntry, hentries.1], hfiles, hentries.2⟩

/-! ## Steps that change one slot -/

/-- `CommitSwapOutEntry`. -/
theorem commit_view {request : SwapOutRequest} (sound : Sound s)
    (hc : s.calls[i]? = some (.swapOut request keyId .commit)) :
    Step s.view (.put keyId request.buffer) (State.view
      { commitSwapOutEntry s { keyId, dataSize := request.bufferSize } with
        calls := s.calls.set i (.swapOut request keyId (.endOperation (.ok keyId))) }) := by
  have hmem := List.mem_of_getElem? hc
  have habsent : findEntry s keyId = none := sound.prov.absent sound.nodup hmem rfl rfl
  have hunused : ¬ Used s.calls keyId := by
    intro hused
    obtain ⟨r, d, hd, hr⟩ := used_iff.mp hused
    obtain rfl := made_unique sound.nodup hmem hd rfl (Call.made_of_committed hr)
    cases hr
  obtain ⟨fd, hlookup⟩ := sound.files.files _ hmem
  have hnew : s.view keyId = none := by rw [view_absent habsent, if_neg hunused]
  have hfind : ∀ k, find SwapKeyEntry.keyId (put SwapKeyEntry.keyId s.entries
      { keyId, dataSize := request.bufferSize }) k =
      if k = keyId then some { keyId, dataSize := request.bufferSize } else findEntry s k := by
    intro k
    rw [put_of_absent habsent, find_append_singleton habsent]
  convert Step.put request.buffer hnew using 1
  funext k
  by_cases hk : k = keyId
  · subst hk
    rw [Function.update_self, view_entry ((hfind k).trans (if_pos rfl))]
    simp [State.content, commitSwapOutEntry, hlookup, slotOf]
  · rw [Function.update_of_ne hk]
    refine view_congr ?_ (fun _ => rfl) ?_
    · exact congrArg (Option.map SwapKeyEntry.status) ((hfind k).trans (if_neg hk))
    · refine used_set hc ?_
      simp [Call.committed, Ne.symm hk]

theorem slotOf_none (status : KeyStatus) : slotOf status none = .gone := by
  cases status <;> rfl

theorem drop_view {disk : Disk} (sound : Sound s) (hc : s.calls[i]? = some c)
    (hk : k ∈ c.removing) (hnot : k ∉ c.unlinked) (hcommitted : c'.committed = c.committed)
    (h : s.disk.unlink (.swap k) = some disk) :
    Step s.view (.drop k) (State.view { s with disk, calls := s.calls.set i c' }) := by
  obtain ⟨e, he, -⟩ := sound.removing hc hk
  obtain ⟨v, -, hhidden⟩ := sound.hidden hc hk hnot
  obtain ⟨-, hgone, hframe⟩ := Disk.unlink_spec sound.files.disk h
  convert Step.drop hhidden using 1
  funext k'
  by_cases hkey : k' = k
  · subst hkey
    rw [Function.update_self, view_entry (s := { s with disk, calls := s.calls.set i c' }) he]
    simp only [State.content, hgone, Option.map_none, slotOf_none]
  · rw [Function.update_of_ne hkey]
    refine view_congr rfl (fun _ => ?_) (used_set hc (by rw [hcommitted]))
    have hne : SwapFile.swap k' ≠ .swap k := fun heq => hkey (SwapFile.swap.inj heq)
    exact congrArg (Option.map Prod.snd) (hframe _ hne)

theorem finalizeEntry_view_removed (size : UInt64) (h : findEntry s k = some e)
    (hcontent : s.content k = none) (hused : Used s.calls k) :
    (finalizeEntry s k size true).view = s.view := by
  have hcalls := (finalizeEntry_frame s k size true).calls
  have hfind := fun k' => findEntry_finalizeEntry s k k' size true
  funext k'
  by_cases hkey : k' = k
  · subst hkey
    have hnone := (hfind k').trans (if_pos rfl)
    rw [view_absent hnone, hcalls, if_pos hused, view_entry h, hcontent, slotOf_none]
  · refine view_congr ?_ (fun _ => ?_) (by rw [hcalls])
    · rw [hfind, if_neg hkey]
    · rw [State.content, finalizeEntry_disk]
      rfl

theorem finalizeEntry_view_kept (size : UInt64) (h : findEntry s k = some e)
    (hremoving : e.status = .removing) (hcontent : s.content k = some v) :
    Step s.view (.restore k) (finalizeEntry s k size false).view := by
  have hcalls := (finalizeEntry_frame s k size false).calls
  have hfind := fun k' => findEntry_finalizeEntry s k k' size false
  have hdisk : ∀ k', (finalizeEntry s k size false).content k' = s.content k' := by
    intro k'
    rw [State.content, finalizeEntry_disk]
    rfl
  have hhidden : s.view k = some (.hidden v) := by
    rw [view_entry h, hremoving, hcontent]
    rfl
  convert Step.restore hhidden using 1
  funext k'
  by_cases hkey : k' = k
  · subst hkey
    have hsome := (hfind k').trans (if_pos rfl)
    rw [h] at hsome
    rw [Function.update_self, view_entry hsome, hdisk, hcontent]
    rfl
  · rw [Function.update_of_ne hkey]
    exact view_congr (by rw [hfind, if_neg hkey]) (fun _ => hdisk k') (by rw [hcalls])

/-- What is known of an entry that is about to be finalized. -/
def Finalizable (s : State) (r : SwapKeyEntry × Bool) : Prop :=
  ∃ e, findEntry s r.1.keyId = some e ∧ e.status = .removing ∧
    if r.2 then s.content r.1.keyId = none ∧ Used s.calls r.1.keyId
    else ∃ v, s.content r.1.keyId = some v

theorem Finalizable.later {r r' : SwapKeyEntry × Bool} (h : Finalizable s r')
    (hne : r'.1.keyId ≠ r.1.keyId) :
    Finalizable (finalizeEntry s r.1.keyId r.1.dataSize r.2) r' := by
  obtain ⟨e, he, hstatus, hrest⟩ := h
  refine ⟨e, ?_, hstatus, ?_⟩
  · rw [findEntry_finalizeEntry, if_neg hne]
    exact he
  · rw [State.content, finalizeEntry_disk, (finalizeEntry_frame s _ _ r.2).calls]
    exact hrest

theorem finalizeEntries_run (removed : List (SwapKeyEntry × Bool)) : ∀ s : State,
    (removed.map fun r => r.1.keyId).Nodup → (∀ r ∈ removed, Finalizable s r) →
    Run s.view ((removed.filter fun r => !r.2).map fun r => .restore r.1.keyId)
      (removed.foldl (fun s r => finalizeEntry s r.1.keyId r.1.dataSize r.2) s).view := by
  induction removed with
  | nil => exact fun s _ _ => .nil
  | cons r removed ih =>
    intro s hnodup hready
    obtain ⟨hnot, hnodup⟩ := List.nodup_cons.mp hnodup
    have hrest := ih (finalizeEntry s r.1.keyId r.1.dataSize r.2) hnodup fun r' hr' => by
      refine (hready r' (List.mem_cons_of_mem r hr')).later fun heq => hnot ?_
      exact List.mem_map.mpr ⟨r', hr', heq⟩
    obtain ⟨e, he, hstatus, hfile⟩ := hready r List.mem_cons_self
    cases hr : r.2 with
    | true =>
      rw [hr, if_pos rfl] at hfile
      rw [hr, finalizeEntry_view_removed _ he hfile.1 hfile.2] at hrest
      rw [List.filter_cons_of_neg (by simp [hr]), List.foldl_cons, hr]
      exact hrest
    | false =>
      rw [hr, if_neg Bool.false_ne_true] at hfile
      obtain ⟨v, hv⟩ := hfile
      rw [hr] at hrest
      rw [List.filter_cons_of_pos (by simp [hr]), List.foldl_cons, hr]
      exact (Run.one (finalizeEntry_view_kept _ he hstatus hv)).append hrest

/-! ## Every step of a call -/

theorem Sound.removing_nodup (sound : Sound s) (hc : s.calls[i]? = some c) : c.removing.Nodup := by
  rw [List.nodup_iff_count_le_one]
  intro k
  exact Nat.le_trans (le_total (Call.removes k) hc) (sound.keys k).oneRemover

theorem Sound.run_quiet (sound : Sound s) (hc : s.calls[i]? = some c) (quiet : Quiet s s' c c') :
    Run s.view [] (State.view { s' with calls := s.calls.set i c' }) := by
  have hview := sound.view_quiet hc quiet
  rw [hview]
  exact .nil

theorem view_set (c' : Call) (hcalls : s'.calls = s.calls) (hc : s.calls[i]? = some c)
    (hcommitted : c'.committed = c.committed) (removeAllInProgress : Bool) :
    State.view { s' with removeAllInProgress, calls := s.calls.set i c' } = s'.view := by
  funext k
  refine view_congr rfl (fun _ => rfl) ?_
  rw [hcalls]
  exact used_set hc (by rw [hcommitted])

theorem Sound.finalizable (sound : Sound s) (hc : s.calls[i]? = some c) {removed : Bool}
    (hk : e.keyId ∈ c.removing) (hunlinked : e.keyId ∈ c.unlinked ↔ removed = true) :
    Finalizable s (e, removed) := by
  obtain ⟨e', he', hstatus⟩ := sound.removing hc hk
  refine ⟨e', he', hstatus, ?_⟩
  split
  · next h =>
    have hgone := sound.unlinked c (List.mem_of_getElem? hc) e.keyId (hunlinked.mpr h)
    exact ⟨by rw [State.content, hgone]; rfl, sound.used he'⟩
  · next h =>
    obtain ⟨v, hv, -⟩ := sound.hidden hc hk fun hmem => h (hunlinked.mp hmem)
    exact ⟨v, hv⟩

theorem stepSwapIn_run {request : SwapInRequest} {pc pc' : InPc} (sound : Sound s)
    (hc : s.calls[i]? = some (.swapIn request pc))
    (h : stepSwapIn s request pc outcome = some (s', pc')) :
    Run s.view (callEvents s (.swapIn request pc) outcome)
      (State.view { s' with calls := s.calls.set i (.swapIn request pc') }) := by
  have hquiet : ∀ {t : State} {pc₁ : InPc}, t.entries = s.entries → t.disk = s.disk →
      Run s.view [] (State.view { t with calls := s.calls.set i (.swapIn request pc₁) }) :=
    fun hentries hdisk => sound.run_quiet hc (.of_eq hentries hdisk rfl)
  unfold stepSwapIn at h
  split at h
  case h_1 =>
    have hview : State.view { s' with calls := s.calls.set i (.swapIn request pc') } = s.view := by
      have hr := Option.some.inj h
      unfold lookupKeyForSwapIn at hr
      split at hr
      · cases hr; exact sound.view_quiet hc (.of_eq rfl rfl rfl)
      split at hr
      · cases hr; exact sound.view_quiet hc (.of_eq rfl rfl rfl)
      · obtain ⟨rfl, -⟩ := Prod.mk.inj hr
        have hstatus : ∀ k, (find SwapKeyEntry.keyId (modify SwapKeyEntry.keyId s.entries
            request.keyId fun e => { e with readCount := e.readCount + 1 }) k).map
            SwapKeyEntry.status = (findEntry s k).map SwapKeyEntry.status :=
          fun k => find_modify_status request.keyId k (by exact fun _ => rfl) (by exact fun _ => rfl)
        exact sound.view_quiet hc ⟨hstatus, fun k => .inl rfl, rfl⟩
    rw [hview]
    exact .one (.get s.view request.keyId)
  case h_2 =>
    split at h
    · cases h; exact hquiet rfl rfl
    split at h
    · cases h; exact hquiet rfl rfl
    split at h
    · cases h
    split at h
    · cases h
    · cases h; exact hquiet rfl rfl
  case h_4 =>
    split at h
    · cases h
    simp only at h
    split at h
    · cases h
    split at h
    · cases h; exact hquiet rfl rfl
    split at h
    · cases h; exact hquiet rfl rfl
    · cases h; exact hquiet rfl rfl
  case h_6 result =>
    have hr := Option.some.inj h
    unfold finishSwapIn at hr
    split at hr
    · cases hr; exact hquiet rfl rfl
    have hstatus : ∀ k, (find SwapKeyEntry.keyId (modify SwapKeyEntry.keyId s.entries
        request.keyId fun e => { e with readCount := e.readCount - 1 }) k).map
        SwapKeyEntry.status = (findEntry s k).map SwapKeyEntry.status :=
      fun k => find_modify_status request.keyId k (by exact fun _ => rfl) (by exact fun _ => rfl)
    simp only at hr
    split at hr
    · cases hr; exact sound.run_quiet hc ⟨hstatus, fun k => .inl rfl, rfl⟩
    · cases hr; exact sound.run_quiet hc ⟨hstatus, fun k => .inl rfl, rfl⟩
  case h_7 =>
    obtain ⟨disk, hunlink, hr⟩ := Option.map_eq_some_iff.mp h
    cases hr
    exact .one (drop_view sound hc (List.mem_singleton_self _) List.not_mem_nil rfl hunlink)
  case h_9 removedSize removed result =>
    cases h
    have hready : Finalizable s ({ keyId := request.keyId, dataSize := removedSize }, removed) := by
      refine sound.finalizable hc (List.mem_singleton_self _) ?_
      cases removed <;> simp [Call.unlinked]
    have hrun := finalizeEntries_run [(_, removed)] s (List.nodup_singleton _)
      (List.forall_mem_singleton.mpr hready)
    have hset := view_set (.swapIn request (.endOperation result))
      (finalizeEntry_frame s request.keyId removedSize removed).calls hc rfl
      (finalizeEntry s request.keyId removedSize removed).removeAllInProgress
    rw [hset]
    cases removed <;> exact hrun
  all_goals first | (cases h; exact hquiet rfl rfl) | cases h

theorem stepRemoveData_run {pc pc' : RemovePc} (sound : Sound s)
    (hc : s.calls[i]? = some (.removeData keyId pc))
    (h : stepRemoveData s pc outcome = some (s', pc')) :
    Run s.view (callEvents s (.removeData keyId pc) outcome)
      (State.view { s' with calls := s.calls.set i (.removeData keyId pc') }) := by
  have hquiet : ∀ {t : State} {pc₁ : RemovePc}, t.entries = s.entries → t.disk = s.disk →
      Run s.view [] (State.view { t with calls := s.calls.set i (.removeData keyId pc₁) }) :=
    fun hentries hdisk => sound.run_quiet hc (.of_eq hentries hdisk rfl)
  unfold stepRemoveData at h
  split at h
  case h_1 entry =>
    obtain ⟨disk, hunlink, hr⟩ := Option.map_eq_some_iff.mp h
    cases hr
    exact .one (drop_view sound hc (List.mem_singleton_self _) List.not_mem_nil rfl hunlink)
  case h_3 entry result =>
    cases h
    have hready : Finalizable s (entry, result.isOk) := by
      refine sound.finalizable hc (List.mem_singleton_self _) ?_
      cases result <;> simp [Call.unlinked, Except.isOk, Except.toBool]
    have hrun := finalizeEntries_run [(entry, result.isOk)] s (List.nodup_singleton _)
      (List.forall_mem_singleton.mpr hready)
    have hset := view_set (.removeData keyId (.endOperation result))
      (finalizeEntry_frame s entry.keyId entry.dataSize result.isOk).calls hc rfl
      (finalizeEntry s entry.keyId entry.dataSize result.isOk).removeAllInProgress
    rw [hset]
    cases result <;> exact hrun
  all_goals first | (cases h; exact hquiet rfl rfl) | cases h

theorem stepRemoveAllData_run {pc pc' : RemoveAllPc} (sound : Sound s)
    (hc : s.calls[i]? = some (.removeAllData pc))
    (h : stepRemoveAllData s pc outcome = some (s', pc')) :
    Run s.view (callEvents s (.removeAllData pc) outcome)
      (State.view { s' with calls := s.calls.set i (.removeAllData pc') }) := by
  have hquiet : ∀ {t : State} {pc₁ : RemoveAllPc}, t.entries = s.entries → t.disk = s.disk →
      Run s.view [] (State.view { t with calls := s.calls.set i (.removeAllData pc₁) }) :=
    fun hentries hdisk => sound.run_quiet hc (.of_eq hentries hdisk rfl)
  have hkeys := sound.removing_nodup hc
  unfold stepRemoveAllData at h
  split at h
  case h_2 entry todo removed firstError =>
    obtain ⟨disk, hunlink, hr⟩ := Option.map_eq_some_iff.mp h
    cases hr
    simp only [Call.removing, Call.copies, List.map_append, List.map_cons, List.map_map,
      List.cons_append] at hkeys
    refine .one (drop_view sound hc ?_ ?_ rfl hunlink)
    · simp [Call.removing, Call.copies]
    · -- the entry is behind the ones that were unlinked
      intro hmem
      obtain ⟨r, hr, heq⟩ := List.mem_map.mp hmem
      refine (List.nodup_cons.mp hkeys).1 (List.mem_append_right _ ?_)
      exact List.mem_map.mpr ⟨r, List.mem_of_mem_filter hr, heq⟩
  case h_4 removed firstError =>
    cases h
    simp only [Call.removing, Call.copies, List.map_map] at hkeys
    have hready : ∀ r ∈ removed, Finalizable s r := by
      intro r hr
      refine sound.finalizable hc ?_ ?_
      · simp only [Call.removing, Call.copies, List.map_map]
        exact List.mem_map.mpr ⟨r, hr, rfl⟩
      · constructor
        · intro hmem
          obtain ⟨r', hr', heq⟩ := List.mem_map.mp hmem
          obtain ⟨hr', hgone⟩ := List.mem_filter.mp hr'
          rw [← List.inj_on_of_nodup_map hkeys hr' hr heq]
          exact hgone
        · exact fun hgone => List.mem_map.mpr ⟨r, List.mem_filter.mpr ⟨hr, hgone⟩, rfl⟩
    have hrun := finalizeEntries_run removed s hkeys hready
    have hset := fun result => view_set (.removeAllData (.endOperation result))
      (finalizeEntries_frame removed s).calls hc rfl false
    rw [hset]
    exact hrun
  all_goals first | (cases h; exact hquiet rfl rfl) | cases h

theorem stepCall_run (sound : Sound s) (hc : s.calls[i]? = some c)
    (h : stepCall s outcome c = some (s', c')) :
    Run s.view (callEvents s c outcome) (State.view { s' with calls := s.calls.set i c' }) := by
  cases callStep h with
  | @swapOut request keyId pc pc' hstep =>
    by_cases hpc : pc = .commit
    · subst hpc
      cases outcome with
      | ok =>
        cases hstep
        exact .one (commit_view sound hc)
      | _ => cases hstep
    · have hnone : callEvents s (.swapOut request keyId pc) outcome = [] := by
        cases pc <;> first | rfl | exact absurd rfl hpc
      rw [hnone]
      exact sound.run_quiet hc (stepSwapOut_quiet hpc sound hc hstep)
  | swapIn hstep => exact stepSwapIn_run sound hc hstep
  | removeData hstep => exact stepRemoveData_run sound hc hstep
  | removeAllData hstep => exact stepRemoveAllData_run sound hc hstep
  | @getStats pc pc' hstep =>
    have hsame : s'.entries = s.entries ∧ s'.disk = s.disk := by
      unfold stepGetStats at hstep
      split at hstep
      · obtain ⟨⟨s₂, start⟩, hbegin, hr⟩ := Option.map_eq_some_iff.mp hstep
        have hentries := refreshBegin_entries hbegin
        have hdisk := refreshBegin_disk hbegin
        cases start <;> cases hr <;> exact ⟨hentries, hdisk⟩
      all_goals first | (cases hstep; exact ⟨rfl, rfl⟩) | cases hstep
    exact sound.run_quiet hc (.of_eq hsame.1 hsame.2 rfl)

/-! ## First sections -/

theorem view_append (hcalls : s'.calls = s.calls) (hcommitted : c.committed = none) :
    State.view { s' with calls := s.calls ++ [c] } = s'.view := by
  funext k
  refine view_congr rfl (fun _ => rfl) ?_
  rw [hcalls]
  exact used_append hcommitted

theorem hide_view (sound : Sound s) (h : findEntry s k = some e) (hactive : e.status = .active)
    (activeOps : UInt32) :
    Step s.view (.hide k) (State.view { s with
      activeOps
      entries := modify SwapKeyEntry.keyId s.entries k fun e => { e with status := .removing } }) := by
  obtain ⟨v, -, hcontent, hshown⟩ := sound.active h hactive
  convert Step.hide hshown using 1
  funext k'
  by_cases hk : k' = k
  · subst hk
    have hfind : find SwapKeyEntry.keyId (modify SwapKeyEntry.keyId s.entries k' fun e =>
        { e with status := .removing }) k' = some { e with status := .removing } := by
      rw [find_modify_self (by exact fun _ => rfl)]
      exact congrArg (Option.map _) h
    rw [Function.update_self]
    refine (view_entry hfind).trans ?_
    exact congrArg (fun content => some (slotOf .removing content)) hcontent
  · rw [Function.update_of_ne hk]
    refine view_congr ?_ (fun _ => rfl) Iff.rfl
    exact congrArg (Option.map _) (find_modify_of_ne (by exact fun _ => rfl) hk)

theorem Sound.all_active (sound : Sound s) (hidle : s.inFlight = 0) (h : findEntry s k = some e) :
    e.status = .active := by
  cases hstatus : e.status with
  | active => rfl
  | removing =>
    obtain ⟨hreads, hremoves⟩ := quiet_of_inFlight hidle k
    have hpos := (sound.keys k).removing e h hstatus
    omega

/-- `CollectRemovableEntries`. -/
theorem hideAll_view (sound : Sound s) (hidle : s.inFlight = 0) (activeOps : UInt32)
    (removeAllInProgress : Bool) :
    Step s.view (.hideAll (s.entries.map SwapKeyEntry.keyId)) (State.view { s with
      activeOps
      removeAllInProgress
      entries := s.entries.map fun e => { e with status := .removing } }) := by
  have hkeys : ∀ k, k ∈ s.entries.map SwapKeyEntry.keyId ↔ ∃ v, s.view k = some (.shown v) := by
    intro k
    constructor
    · intro hmem
      obtain ⟨e, he, hkey⟩ := List.mem_map.mp hmem
      cases hfind : findEntry s k with
      | none => exact absurd hkey (find_none hfind he)
      | some e' =>
        obtain ⟨v, -, -, hshown⟩ := sound.active hfind (sound.all_active hidle hfind)
        exact ⟨v, hshown⟩
    · rintro ⟨v, hshown⟩
      obtain ⟨e, he, -⟩ := entry_of_shown hshown
      obtain ⟨hmem, rfl⟩ := find_mem he
      exact List.mem_map_of_mem hmem
  convert Step.hideAll hkeys using 1
  funext k
  have hmap := find_map_removing (s := s) k
  cases hfind : findEntry s k with
  | none =>
    rw [hfind] at hmap
    refine (view_absent hmap).trans ?_
    rw [view_absent hfind]
    show (if Used s.calls k then some Slot.gone else none) = _
    split <;> rfl
  | some e =>
    obtain ⟨v, -, hcontent, hshown⟩ := sound.active hfind (sound.all_active hidle hfind)
    rw [hfind] at hmap
    refine (view_entry hmap).trans ?_
    rw [hshown]
    exact congrArg (fun content => some (slotOf .removing content)) hcontent

theorem start_committed (s : State) (request : Request) : (start s request).2.committed = none := by
  cases request with
  | swapOut request =>
    simp only [start, startSwapOut]
    split
    · rfl
    split
    · rfl
    split <;> rfl
  | swapIn request =>
    simp only [start, startSwapIn]
    split <;> rfl
  | removeData keyId =>
    simp only [start, startRemoveData]
    split
    · rfl
    split
    · rfl
    split
    · rfl
    split <;> rfl
  | removeAllData =>
    simp only [start, startRemoveAllData]
    split
    · rfl
    split <;> rfl
  | getStats => rfl

/-- A first section is its events. -/
theorem start_run (sound : Sound s) (hidle : ¬ 0 < s.activeOps → s.inFlight = 0)
    (request : Request) :
    Run s.view (startEvents s request)
      (State.view { (start s request).1 with calls := s.calls ++ [(start s request).2] }) := by
  rw [view_append (start_frame s request).1 (start_committed s request)]
  have hnil : ∀ {t : State}, t.view = s.view → Run s.view [] t.view := by
    intro t ht
    rw [ht]
    exact .nil
  cases request with
  | swapOut request =>
    simp only [start, startSwapOut]
    split
    · exact hnil rfl
    split
    · exact hnil rfl
    split <;> exact hnil rfl
  | swapIn request =>
    simp only [start, startSwapIn]
    split <;> exact hnil rfl
  | removeData keyId =>
    simp only [start, startEvents, startRemoveData]
    split
    · exact .nil
    cases hfind : findEntry s keyId with
    | none =>
      have hvalue : s.view.value keyId = none := value_eq_none (by simp [hfind])
      rw [← hvalue]
      exact .one (.get _ _)
    | some e =>
      simp only
      split
      · next hstatus =>
        have hvalue : s.view.value keyId = none := value_eq_none (by simp [hfind, hstatus])
        rw [← hvalue]
        exact .one (.get _ _)
      · next hstatus =>
        have hhide := hide_view sound hfind (not_not.mp hstatus)
        split
        · exact .one (hhide _)
        · exact .one (hhide s.activeOps)
  | removeAllData =>
    simp only [start, startEvents, startRemoveAllData]
    split
    · exact .nil
    next hops =>
    have hhide := hideAll_view sound (hidle hops)
    split
    · next hempty =>
      have hsame := hhide s.activeOps s.removeAllInProgress
      have hview : State.view { s with entries := s.entries.map fun e =>
          { e with status := .removing } } = s.view := by
        funext k
        refine view_congr ?_ (fun _ => rfl) Iff.rfl
        refine (congrArg (Option.map _) (find_map_removing k)).trans ?_
        simp [findEntry, find, hempty]
      rw [← hview] at hsame ⊢
      exact .one hsame
    · exact .one (hhide _ true)
  | getStats => exact hnil rfl

/-! ## The files that were unlinked -/

theorem unlinked_of_stepCall (ok : s.disk.Ok) (hgone : ∀ k ∈ c.unlinked, s.disk.lookup (.swap k) = none)
    (h : stepCall s outcome c = some (s', c')) :
    ∀ k ∈ c'.unlinked, s'.disk.lookup (.swap k) = none := by
  intro k hk
  cases callStep h with
  | @swapOut request keyId pc pc' hstep =>
    cases hk
  | @swapIn request pc pc' hstep =>
    unfold stepSwapIn at hstep
    split at hstep
    case h_1 =>
      have hr := Option.some.inj hstep
      unfold lookupKeyForSwapIn at hr
      split at hr
      · cases hr; cases hk
      split at hr
      · cases hr; cases hk
      · cases hr
        split at hk <;> cases hk
    case h_2 =>
      split at hstep
      · cases hstep; cases hk
      split at hstep
      · cases hstep; cases hk
      split at hstep
      · cases hstep
      split at hstep
      · cases hstep
      · cases hstep; cases hk
    case h_4 =>
      split at hstep
      · cases hstep
      simp only at hstep
      split at hstep
      · cases hstep
      split at hstep
      · cases hstep; cases hk
      split at hstep
      · cases hstep; cases hk
      · cases hstep; cases hk
    case h_6 =>
      have hr := Option.some.inj hstep
      unfold finishSwapIn at hr
      split at hr
      · cases hr; cases hk
      simp only at hr
      split at hr <;> cases hr <;> cases hk
    case h_7 =>
      obtain ⟨disk, hunlink, hr⟩ := Option.map_eq_some_iff.mp hstep
      cases hr
      obtain rfl := List.mem_singleton.mp hk
      exact (Disk.unlink_spec ok hunlink).2.1
    all_goals first | (cases hstep; cases hk) | cases hstep
  | @removeData keyId pc pc' hstep =>
    unfold stepRemoveData at hstep
    split at hstep
    case h_1 entry =>
      obtain ⟨disk, hunlink, hr⟩ := Option.map_eq_some_iff.mp hstep
      cases hr
      obtain rfl := List.mem_singleton.mp hk
      exact (Disk.unlink_spec ok hunlink).2.1
    all_goals first | (cases hstep; cases hk) | cases hstep
  | @removeAllData pc pc' hstep =>
    unfold stepRemoveAllData at hstep
    split at hstep
    case h_1 => cases hstep; exact hgone k hk
    case h_2 entry todo removed firstError =>
      obtain ⟨disk, hunlink, hr⟩ := Option.map_eq_some_iff.mp hstep
      cases hr
      obtain ⟨-, hnone, hframe⟩ := Disk.unlink_spec ok hunlink
      by_cases hkey : k = entry.keyId
      · subst hkey
        exact hnone
      · refine (hframe _ fun heq => hkey (SwapFile.swap.inj heq)).trans (hgone k ?_)
        simpa [Call.unlinked, List.filter_append, hkey] using hk
    case h_3 entry todo removed firstError err =>
      cases hstep
      refine hgone k ?_
      simpa [Call.unlinked, List.filter_append] using hk
    all_goals first | (cases hstep; cases hk) | cases hstep
  | @getStats pc pc' hstep =>
    cases hk

theorem stepCall_unlinked (sound : Sound s) (hc : s.calls[i]? = some c)
    (h : stepCall s outcome c = some (s', c')) :
    Unlinked { s' with calls := s.calls.set i c' } := by
  have hmem := List.mem_of_getElem? hc
  have hdisk := stepCall_disk sound.files.disk (sound.files.files c hmem).writer h
  refine forall_mem_set_of_ne (fun j d hij hd => ?_) ?_
  · intro k hk
    have hgone := sound.unlinked d (List.mem_of_getElem? hd) k hk
    have hremoving := Call.removing_of_unlinked hk
    rcases hdisk.swap k with hsame | ⟨hkey, hnone⟩ | ⟨hmine, -⟩
    · exact hsame.trans hgone
    · obtain ⟨r, hmade⟩ := Call.made_of_key hkey
      have habsent := sound.prov.absent sound.nodup hmem hmade hnone
      obtain ⟨e, he, -⟩ := sound.removing hd hremoving
      rw [findEntry, habsent] at he
      cases he
    · have htwo := add_le_total (Call.removes k) hij hd hc
      have hpos : 0 < c.removes k := List.count_pos_iff.mpr hmine
      have hpos' : 0 < d.removes k := List.count_pos_iff.mpr hremoving
      have hone := (sound.keys k).oneRemover
      omega
  · have hmine := unlinked_of_stepCall sound.files.disk (sound.unlinked c hmem) h
    exact hmine

theorem step_unlinked {t : State} {a : Action} (sound : Sound s) (h : step s a = some t) :
    Unlinked t := by
  rcases step_cases h with ⟨request, -, rfl⟩ | ⟨i, outcome, c, s', c', -, hc, hstep, rfl⟩
  · obtain ⟨hdisk, hunlinked, -, -⟩ := start_files s request
    refine forall_mem_append_singleton (fun d hd k hk => ?_) fun k hk => ?_
    · rw [hdisk]
      exact sound.unlinked d hd k hk
    · rw [hunlinked] at hk
      cases hk
  · exact stepCall_unlinked sound hc hstep

/-! ## What each call has done -/

theorem removeAllEvents_dropped (removed : List (SwapKeyEntry × Bool)) (entry : SwapKeyEntry)
    (todo : List SwapKeyEntry) :
    removeAllEvents (removed ++ [(entry, true)]) todo =
      removeAllEvents removed (entry :: todo) ++ [Event.drop entry.keyId] := by
  simp [removeAllEvents, List.filter_append]

theorem removeAllEvents_kept (removed : List (SwapKeyEntry × Bool)) (entry : SwapKeyEntry)
    (todo : List SwapKeyEntry) :
    removeAllEvents (removed ++ [(entry, false)]) todo = removeAllEvents removed (entry :: todo) := by
  simp [removeAllEvents, List.filter_append]

variable {es : List StoreEvent}

theorem stepSwapOut_explained {request : SwapOutRequest} {pc pc' : OutPc}
    (hexp : Explained (.swapOut request keyId pc) es)
    (h : stepSwapOut s request keyId pc outcome = some (s', pc')) :
    Explained (.swapOut request keyId pc')
      (es ++ callEvents s (.swapOut request keyId pc) outcome) := by
  unfold stepSwapOut at h
  split at h
  case h_1 =>
    obtain ⟨⟨s₁, start⟩, -, hr⟩ := Option.map_eq_some_iff.mp h
    obtain rfl : es = [] := hexp
    cases start <;> cases hr <;> rfl
  case h_3 =>
    obtain rfl : es = [] := hexp
    split at h <;> cases h <;> rfl
  case h_6 =>
    obtain rfl : es = [] := hexp
    split at h
    · cases h; rfl
    split at h
    · cases h
    · cases h
      split <;> rfl
  case h_10 | h_12 =>
    obtain rfl : es = [] := hexp
    obtain ⟨disk, -, hr⟩ := Option.map_eq_some_iff.mp h
    cases hr; rfl
  case h_16 result =>
    cases h
    show Explained _ (es ++ [])
    rw [List.append_nil]
    cases result <;> exact hexp
  case h_17 => cases h
  all_goals
    obtain rfl : es = [] := hexp
    cases h
    rfl

theorem stepSwapIn_explained {request : SwapInRequest} {pc pc' : InPc} (sound : Sound s)
    (hexp : Explained (.swapIn request pc) es)
    (hgot : ∀ got v, pc' = .finish (.ok got) → .get request.keyId (some v) ∈ es → got = v)
    (h : stepSwapIn s request pc outcome = some (s', pc')) :
    Explained (.swapIn request pc') (es ++ callEvents s (.swapIn request pc) outcome) := by
  unfold stepSwapIn at h
  split at h
  case h_1 =>
    obtain rfl : es = [] := hexp
    have hr := Option.some.inj h
    unfold lookupKeyForSwapIn at hr
    simp only [callEvents, List.nil_append]
    split at hr
    · next hfind =>
      cases hr
      rw [value_eq_none (by simp [hfind])]
      exact .inr (.inl ⟨rfl, .inl rfl⟩)
    next e hfind =>
    split at hr
    · next hstatus =>
      cases hr
      rw [value_eq_none (by simp [hfind, hstatus])]
      exact .inr (.inl ⟨rfl, .inr rfl⟩)
    · next hstatus =>
      cases hr
      obtain ⟨v, -, -, hshown⟩ := sound.active hfind (not_not.mp hstatus)
      rw [Store.value_eq_some.mpr hshown]
      split
      · exact ⟨v, by simp, rfl⟩
      · exact ⟨v, rfl⟩
  case h_2 =>
    obtain ⟨v, rfl⟩ := hexp
    split at h
    · cases h; exact ⟨v, by simp, rfl⟩
    split at h
    · cases h; exact ⟨v, by simp, rfl⟩
    split at h
    · cases h
    split at h
    · cases h
    · cases h; exact ⟨v, rfl⟩
  case h_3 =>
    obtain ⟨v, rfl⟩ := hexp
    cases h; exact ⟨v, by simp, rfl⟩
  case h_4 =>
    obtain ⟨v, rfl⟩ := hexp
    split at h
    · cases h
    simp only at h
    split at h
    · cases h
    split at h
    · cases h
      refine ⟨v, fun got hok => ?_, rfl⟩
      exact hgot got v (congrArg InPc.finish hok) (List.mem_singleton_self _)
    split at h
    · cases h; exact ⟨v, by simp, rfl⟩
    · cases h; exact ⟨v, rfl⟩
  case h_5 =>
    obtain ⟨v, rfl⟩ := hexp
    cases h; exact ⟨v, by simp, rfl⟩
  case h_6 result =>
    obtain ⟨v, hv, rfl⟩ := hexp
    have hr := Option.some.inj h
    unfold finishSwapIn at hr
    split at hr
    · cases hr; exact .inr (.inr ⟨v, [], hv, rfl, .inl rfl⟩)
    simp only at hr
    split at hr
    · cases hr; exact .inr (.inr ⟨v, [], hv, rfl, .inl rfl⟩)
    · cases hr; exact ⟨v, hv, rfl⟩
  case h_7 =>
    obtain ⟨v, hv, rfl⟩ := hexp
    obtain ⟨disk, -, hr⟩ := Option.map_eq_some_iff.mp h
    cases hr; exact ⟨v, hv, rfl⟩
  case h_8 =>
    obtain ⟨v, hv, rfl⟩ := hexp
    cases h; exact ⟨v, hv, rfl⟩
  case h_9 removedSize removed result =>
    obtain ⟨v, hv, rfl⟩ := hexp
    cases h
    cases removed with
    | true => exact .inr (.inr ⟨v, _, hv, rfl, .inr (.inl rfl)⟩)
    | false => exact .inr (.inr ⟨v, _, hv, rfl, .inr (.inr rfl)⟩)
  case h_10 =>
    cases h
    show Explained _ (es ++ [])
    rw [List.append_nil]
    exact hexp
  case h_11 => cases h

theorem stepRemoveData_explained {pc pc' : RemovePc} (hexp : Explained (.removeData keyId pc) es)
    (h : stepRemoveData s pc outcome = some (s', pc')) :
    Explained (.removeData keyId pc') (es ++ callEvents s (.removeData keyId pc) outcome) := by
  unfold stepRemoveData at h
  split at h
  case h_1 =>
    obtain ⟨rfl, rfl⟩ := hexp
    obtain ⟨disk, -, hr⟩ := Option.map_eq_some_iff.mp h
    cases hr; exact ⟨rfl, rfl⟩
  case h_2 =>
    obtain ⟨rfl, rfl⟩ := hexp
    cases h; exact ⟨rfl, rfl⟩
  case h_3 entry result =>
    obtain ⟨rfl, rfl⟩ := hexp
    cases h
    cases result <;> rfl
  case h_4 =>
    cases h
    show Explained _ (es ++ [])
    rw [List.append_nil]
    exact .inl hexp
  case h_5 => cases h

theorem stepRemoveAllData_explained {pc pc' : RemoveAllPc}
    (hexp : Explained (.removeAllData pc) es)
    (h : stepRemoveAllData s pc outcome = some (s', pc')) :
    Explained (.removeAllData pc') (es ++ callEvents s (.removeAllData pc) outcome) := by
  unfold stepRemoveAllData at h
  split at h
  case h_1 =>
    cases h
    show Explained _ (es ++ [])
    rw [List.append_nil]
    exact hexp
  case h_2 entry todo removed firstError =>
    obtain ⟨herr, rfl⟩ := hexp
    obtain ⟨disk, -, hr⟩ := Option.map_eq_some_iff.mp h
    cases hr
    refine ⟨?_, (removeAllEvents_dropped removed entry todo).symm⟩
    rw [herr, List.forall_mem_append]
    simp
  case h_3 entry todo removed firstError err =>
    obtain ⟨-, rfl⟩ := hexp
    cases h
    refine ⟨?_, ?_⟩
    · rw [List.forall_mem_append]
      cases firstError <;> simp
    · show removeAllEvents removed (entry :: todo) ++ [] = _
      rw [List.append_nil]
      exact (removeAllEvents_kept removed entry todo).symm
  case h_4 removed firstError =>
    obtain ⟨herr, rfl⟩ := hexp
    cases h
    refine ⟨removed, ?_, rfl⟩
    rw [← herr]
    cases firstError <;> simp
  case h_5 =>
    cases h
    show Explained _ (es ++ [])
    rw [List.append_nil]
    exact hexp
  case h_6 => cases h

theorem stepCall_explained (sound : Sound s) (hexp : Explained c es)
    (hgot : ∀ request got v, c' = .swapIn request (.finish (.ok got)) →
      .get request.keyId (some v) ∈ es → got = v)
    (h : stepCall s outcome c = some (s', c')) :
    Explained c' (es ++ callEvents s c outcome) := by
  cases callStep h with
  | swapOut hstep => exact stepSwapOut_explained hexp hstep
  | @swapIn request pc pc' hstep =>
    refine stepSwapIn_explained sound hexp (fun got v hpc => ?_) hstep
    exact hgot request got v (congrArg (Call.swapIn request) hpc)
  | removeData hstep => exact stepRemoveData_explained hexp hstep
  | removeAllData hstep => exact stepRemoveAllData_explained hexp hstep
  | @getStats pc pc' hstep =>
    obtain rfl : es = [] := hexp
    rfl

/-- What a call has done in its first section. -/
theorem start_explained (s : State) (request : Request) :
    Explained (start s request).2 (startEvents s request) := by
  cases request with
  | swapOut request =>
    simp only [start, startSwapOut]
    split
    · exact .inl rfl
    split
    · exact .inl rfl
    split
    · exact .inl rfl
    · rfl
  | swapIn request =>
    simp only [start, startSwapIn]
    split
    · exact .inl rfl
    · split
      · exact .inl ⟨rfl, rfl⟩
      · rfl
  | removeData keyId =>
    simp only [start, startEvents, startRemoveData]
    split
    · exact .inl rfl
    cases hfind : findEntry s keyId with
    | none => exact .inr ⟨.inl rfl, keyId, rfl⟩
    | some e =>
      simp only
      split
      · exact .inr ⟨.inr rfl, keyId, rfl⟩
      split
      · exact ⟨(find_mem hfind).2, rfl⟩
      · exact .inr ⟨rfl, rfl⟩
  | removeAllData =>
    simp only [start, startEvents, startRemoveAllData]
    split
    · exact .inl rfl
    split
    · next hempty =>
      rw [hempty]
      exact ⟨[], by simp, rfl⟩
    · exact ⟨by simp, rfl⟩
  | getStats => rfl

/-! ## Every run -/

theorem eventsOf_append (i : Nat) (h h' : List (Nat × StoreEvent)) :
    eventsOf i (h ++ h') = eventsOf i h ++ eventsOf i h' := by
  simp [eventsOf]

theorem eventsOf_self (i : Nat) (es : List StoreEvent) :
    eventsOf i (es.map fun e => (i, e)) = es := by
  induction es with
  | nil => rfl
  | cons e es ih => simpa [eventsOf] using ih

variable {h : List (Nat × StoreEvent)}

theorem eventsOf_of_forall {i : Nat} (hne : ∀ p ∈ h, p.1 ≠ i) :
    eventsOf i h = [] := by
  rw [eventsOf, List.filter_eq_nil_iff.mpr (by simpa using hne), List.map_nil]

theorem eventsOf_of_ne {i j : Nat} (hij : i ≠ j) (es : List StoreEvent) :
    eventsOf i (es.map fun e => (j, e)) = [] := by
  refine eventsOf_of_forall fun p hp => ?_
  obtain ⟨e, -, rfl⟩ := List.mem_map.mp hp
  exact Ne.symm hij

theorem map_snd_events (i : Nat) (es : List StoreEvent) :
    (es.map fun e => (i, e)).map Prod.snd = es := by
  simp [Function.comp_def]

/-- The events of a run so far are a run of the store, and each call has done what it says. -/
structure Linearized (t : State) (h : List (Nat × StoreEvent)) : Prop where
  legal : Run (fun _ => none) (h.map Prod.snd) t.view
  started : ∀ p ∈ h, p.1 < t.calls.length
  explained : ∀ i c, t.calls[i]? = some c → Explained c (eventsOf i h)

/-- What the steps need besides. -/
structure HistoryInv (t : State) (h : List (Nat × StoreEvent)) : Prop where
  linearized : Linearized t h
  unlinked : Unlinked t
  seen : ∀ i k v, (i, .get k (some v)) ∈ h → Seen t.calls k v

theorem IntegrityInv.sound {limit : UInt64} (inv : IntegrityInv limit s)
    (hissued : s.issued ≤ 2 ^ 64) (hunlinked : Unlinked s) : Sound s :=
  ⟨inv.readers.quota.keys.nodup hissued, (inv.readers.quota.accounts hissued).prov,
    inv.readers.keys hissued, inv.files hissued, hunlinked⟩

theorem Seen.mono (h : Seen s.calls k v)
    (hcommitted : ∀ k r, Committed s.calls k r → Committed calls k r) : Seen calls k v := by
  obtain ⟨r, hr, hv⟩ := h
  exact ⟨r, hcommitted k r hr, hv⟩

theorem Sound.seen_of_event (sound : Sound s) (h : .get k (some v) ∈ callEvents s c outcome) :
    Seen s.calls k v := by
  unfold callEvents at h
  split at h
  case h_2 request =>
    obtain ⟨rfl, hvalue⟩ := Event.get.inj (List.mem_singleton.mp h)
    have hshown := Store.value_eq_some.mp hvalue.symm
    obtain ⟨e, he, hactive⟩ := entry_of_shown hshown
    obtain ⟨w, hw, -, hshown'⟩ := sound.active he hactive
    rw [hshown] at hshown'
    cases hshown'
    exact hw
  all_goals simp at h

theorem startEvents_get (s : State) (request : Request) (k : UInt64) (v : List UInt8) :
    .get k (some v) ∉ startEvents s request := by
  cases request with
  | removeData keyId =>
    simp only [startEvents]
    split
    · simp
    split
    · simp
    split <;> simp
  | removeAllData =>
    simp only [startEvents]
    split <;> simp
  | _ => simp [startEvents]

theorem start_historyInv {request : Request} (sound : Sound s)
    (hidle : ¬ 0 < s.activeOps → s.inFlight = 0) (hist : HistoryInv s h)
    (hunlinked : Unlinked { (start s request).1 with calls := s.calls ++ [(start s request).2] }) :
    HistoryInv { (start s request).1 with calls := s.calls ++ [(start s request).2] }
      (h ++ (startEvents s request).map fun e => (s.calls.length, e)) := by
  obtain ⟨⟨hrun, hstarted, hexplained⟩, -, hseen⟩ := hist
  refine ⟨⟨?_, ?_, ?_⟩, hunlinked, ?_⟩
  · rw [List.map_append, map_snd_events]
    exact hrun.append (start_run sound hidle request)
  · rw [List.forall_mem_append]
    refine ⟨fun p hp => ?_, fun p hp => ?_⟩
    · have hlt := hstarted p hp
      rw [List.length_append, List.length_singleton]
      omega
    · obtain ⟨e, -, rfl⟩ := List.mem_map.mp hp
      simp
  · refine forall_getElem?_append_singleton (fun j c hj => ?_) ?_
    · have hlt := (List.getElem?_eq_some_iff.mp hj).1
      rw [eventsOf_append, eventsOf_of_ne (Nat.ne_of_lt hlt), List.append_nil]
      exact hexplained j c hj
    · rw [eventsOf_append, eventsOf_self, eventsOf_of_forall, List.nil_append]
      · exact start_explained s request
      · exact fun p hp => Nat.ne_of_lt (hstarted p hp)
  · intro i k v hmem
    rcases List.mem_append.mp hmem with hmem | hmem
    · refine (hseen i k v hmem).mono fun k r hcommitted => ?_
      obtain ⟨d, hd, hr⟩ := hcommitted
      exact ⟨d, List.mem_append_left _ hd, hr⟩
    · obtain ⟨e, he, heq⟩ := List.mem_map.mp hmem
      obtain rfl := (Prod.mk.inj heq).2
      exact absurd he (startEvents_get s request k v)

theorem stepCall_historyInv (sound : Sound s) (hc : s.calls[i]? = some c)
    (hstep : stepCall s outcome c = some (s', c')) (hist : HistoryInv s h)
    (sound' : Sound { s' with calls := s.calls.set i c' }) :
    HistoryInv { s' with calls := s.calls.set i c' }
      (h ++ (callEvents s c outcome).map fun e => (i, e)) := by
  obtain ⟨⟨hrun, hstarted, hexplained⟩, -, hseen⟩ := hist
  have hcommitted : ∀ k r, Committed s.calls k r → Committed (s.calls.set i c') k r :=
    Committed.move hc hstep
  have hlt := (List.getElem?_eq_some_iff.mp hc).1
  refine ⟨⟨?_, ?_, ?_⟩, sound'.unlinked, ?_⟩
  · rw [List.map_append, map_snd_events]
    exact hrun.append (stepCall_run sound hc hstep)
  · rw [List.forall_mem_append]
    refine ⟨fun p hp => ?_, fun p hp => ?_⟩
    · rw [List.length_set]
      exact hstarted p hp
    · obtain ⟨e, -, rfl⟩ := List.mem_map.mp hp
      rw [List.length_set]
      exact hlt
  · refine forall_getElem?_set (fun j d hij hj => ?_) ?_
    · rw [eventsOf_append, eventsOf_of_ne hij, List.append_nil]
      exact hexplained j d hj
    · rw [eventsOf_append, eventsOf_self]
      refine stepCall_explained sound (hexplained i c hc) ?_ hstep
      rintro request got v rfl hmem
      -- the file that was read and the value that was looked up are of one `SwapOut`
      obtain ⟨⟨j, e⟩, hp, rfl⟩ := List.mem_map.mp hmem
      have hold := (hseen j _ v (List.mem_of_mem_filter hp)).mono hcommitted
      obtain ⟨r, hr, hgot⟩ := sound'.files.files _ (List.mem_set hlt _)
      exact sound'.seen_unique ⟨r, hr, hgot⟩ hold
  · intro j k v hmem
    rcases List.mem_append.mp hmem with hmem | hmem
    · exact (hseen j k v hmem).mono hcommitted
    · obtain ⟨e, he, heq⟩ := List.mem_map.mp hmem
      obtain rfl := (Prod.mk.inj heq).2
      exact (sound.seen_of_event he).mono hcommitted

theorem step_historyInv {limit : UInt64} {t : State} {a : Action} (inv : IntegrityInv limit s)
    (hfew : FewInFlight s) (hstep : step s a = some t) (hissued : t.issued ≤ 2 ^ 64)
    (hist : HistoryInv s h) : HistoryInv t (h ++ events s a) := by
  have inv' := step_integrityInv s a t inv hfew hstep
  have hmono := (step_keysInv inv.readers.quota.keys hstep).2
  have sound := inv.sound (Nat.le_trans hmono hissued) hist.unlinked
  have hunlinked := step_unlinked sound hstep
  have sound' := inv'.sound hissued hunlinked
  rcases step_cases hstep with ⟨request, rfl, rfl⟩ | ⟨i, outcome, c, s', c', rfl, hc, hcall, rfl⟩
  · refine start_historyInv sound (fun hops => ?_) hist hunlinked
    have hzero := UInt32.le_zero_iff.mp (UInt32.not_lt.mp hops)
    exact ofNat_eq_zero hfew (inv.readers.count.symm.trans hzero)
  · simp only [events, hc]
    exact stepCall_historyInv sound hc hcall hist sound'

theorem init_historyInv (useDirectIo : Bool) (control : Control) :
    HistoryInv (init useDirectIo control) [] :=
  ⟨⟨.nil, by simp, by simp [init]⟩, by simp [Unlinked, init], by simp⟩

theorem issued_mono {t : State} {as : List Action} (inv : KeysInv s) (hrun : run step s as = some t) :
    s.issued ≤ t.issued := by
  have hstep : ∀ u a v, KeysInv u ∧ s.issued ≤ u.issued → True → step u a = some v →
      KeysInv v ∧ s.issued ≤ v.issued := by
    intro u a v hu _ huv
    obtain ⟨hkeys, hle⟩ := step_keysInv hu.1 huv
    exact ⟨hkeys, Nat.le_trans hu.2 hle⟩
  exact (run_invariant hstep ⟨inv, Nat.le_refl _⟩ (stepsOk_true as s) hrun).2

theorem run_historyInv {limit : UInt64} {as : List Action} : ∀ {s t : State}
    {h : List (Nat × StoreEvent)}, IntegrityInv limit s →
    StepsOk step (fun s _ => FewInFlight s) s as → run step s as = some t → t.issued ≤ 2 ^ 64 →
    HistoryInv s h → HistoryInv t (h ++ history s as) := by
  induction as with
  | nil =>
    intro s t h _ _ hrun _ hist
    cases hrun
    rw [history, List.append_nil]
    exact hist
  | cons a as ih =>
    intro s t h inv hfew hrun hissued hist
    obtain ⟨mid, hmid, hrest⟩ := Option.bind_eq_some_iff.mp hrun
    have inv' := step_integrityInv s a mid inv hfew.1 hmid
    have hmono := issued_mono inv'.readers.quota.keys hrest
    have hist' := step_historyInv inv hfew.1 hmid (Nat.le_trans hmono hissued) hist
    rw [history, hmid, ← List.append_assoc]
    exact ih inv' (hfew.2 mid hmid) hrest hissued hist'

/-! ## The order of the calls -/

theorem history_append (front back : List Action) : ∀ {s mid : State},
    run step s front = some mid → history s (front ++ back) = history s front ++ history mid back := by
  induction front with
  | nil =>
    intro s mid hrun
    cases hrun
    rfl
  | cons a front ih =>
    intro s mid hrun
    obtain ⟨next, hnext, hrest⟩ := Option.bind_eq_some_iff.mp hrun
    simp only [List.cons_append, history, hnext]
    rw [ih hrest, List.append_assoc]

theorem stepCall_of_done (h : c.active = 0) : stepCall s outcome c = none := by
  unfold Call.active at h
  split at h <;> first | rfl | cases h

theorem returned_of_step {t : State} {a : Action} (hc : s.calls[i]? = some c) (hdone : c.active = 0)
    (h : step s a = some t) : t.calls[i]? = some c := by
  rcases step_cases h with ⟨request, -, rfl⟩ | ⟨j, outcome, d, s', d', -, hd, hstep, rfl⟩
  · rw [List.getElem?_append_left (List.getElem?_eq_some_iff.mp hc).1]
    exact hc
  · have hij : j ≠ i := by
      rintro rfl
      obtain rfl : c = d := Option.some.inj (hc.symm.trans hd)
      rw [stepCall_of_done hdone] at hstep
      cases hstep
    rw [List.getElem?_set_ne hij]
    exact hc

theorem callEvents_of_done (h : c.active = 0) : callEvents s c outcome = [] := by
  unfold Call.active at h
  split at h <;> first | rfl | cases h

theorem history_of_returned {back : List Action} : ∀ {mid : State} {p : Nat × StoreEvent} {c : Call},
    p ∈ history mid back → mid.calls[p.1]? = some c → c.active ≠ 0 := by
  induction back with
  | nil =>
    intro mid p c hp
    cases hp
  | cons a back ih =>
    intro mid p c hp hc hdone
    rcases List.mem_append.mp hp with hp | hp
    · cases a with
      | start request =>
        obtain ⟨e, -, rfl⟩ := List.mem_map.mp hp
        simp at hc
      | go i outcome =>
        simp only [events] at hp
        split at hp
        · cases hp
        next d hd =>
        obtain ⟨e, he, rfl⟩ := List.mem_map.mp hp
        obtain rfl : c = d := Option.some.inj (hc.symm.trans hd)
        rw [callEvents_of_done hdone] at he
        cases he
    · split at hp
      · cases hp
      next t ht => exact ih hp (returned_of_step hc hdone ht) hdone

/-- A run is linearizable: its events are a run of the store, each call has done what it answers
and no more, and what a call does lies between its start and its return. -/
structure Linearizable (s : State) (as : List Action) (t : State) : Prop
    extends Linearized t (history s as) where
  realTime : ∀ front back mid, as = front ++ back → run step s front = some mid →
    (∀ p ∈ history s front, p.1 < mid.calls.length) ∧
    history s as = history s front ++ history mid back ∧
    ∀ p ∈ history mid back, ∀ c, mid.calls[p.1]? = some c → c.active ≠ 0
  queries : ∀ k e, queryData t k = .ok e →
    ∃ v, t.view.value k = some v ∧ e.dataSize.toNat = v.length
  refusals : ∀ k err, k ≠ 0 → queryData t k = .error err → t.view.value k = none

theorem queryData_ok (sound : Sound s) (h : queryData s k = .ok e) :
    ∃ v, s.view.value k = some v ∧ e.dataSize.toNat = v.length := by
  unfold queryData at h
  split at h
  · cases h
  split at h
  · cases h
  next e' hfind =>
  split at h
  · cases h
  next hstatus =>
  cases h
  obtain ⟨v, ⟨r, hr, rfl⟩, -, hshown⟩ := sound.active hfind (not_not.mp hstatus)
  refine ⟨r.buffer, Store.value_eq_some.mpr hshown, ?_⟩
  obtain ⟨d, hd, hr⟩ := hr
  have hsize := (sound.prov.committed sound.nodup hfind hd (Call.made_of_committed hr)).2
  rw [← hsize, SwapOutRequest.bufferSize, UInt64.toNat_ofNat', Nat.mod_eq_of_lt r.fits]

theorem queryData_error {err : SwapfsErr} (hk : k ≠ 0) (h : queryData s k = .error err) :
    s.view.value k = none := by
  unfold queryData at h
  rw [if_neg hk] at h
  refine value_eq_none fun e he hactive => ?_
  simp [he, hactive] at h

/-- Every run in which fewer calls are in flight than `activeOps_` can count and no key was handed
out twice is linearizable. -/
theorem linearizable_of_run {useDirectIo : Bool} {available limit : UInt64} {intervalMs : UInt32}
    {now : Int} {as : List Action} {t : State}
    (hrun : run step (init useDirectIo
      (Control.initWithAvailableSpace available limit intervalMs now)) as = some t)
    (hfew : StepsOk step (fun s _ => FewInFlight s) (init useDirectIo
      (Control.initWithAvailableSpace available limit intervalMs now)) as)
    (hissued : t.issued ≤ 2 ^ 64) :
    Linearizable (init useDirectIo
      (Control.initWithAvailableSpace available limit intervalMs now)) as t := by
  have hinit := init_integrityInv useDirectIo available limit intervalMs now
  have hempty := init_historyInv useDirectIo
    (Control.initWithAvailableSpace available limit intervalMs now)
  have hist := run_historyInv hinit hfew hrun hissued hempty
  have inv := run_invariant step_integrityInv hinit hfew hrun
  have sound := inv.sound hissued hist.unlinked
  refine ⟨hist.linearized, fun front back mid hsplit hmid => ?_, fun k e => queryData_ok sound,
    fun k err => queryData_error⟩
  subst hsplit
  have hkeys := (run_invariant step_integrityInv hinit hfew.left hmid).readers.quota.keys
  rw [run_append, hmid] at hrun
  have hmono := issued_mono hkeys hrun
  have hfront := run_historyInv hinit hfew.left hmid (Nat.le_trans hmono hissued) hempty
  exact ⟨hfront.linearized.started, history_append front back hmid,
    fun p hp c hc => history_of_returned hp hc⟩

theorem linearizable_of_run_oneRead :
    run step (init false smallControl) (swapOutSteps 0 ++ swapInSteps 1) = some oneRead ∧
    oneRead.issued ≤ 2 ^ 64 ∧
    Linearizable (init false smallControl) (swapOutSteps 0 ++ swapInSteps 1) oneRead :=
  ⟨run_oneRead, by decide,
    linearizable_of_run run_oneRead (stepsOk_fewInFlight _ _ (by decide)) (by decide)⟩

example : history (init false smallControl) (swapOutSteps 0 ++ swapInSteps 1) =
    [(0, .put 1 [7]), (1, .get 1 (some [7]))] := rfl

/-! ## What readers find -/

/-- The lookups of a history: what is found was put, and was neither dropped nor is it hidden; where
nothing is found, nothing was put, or it was dropped or is hidden. -/
def LookupsCurrent (h : List (Nat × StoreEvent)) : Prop :=
  ∀ front back i k found, h = front ++ (i, Event.get k found) :: back →
    (∀ v, found = some v → .put k v ∈ front.map Prod.snd ∧ .drop k ∉ front.map Prod.snd ∧
      ¬ Hidden k (front.map Prod.snd)) ∧
    (found = none → (∀ v, .put k v ∉ front.map Prod.snd) ∨ .drop k ∈ front.map Prod.snd ∨
      Hidden k (front.map Prod.snd))

/-- In every such run the lookups are current, and what a `SwapIn` delivers is what it looked up. -/
theorem lookupsCurrent_of_run {useDirectIo : Bool} {available limit : UInt64}
    {intervalMs : UInt32} {now : Int} {as : List Action} {t : State}
    (hrun : run step (init useDirectIo
      (Control.initWithAvailableSpace available limit intervalMs now)) as = some t)
    (hfew : StepsOk step (fun s _ => FewInFlight s) (init useDirectIo
      (Control.initWithAvailableSpace available limit intervalMs now)) as)
    (hissued : t.issued ≤ 2 ^ 64) :
    LookupsCurrent (history (init useDirectIo
      (Control.initWithAvailableSpace available limit intervalMs now)) as) ∧
    ∀ i request got, t.calls[i]? = some (.swapIn request (.done (.ok got))) →
      (i, .get request.keyId (some got)) ∈ history (init useDirectIo
        (Control.initWithAvailableSpace available limit intervalMs now)) as := by
  have hlinearized := (run_historyInv (init_integrityInv useDirectIo available limit intervalMs now)
    hfew hrun hissued (init_historyInv _ _)).linearized
  rw [List.nil_append] at hlinearized
  constructor
  · intro front back i k found hsplit
    have hlegal := hlinearized.legal
    rw [hsplit, List.map_append, List.map_cons] at hlegal
    exact hlegal.found
  · intro i request got hc
    have hexplained := hlinearized.explained i _ hc
    rcases hexplained with ⟨-, hresult⟩ | ⟨-, hresult⟩ | ⟨v, tail, hgot, hevents, -⟩
    · cases hresult
    · rcases hresult with hresult | hresult <;> cases hresult
    · have hmem : .get request.keyId (some got) ∈ eventsOf i (history (init useDirectIo
          (Control.initWithAvailableSpace available limit intervalMs now)) as) := by
        rw [hevents, hgot got rfl]
        exact List.mem_cons_self
      obtain ⟨⟨j, e⟩, hp, rfl⟩ := List.mem_map.mp hmem
      obtain ⟨hin, hj⟩ := List.mem_filter.mp hp
      obtain rfl : j = i := of_decide_eq_true hj
      exact hin

theorem lookupsCurrent_of_run_oneRead :
    run step (init false smallControl) (swapOutSteps 0 ++ swapInSteps 1) = some oneRead ∧
    oneRead.issued ≤ 2 ^ 64 ∧
    LookupsCurrent (history (init false smallControl) (swapOutSteps 0 ++ swapInSteps 1)) :=
  ⟨run_oneRead, by decide,
    (lookupsCurrent_of_run run_oneRead (stepsOk_fewInFlight _ _ (by decide)) (by decide)).1⟩

end FileApi.Swapfs
