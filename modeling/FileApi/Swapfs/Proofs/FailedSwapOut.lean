import FileApi.Swapfs.Proofs.Shadow

/-!
# Failed swap-outs

A `SwapOut` that fails leaves what a `GetStats` in its place would have left: behind each of its
steps, and of the steps of the other calls, the run of the `GetStats` is in the shadow.
-/

namespace FileApi.Swapfs

open Pool Keyed Machine

/-! ## Open files -/

/-- What a step does to the names and to the files that are open. -/
structure DiskEffect (d d' : Disk) (c c' : Call) : Prop where
  length : d.files.length ≤ d'.files.length
  names : ∀ path n, d'.names path = some n → n < d'.files.length ∨ ∃ p, d.names p = some n
  opened : ∀ fd ∈ c'.fds, fd ∈ c.fds ∨ fd < d'.files.length ∨ ∃ p, d.names p = some fd
  tmp : ∀ k, d'.names (.tmp k) ≠ none → d.names (.tmp k) ≠ none ∨ c.key = some k

section Effects

variable {s s' : State} {outcome : Outcome} {c c' : Call} {d d' : Disk} {k : UInt64}

theorem DiskEffect.same (hsame : d' = d) (hfds : ∀ fd ∈ c'.fds, fd ∈ c.fds) :
    DiskEffect d d' c c' := by
  subst hsame
  exact ⟨Nat.le_refl _, fun path n hn => .inr ⟨path, hn⟩, fun fd hfd => .inl (hfds fd hfd),
    fun _ h => .inl h⟩

theorem DiskEffect.create (d : Disk) (hkey : c.key = some k)
    (hfds : c'.fds = [(d.create (.tmp k)).1]) : DiskEffect d (d.create (.tmp k)).2 c c' := by
  unfold Disk.create at hfds ⊢
  cases hnode : d.names (.tmp k) with
  | some n =>
    rw [hnode] at hfds
    refine ⟨Nat.le_of_eq (List.length_set).symm, fun path m hm => .inr ⟨path, hm⟩, fun fd hfd => ?_,
      fun _ h => .inl h⟩
    rw [hfds] at hfd
    rw [List.mem_singleton.mp hfd]
    exact .inr (.inr ⟨_, hnode⟩)
  | none =>
    rw [hnode] at hfds
    refine ⟨?_, fun path m hm => ?_, fun fd hfd => ?_, fun k' hk' => ?_⟩
    · simp
    · by_cases hpath : path = .tmp k
      · subst hpath
        simp only [Function.update_self, Option.some.injEq] at hm
        simp [← hm]
      · simp only [Function.update_of_ne hpath] at hm
        exact .inr ⟨path, hm⟩
    · rw [hfds] at hfd
      rw [List.mem_singleton.mp hfd]
      simp
    · by_cases hpath : SwapFile.tmp k' = .tmp k
      · rw [SwapFile.tmp.inj hpath]
        exact .inr hkey
      · simp only [Function.update_of_ne hpath] at hk'
        exact .inl hk'

theorem DiskEffect.rename (hrename : d.rename (.tmp k) (.swap k) = some d') (hfds : c'.fds = []) :
    DiskEffect d d' c c' := by
  unfold Disk.rename at hrename
  split at hrename
  · cases hrename
  next n hnode =>
  cases hrename
  refine ⟨Nat.le_refl _, fun path m hm => .inr ?_, fun fd hfd => ?_, fun k' hk' => .inl ?_⟩
  · dsimp only at hm
    by_cases hs : path = .tmp k
    · subst hs
      simp at hm
    · rw [Function.update_of_ne hs] at hm
      by_cases ht : path = .swap k
      · subst ht
        rw [Function.update_self] at hm
        exact ⟨.tmp k, hnode.trans hm⟩
      · rw [Function.update_of_ne ht] at hm
        exact ⟨path, hm⟩
  · rw [hfds] at hfd
    cases hfd
  · dsimp only at hk'
    by_cases hs : SwapFile.tmp k' = .tmp k
    · rw [hs, Function.update_self] at hk'
      exact absurd rfl hk'
    · rwa [Function.update_of_ne hs, Function.update_of_ne (by nofun)] at hk'

theorem DiskEffect.unlink {path : SwapFile} (hunlink : d.unlink path = some d')
    (hfds : c'.fds = []) : DiskEffect d d' c c' := by
  unfold Disk.unlink at hunlink
  split at hunlink
  · cases hunlink
  cases hunlink
  have hback : ∀ p, Function.update d.names path none p ≠ none →
      Function.update d.names path none p = d.names p := by
    intro p hp
    by_cases hpath : p = path
    · rw [hpath, Function.update_self] at hp
      exact absurd rfl hp
    · exact Function.update_of_ne hpath _ _
  refine ⟨Nat.le_refl _, fun p m hm => .inr ⟨p, ?_⟩, fun fd hfd => ?_, fun k' hk' => .inl ?_⟩
  · dsimp only at hm
    rw [← hback p (by rw [hm]; nofun)]
    exact hm
  · rw [hfds] at hfd
    cases hfd
  · rw [← hback _ hk']
    exact hk'

theorem stepSwapOut_effect_disk {request : SwapOutRequest} {pc pc' : OutPc}
    (h : stepSwapOut s request k pc outcome = some (s', pc')) :
    DiskEffect s.disk s'.disk (.swapOut request k pc) (.swapOut request k pc') := by
  unfold stepSwapOut at h
  split at h
  case h_1 =>
    obtain ⟨⟨mid, start⟩, hbegin, hr⟩ := Option.map_eq_some_iff.mp h
    have hsame := refreshBegin_disk hbegin
    cases start <;> cases hr <;> exact .same hsame (List.forall_mem_nil _)
  case h_3 => split at h <;> cases h <;> exact .same rfl (List.forall_mem_nil _)
  case h_4 =>
    cases h
    exact .create s.disk rfl rfl
  case h_6 =>
    split at h
    · cases h
      exact .same rfl (List.forall_mem_nil _)
    split at h
    · cases h
    · next hlong =>
      cases h
      refine ⟨?_, fun path m hm => .inr ⟨path, hm⟩, fun fd hfd => .inl ?_, fun _ hk => .inl hk⟩
      · simp [Disk.append]
      · split at hfd
        · cases hfd
        · exact hfd
  case h_10 =>
    obtain ⟨disk, hrename, hr⟩ := Option.map_eq_some_iff.mp h
    cases hr
    exact .rename hrename rfl
  case h_12 =>
    obtain ⟨disk, hunlink, hr⟩ := Option.map_eq_some_iff.mp h
    cases hr
    exact .unlink hunlink rfl
  all_goals first | (cases h; exact .same rfl (List.forall_mem_nil _)) | cases h

theorem stepSwapIn_effect_disk {request : SwapInRequest} {pc pc' : InPc}
    (h : stepSwapIn s request pc outcome = some (s', pc')) :
    DiskEffect s.disk s'.disk (.swapIn request pc) (.swapIn request pc') := by
  unfold stepSwapIn at h
  split at h
  case h_1 =>
    obtain ⟨-, hsame, hfds⟩ := lookupKeyForSwapIn_shadow s [] 0 s.disk request
    rw [Option.some.inj h] at hsame hfds
    exact .same hsame fun fd hfd => by rw [hfds] at hfd; cases hfd
  case h_2 =>
    split at h
    · cases h
      exact .same rfl nofun
    split at h
    · cases h
      exact .same rfl nofun
    split at h
    · cases h
    split at h
    · cases h
    · next fd hnode =>
      cases h
      refine ⟨Nat.le_refl _, fun path m hm => .inr ⟨path, hm⟩, fun fd' hfd => ?_, fun _ hk => .inl hk⟩
      rw [List.mem_singleton.mp hfd]
      exact .inr (.inr ⟨_, hnode⟩)
  case h_4 =>
    split at h
    · cases h
    dsimp only at h
    split at h
    · cases h
    split at h
    · cases h
      exact .same rfl nofun
    split at h
    · cases h
      exact .same rfl nofun
    · cases h
      exact .same rfl fun _ hfd => hfd
  case h_6 =>
    next result =>
    obtain ⟨-, hsame, hfds⟩ := finishSwapIn_shadow s [] 0 s.disk request result
    rw [Option.some.inj h] at hsame hfds
    exact .same hsame fun fd hfd => by rw [hfds] at hfd; cases hfd
  case h_7 =>
    obtain ⟨disk, hunlink, hr⟩ := Option.map_eq_some_iff.mp h
    cases hr
    exact .unlink hunlink rfl
  case h_9 =>
    cases h
    exact .same (finalizeEntry_disk s _ _ _) nofun
  all_goals first | (cases h; exact .same rfl nofun) | cases h

theorem stepCall_effect_disk (h : stepCall s outcome c = some (s', c')) :
    DiskEffect s.disk s'.disk c c' := by
  cases callStep h with
  | swapOut hstep =>
    exact stepSwapOut_effect_disk hstep
  | swapIn hstep =>
    exact stepSwapIn_effect_disk hstep
  | removeData hstep =>
    unfold stepRemoveData at hstep
    split at hstep
    case h_1 =>
      obtain ⟨disk, hunlink, hr⟩ := Option.map_eq_some_iff.mp hstep
      cases hr
      exact .unlink hunlink rfl
    case h_3 =>
      cases hstep
      exact .same (finalizeEntry_disk s _ _ _) nofun
    all_goals first | (cases hstep; exact .same rfl nofun) | cases hstep
  | removeAllData hstep =>
    unfold stepRemoveAllData at hstep
    split at hstep
    case h_2 =>
      obtain ⟨disk, hunlink, hr⟩ := Option.map_eq_some_iff.mp hstep
      cases hr
      exact .unlink hunlink rfl
    case h_4 =>
      cases hstep
      exact .same (finalizeEntries_disk _ s) nofun
    all_goals first | (cases hstep; exact .same rfl nofun) | cases hstep
  | getStats hstep =>
    unfold stepGetStats at hstep
    split at hstep
    case h_1 =>
      obtain ⟨⟨mid, start⟩, hbegin, hr⟩ := Option.map_eq_some_iff.mp hstep
      have hsame := refreshBegin_disk hbegin
      cases start <;> cases hr <;> exact .same hsame nofun
    all_goals first | (cases hstep; exact .same rfl nofun) | cases hstep

end Effects

/-- Names and calls refer to files that are there, and a temporary file belongs to a call. -/
structure Handles (s : State) : Prop where
  bounded : ∀ path n, s.disk.names path = some n → n < s.disk.files.length
  opened : ∀ c ∈ s.calls, ∀ fd ∈ c.fds, fd < s.disk.files.length
  owned : ∀ k, s.disk.names (.tmp k) ≠ none → ∃ c ∈ s.calls, c.key = some k

theorem init_handles (useDirectIo : Bool) (control : Control) : Handles (init useDirectIo control) :=
  ⟨nofun, nofun, fun _ h => absurd rfl h⟩

theorem start_fds (s : State) (request : Request) : (start s request).2.fds = [] := by
  cases request with
  | swapOut request =>
    simp only [start, startSwapOut]
    split
    · rfl
    split
    · rfl
    split
    · rfl
    · rfl
  | swapIn request =>
    simp only [start, startSwapIn]
    split
    · rfl
    · split
      · rfl
      · rfl
  | removeData keyId =>
    simp only [start, startRemoveData]
    split
    · rfl
    split
    · rfl
    split
    · rfl
    split
    · rfl
    · rfl
  | removeAllData =>
    simp only [start, startRemoveAllData]
    split
    · rfl
    split
    · rfl
    · rfl
  | getStats => rfl

theorem step_handles {s t : State} {a : Action} (inv : Handles s) (h : step s a = some t) :
    Handles t := by
  rcases step_cases h with ⟨request, -, rfl⟩ | ⟨i, outcome, c, s', c', -, hc, hstep, rfl⟩
  · have hdisk := (start_files s request).1
    have hfds := start_fds s request
    refine ⟨?_, ?_, fun k hk => ?_⟩
    · show ∀ path n, (start s request).1.disk.names path = some n →
        n < (start s request).1.disk.files.length
      rw [hdisk]
      exact inv.bounded
    · show ∀ c ∈ s.calls ++ [(start s request).2], ∀ fd ∈ c.fds,
        fd < (start s request).1.disk.files.length
      rw [hdisk]
      refine forall_mem_append_singleton inv.opened ?_
      rw [hfds]
      exact nofun
    · replace hk : (start s request).1.disk.names (.tmp k) ≠ none := hk
      rw [hdisk] at hk
      obtain ⟨c, hc, hkey⟩ := inv.owned k hk
      exact ⟨c, List.mem_append_left _ hc, hkey⟩
  · have effect := stepCall_effect_disk hstep
    have hkeep := congrArg (Option.map Prod.fst) (stepCall_frame hstep).2.1
    have hbound : ∀ n, (∃ path, s.disk.names path = some n) → n < s'.disk.files.length :=
      fun n ⟨path, hn⟩ => Nat.lt_of_lt_of_le (inv.bounded path n hn) effect.length
    refine ⟨fun path n hn => ?_, ?_, fun k hk => ?_⟩
    · rcases effect.names path n hn with hlt | hold
      · exact hlt
      · exact hbound n hold
    · refine forall_mem_set i (fun d hd fd hfd => ?_) fun fd hfd => ?_
      · exact Nat.lt_of_lt_of_le (inv.opened d hd fd hfd) effect.length
      · rcases effect.opened fd hfd with hold | hlt | hold
        · exact Nat.lt_of_lt_of_le (inv.opened c (List.mem_of_getElem? hc) fd hold) effect.length
        · exact hlt
        · exact hbound fd hold
    · rcases effect.tmp k hk with hold | hkey
      · exact exists_mem_set hc (fun hkey => hkeep.trans hkey) (inv.owned k hold)
      · exact exists_mem_set hc (fun hkey => hkeep.trans hkey) ⟨c, List.mem_of_getElem? hc, hkey⟩

/-! ## The run of the other call -/

/-- A step in the shadow; `none` makes a file that has no name. -/
def stepShadow (s : State) : Option Action → Option State
  | none => some { s with disk := { s.disk with files := s.disk.files ++ [[]] } }
  | some a => step s a

/-- The actions that are not steps of the call `i`. -/
def elsewhere (i : Nat) : Action → List Action
  | .start request => [.start request]
  | .go j outcome => if j = i then [] else [.go j outcome]

def shadowElsewhere (i : Nat) (a : Option Action) : List Action := a.elim [] (elsewhere i)

/-- The call `i` does not leave its file behind, and no other call is refused, or let through, for
the bytes it has reserved. -/
def Unnoticed (i : Nat) (s : State) : Action → Prop
  | .start _ => True
  | .go j outcome => ∀ request k pc, s.calls[i]? = some (.swapOut request k pc) →
      (j = i → ∀ err err', pc = .cleanup err → outcome = .error err' →
        s.disk.names (.tmp k) = none) ∧
      (j ≠ i → ∀ other key, s.calls[j]? = some (.swapOut other key .reserve) → outcome = .ok →
        ((s.control.lessPending (Call.swapOut request k pc).held).reserveSwapOut
            other.bufferSize).1 =
          (s.control.reserveSwapOut other.bufferSize).1)

/-- The call `i` is a `SwapOut` that stands at `pc`, and the disk `e` is without its file. -/
structure Behind (i : Nat) (request : SwapOutRequest) (k : UInt64) (pc : OutPc)
    (blank : Option Nat) (e : Disk) (s : State) : Prop where
  call : s.calls[i]? = some (.swapOut request k pc)
  own : OwnFile k blank s.disk pc
  disk : DiskShadow k blank s.disk e
  others : ∀ j c, j ≠ i → s.calls[j]? = some c → OpenElsewhere blank s.disk c

/-- The state with a `GetStats` in the place of the call `i`. -/
def State.behind (s : State) (i : Nat) (request : SwapOutRequest) (k : UInt64) (pc : OutPc)
    (e : Disk) : State :=
  s.shadow (s.calls.set i (.getStats (shadowPc pc))) (Call.swapOut request k pc).held e

section Simulation

variable {s s' : State} {i j : Nat} {request : SwapOutRequest} {k : UInt64} {pc pc' : OutPc}
  {blank : Option Nat} {e : Disk} {c c' : Call} {outcome : Outcome}

theorem start_shadow (s : State) (l : List Call) (held : UInt64) (e : Disk) (request : Request) :
    start (s.shadow l held e) request =
      ((start s request).1.shadow l held e, (start s request).2) := by
  have hdirect : (s.shadow l held e).useDirectIo = s.useDirectIo := rfl
  have hflag : (s.shadow l held e).removeAllInProgress = s.removeAllInProgress := rfl
  have hops : (s.shadow l held e).activeOps = s.activeOps := rfl
  have hentries : (s.shadow l held e).entries = s.entries := rfl
  cases request with
  | swapOut request =>
    simp only [start, startSwapOut, hdirect, hflag]
    split_ifs
    · rfl
    · rfl
    · rfl
    · rfl
  | swapIn request =>
    simp only [start, startSwapIn, hdirect]
    split_ifs
    · rfl
    · rfl
    · rfl
  | removeData keyId =>
    have hfind : findEntry (s.shadow l held e) keyId = findEntry s keyId := rfl
    simp only [start, startRemoveData, hfind]
    cases findEntry s keyId with
    | none =>
      dsimp only
      split_ifs
      · rfl
      · rfl
    | some entry =>
      dsimp only
      split_ifs
      · rfl
      · rfl
      · rfl
      · rfl
  | removeAllData =>
    simp only [start, startRemoveAllData, hops, hentries]
    split_ifs
    · rfl
    · rfl
    · rfl
  | getStats => rfl

theorem OwnFile.mono {d d' : Disk} (h : OwnFile k blank d pc)
    (hfree : d.names (.tmp k) = none → d'.names (.tmp k) = none) : OwnFile k blank d' pc := by
  cases pc with
  | refresh => exact ⟨hfree h.1, h.2⟩
  | refreshing now committedAtStart => exact ⟨hfree h.1, h.2⟩
  | reserve => exact ⟨hfree h.1, h.2⟩
  | openTmp => exact ⟨hfree h.1, h.2⟩
  | write fd written => exact h
  | fsync => exact h
  | rename => exact h
  | cleanup err => exact h
  | cancel err => exact hfree h
  | commit => exact h
  | endOperation result =>
    cases result with
    | ok key => exact h
    | error err => exact hfree h
  | done result =>
    cases result with
    | ok key => exact h
    | error err => exact hfree h

theorem Behind.start (hb : Behind i request k pc blank e s) (r : Request) {t : State}
    (ht : t = { (start s r).1 with calls := s.calls ++ [(Swapfs.start s r).2] }) :
    Behind i request k pc blank e t ∧
      step (s.behind i request k pc e) (.start r) = some (t.behind i request k pc e) := by
  subst ht
  have hi : i < s.calls.length := (List.getElem?_eq_some_iff.mp hb.call).1
  have hdisk := (start_files s r).1
  refine ⟨⟨?_, ?_, ?_, ?_⟩, ?_⟩
  · exact (List.getElem?_append_left hi).trans hb.call
  · show OwnFile k blank (Swapfs.start s r).1.disk pc
    rw [hdisk]
    exact hb.own
  · show DiskShadow k blank (Swapfs.start s r).1.disk e
    rw [hdisk]
    exact hb.disk
  · intro j c hj hc
    show OpenElsewhere blank (Swapfs.start s r).1.disk c
    rw [hdisk]
    rcases Nat.lt_or_ge j s.calls.length with hlt | hge
    · exact hb.others j c hj ((List.getElem?_append_left hlt).symm.trans hc)
    · have hc' := (List.getElem?_append_right hge).symm.trans hc
      obtain rfl : (Swapfs.start s r).2 = c :=
        List.mem_singleton.mp (List.mem_of_getElem? hc') ▸ rfl
      intro fd hfd
      rw [start_fds] at hfd
      cases hfd
  · unfold State.behind
    rw [step, start_shadow]
    have hset : (s.calls ++ [(Swapfs.start s r).2]).set i (.getStats (shadowPc pc)) =
        s.calls.set i (.getStats (shadowPc pc)) ++ [(Swapfs.start s r).2] :=
      List.set_append_left _ _ hi
    rw [hset]
    rfl

theorem Behind.other (hb : Behind i request k pc blank e s) (hij : j ≠ i)
    (hc : s.calls[j]? = some c) (hkey : c.key ≠ some k)
    (hpending : (Call.swapOut request k pc).reserved + c.reserved ≤
      s.control.pendingOccupiedSize.toNat)
    (hunnoticed : Unnoticed i s (.go j outcome)) (hstep : stepCall s outcome c = some (s', c'))
    {t : State} (ht : t = { s' with calls := s.calls.set j c' }) :
    ∃ e', Behind i request k pc blank e' t ∧
      step (s.behind i request k pc e) (.go j outcome) = some (t.behind i request k pc e') := by
  subst ht
  have hdecide := (hunnoticed request k pc hb.call).2 hij
  rw [← held_toNat] at hpending
  obtain ⟨e', hshadow, hfollows⟩ := stepCall_shadow (s.calls.set i (.getStats (shadowPc pc))) hkey
    hb.disk (hb.others j c hij hc) hpending
    (fun other key hpc hok => hdecide other key (hpc ▸ hc) hok) hstep
  refine ⟨e', ⟨?_, ?_, hfollows.disk, ?_⟩, ?_⟩
  · exact (List.getElem?_set_ne hij).trans hb.call
  · refine hb.own.mono fun hfree => by_contra fun hmade => ?_
    rcases (stepCall_effect_disk hstep).tmp k hmade with hold | hsame
    · exact hold hfree
    · exact hkey hsame
  · intro j' d hj' hd
    by_cases hjj : j = j'
    · subst hjj
      obtain rfl : c' = d := by
        have hlt : j < s.calls.length := (List.getElem?_eq_some_iff.mp hc).1
        exact Option.some.inj ((List.getElem?_set_self hlt).symm.trans hd)
      exact hfollows.opened
    · have hopen := hb.others j' d hj' ((List.getElem?_set_ne hjj).symm.trans hd)
      exact fun fd hfd => ⟨(hopen fd hfd).1, Nat.lt_of_lt_of_le (hopen fd hfd).2 hfollows.length⟩
  · have hc' : (s.behind i request k pc e).calls[j]? = some c :=
      (List.getElem?_set_ne (Ne.symm hij)).trans hc
    have hset : (s.calls.set j c').set i (.getStats (shadowPc pc)) =
        (s.calls.set i (.getStats (shadowPc pc))).set j c' := List.set_comm _ _ hij
    have hrun : stepCall (s.behind i request k pc e) outcome c = _ := hshadow
    rw [step, hc']
    dsimp only
    rw [hrun, State.behind, hset]
    rfl

theorem step_getStats {m m' : State} {pc pc' : StatsPc} (hi : m.calls[i]? = some (.getStats pc))
    (h : stepGetStats m pc outcome = some (m', pc')) :
    step m (.go i outcome) = some { m' with calls := m.calls.set i (.getStats pc') } := by
  have hstep : stepCall m outcome (.getStats pc) = some (m', .getStats pc') := by
    rw [stepCall, h]
    rfl
  rw [step, hi]
  dsimp only
  rw [hstep, Option.map_some, (stepCall_frame hstep).1.calls]

/-- The call itself does a step, and does not get as far as the entry. -/
theorem Behind.itself (hb : Behind i request k pc blank e s)
    (hpending : (Call.swapOut request k pc).reserved ≤ s.control.pendingOccupiedSize.toNat)
    (hunnoticed : Unnoticed i s (.go i outcome))
    (hstep : stepSwapOut s request k pc outcome = some (s', pc')) (hfails : ¬ pc'.succeeds)
    {t : State} (ht : t = { s' with calls := s.calls.set i (.swapOut request k pc') }) :
    ∃ blank' e' bs, Behind i request k pc' blank' e' t ∧
      run stepShadow (s.behind i request k pc e) bs = some (t.behind i request k pc' e') ∧
      bs.flatMap (shadowElsewhere i) = [] := by
  subst ht
  have hi : i < s.calls.length := (List.getElem?_eq_some_iff.mp hb.call).1
  have hset : ∀ c c' : Call, (s.calls.set i c).set i c' = s.calls.set i c' :=
    fun c _ => List.set_set c
  have hself : ∀ c : Call, (s.calls.set i c)[i]? = some c := fun c => List.getElem?_set_self hi
  obtain ⟨blank', e', hfollows, hmove⟩ := stepOwn_shadow
    (s.calls.set i (.getStats (shadowPc pc))) hb.disk hb.own hpending
    (fun err err' hpc hout => (hunnoticed request k pc hb.call).1 rfl err err' hpc hout) hstep hfails
  have hbehind : Behind i request k pc' blank' e'
      { s' with calls := s.calls.set i (.swapOut request k pc') } := by
    refine ⟨hself _, hfollows.file, hfollows.disk, fun j c hj hc fd hfd => ?_⟩
    have hopen := hb.others j c hj ((List.getElem?_set_ne (Ne.symm hj)).symm.trans hc) fd hfd
    refine ⟨fun hblank => ?_, Nat.lt_of_lt_of_le hopen.2 hfollows.length⟩
    rcases hfollows.fresh fd hblank with hold | hlater
    · exact hopen.1 hold
    · exact absurd hopen.2 (Nat.not_lt.mpr hlater)
  have htarget : State.behind { s' with calls := s.calls.set i (.swapOut request k pc') } i request
      k pc' e' = s'.shadow (s.calls.set i (.getStats (shadowPc pc')))
        (Call.swapOut request k pc').held e' := by
    unfold State.behind
    rw [hset]
    rfl
  have hmoves : ∃ bs, run stepShadow (s.behind i request k pc e) bs =
        some (s'.shadow (s.calls.set i (.getStats (shadowPc pc'))) (Call.swapOut request k pc').held e') ∧
      bs.flatMap (shadowElsewhere i) = [] := by
    cases hmove with
    | quiet hstate hpc =>
      refine ⟨[], congrArg some ?_, rfl⟩
      rw [hpc, hstate, State.behind]
    | blank hdisk hstate hpc =>
      refine ⟨[none], congrArg some ?_, rfl⟩
      rw [hpc, hstate, hdisk]
      rfl
    | same hsame =>
      refine ⟨[some (.go i outcome)], ?_, by simp [shadowElsewhere, elsewhere]⟩
      have hgo := step_getStats (m := s.behind i request k pc e) (hself _) hsame
      rw [run, stepShadow, hgo]
      refine congrArg some ?_
      show s'.shadow ((s.calls.set i _).set i _) _ _ = _
      rw [hset]
      rfl
    | finish hstate hpc hpc' houtcome =>
      refine ⟨[some (.go i .ok), some (.go i .ok)], ?_, by simp [shadowElsewhere, elsewhere]⟩
      have hfilled : stepGetStats (s.behind i request k pc e) (shadowPc pc) .ok =
          some (s.behind i request k pc e, .endOperation) := by
        rw [hpc]
        rfl
      have hfill := step_getStats (hself _) hfilled
      have hend := step_getStats (m := { s.behind i request k pc e with
          calls := (s.calls.set i (.getStats (shadowPc pc))).set i (.getStats .endOperation) })
        (by rw [hset]; exact hself _)
        (show stepGetStats _ .endOperation .ok = some (_, .done) from rfl)
      have hlast : s'.shadow (s.calls.set i (.getStats .done)) (Call.swapOut request k pc').held e' =
          { endOperation (s.behind i request k pc e) with
            calls := s.calls.set i (.getStats .done) } := by
        have hcalls := congrArg (fun m : State => { m with calls := s.calls.set i (.getStats .done) })
          hstate
        exact hcalls
      rw [hpc', hlast, run, stepShadow, hfill]
      show run stepShadow { s.behind i request k pc e with
          calls := (s.calls.set i (.getStats (shadowPc pc))).set i (.getStats .endOperation) }
        [some (.go i .ok)] = _
      rw [run, stepShadow, hend, hset, hset]
      rfl
  obtain ⟨bs, hbs, hlabels⟩ := hmoves
  exact ⟨blank', e', bs, hbehind, hbs.trans (congrArg some htarget.symm), hlabels⟩

/-- The call `i` has renamed its file, or a key was handed out twice. -/
def Beyond (i : Nat) (s : State) : Prop :=
  2 ^ 64 < s.issued ∨
    ∃ request k pc, s.calls[i]? = some (.swapOut request k pc) ∧ OutPc.succeeds pc

theorem step_issued {s t : State} {a : Action} (h : step s a = some t) : s.issued ≤ t.issued := by
  rcases step_cases h with ⟨request, -, rfl⟩ | ⟨i, outcome, c, s', c', -, hc, hstep, rfl⟩
  · simp [State.issued, List.filterMap_append]
  · have hkeys : (s.calls.set i c').filterMap Call.key = s.calls.filterMap Call.key :=
      filterMap_set Call.key c' hc (congrArg (Option.map Prod.fst) (stepCall_frame hstep).2.1)
    simp only [State.issued, hkeys, Nat.le_refl]

theorem stepSwapOut_succeeds (hpc : pc.succeeds)
    (h : stepSwapOut s request k pc outcome = some (s', pc')) : pc'.succeeds := by
  unfold stepSwapOut at h
  split at h
  case h_15 =>
    cases h
    trivial
  case h_16 =>
    next result =>
    cases h
    cases result with
    | ok key => trivial
    | error err => exact absurd hpc id
  case h_17 => cases h
  all_goals exact absurd hpc id

theorem step_beyond (s : State) (a : Action) (t : State) (hs : Beyond i s) (h : step s a = some t) :
    Beyond i t := by
  rcases hs with hmany | ⟨request, k, pc, hcall, hpc⟩
  · exact .inl (Nat.lt_of_lt_of_le hmany (step_issued h))
  refine .inr ?_
  have hi : i < s.calls.length := (List.getElem?_eq_some_iff.mp hcall).1
  rcases step_cases h with ⟨r, -, rfl⟩ | ⟨j, outcome, c, s', c', -, hc, hstep, rfl⟩
  · exact ⟨request, k, pc, (List.getElem?_append_left hi).trans hcall, hpc⟩
  · by_cases hij : j = i
    · subst hij
      obtain rfl : c = .swapOut request k pc := Option.some.inj (hc.symm.trans hcall)
      obtain ⟨⟨mid, pc'⟩, hpcs, hr⟩ := Option.map_eq_some_iff.mp hstep
      cases hr
      exact ⟨request, k, pc', List.getElem?_set_self hi, stepSwapOut_succeeds hpc hpcs⟩
    · exact ⟨request, k, pc, (List.getElem?_set_ne hij).trans hcall, hpc⟩

/-- The run of the `GetStats` is in the shadow of the run of the `SwapOut`. -/
def Shadowed (limit : UInt64) (i : Nat) (request : SwapOutRequest) (k : UInt64) (s t : State) : Prop :=
  QuotaInv limit s ∧
    ∃ pc blank e, Behind i request k pc blank e s ∧ t = s.behind i request k pc e

theorem step_shadowed {limit : UInt64} (s : State) (a : Action) (s' t : State)
    (hrel : Shadowed limit i request k s t)
    (hok : Unnoticed i s a ∧ ∀ u, step s a = some u → ¬ Beyond i u) (h : step s a = some s') :
    ∃ bs t', run stepShadow t bs = some t' ∧ Shadowed limit i request k s' t' ∧
      bs.flatMap (shadowElsewhere i) = elsewhere i a := by
  obtain ⟨inv, pc, blank, e, hb, rfl⟩ := hrel
  have hbeyond := hok.2 s' h
  have inv' := step_quotaInv s a s' inv trivial h
  have hfew : s.issued ≤ 2 ^ 64 := by
    have hmono := step_issued h
    have hless : ¬ 2 ^ 64 < s'.issued := fun hmany => hbeyond (.inl hmany)
    omega
  have hnodup := inv.keys.nodup hfew
  have hpending := (inv.accounts hfew).ledger.pending
  rcases step_cases h with ⟨r, rfl, ht⟩ | ⟨j, outcome, c, m, c', rfl, hc, hstep, ht⟩
  · obtain ⟨hb', hrun⟩ := hb.start r ht
    refine ⟨[some (.start r)], _, ?_, ⟨inv', pc, blank, e, hb', rfl⟩, rfl⟩
    rw [run, stepShadow, hrun]
    rfl
  · by_cases hij : j = i
    · subst hij
      obtain rfl : c = .swapOut request k pc := Option.some.inj (hc.symm.trans hb.call)
      obtain ⟨⟨mid, pc'⟩, hpcs, hr⟩ := Option.map_eq_some_iff.mp hstep
      cases hr
      have hle := le_total Call.reserved hc
      have hfails : ¬ pc'.succeeds := by
        intro hpc'
        have hi : j < s.calls.length := (List.getElem?_eq_some_iff.mp hc).1
        refine hbeyond (.inr ⟨request, k, pc', ?_, hpc'⟩)
        rw [ht]
        exact List.getElem?_set_self hi
      obtain ⟨blank', e', bs, hb', hrun, hlabels⟩ := hb.itself (by omega) hok.1 hpcs hfails ht
      refine ⟨bs, _, hrun, ⟨inv', pc', blank', e', hb', rfl⟩, ?_⟩
      rw [hlabels, elsewhere, if_pos rfl]
    · have hkey : c.key ≠ some k := fun hkey => hij (index_unique hnodup hc hb.call hkey rfl)
      have hle := add_le_total Call.reserved (Ne.symm hij) hb.call hc
      obtain ⟨e', hb', hrun⟩ := hb.other hij hc hkey (by omega) hok.1 hstep ht
      refine ⟨[some (.go j outcome)], _, ?_, ⟨inv', pc, blank, e', hb', rfl⟩, List.append_nil _⟩
      rw [run, stepShadow, hrun]
      rfl

end Simulation

/-! ## What is left -/

/-- The state `t` behind the call `i` is the state `u` behind a `GetStats` in its place. -/
structure LeftAsBy (i : Nat) (t u : State) : Prop where
  state : u = { t with disk := u.disk, calls := t.calls.set i (.getStats .done) }
  names : u.disk.names = t.disk.names
  contents : ∀ path, u.disk.lookup path = t.disk.lookup path

section Runs

variable {useDirectIo : Bool} {available limit : UInt64} {intervalMs : UInt32} {now : Int}
  {before after : List Action} {s t : State} {request : SwapOutRequest} {i : Nat}

theorem made_of_run (hrun : run step s after = some t) {c : Call} (hc : s.calls[i]? = some c) :
    ∃ c', t.calls[i]? = some c' ∧ c'.made = c.made := by
  have hstep : ∀ s a t, (∃ c', s.calls[i]? = some c' ∧ c'.made = c.made) → True →
      step s a = some t → ∃ c', t.calls[i]? = some c' ∧ c'.made = c.made := ?_
  · exact run_invariant hstep ⟨c, hc, rfl⟩ (stepsOk_true _ _) hrun
  intro s a t ⟨d, hd, hmade⟩ _ h
  have hi : i < s.calls.length := (List.getElem?_eq_some_iff.mp hd).1
  rcases step_cases h with ⟨r, -, rfl⟩ | ⟨j, outcome, d', s', d'', -, hd', hstep, rfl⟩
  · exact ⟨d, (List.getElem?_append_left hi).trans hd, hmade⟩
  · by_cases hij : j = i
    · subst hij
      obtain rfl : d' = d := Option.some.inj (hd'.symm.trans hd)
      exact ⟨d'', List.getElem?_set_self hi, (stepCall_frame hstep).2.1.trans hmade⟩
    · exact ⟨d, (List.getElem?_set_ne hij).trans hd, hmade⟩

theorem start_of_made {k : UInt64} {r : SwapOutRequest}
    (h : (start s (.swapOut request)).2.made = some (k, r)) :
    start s (.swapOut request) =
      ({ s with activeOps := s.activeOps + 1, nextKeyId := s.nextKeyId + 1 },
        .swapOut request s.nextKeyId .refresh) := by
  simp only [start, startSwapOut] at h ⊢
  split_ifs at h ⊢
  all_goals first | rfl | cases h

theorem behind_of_start (handles : Handles s)
    (hnodup : ((s.calls ++ [Call.swapOut request s.nextKeyId .refresh]).filterMap Call.key).Nodup)
    (ht : t = { s with
      activeOps := s.activeOps + 1
      nextKeyId := s.nextKeyId + 1
      calls := s.calls ++ [Call.swapOut request s.nextKeyId .refresh] }) :
    Behind s.calls.length request s.nextKeyId .refresh none s.disk t ∧
      step { s with nextKeyId := s.nextKeyId + 1 } (.start .getStats) =
        some (t.behind s.calls.length request s.nextKeyId .refresh s.disk) := by
  subst ht
  have hlast : (s.calls ++ [Call.swapOut request s.nextKeyId .refresh])[s.calls.length]? =
      some (.swapOut request s.nextKeyId .refresh) := List.getElem?_concat_length
  have hfree : s.disk.names (.tmp s.nextKeyId) = none := by
    by_contra hmade
    obtain ⟨c, hc, hkey⟩ := handles.owned _ hmade
    obtain ⟨j, hj⟩ := List.mem_iff_getElem?.mp hc
    have hlt : j < s.calls.length := (List.getElem?_eq_some_iff.mp hj).1
    have heq : j = s.calls.length :=
      index_unique hnodup ((List.getElem?_append_left hlt).trans hj) hlast hkey rfl
    omega
  refine ⟨⟨hlast, ⟨hfree, rfl⟩, ⟨fun _ _ => rfl, hfree, rfl, fun _ _ => rfl, handles.bounded, nofun,
    fun _ _ _ _ => nofun⟩, fun j c hj hc fd hfd => ⟨nofun, ?_⟩⟩, ?_⟩
  · have hmem := List.mem_of_getElem? hc
    rcases List.mem_append.mp hmem with hold | hnew
    · exact handles.opened c hold fd hfd
    · rw [List.mem_singleton.mp hnew] at hfd
      cases hfd
  · have hset : (s.calls ++ [Call.swapOut request s.nextKeyId .refresh]).set s.calls.length
        (.getStats .refresh) = s.calls ++ [.getStats .refresh] := by simp
    rw [State.behind, State.shadow]
    show _ = some { s with
      activeOps := s.activeOps + 1
      nextKeyId := s.nextKeyId + 1
      control := s.control.lessPending 0
      calls := (s.calls ++ [Call.swapOut request s.nextKeyId .refresh]).set s.calls.length
        (.getStats .refresh) }
    rw [hset, Control.lessPending_zero]
    rfl

/-- A `SwapOut` that fails, in any run, leaves what a `GetStats` in its place leaves, and a key
that nobody has: every other call does the same. -/
theorem failed_swapOut_unseen
    (hbefore : run step (init useDirectIo
      (Control.initWithAvailableSpace available limit intervalMs now)) before = some s)
    (hafter : run step s (.start (.swapOut request) :: after) = some t)
    (hfailed : ∃ r k err, t.calls[s.calls.length]? = some (.swapOut r k (.done (.error err))))
    (hfew : t.issued ≤ 2 ^ 64)
    (hunnoticed : StepsOk step (Unnoticed s.calls.length) s (.start (.swapOut request) :: after)) :
    ∃ bs u, run stepShadow { s with nextKeyId := s.nextKeyId + 1 } (some (.start .getStats) :: bs) =
        some u ∧
      bs.flatMap (shadowElsewhere s.calls.length) = after.flatMap (elsewhere s.calls.length) ∧
      LeftAsBy s.calls.length t u := by
  have inv := run_invariant step_quotaInv (init_quotaInv useDirectIo available limit intervalMs now)
    (stepsOk_true before _) hbefore
  have handles := run_invariant (fun s a t hs (_ : True) => step_handles hs) (init_handles _ _)
    (stepsOk_true before _) hbefore
  obtain ⟨r, k, err, hlast⟩ := hfailed
  have hgood : ¬ Beyond s.calls.length t := by
    rintro (hmany | ⟨r', k', pc, hcall, hpc⟩)
    · omega
    · cases hcall.symm.trans hlast
      exact hpc
  have hend := stepsOk_of_final step_beyond hafter hgood
  obtain ⟨m, hm, hrest⟩ := Option.bind_eq_some_iff.mp hafter
  have hfew' : m.issued ≤ 2 ^ 64 :=
    Nat.not_lt.mp fun hmany => hend.1 m hm (.inl hmany)
  have inv' := step_quotaInv s _ m inv trivial hm
  -- the call was taken
  have hfirst : m = { (start s (.swapOut request)).1 with
      calls := s.calls ++ [(start s (.swapOut request)).2] } := by
    rcases step_cases hm with ⟨_, hr, ht⟩ | ⟨_, _, _, _, _, hr, -⟩
    · cases hr
      exact ht
    · cases hr
  have hcall : m.calls[s.calls.length]? = some (start s (.swapOut request)).2 := by
    rw [hfirst]
    exact List.getElem?_concat_length
  obtain ⟨c', hc', hmade⟩ := made_of_run hrest hcall
  have hmade' : (start s (.swapOut request)).2.made = some (k, r) := by
    rw [← hmade, Option.some.inj (hc'.symm.trans hlast)]
    rfl
  rw [start_of_made hmade'] at hfirst
  have hnodup := inv'.keys.nodup hfew'
  rw [hfirst] at hnodup
  obtain ⟨hbehind, hstart⟩ := behind_of_start handles hnodup hfirst
  obtain ⟨bs, u, hrun, ⟨-, pc, blank, e, hb, rfl⟩, hlabels⟩ := run_simulation step_shadowed
    (t := m.behind s.calls.length request s.nextKeyId .refresh s.disk)
    ⟨inv', _, _, _, hbehind, rfl⟩ ((hunnoticed.2 m hm).and (hend.2 m hm)) hrest
  cases hb.call.symm.trans hlast
  refine ⟨bs, t.behind s.calls.length request s.nextKeyId (.done (.error err)) e, ?_,
    hlabels,
    ⟨?_, hb.disk.names_eq hb.own, hb.disk.lookup_eq hb.own⟩⟩
  · rw [run, stepShadow, hstart]
    exact hrun
  · have hheld : (Call.swapOut request s.nextKeyId (.done (.error err))).held = 0 :=
      held_of_zero rfl
    show State.mk _ (t.control.lessPending _) _ _ _ _ _ _ = _
    rw [hheld, Control.lessPending_zero]
    rfl

end Runs

/-! ### Runs -/

theorem unnoticed_go {s : State} {i : Nat} {request : SwapOutRequest} {k : UInt64} {pc : OutPc}
    {outcome : Outcome} (hcall : s.calls[i]? = some (.swapOut request k pc))
    (h : ∀ err err', pc = .cleanup err → outcome ≠ .error err') : Unnoticed i s (.go i outcome) := by
  intro request' k' pc' hcall'
  cases hcall.symm.trans hcall'
  exact ⟨fun _ err err' hpc hout => absurd hout (h err err' hpc), fun hne => absurd rfl hne⟩

/-- Steps behind which a call has failed at its first write. -/
def failedWrite (now : Int) : List Outcome :=
  [.time now, .ok, .ok, .error .ioError, .ok, .ok, .ok]

/-- The manager behind a call that failed. -/
def oneFailed : State :=
  { init false smallControl with
    nextKeyId := 2
    disk := ⟨Function.update (Function.update (fun _ => none) (.tmp 1) (some 0)) (.tmp 1) none, [[]]⟩
    calls := [.swapOut oneByte 1 (.done (.error .ioError))] }

theorem run_oneFailed :
    run step (init false smallControl) (alone 0 (.swapOut oneByte) (failedWrite 0)) =
      some oneFailed := rfl

theorem unnoticed_oneFailed :
    StepsOk step (Unnoticed 0) (init false smallControl)
      (alone 0 (.swapOut oneByte) (failedWrite 0)) := by
  refine .cons trivial rfl ?_
  refine .cons (unnoticed_go rfl (by nofun)) rfl ?_
  refine .cons (unnoticed_go rfl (by nofun)) rfl ?_
  refine .cons (unnoticed_go rfl (by nofun)) rfl ?_
  refine .cons (unnoticed_go rfl (by nofun)) rfl ?_
  refine .cons (unnoticed_go rfl (by nofun)) rfl ?_
  refine .cons (unnoticed_go rfl (by nofun)) rfl ?_
  refine .cons (unnoticed_go rfl (by nofun)) rfl .nil

theorem failed_swapOut_unseen_oneByte :
    ∃ bs u, run stepShadow { init false smallControl with nextKeyId := 2 }
        (some (.start .getStats) :: bs) = some u ∧
      bs.flatMap (shadowElsewhere 0) = [] ∧ LeftAsBy 0 oneFailed u := by
  have hbefore : run step (init false smallControl) [] = some (init false smallControl) := rfl
  exact failed_swapOut_unseen hbefore run_oneFailed ⟨oneByte, 1, .ioError, rfl⟩ (by decide)
    unnoticed_oneFailed

def eightBytes : SwapOutRequest := ⟨List.replicate 8 7, 0, by decide⟩

/-- The steps of a `SwapOut` up to its reservation. -/
def upToReserve (i : Nat) (request : SwapOutRequest) : List Action :=
  alone i (.swapOut request) [.time 0, .ok]

/-- A call that fails has refreshed the available space; and while it goes on, another call is
refused that alone is let through. -/
theorem failed_swapOut_seen :
    (∃ t, run step (init false smallControl)
        (alone 0 (.swapOut oneByte) [.time 2000, .space (some 0), .ok, .ok]) = some t ∧
      t.calls = [.swapOut oneByte 1 (.done (.error .noSpc))] ∧
      t.control.availableDeviceSpace ≠ (init false smallControl).control.availableDeviceSpace) ∧
    (∃ t, run step (init false smallControl)
        (upToReserve 0 eightBytes ++ upToReserve 1 oneByte ++
          [Action.go 0 (.error .ioError), .go 0 (.error .ioError), .go 0 .ok, .go 0 .ok]) = some t ∧
      t.calls = [.swapOut eightBytes 1 (.done (.error .ioError)),
        .swapOut oneByte 2 (.endOperation (.error .quotaExceeded))]) ∧
    ∃ t, run step { init false smallControl with nextKeyId := 2 } (upToReserve 0 oneByte) = some t ∧
      t.calls = [.swapOut oneByte 2 .openTmp] :=
  ⟨⟨_, rfl, rfl, by decide⟩, ⟨_, rfl, rfl⟩, ⟨_, rfl, rfl⟩⟩

end FileApi.Swapfs
