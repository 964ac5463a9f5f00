import FileApi.Swapfs.Lifecycle
import FileApi.Swapfs.Proofs.Readers

/-!
# Destroy and the calls in flight

A `Destroy` that has seen `activeOps_` at zero relies on `shuttingDown_` to keep calls out until
its last section. The flag is shared: a `Destroy` that gives up resets it for all of them. In the
runs in which this does not happen the cleanup finds no call in flight.
-/

namespace FileApi.Swapfs

open Pool Keyed Machine

/-! ## Calls that are not in flight -/

theorem Call.active_of_step {s s' : State} {outcome : Outcome} {c c' : Call}
    (h : stepCall s outcome c = some (s', c')) : c.active = 1 := by
  unfold Call.active
  split
  case h_1 => cases outcome <;> cases h
  case h_2 => cases outcome <;> cases h
  case h_3 => cases outcome <;> cases h
  case h_4 => cases outcome <;> cases h
  case h_5 => cases outcome <;> cases h
  case h_6 => cases h
  case h_7 => rfl

theorem Call.idle_control {c : Call} (h : c.active = 0) :
    c.reserved = 0 ∧ c.refreshStart = none := by
  unfold Call.active at h
  split at h
  case h_7 => cases h
  all_goals exact ⟨rfl, rfl⟩

theorem step_go_inFlight {s t : State} {i : Nat} {outcome : Outcome}
    (h : step s (.go i outcome) = some t) : 1 ≤ s.inFlight ∧ t.inFlight ≤ s.inFlight := by
  rcases step_cases h with ⟨request, hstart, -⟩ | ⟨j, outcome', c, s', c', -, hc, hstep, rfl⟩
  · cases hstart
  · have hone := Call.active_of_step hstep
    have hle := le_total Call.active hc
    have hset := total_set Call.active c' hc
    have hone' := c'.active_le_one
    simp only [State.inFlight]
    omega

/-! ## Steps of the manager that are not steps of its calls -/

section Manager

variable {limit : UInt64} {m : State}

theorem ReadersInv.refuse (inv : ReadersInv limit m) (err : SwapfsErr) :
    ReadersInv limit { m with calls := m.calls ++ [Call.refused err] } := by
  have hissued : State.issued { m with calls := m.calls ++ [Call.refused err] } = m.issued := by
    simp only [State.issued, List.filterMap_append, List.length_append]
    rfl
  refine ⟨⟨⟨?_, ?_⟩, inv.quota.limit, fun hfew => ?_⟩, ?_, fun hfew => ?_⟩
  · rw [hissued, ← inv.quota.keys.keys, List.filterMap_append]
    exact List.append_nil _
  · rw [hissued]
    exact inv.quota.keys.next
  · obtain ⟨prov, ledger⟩ := inv.quota.accounts (hissued ▸ hfew)
    exact ⟨prov.start (by rintro _ _ ⟨⟩) (List.forall_mem_nil _) fun e he => ⟨e, he, rfl, rfl⟩, ledger.start rfl rfl⟩
  · simp only [State.inFlight, total_append, total_cons, total_nil]
    exact inv.count
  · exact (inv.keys (hissued ▸ hfew)).start rfl rfl

theorem ReadersInv.cleanup (inv : ReadersInv limit m) (hidle : m.inFlight = 0)
    (left : SwapFile → Bool) : ReadersInv limit (Session.cleanup m left) := by
  refine ⟨⟨⟨inv.quota.keys.keys, inv.quota.keys.next⟩, inv.quota.limit, fun hfew => ?_⟩, inv.count,
    fun hfew k => ?_⟩
  · obtain ⟨prov, ledger⟩ := inv.quota.accounts hfew
    have hlimit := ledger.bounds.limit
    refine ⟨⟨nofun, prov.copied, prov.sized⟩, { ledger with
      bounds := ⟨?_, ledger.bounds.inFlight, ledger.bounds.unclamped⟩
      distinct := List.nodup_nil, keys := rfl, data := rfl, occupied := rfl }⟩
    simp only [Session.cleanup, UInt64.toNat_zero]
    omega
  · obtain ⟨hreads, hremoves⟩ := quiet_of_inFlight hidle k
    exact ⟨fun _ => ⟨hreads, hremoves⟩, nofun, by simp only [Session.cleanup]; omega, nofun,
      .inl hremoves, nofun⟩

theorem ReadersInv.initManager (inv : ReadersInv limit m) (hidle : m.inFlight = 0)
    (hempty : m.entries = []) (useDirectIo : Bool) (available limit' : UInt64)
    (intervalMs : UInt32) (now : Int) :
    ReadersInv (configuredLimit limit')
      (Session.initManager m useDirectIo available limit' intervalMs now) := by
  have hcalls : ∀ c ∈ m.calls, c.active = 0 := fun c hc => eq_zero_of_total Call.active hidle hc
  refine ⟨⟨⟨inv.quota.keys.keys, inv.quota.keys.next⟩, rfl, fun hfew => ?_⟩, inv.count,
    inv.keys⟩
  obtain ⟨prov, ledger⟩ := inv.quota.accounts hfew
  simp only [Session.initManager, hempty]
  refine ⟨⟨nofun, prov.copied, prov.sized⟩, ⟨⟨Nat.zero_le _, Nat.two_pow_pos 64, ?_⟩,
    List.nodup_nil, rfl, rfl, rfl, ?_, ledger.refreshing, ?_⟩⟩
  · exact ledger.bounds.unclamped
  · have hnone := total_eq_zero Call.reserved fun c hc => (Call.idle_control (hcalls c hc)).1
    rw [hnone]
    rfl
  · intro c hc v hv
    rw [(Call.idle_control (hcalls c hc)).2] at hv
    cases hv

end Manager

/-! ## The flags -/

/-- The step is not a `Destroy` that gives up, or an `Init`, while another `Destroy` is under
way. -/
def Orderly (s : Session) : LifeAction → Prop
  | .goDestroy i _ => s.destroys[i]? = some .reset →
      ∀ j d, j ≠ i → s.destroys[j]? = some d → d.inFlight = false
  | .init _ _ _ _ _ => s.initialized = false → ∀ d ∈ s.destroys, d.inFlight = false
  | .call _ => True
  | .destroy => True

/-- The condition on a step. -/
def LifeOk (s : Session) (a : LifeAction) : Prop := FewInFlight s.manager ∧ Orderly s a

structure SessionInv (s : Session) : Prop where
  readers : ∃ limit, ReadersInv limit s.manager
  closed : s.initialized = false → s.manager.inFlight = 0 ∧ s.manager.entries = []
  flagged : s.initialized = true → s.shuttingDown = false → ∀ d ∈ s.destroys, d.inFlight = false
  quiet : .cleanup ∈ s.destroys → s.manager.inFlight = 0

theorem new_sessionInv : SessionInv Session.new :=
  ⟨⟨_, init_readersInv false 0 0 0 0⟩, fun _ => ⟨rfl, rfl⟩, nofun, nofun⟩

/-- A call begins only when no `Destroy` is under way. -/
theorem step_sessionInv (s : Session) (a : LifeAction) (t : Session) (inv : SessionInv s)
    (hok : LifeOk s a) (h : s.step a = some t) : SessionInv t := by
  obtain ⟨limit, readers⟩ := inv.readers
  obtain ⟨hfew, horder⟩ := hok
  cases a with
  | call action =>
    cases action with
    | start request =>
      have hrefuse : ∀ err, SessionInv
          { s with manager := { s.manager with calls := s.manager.calls ++ [Call.refused err] } } := by
        intro err
        have hflight : State.inFlight
            { s.manager with calls := s.manager.calls ++ [Call.refused err] } = s.manager.inFlight := by
          simp only [State.inFlight, total_append]
          rfl
        exact ⟨⟨limit, readers.refuse err⟩, fun hc => ⟨hflight.trans (inv.closed hc).1,
          (inv.closed hc).2⟩, inv.flagged, fun hc => hflight.trans (inv.quiet hc)⟩
      simp only [Session.step, Session.start, Option.some.injEq] at h
      split at h
      · subst h
        exact hrefuse _
      next hinit =>
      split at h
      · subst h
        exact hrefuse _
      next hflag =>
      have hopen : s.initialized = true := by simpa using hinit
      have hfree := inv.flagged hopen (by simpa using hflag)
      subst h
      have readers' := step_readersInv (a := .start request) readers hfew rfl
      refine ⟨⟨limit, readers'⟩, ?_, ?_, ?_⟩
      · intro hclosed
        cases hopen.symm.trans hclosed
      · exact inv.flagged
      · intro hcleanup
        cases hfree _ hcleanup
    | go i outcome =>
      obtain ⟨m, hstep, rfl⟩ := Option.map_eq_some_iff.mp h
      obtain ⟨hpos, hle⟩ := step_go_inFlight hstep
      refine ⟨⟨limit, step_readersInv readers hfew hstep⟩, ?_, inv.flagged, ?_⟩
      · intro hclosed
        have hzero := (inv.closed hclosed).1
        omega
      · intro hcleanup
        have hzero := inv.quiet hcleanup
        omega
  | init useDirectIo available limit' intervalMs now =>
    simp only [Session.step] at h
    split at h
    · cases h
      exact inv
    next hinit =>
    cases h
    have hclosed : s.initialized = false := by simpa using hinit
    obtain ⟨hidle, hempty⟩ := inv.closed hclosed
    exact ⟨⟨_, readers.initManager hidle hempty useDirectIo available limit' intervalMs now⟩,
      by rintro ⟨⟩, fun _ _ => horder hclosed, inv.quiet⟩
  | destroy =>
    cases h
    refine ⟨inv.readers, inv.closed, by rintro _ ⟨⟩, fun hcleanup => inv.quiet ?_⟩
    simpa using hcleanup
  | goDestroy i left =>
    simp only [Session.step] at h
    split at h
    · cases h
    next pc hpc =>
    have hmem := List.mem_of_getElem? hpc
    cases pc with
    | wait =>
      cases h
      refine ⟨inv.readers, inv.closed, fun hopen hflag => ?_, fun hcleanup => ?_⟩
      · -- the call itself is under way, so the flag is set
        cases inv.flagged hopen hflag _ hmem
      · rcases List.mem_or_eq_of_mem_set hcleanup with hold | hnew
        · exact inv.quiet hold
        · split at hnew
          · next hzero =>
            exact ofNat_eq_zero hfew (readers.count.symm.trans hzero)
          · cases hnew
    | cleanup =>
      cases h
      have hidle := inv.quiet hmem
      exact ⟨⟨limit, readers.cleanup hidle left⟩, fun _ => ⟨hidle, rfl⟩, by rintro ⟨⟩, fun _ => hidle⟩
    | reset =>
      cases h
      refine ⟨inv.readers, inv.closed, fun _ _ => ?_, fun hcleanup => inv.quiet ?_⟩
      · exact forall_mem_set_of_ne (fun j d hij hd => horder hpc j d hij hd) rfl
      · rcases List.mem_or_eq_of_mem_set hcleanup with hold | hnew
        · exact hold
        · cases hnew
    | done result => cases h

/-- A `Destroy` in front of its cleanup finds no call in flight, and after a cleanup no call is in
flight until the next `Init`. -/
structure DestroyQuiesced (s : Session) : Prop where
  cleanup : .cleanup ∈ s.destroys → s.manager.activeOps = 0 ∧ s.manager.inFlight = 0
  closed : s.initialized = false → s.manager.inFlight = 0

theorem destroyQuiesced_of_run {as : List LifeAction} {s : Session}
    (hrun : run Session.step Session.new as = some s)
    (hok : StepsOk Session.step LifeOk Session.new as) : DestroyQuiesced s := by
  have inv := run_invariant step_sessionInv new_sessionInv hok hrun
  obtain ⟨limit, readers⟩ := inv.readers
  refine ⟨fun hcleanup => ?_, fun hclosed => (inv.closed hclosed).1⟩
  have hidle := inv.quiet hcleanup
  refine ⟨?_, hidle⟩
  rw [readers.count, hidle]
  rfl

/-! ### One `Destroy`, and two of them -/

/-- `Init` on a device with 6 GiB and a limit of 8 bytes. -/
def smallInit : LifeAction := .init false (6 * 1024 * 1024 * 1024) 8 1000 0

/-- All files could be removed. -/
def noneLeft : SwapFile → Bool := fun _ => false

/-- `Init` has been called and `Destroy` has not. -/
def Session.Open (s : Session) : Prop := s.initialized = true ∧ s.shuttingDown = false

theorem Session.Open.step_call {s : Session} (hopen : s.Open) (a : Action) :
    s.step (.call a) = (Swapfs.step s.manager a).map fun m => { s with manager := m } := by
  cases a with
  | start request => simp [Session.step, Session.start, hopen.1, hopen.2, Swapfs.step]
  | go i outcome => rfl

theorem Session.Open.stepsOk_calls {s : Session} (hopen : s.Open) {as : List Action}
    (h : StepsOk Swapfs.step (fun m _ => FewInFlight m) s.manager as) :
    StepsOk Session.step LifeOk s (as.map .call) := by
  induction as generalizing s with
  | nil => trivial
  | cons a as ih =>
    refine ⟨⟨h.1, trivial⟩, fun t ht => ?_⟩
    rw [hopen.step_call] at ht
    obtain ⟨m, hm, rfl⟩ := Option.map_eq_some_iff.mp ht
    exact ih hopen (h.2 m hm)

/-- The manager behind `smallInit`. -/
def openSession : Session := { manager := init false smallControl, initialized := true }

theorem openSession_open : openSession.Open := ⟨rfl, rfl⟩

theorem stepsOk_smallInit {as : List LifeAction} (h : StepsOk Session.step LifeOk openSession as) :
    StepsOk Session.step LifeOk Session.new (smallInit :: as) :=
  .cons ⟨by unfold FewInFlight; decide, nofun⟩ rfl h

/-- A `SwapOut`, and a `Destroy` behind it. -/
def destroyBehindSwapOut : List LifeAction :=
  smallInit :: ((swapOutSteps 0).map LifeAction.call ++ [LifeAction.destroy, .goDestroy 0 noneLeft])

/-- The `Destroy` has seen `activeOps_` at zero. -/
def aboutToClean : Session :=
  { openSession with
    manager := oneEntry
    shuttingDown := true
    destroys := [.cleanup] }

theorem run_aboutToClean :
    run Session.step Session.new destroyBehindSwapOut = some aboutToClean := rfl

theorem stepsOk_aboutToClean : StepsOk Session.step LifeOk Session.new destroyBehindSwapOut := by
  have hcalls : run Session.step openSession ((swapOutSteps 0).map .call) =
    some { openSession with manager := oneEntry } := rfl
  refine stepsOk_smallInit (.append hcalls ?_ (.cons ?_ rfl (.cons ?_ rfl .nil)))
  · exact openSession_open.stepsOk_calls (stepsOk_fewInFlight _ _ (by decide))
  · exact ⟨by unfold FewInFlight; decide, trivial⟩
  · exact ⟨by unfold FewInFlight; decide, by rintro ⟨⟩⟩

theorem destroyQuiesced_aboutToClean :
    run Session.step Session.new destroyBehindSwapOut = some aboutToClean ∧
    DestroyQuiesced aboutToClean :=
  ⟨run_aboutToClean, destroyQuiesced_of_run run_aboutToClean stepsOk_aboutToClean⟩

/-- The steps of a `GetStats` behind its first section. -/
def statsSteps (i : Nat) : List LifeAction :=
  [.call (.go i (.time 0)), .call (.go i .ok), .call (.go i .ok)]

/-- One `Destroy` gives up because of a `GetStats`; before it resets the flag, the `GetStats` ends
and another `Destroy` sees no call in flight; then a call begins. -/
def twoDestroys : List LifeAction :=
  [smallInit, .call (.start .getStats), .destroy, .goDestroy 0 noneLeft] ++ statsSteps 0 ++
    [LifeAction.destroy, .goDestroy 1 noneLeft, .goDestroy 0 noneLeft, .call (.start .getStats)]

/-- The second `Destroy` is about to clean up, and the second `GetStats` is in flight. -/
def cleanedUnderACall : Session :=
  { manager :=
      { init false smallControl with
        activeOps := 1
        calls := [.getStats .done, .getStats .refresh] }
    initialized := true
    destroys := [.done (.error .busy), .cleanup] }

theorem twoDestroys_not_quiesced :
    run Session.step Session.new twoDestroys = some cleanedUnderACall ∧
    ¬ DestroyQuiesced cleanedUnderACall := by
  refine ⟨rfl, fun hquiesced => ?_⟩
  have hzero := (hquiesced.cleanup (by simp [cleanedUnderACall])).1
  exact absurd hzero (by decide)

end FileApi.Swapfs
