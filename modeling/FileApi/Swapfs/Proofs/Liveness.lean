import FileApi.Misc.Liveness
import FileApi.Swapfs.Proofs.Device
import FileApi.Swapfs.Proofs.Lifecycle

/-!
# Every call returns

A call has only so many steps left: its sections, one for each byte that it has to write or read,
and one for each file that it has to unlink. It waits for no other call but the one in the middle
of a refresh, which waits for nobody. So every call returns, if the threads and `refreshMutex_` are
fair.
-/

namespace FileApi.Swapfs

open Pool Machine

/-! ## The steps that are left -/

/-- The most steps that a call may still take, whatever comes of them. -/
def Call.stepsLeft : Call → Nat
  | .swapOut request _ pc =>
      match pc with
      | .refresh => request.buffer.length + 10
      | .refreshing _ _ => request.buffer.length + 9
      | .reserve => request.buffer.length + 8
      | .openTmp => request.buffer.length + 7
      | .write _ written => request.buffer.length - written + 6
      | .fsync => 5
      | .rename => 4
      | .cleanup _ => 3
      | .cancel _ => 2
      | .commit => 2
      | .endOperation _ => 1
      | .done _ => 0
  | .swapIn request pc =>
      match pc with
      | .lookup => request.bufferSize.toNat + 7
      | .openSwap entry => entry.dataSize.toNat + 6
      | .read entry _ _ got => entry.dataSize.toNat - got.length + 5
      | .finish _ => 4
      | .unlink _ _ => 3
      | .finishRemoval _ _ _ => 2
      | .endOperation _ => 1
      | .done _ => 0
  | .removeData _ pc =>
      match pc with
      | .unlink _ => 3
      | .finalize _ _ => 2
      | .endOperation _ => 1
      | .done _ => 0
  | .removeAllData pc =>
      match pc with
      | .unlink todo _ _ => todo.length + 3
      | .finalize _ _ => 2
      | .endOperation _ => 1
      | .done _ => 0
  | .getStats pc =>
      match pc with
      | .refresh => 4
      | .refreshing _ _ => 3
      | .fillStats => 2
      | .endOperation => 1
      | .done => 0
  | .refused _ => 0

/-- One while a refresh is going on. -/
def State.refreshes (s : State) : Nat := if s.control.refreshing then 1 else 0

/-- What a step of a call comes to: it has less to do, and it begins a refresh, or ends the one that
it is in the middle of, or leaves it alone. -/
structure Advances (s s' : State) (c c' : Call) : Prop where
  lower : c'.stepsLeft < c.stepsLeft
  leaves : c.refreshers = 0 ∨ c'.refreshers = 0
  refresh : c'.refreshers + s.refreshes = c.refreshers + s'.refreshes

section Steps

variable {s s' : State} {outcome : Outcome} {c c' : Call}

theorem Advances.quiet (hlower : c'.stepsLeft < c.stepsLeft) (h : c.refreshers = 0)
    (h' : c'.refreshers = 0) (hrefreshing : s'.control.refreshing = s.control.refreshing) :
    Advances s s' c c' :=
  ⟨hlower, .inl h, by rw [h, h', State.refreshes, State.refreshes, hrefreshing]⟩

theorem Advances.refreshBegin (hlower : c'.stepsLeft < c.stepsLeft) (h : c.refreshers = 0)
    (h' : c'.refreshers = 1) (hfree : s.control.refreshing = false) :
    Advances s { s with control := { s.control with refreshing := true } } c c' :=
  ⟨hlower, .inl h, by rw [h, h', State.refreshes, hfree]; rfl⟩

theorem Advances.refreshEnd {now : Int} {start : UInt64} {free : Option UInt64}
    (hle : c.refreshers ≤ s.refreshes) (h : c.refreshers = 1) (h' : c'.refreshers = 0)
    (hlower : c'.stepsLeft < c.stepsLeft) : Advances s (refreshEnd s now start free) c c' := by
  refine ⟨hlower, .inr h', ?_⟩
  have hon : s.refreshes ≤ 1 := by
    unfold State.refreshes
    split <;> omega
  have hoff : (Swapfs.refreshEnd s now start free).refreshes = 0 := rfl
  omega

theorem reserveSwapOut_refreshing (c : Control) (size : UInt64) :
    (c.reserveSwapOut size).2.refreshing = c.refreshing := by
  unfold Control.reserveSwapOut
  split
  · rfl
  · rfl

theorem finalizeEntry_refreshing (s : State) (k size : UInt64) (removed : Bool) :
    (finalizeEntry s k size removed).control.refreshing = s.control.refreshing := by
  unfold finalizeEntry
  split
  · rfl
  · split
    · rfl
    · rfl

theorem finalizeEntries_refreshing (removed : List (SwapKeyEntry × Bool)) : ∀ s : State,
    (removed.foldl (fun s r => finalizeEntry s r.1.keyId r.1.dataSize r.2) s).control.refreshing =
      s.control.refreshing := by
  induction removed with
  | nil => exact fun s => rfl
  | cons r removed ih => exact fun s => (ih _).trans (finalizeEntry_refreshing s _ _ _)

theorem stepSwapOut_advances {request : SwapOutRequest} {keyId : UInt64} {pc pc' : OutPc}
    (hle : (Call.swapOut request keyId pc).refreshers ≤ s.refreshes)
    (h : stepSwapOut s request keyId pc outcome = some (s', pc')) :
    Advances s s' (.swapOut request keyId pc) (.swapOut request keyId pc') := by
  unfold stepSwapOut at h
  split at h
  case h_1 =>
    obtain ⟨⟨s₁, start⟩, hbegin, hr⟩ := Option.map_eq_some_iff.mp h
    rcases refreshBegin_cases hbegin with ⟨rfl, rfl⟩ | ⟨hfree, rfl, rfl⟩
    · cases hr
      exact .quiet (by simp only [Call.stepsLeft]; omega) rfl rfl rfl
    · cases hr
      exact .refreshBegin (Nat.lt_succ_self _) rfl rfl hfree
  case h_2 =>
    cases h
    exact .refreshEnd hle rfl rfl (by simp only [Call.stepsLeft]; omega)
  case h_3 =>
    have hsame := reserveSwapOut_refreshing s.control request.bufferSize
    split at h
    all_goals
      next hreserve =>
      rw [hreserve] at hsame
      cases h
      exact .quiet (by simp only [Call.stepsLeft]; omega) rfl rfl hsame
  case h_6 fd written n =>
    split at h
    · cases h
      exact .quiet (by simp only [Call.stepsLeft]; omega) rfl rfl rfl
    split at h
    · cases h
    · cases h
      split
      · exact .quiet (by simp only [Call.stepsLeft]; omega) rfl rfl rfl
      · exact .quiet (by simp only [Call.stepsLeft]; omega) rfl rfl rfl
  case h_10 | h_12 =>
    obtain ⟨disk, -, hr⟩ := Option.map_eq_some_iff.mp h
    cases hr
    exact .quiet (by simp only [Call.stepsLeft]; omega) rfl rfl rfl
  all_goals first | (cases h; exact .quiet (by simp only [Call.stepsLeft]; omega) rfl rfl rfl) | cases h

theorem stepSwapIn_advances {request : SwapInRequest} {pc pc' : InPc}
    (h : stepSwapIn s request pc outcome = some (s', pc')) :
    Advances s s' (.swapIn request pc) (.swapIn request pc') := by
  unfold stepSwapIn at h
  split at h
  case h_1 =>
    have hr := Option.some.inj h
    unfold lookupKeyForSwapIn at hr
    repeat' split at hr
    all_goals cases hr
    case h_2.isFalse.isFalse.refl hfits =>
      -- the entry fits into the buffer of the request
      have hle := Nat.le_of_not_lt fun hlt => hfits (UInt64.lt_iff_toNat_lt.mpr hlt)
      exact .quiet (by simp only [Call.stepsLeft]; omega) rfl rfl rfl
    all_goals exact .quiet (by simp only [Call.stepsLeft]; omega) rfl rfl rfl
  case h_2 =>
    repeat' split at h
    all_goals cases h
    all_goals exact .quiet (by simp only [Call.stepsLeft, List.length_nil]; omega) rfl rfl rfl
  case h_4 =>
    simp only at h
    repeat' split at h
    all_goals cases h
    all_goals
      refine .quiet ?_ rfl rfl rfl
      simp only [Call.stepsLeft, List.length_append]
      omega
  case h_6 =>
    have hr := Option.some.inj h
    unfold finishSwapIn at hr
    simp only at hr
    repeat' split at hr
    all_goals cases hr
    all_goals exact .quiet (by simp only [Call.stepsLeft]; omega) rfl rfl rfl
  case h_7 =>
    obtain ⟨disk, -, hr⟩ := Option.map_eq_some_iff.mp h
    cases hr
    exact .quiet (by simp only [Call.stepsLeft]; omega) rfl rfl rfl
  case h_9 =>
    cases h
    exact .quiet (by simp only [Call.stepsLeft]; omega) rfl rfl (finalizeEntry_refreshing _ _ _ _)
  all_goals first | (cases h; exact .quiet (by simp only [Call.stepsLeft]; omega) rfl rfl rfl) | cases h

theorem stepCall_advances (hle : c.refreshers ≤ s.refreshes)
    (h : stepCall s outcome c = some (s', c')) : Advances s s' c c' := by
  cases callStep h with
  | swapOut hstep => exact stepSwapOut_advances hle hstep
  | swapIn hstep => exact stepSwapIn_advances hstep
  | @removeData keyId pc pc' hstep =>
    unfold stepRemoveData at hstep
    split at hstep
    case h_1 =>
      obtain ⟨disk, -, hr⟩ := Option.map_eq_some_iff.mp hstep
      cases hr
      exact .quiet (Nat.lt_succ_self _) rfl rfl rfl
    case h_3 =>
      cases hstep
      exact .quiet (Nat.lt_succ_self _) rfl rfl (finalizeEntry_refreshing _ _ _ _)
    all_goals first | (cases hstep; exact .quiet (Nat.lt_succ_self _) rfl rfl rfl) | cases hstep
  | @removeAllData pc pc' hstep =>
    unfold stepRemoveAllData at hstep
    split at hstep
    case h_2 =>
      obtain ⟨disk, -, hr⟩ := Option.map_eq_some_iff.mp hstep
      cases hr
      exact .quiet (Nat.lt_succ_self _) rfl rfl rfl
    case h_4 =>
      cases hstep
      exact .quiet (Nat.lt_succ_self _) rfl rfl (finalizeEntries_refreshing _ _)
    all_goals first | (cases hstep; exact .quiet (Nat.lt_succ_self _) rfl rfl rfl) | cases hstep
  | @getStats pc pc' hstep =>
    unfold stepGetStats at hstep
    split at hstep
    case h_1 =>
      obtain ⟨⟨s₁, start⟩, hbegin, hr⟩ := Option.map_eq_some_iff.mp hstep
      rcases refreshBegin_cases hbegin with ⟨rfl, rfl⟩ | ⟨hfree, rfl, rfl⟩
      · cases hr
        exact .quiet (by simp only [Call.stepsLeft]; omega) rfl rfl rfl
      · cases hr
        exact .refreshBegin (Nat.lt_succ_self _) rfl rfl hfree
    case h_2 =>
      cases hstep
      exact .refreshEnd hle rfl rfl (Nat.lt_succ_self _)
    all_goals first | (cases hstep; exact .quiet (Nat.lt_succ_self _) rfl rfl rfl) | cases hstep

/-- A call in flight can take a step, if it does not wait for the end of a refresh. -/
theorem Call.canMove (hactive : c.active ≠ 0)
    (hfree : c.refreshers = 0 → s.control.refreshing = false) :
    ∃ outcome, (stepCall s outcome c).isSome := by
  have hrefresh : s.control.refreshing = false → (refreshBegin s 0).isSome := by
    intro hoff
    simp only [refreshBegin, hoff, Bool.false_eq_true, if_false]
    split <;> rfl
  cases c with
  | swapOut request keyId pc =>
    simp only [stepCall, Option.isSome_map]
    cases pc
    case refresh => exact ⟨.time 0, Option.isSome_map.trans (hrefresh (hfree rfl))⟩
    case reserve =>
      refine ⟨.ok, ?_⟩
      simp only [stepSwapOut]
      split <;> rfl
    case refreshing => exact ⟨.space none, rfl⟩
    case done => exact absurd rfl hactive
    all_goals first | exact ⟨.ok, rfl⟩ | exact ⟨.error .ioError, rfl⟩
  | swapIn request pc =>
    simp only [stepCall, Option.isSome_map]
    cases pc
    case done => exact absurd rfl hactive
    all_goals first | exact ⟨.ok, rfl⟩ | exact ⟨.error .ioError, rfl⟩
  | removeData keyId pc =>
    simp only [stepCall, Option.isSome_map]
    cases pc
    case done => exact absurd rfl hactive
    all_goals first | exact ⟨.ok, rfl⟩ | exact ⟨.error .ioError, rfl⟩
  | removeAllData pc =>
    simp only [stepCall, Option.isSome_map]
    cases pc
    case unlink todo _ _ =>
      cases todo with
      | nil => exact ⟨.ok, rfl⟩
      | cons entry todo => exact ⟨.error .ioError, rfl⟩
    case done => exact absurd rfl hactive
    all_goals exact ⟨.ok, rfl⟩
  | getStats pc =>
    simp only [stepCall, Option.isSome_map]
    cases pc
    case refresh => exact ⟨.time 0, Option.isSome_map.trans (hrefresh (hfree rfl))⟩
    case refreshing => exact ⟨.space none, rfl⟩
    case done => exact absurd rfl hactive
    all_goals exact ⟨.ok, rfl⟩
  | refused err => exact absurd rfl hactive

end Steps

/-! ## Runs -/

/-- A refresh goes on as long as a call is in the middle of it. -/
def RefreshInv (s : State) : Prop := total Call.refreshers s.calls = s.refreshes

theorem step_refreshInv {s t : State} {a : Action} (inv : RefreshInv s) (h : step s a = some t) :
    RefreshInv t := by
  unfold RefreshInv at inv ⊢
  rcases step_cases h with ⟨request, -, rfl⟩ | ⟨i, outcome, c, s', c', -, hc, hstep, rfl⟩
  · have hnone : (start s request).2.refreshers = 0 := by
      rw [Call.refreshers, (start_call s request).2.1]
      rfl
    simp only [total_append, total_cons, total_nil, hnone, inv, State.refreshes,
      (start_frame s request).2.1, Nat.add_zero]
  · have hadvances := (stepCall_advances (inv ▸ le_total Call.refreshers hc) hstep).refresh
    have hset := total_set Call.refreshers c' hc
    show total Call.refreshers (s.calls.set i c') = s'.refreshes
    omega

/-- A step of one of the calls. -/
def Own (i : Nat) (a : Action) : Prop := ∃ outcome, a = .go i outcome

def State.stepsLeft (i : Nat) (s : State) : Nat := ((s.calls[i]?).map Call.stepsLeft).getD 0

theorem step_call {s t : State} {a : Action} {i : Nat} {c : Call} (inv : RefreshInv s)
    (hc : s.calls[i]? = some c) (h : step s a = some t) :
    t.calls[i]? = some c ∧ ¬ Own i a ∨
      ∃ s' d, t.calls[i]? = some d ∧ Advances s s' c d ∧ t.refreshes = s'.refreshes := by
  have hi := (List.getElem?_eq_some_iff.mp hc).1
  rcases step_cases h with ⟨request, rfl, rfl⟩ | ⟨j, outcome, d, s', d', rfl, hd, hstep, rfl⟩
  · refine .inl ⟨(List.getElem?_append_left hi).trans hc, ?_⟩
    rintro ⟨outcome, ⟨⟩⟩
  · by_cases hij : j = i
    · subst hij
      obtain rfl := Option.some.inj (hc.symm.trans hd)
      exact .inr ⟨s', d', List.getElem?_set_self hi,
        stepCall_advances (inv ▸ le_total Call.refreshers hc) hstep, rfl⟩
    · refine .inl ⟨(List.getElem?_set_ne hij).trans hc, ?_⟩
      rintro ⟨outcome', ⟨⟩⟩
      exact hij rfl

theorem enabled_of_canMove {s : State} {i : Nat} {c : Call} (hc : s.calls[i]? = some c)
    (h : ∃ outcome, (stepCall s outcome c).isSome) : Enabled step (Own i) s := by
  obtain ⟨outcome, h⟩ := h
  exact ⟨.go i outcome, ⟨outcome, rfl⟩, by simpa only [step, hc, Option.isSome_map] using h⟩

section Endless

variable {r : Endless step} {n i : Nat} {c : Call}

theorem exists_call (inv : ∀ n, RefreshInv (r.state n)) (hc : (r.state n).calls[i]? = some c) :
    ∀ m, n ≤ m → ∃ d, (r.state m).calls[i]? = some d := by
  intro m hm
  induction hm with
  | refl => exact ⟨c, hc⟩
  | step hm ih =>
    obtain ⟨d, hd⟩ := ih
    rcases step_call (inv _) hd (r.next _) with ⟨hsame, -⟩ | ⟨s', d', hnew, -⟩
    · exact ⟨d, hsame⟩
    · exact ⟨d', hnew⟩

theorem exists_stuck_call (inv : ∀ n, RefreshInv (r.state n)) (hfair : r.StronglyFair (Own i))
    (hc : (r.state n).calls[i]? = some c) :
    ∃ k, n ≤ k ∧ ∀ m, k ≤ m → ¬ Enabled step (Own i) (r.state m) := by
  have hstep : ∀ m, n ≤ m → State.stepsLeft i (r.state (m + 1)) < State.stepsLeft i (r.state m) ∨
      State.stepsLeft i (r.state (m + 1)) = State.stepsLeft i (r.state m) ∧
        ¬ Own i (r.action m) := by
    intro m hm
    obtain ⟨d, hd⟩ := exists_call inv hc m hm
    rcases step_call (inv m) hd (r.next m) with ⟨hsame, hown⟩ | ⟨s', d', hnew, hadvances, -⟩
    · exact .inr ⟨by rw [State.stepsLeft, State.stepsLeft, hsame, hd], hown⟩
    · refine .inl ?_
      rw [State.stepsLeft, State.stepsLeft, hnew, hd]
      exact hadvances.lower
  exact hfair.exists_stuck hstep

/-- In every run without an end, however the system calls turn out, a call returns: as long as its
thread and all others are not passed over again and again, at `refreshMutex_` either. -/
theorem returns_of_fair {useDirectIo : Bool} {control : Control}
    (hcontrol : control.refreshing = false) (hinit : r.state 0 = init useDirectIo control)
    (hfair : ∀ j, r.StronglyFair (Own j)) (hc : (r.state n).calls[i]? = some c) :
    ∃ m, n ≤ m ∧ ∃ d, (r.state m).calls[i]? = some d ∧ d.active = 0 := by
  have hinv : RefreshInv (r.state 0) := by
    simp [hinit, RefreshInv, State.refreshes, init, hcontrol]
  have inv := fun m => Endless.invariant (fun k _ h => step_refreshInv h (r.next k)) hinv m m.zero_le
  by_contra hnever
  obtain ⟨k, hk, hstuck⟩ := exists_stuck_call inv (hfair i) hc
  -- the call is in flight and stuck, so a refresh goes on
  have hbusy : ∀ m, k ≤ m → (r.state m).control.refreshing = true := by
    intro m hm
    by_contra hoff
    obtain ⟨d, hd⟩ := exists_call inv hc m (by omega)
    exact hstuck m hm (enabled_of_canMove hd (Call.canMove
      (fun hdone => hnever ⟨m, by omega, d, hd, hdone⟩) fun _ => by simpa using hoff))
  have hone : ∀ m, k ≤ m → (r.state m).refreshes = 1 := fun m hm => if_pos (hbusy m hm)
  obtain ⟨j, d, hd, hrefreshing⟩ :
      ∃ (j : Nat) (d : Call), (r.state k).calls[j]? = some d ∧ d.refreshers ≠ 0 := by
    by_contra hnone
    have hzero : total Call.refreshers (r.state k).calls = 0 := by
      refine total_eq_zero Call.refreshers fun d hd => ?_
      by_contra hne
      obtain ⟨j, hj⟩ := List.mem_iff_getElem?.mp hd
      exact hnone ⟨j, d, hj, hne⟩
    have hcount := inv k
    rw [RefreshInv, hzero, hone k (Nat.le_refl k)] at hcount
    cases hcount
  -- it is the same call that refreshes all the time, since its next step would end the refresh
  have hholds : ∀ m, k ≤ m → (r.state m).calls[j]? = some d := by
    intro m hm
    induction hm with
    | refl => exact hd
    | @step m hm ih =>
      rcases step_call (inv m) ih (r.next m) with ⟨hsame, -⟩ | ⟨s', d', -, hadvances, hsame⟩
      · exact hsame
      · have hleaves := hadvances.leaves
        have hrefresh := hadvances.refresh
        have hnext := hone (m + 1) (Nat.le_succ_of_le hm)
        rw [hone m hm] at hrefresh
        omega
  obtain ⟨l, hl, hstuck'⟩ := exists_stuck_call inv (hfair j) hd
  refine hstuck' l (Nat.le_refl l) (enabled_of_canMove (hholds l hl) (Call.canMove ?_ ?_))
  · intro hdone
    rw [Call.refreshers, (Call.idle_control hdone).2] at hrefreshing
    exact hrefreshing rfl
  · exact fun hzero => absurd hzero hrefreshing

end Endless

/-- A `GetStats` that returns, and calls that are refused from then on. -/
def statsState : Nat → State
  | 0 => init false smallControl
  | 1 => { init false smallControl with activeOps := 1, calls := [.getStats .refresh] }
  | 2 => { init false smallControl with activeOps := 1, calls := [.getStats .fillStats] }
  | 3 => { init false smallControl with activeOps := 1, calls := [.getStats .endOperation] }
  | n + 4 =>
      { init false smallControl with calls := .getStats .done :: List.replicate n (.refused .inval) }

def statsForever : Endless step where
  state := statsState
  action
    | 0 => .start .getStats
    | 1 => .go 0 (.time 0)
    | 2 => .go 0 .ok
    | 3 => .go 0 .ok
    | _ => .start (.removeData 0)
  next n := by
    rcases n with _ | _ | _ | _ | n
    · rfl
    · rfl
    · rfl
    · rfl
    · simp [step, start, startRemoveData, statsState, List.replicate_succ']

theorem statsForever_fair (j : Nat) : statsForever.StronglyFair (Own j) := by
  intro hagain
  obtain ⟨n, hn, a, ⟨outcome, rfl⟩, henabled⟩ := hagain 4
  obtain ⟨n, rfl⟩ := Nat.exists_eq_add_of_le' hn
  obtain ⟨t, h⟩ := Option.isSome_iff_exists.mp henabled
  rcases step_cases h with ⟨request, ⟨⟩, -⟩ | ⟨i, outcome, c, s', c', -, hc, hstep, -⟩
  -- nobody is in flight any more
  have hactive := Call.active_of_step hstep
  rcases List.mem_cons.mp (List.mem_of_getElem? hc) with rfl | hrefused
  · cases hactive
  · rw [List.eq_of_mem_replicate hrefused] at hactive
    cases hactive

theorem returns_of_fair_statsForever :
    ∃ m : Nat, 1 ≤ m ∧ ∃ d, (statsForever.state m).calls[0]? = some d ∧ d.active = 0 :=
  returns_of_fair rfl rfl statsForever_fair (c := .getStats .refresh) rfl

end FileApi.Swapfs
