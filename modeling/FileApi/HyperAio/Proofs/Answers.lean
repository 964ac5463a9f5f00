import FileApi.HyperAio.Machine
import Mathlib.Data.List.Perm.Basic
import Mathlib.Tactic.Push

/-!
# Every request gets one answer

The requests of the calls are conserved: each is still with the caller, in the ring, or was
answered. This needs that every submit behind a batch takes all prepared entries, that
`GetSqeWithRetry` does not give up in the middle of a batch, and that no wait fails; each of the
error branches breaks it.
-/

namespace FileApi.HyperAio

open Machine

/-- The requests the ring has. -/
def Ring.userDatas (ring : Ring) : List UInt64 :=
  ring.sq.map Sqe.userData ++ ring.inflight.map Sqe.userData ++ ring.cq.map IoResponse.userData

/-- The requests the caller still has. -/
def State.left (s : State) : List UInt64 :=
  match s.call with
  | none => []
  | some c => c.todo ++ c.errorVec

/-- The entries of the batch that is not counted yet. -/
def State.uncounted (s : State) : Nat :=
  match s.call with
  | none => 0
  | some c => c.count

/-- The condition on the environment: the last turn of `GetSqeWithRetry` in the middle of a batch
finds an entry, a submit behind a batch takes all entries, the counter does not overflow, and
waits succeed. -/
def ActionOk (s : State) : Action → Prop
  | .getSqe available =>
      match s.call with
      | none => True
      | some c => ∀ tries, c.pc = .getSqe tries → tries + 1 < retries ∨ c.count = 0 ∨ available
  | .submit outcome =>
      match s.call with
      | none => True
      | some c => c.pc = .submit → outcome = .took s.ring.sq.length
  | .proceed =>
      match s.call with
      | none => True
      | some c => c.pc = .count → s.ring.owes < 2 ^ 32
  | .getIoResult waited => waited = true
  | _ => True

/-- No call is going on and the harvest thread sleeps. -/
def Settled (s : State) : Prop :=
  s.call = none ∧ s.harvesting = false ∧ s.pendingCqeCount = 0

/-- A step that meets the condition and is not a new call. -/
def Quiet (s : State) (a : Action) : Prop := ActionOk s a ∧ ∀ kind reqs, a ≠ .start kind reqs

/-- A step that a party can make. -/
def Enabled (s : State) : Prop := ∃ a t, Quiet s a ∧ step s a = some t

/-- What a call still has to do. -/
def Call.work (c : Call) : Nat :=
  20 * c.todo.length +
    match c.pc with
    | .getSqe tries => 2 * (retries - tries) + 2
    | .retry tries => 2 * (retries - tries) + 1
    | .submit => 13
    | .count => 12
    | .handleSqeError => 2
    | _ => 1

/-- The harvest thread enters its loop and leaves it again. -/
def harvestWork (harvesting : Bool) (pendingCqeCount : UInt32) : Nat :=
  if harvesting then 1 else if pendingCqeCount = 0 then 0 else 2

/-- What the parties still have to do before everything comes to rest. -/
def State.work (s : State) : Nat :=
  (match s.call with
    | none => 0
    | some c => c.work) +
  5 * s.ring.sq.length + 4 * s.ring.inflight.length + 3 * s.ring.cq.length +
  harvestWork s.harvesting s.pendingCqeCount

/-- Each request has one answer or one place where it waits for it; the counter is what the ring
owes, up to a batch that was not counted yet; the harvest thread does not wait in vain; without
new calls everything comes to rest, and then the answers are the requests. -/
structure OneAnswerEach (s : State) : Prop where
  conserved : (s.delivered.map IoResponse.userData ++ s.ring.userDatas ++ s.left).Perm s.requested
  counted : s.uncounted = 0 → s.pendingCqeCount.toNat = s.ring.owes
  notInVain : s.pendingCqeCount.toNat ≤ s.ring.owes
  settled : Settled s → (s.delivered.map IoResponse.userData).Perm s.requested
  comesToRest : ∀ as t, StepsOk step Quiet s as → run step s as = some t →
    as.length ≤ s.work ∧ (Settled t ∨ Enabled t)

/-- What holds of a call at each of its places. -/
def CallInv (ring : Ring) (c : Call) : Prop :=
  match c.pc with
  | .getSqe tries => c.errorVec = [] ∧ c.todo ≠ [] ∧ c.count < batchSize ∧ tries < retries
  | .retry tries => c.errorVec = [] ∧ c.todo ≠ [] ∧ c.count < batchSize ∧ tries < retries ∧
      (tries + 1 < retries ∨ c.count = 0)
  | .submit => c.errorVec = [] ∧ c.count ≤ batchSize
  | .count => c.errorVec = [] ∧ c.count ≤ batchSize ∧ ring.sq = []
  | .handleSqeError | .handleRequestError => c.count = 0 ∧ c.todo = []
  | .submitFailed | .remainingFailed _ => False

structure Inv (s : State) : Prop where
  conserved : (s.delivered.map IoResponse.userData ++ s.ring.userDatas ++ s.left).Perm s.requested
  counted : s.pendingCqeCount.toNat + s.uncounted = s.ring.sq.length + s.ring.owes
  unsubmitted : s.ring.sq.length ≤ s.uncounted
  call : ∀ c, s.call = some c → CallInv s.ring c

private theorem batchSize_pos : 0 < batchSize := by decide

theorem init_inv : Inv {} :=
  ⟨List.Perm.refl _, rfl, Nat.le_refl _, fun c hc => by cases hc⟩

theorem Ring.submit_userDatas (ring : Ring) (outcome : Submitted) :
    (ring.submit outcome).userDatas.Perm ring.userDatas := by
  cases outcome with
  | error ret => exact List.Perm.refl _
  | took n =>
    rw [List.perm_iff_count]
    intro u
    have hsplit : List.count u (ring.sq.map Sqe.userData) =
        List.count u ((ring.sq.take n).map Sqe.userData) +
          List.count u ((ring.sq.drop n).map Sqe.userData) := by
      rw [← List.count_append, ← List.map_append, List.take_append_drop]
    simp only [Ring.submit, Ring.userDatas, List.map_append, List.count_append]
    omega

theorem Ring.submit_length (ring : Ring) (outcome : Submitted) :
    (ring.submit outcome).sq.length ≤ ring.sq.length ∧
    (ring.submit outcome).sq.length + (ring.submit outcome).owes = ring.sq.length + ring.owes := by
  cases outcome with
  | error ret => exact ⟨Nat.le_refl _, rfl⟩
  | took n =>
    simp only [Ring.submit, Ring.owes, List.length_append, List.length_take, List.length_drop]
    omega

variable {s t : State}

theorem getSqe_inv {c : Call} {tries : Nat} {available : Bool} (inv : Inv s)
    (hcall : s.call = some c) (hpc : c.pc = .getSqe tries) (hok : ActionOk s (.getSqe available))
    (h : getSqe s c tries available = some t) : Inv t := by
  have hconserved := inv.conserved
  have hcounted := inv.counted
  have hunsubmitted := inv.unsubmitted
  have hc := inv.call c hcall
  simp only [CallInv, hpc] at hc
  obtain ⟨herror, htodo, hbatch, htries⟩ := hc
  simp only [ActionOk, hcall] at hok
  cases hreqs : c.todo with
  | nil => exact absurd hreqs htodo
  | cons userData todo =>
    simp only [State.left, State.uncounted, hcall, hreqs, herror] at hconserved hcounted hunsubmitted
    simp only [getSqe, hreqs] at h
    split at h
    · -- the request moves from the caller to the ring
      cases h
      refine ⟨?_, ?_, ?_, ?_⟩
      · refine List.Perm.trans ?_ hconserved
        rw [List.perm_iff_count]
        intro u
        simp only [Ring.userDatas, State.left, herror, List.map_append, List.map_cons, List.map_nil,
          List.count_append, List.append_nil, List.count_cons, List.count_nil]
        omega
      · simp only [State.uncounted, Ring.owes, List.length_append, List.length_cons,
          List.length_nil] at hcounted ⊢
        omega
      · simp only [State.uncounted, List.length_append, List.length_cons, List.length_nil]
        omega
      · intro c' hc'
        cases hc'
        simp only [CallInv]
        by_cases hfull : batchSize ≤ c.count + 1 ∨ todo = []
        · simp only [if_pos hfull]
          exact ⟨herror, hbatch⟩
        · simp only [if_neg hfull]
          rw [not_or] at hfull
          exact ⟨herror, hfull.2, by omega, by decide⟩
    · next hnone =>
      cases h
      refine ⟨?_, hcounted, hunsubmitted, ?_⟩
      · simpa only [State.left, herror] using hconserved
      · intro c' hc'
        cases hc'
        refine ⟨herror, by simp, hbatch, htries, ?_⟩
        -- the queue is never full, so an entry that is available is taken
        have hroom : s.ring.sq.length < uringQueueSize := by
          unfold batchSize at hbatch
          unfold uringQueueSize
          omega
        rcases hok tries hpc with hagain | hcount | havailable
        · exact .inl hagain
        · exact .inr hcount
        · exact absurd ⟨havailable, hroom⟩ hnone

theorem submit_inv {c : Call} {outcome : Submitted} (inv : Inv s) (hcall : s.call = some c)
    (hok : ActionOk s (.submit outcome)) (h : submit s c outcome = some t) : Inv t := by
  have hconserved := inv.conserved
  have hcounted := inv.counted
  have hunsubmitted := inv.unsubmitted
  have hc := inv.call c hcall
  have hmoved := s.ring.submit_userDatas outcome
  obtain ⟨hle, hlength⟩ := s.ring.submit_length outcome
  simp only [State.left, State.uncounted, hcall] at hconserved hcounted hunsubmitted
  simp only [ActionOk, hcall] at hok
  have hring : ∀ left, (s.delivered.map IoResponse.userData ++ s.ring.userDatas ++ left).Perm
      s.requested → (s.delivered.map IoResponse.userData ++ (s.ring.submit outcome).userDatas ++
      left).Perm s.requested := fun left hperm =>
    ((hmoved.append_left _).append_right _).trans hperm
  cases hpc : c.pc with
  | retry tries =>
    simp only [CallInv, hpc] at hc
    obtain ⟨herror, htodo, hbatch, htries, hgives⟩ := hc
    simp only [submit, hpc] at h
    by_cases hagain : tries + 1 < retries
    · rw [if_pos hagain] at h
      cases h
      refine ⟨hring _ hconserved, ?_, ?_, ?_⟩
      · simp only [State.uncounted]
        omega
      · simp only [State.uncounted]
        omega
      · intro c' hc'
        cases hc'
        exact ⟨herror, htodo, hbatch, hagain⟩
    · rw [if_neg hagain] at h
      cases h
      have hnone : c.count = 0 := hgives.resolve_left hagain
      refine ⟨hring _ ?_, ?_, ?_, ?_⟩
      · simpa only [State.left, herror, List.nil_append, List.append_nil] using hconserved
      · simp only [State.uncounted]
        omega
      · simp only [State.uncounted]
        omega
      · intro c' hc'
        cases hc'
        exact ⟨hnone, rfl⟩
  | submit =>
    simp only [CallInv, hpc] at hc
    have hall := hok hpc
    subst hall
    simp only [submit, hpc] at h
    cases h
    refine ⟨hring _ hconserved, ?_, ?_, ?_⟩
    · simp only [State.uncounted]
      omega
    · simp only [State.uncounted]
      omega
    · intro c' hc'
      cases hc'
      exact ⟨hc.1, hc.2, by simp [Ring.submit]⟩
  | handleSqeError =>
    simp only [CallInv, hpc] at hc
    simp only [submit, hpc, if_pos hc.1] at h
    cases h
  | _ =>
    simp only [submit, hpc] at h
    cases h

theorem proceed_inv {c : Call} (inv : Inv s) (hcall : s.call = some c) (hok : ActionOk s .proceed)
    (h : proceed s c = some t) : Inv t := by
  have hconserved := inv.conserved
  have hcounted := inv.counted
  have hunsubmitted := inv.unsubmitted
  have hc := inv.call c hcall
  simp only [State.left, State.uncounted, hcall] at hconserved hcounted hunsubmitted
  simp only [ActionOk, hcall] at hok
  cases hpc : c.pc with
  | count =>
    simp only [CallInv, hpc] at hc
    obtain ⟨herror, hbatch, hsq⟩ := hc
    have howes := hok hpc
    simp only [hsq, List.length_nil, Nat.zero_add] at hcounted hunsubmitted
    simp only [proceed, hpc] at h
    split at h
    · cases h
    · cases h
      have hpending : (s.pendingCqeCount + UInt32.ofNat c.count).toNat = s.ring.owes := by
        rw [UInt32.toNat_add, UInt32.toNat_ofNat']
        omega
      by_cases htodo : c.todo = []
      · refine ⟨?_, ?_, ?_, ?_⟩
        · simpa only [State.left, if_pos, htodo, herror, List.append_nil] using hconserved
        · simp only [State.uncounted, if_pos htodo, hsq, hpending]
          simp
        · simp [State.uncounted, if_pos htodo, hsq]
        · intro c' hc'
          simp only [if_pos htodo] at hc'
          cases hc'
      · refine ⟨?_, ?_, ?_, ?_⟩
        · simpa only [State.left, if_neg htodo, herror] using hconserved
        · simp only [State.uncounted, if_neg htodo, hsq, hpending]
          simp
        · simp [State.uncounted, if_neg htodo, hsq]
        · intro c' hc'
          simp only [if_neg htodo] at hc'
          cases hc'
          exact ⟨herror, htodo, batchSize_pos, by decide⟩
  | handleSqeError =>
    simp only [CallInv, hpc] at hc
    simp only [proceed, hpc, if_pos hc.1] at h
    cases h
    refine ⟨hconserved, hcounted, hunsubmitted, ?_⟩
    intro c' hc'
    cases hc'
    exact hc
  | handleRequestError =>
    simp only [CallInv, hpc] at hc
    obtain ⟨hnone, htodo⟩ := hc
    simp only [proceed, hpc] at h
    cases h
    have hback : (handleRequestError c.errorVec busy).map IoResponse.userData = c.errorVec := by
      simp [handleRequestError, Function.comp_def]
    refine ⟨?_, ?_, ?_, nofun⟩
    · refine List.Perm.trans ?_ hconserved
      rw [List.perm_iff_count]
      intro u
      simp only [State.left, htodo, hback, List.map_append, List.count_append, List.count_nil,
        List.nil_append]
      omega
    · simpa only [State.uncounted, hnone] using hcounted
    · simpa only [State.uncounted, hnone] using hunsubmitted
  | submitFailed =>
    simp only [CallInv, hpc] at hc
  | remainingFailed ret =>
    simp only [CallInv, hpc] at hc
  | _ =>
    simp only [proceed, hpc] at h
    cases h

theorem getIoResult_inv {waited : Bool} (inv : Inv s) (hok : waited = true)
    (h : getIoResult s waited = some t) : Inv t := by
  have hcounted := inv.counted
  have hconserved := inv.conserved
  subst hok
  unfold getIoResult at h
  split at h
  · cases h
  next hgo =>
  have hpos : s.pendingCqeCount ≠ 0 := fun h0 => hgo (.inr h0)
  have hdown : (s.pendingCqeCount - 1).toNat + 1 = s.pendingCqeCount.toNat := by
    have hne : s.pendingCqeCount.toNat ≠ 0 := fun h0 => hpos (UInt32.toNat_inj.mp h0)
    have hone : (1 : UInt32) ≤ s.pendingCqeCount :=
      UInt32.le_iff_toNat_le.mpr (Nat.one_le_iff_ne_zero.mpr hne)
    rw [UInt32.toNat_sub_of_le _ _ hone]
    simp only [UInt32.reduceToNat]
    omega
  simp only [Bool.true_eq_false, if_false] at h
  split at h
  · cases h
  next response cq hcq =>
  cases h
  simp only [Ring.owes, hcq, List.length_cons] at hcounted
  refine ⟨?_, ?_, inv.unsubmitted, inv.call⟩
  · refine List.Perm.trans ?_ hconserved
    rw [List.perm_iff_count]
    intro u
    simp only [Ring.userDatas, State.left, hcq, List.map_append, List.map_cons, List.map_nil,
      List.count_append, List.count_cons, List.count_nil]
    omega
  · simp only [State.uncounted, Ring.owes] at hcounted ⊢
    omega

variable {s : State}

theorem complete_inv {n : Nat} {sqe : Sqe} (inv : Inv s) (res : Int) (flags : UInt32)
    (hsqe : s.ring.inflight[n]? = some sqe) :
    Inv { s with ring := { s.ring with
      inflight := s.ring.inflight.eraseIdx n
      cq := s.ring.cq ++ [⟨sqe.userData, res, flags⟩] } } := by
  obtain ⟨hn, hget⟩ := List.getElem?_eq_some_iff.mp hsqe
  have hcounted := inv.counted
  refine ⟨?_, ?_, inv.unsubmitted, ?_⟩
  · refine List.Perm.trans ?_ inv.conserved
    have hmoved : ((s.ring.inflight.eraseIdx n).map Sqe.userData ++ [sqe.userData]).Perm
        (s.ring.inflight.map Sqe.userData) := by
      have hperm := (List.getElem_cons_eraseIdx_perm hn).map Sqe.userData
      rw [hget, List.map_cons] at hperm
      exact (List.perm_append_singleton _ _).trans hperm
    rw [List.perm_iff_count] at hmoved ⊢
    intro u
    have hu := hmoved u
    simp only [Ring.userDatas, State.left, List.map_append, List.map_cons, List.map_nil,
      List.count_append] at hu ⊢
    omega
  · simp only [State.uncounted, Ring.owes, List.length_append, List.length_eraseIdx, if_pos hn,
      List.length_cons, List.length_nil] at hcounted ⊢
    omega
  · intro c hc
    exact inv.call c hc

/-- One step of any party that meets the condition. -/
theorem step_inv (s : State) (a : Action) (t : State) (inv : Inv s) (hok : ActionOk s a)
    (h : step s a = some t) : Inv t := by
  cases a with
  | start kind reqs =>
    simp only [step] at h
    split at h
    · cases h
    next hcall =>
    split at h
    · next hvalid =>
      cases h
      have hconserved := inv.conserved
      have hcounted := inv.counted
      have hunsubmitted := inv.unsubmitted
      simp only [State.left, State.uncounted, hcall, List.append_nil] at hconserved hcounted hunsubmitted
      refine ⟨?_, hcounted, hunsubmitted, ?_⟩
      · simpa only [State.left, List.append_nil] using hconserved.append_right reqs
      · intro c hc
        cases hc
        refine ⟨rfl, ?_, batchSize_pos, by decide⟩
        rintro rfl
        simp [validateReqNum] at hvalid
    · cases h
      exact inv
  | getSqe available =>
    simp only [step] at h
    split at h
    · next c hcall =>
      split at h
      · next tries hpc => exact getSqe_inv inv hcall hpc hok h
      · cases h
    · cases h
  | submit outcome =>
    simp only [step] at h
    split at h
    · next c hcall => exact submit_inv inv hcall hok h
    · cases h
  | proceed =>
    simp only [step] at h
    split at h
    · next c hcall => exact proceed_inv inv hcall hok h
    · cases h
  | complete n res flags =>
    simp only [step] at h
    split at h
    · cases h
    · next sqe hsqe =>
      cases h
      exact complete_inv inv res flags hsqe
  | harvest =>
    simp only [step] at h
    split at h
    · cases h
    · cases h
      exact ⟨inv.conserved, inv.counted, inv.unsubmitted, inv.call⟩
  | getIoResult waited => exact getIoResult_inv inv hok h
  | rest =>
    simp only [step] at h
    split at h
    · cases h
      exact ⟨inv.conserved, inv.counted, inv.unsubmitted, inv.call⟩
    · cases h

/-! ## Coming to rest -/

theorem Enabled.intro {a : Action} (hquiet : Quiet s a) (h : (step s a).isSome = true) :
    Enabled s := by
  obtain ⟨t, ht⟩ := Option.isSome_iff_exists.mp h
  exact ⟨a, t, hquiet, ht⟩

theorem Inv.harvest_progress (inv : Inv s) (hharvest : s.harvesting = true) :
    Enabled s := by
  by_cases hpending : s.pendingCqeCount = 0
  · apply Enabled.intro (a := .rest) ⟨trivial, nofun⟩
    simp [step, hharvest, hpending]
  · cases hcq : s.ring.cq with
    | cons response cq =>
      apply Enabled.intro (a := .getIoResult true) ⟨rfl, nofun⟩
      simp [step, getIoResult, hharvest, hpending, hcq]
    | nil =>
      have hne : s.pendingCqeCount.toNat ≠ 0 := fun h0 => hpending (UInt32.toNat_inj.mp h0)
      have hcounted := inv.counted
      have hunsubmitted := inv.unsubmitted
      simp only [Ring.owes, hcq, List.length_nil] at hcounted
      have hinflight : 0 < s.ring.inflight.length := by omega
      apply Enabled.intro (a := .complete 0 0 0) ⟨trivial, nofun⟩
      simp [step, List.getElem?_eq_getElem hinflight]

/-- A call that is going on can go on, or the harvest thread can. -/
theorem Inv.call_progress {c : Call} (inv : Inv s) (hcall : s.call = some c)
    (hharvest : s.harvesting = false) : Enabled s := by
  have hc := inv.call c hcall
  cases hpc : c.pc with
  | getSqe tries =>
    simp only [CallInv, hpc] at hc
    obtain ⟨-, htodo, -⟩ := hc
    obtain ⟨userData, todo, hreqs⟩ := List.exists_cons_of_ne_nil htodo
    apply Enabled.intro (a := .getSqe true) ⟨?_, nofun⟩
    · simp only [step, hcall, hpc, getSqe, hreqs]
      split
      · rfl
      · rfl
    · simp only [ActionOk, hcall]
      intro tries' _
      exact .inr (.inr trivial)
  | retry tries =>
    apply Enabled.intro (a := .submit (.took 0)) ⟨?_, nofun⟩
    · simp only [step, submit, hcall, hpc]
      split
      · rfl
      · rfl
    · simp only [ActionOk, hcall, hpc]
      exact nofun
  | submit =>
    apply Enabled.intro (a := .submit (.took s.ring.sq.length)) ⟨?_, nofun⟩
    · simp [step, submit, hcall, hpc]
    · simp [ActionOk, hcall]
  | count =>
    simp only [CallInv, hpc] at hc
    obtain ⟨-, hbatch, hsq⟩ := hc
    by_cases howes : s.ring.owes < 2 ^ 32
    · apply Enabled.intro (a := .proceed) ⟨?_, nofun⟩
      · simp [step, proceed, hcall, hpc, hharvest]
      · simp only [ActionOk, hcall]
        exact fun _ => howes
    · -- more is owed than the batch, so the counter is not zero
      have hcounted := inv.counted
      simp only [State.uncounted, hcall, hsq, List.length_nil] at hcounted
      have hpending : s.pendingCqeCount ≠ 0 := by
        intro h0
        simp only [h0, UInt32.reduceToNat] at hcounted
        unfold batchSize at hbatch
        omega
      apply Enabled.intro (a := .harvest) ⟨trivial, nofun⟩
      simp [step, hharvest, hpending]
  | handleSqeError =>
    simp only [CallInv, hpc] at hc
    apply Enabled.intro (a := .proceed) ⟨?_, nofun⟩
    · simp [step, proceed, hcall, hpc, hc.1]
    · simp only [ActionOk, hcall, hpc]
      exact nofun
  | handleRequestError =>
    apply Enabled.intro (a := .proceed) ⟨?_, nofun⟩
    · simp [step, proceed, hcall, hpc]
    · simp only [ActionOk, hcall, hpc]
      exact nofun
  | submitFailed => simp only [CallInv, hpc] at hc
  | remainingFailed ret => simp only [CallInv, hpc] at hc

theorem Inv.progress (inv : Inv s) : Settled s ∨ Enabled s := by
  cases hharvest : s.harvesting with
  | true => exact .inr (inv.harvest_progress hharvest)
  | false =>
    cases hcall : s.call with
    | some c => exact .inr (inv.call_progress hcall hharvest)
    | none =>
      by_cases hpending : s.pendingCqeCount = 0
      · exact .inl ⟨hcall, hharvest, hpending⟩
      · right
        apply Enabled.intro (a := .harvest) ⟨trivial, nofun⟩
        simp [step, hharvest, hpending]

theorem harvestWork_le (harvesting : Bool) (pendingCqeCount : UInt32) :
    harvestWork harvesting pendingCqeCount ≤ 2 := by
  unfold harvestWork
  split
  · omega
  · split <;> omega

/-- Every step of a party does some of the work. -/
theorem step_work {a : Action} (inv : Inv s) (hquiet : Quiet s a) (h : step s a = some t) :
    t.work < s.work := by
  cases a with
  | start kind reqs => exact absurd rfl (hquiet.2 kind reqs)
  | getSqe available =>
    simp only [step] at h
    split at h
    · next c hcall =>
      split at h
      · next tries hpc =>
        have hc := inv.call c hcall
        simp only [CallInv, hpc] at hc
        unfold getSqe at h
        split at h
        · cases h
        next userData todo hreqs =>
        split at h
        · cases h
          simp only [State.work, Call.work, hcall, hpc, hreqs, List.length_append, List.length_cons,
            List.length_nil]
          by_cases hfull : batchSize ≤ c.count + 1 ∨ todo = []
          · simp only [if_pos hfull]
            omega
          · simp only [if_neg hfull, retries] at hc ⊢
            omega
        · cases h
          simp only [State.work, Call.work, hcall, hpc]
          omega
      · cases h
    · cases h
  | submit outcome =>
    simp only [step] at h
    split at h
    · next c hcall =>
      have hc := inv.call c hcall
      have hmoved : 5 * (s.ring.submit outcome).sq.length +
          4 * (s.ring.submit outcome).inflight.length + 3 * (s.ring.submit outcome).cq.length ≤
          5 * s.ring.sq.length + 4 * s.ring.inflight.length + 3 * s.ring.cq.length := by
        cases outcome with
        | error ret => exact Nat.le_refl _
        | took n =>
          simp only [Ring.submit, List.length_append, List.length_take, List.length_drop]
          omega
      cases hpc : c.pc with
      | retry tries =>
        simp only [CallInv, hpc] at hc
        simp only [submit, hpc] at h
        by_cases hagain : tries + 1 < retries
        · rw [if_pos hagain] at h
          cases h
          simp only [State.work, Call.work, hcall, hpc]
          omega
        · rw [if_neg hagain] at h
          cases h
          simp only [State.work, Call.work, hcall, hpc, List.length_nil]
          omega
      | submit =>
        have hall := hquiet.1
        simp only [ActionOk, hcall] at hall
        have hall := hall hpc
        subst hall
        simp only [submit, hpc] at h
        cases h
        simp only [State.work, Call.work, hcall, hpc]
        omega
      | handleSqeError =>
        simp only [CallInv, hpc] at hc
        simp only [submit, hpc, if_pos hc.1] at h
        cases h
      | _ =>
        simp only [submit, hpc] at h
        cases h
    · cases h
  | proceed =>
    simp only [step] at h
    split at h
    · next c hcall =>
      have hc := inv.call c hcall
      cases hpc : c.pc with
      | count =>
        simp only [proceed, hpc] at h
        split at h
        · cases h
        next hfree =>
        cases h
        have hharvest := harvestWork_le s.harvesting (s.pendingCqeCount + UInt32.ofNat c.count)
        simp only [State.work, hcall]
        by_cases htodo : c.todo = []
        · simp only [if_pos htodo, Call.work, hpc]
          omega
        · simp only [if_neg htodo, Call.work, hpc, retries]
          omega
      | handleSqeError =>
        simp only [CallInv, hpc] at hc
        simp only [proceed, hpc, if_pos hc.1] at h
        cases h
        simp only [State.work, Call.work, hcall, hpc]
        omega
      | handleRequestError =>
        simp only [proceed, hpc] at h
        cases h
        simp only [State.work, Call.work, hcall, hpc]
        omega
      | submitFailed => simp only [CallInv, hpc] at hc
      | remainingFailed ret => simp only [CallInv, hpc] at hc
      | _ =>
        simp only [proceed, hpc] at h
        cases h
    · cases h
  | complete n res flags =>
    simp only [step] at h
    split at h
    · cases h
    next sqe hsqe =>
    cases h
    obtain ⟨hn, -⟩ := List.getElem?_eq_some_iff.mp hsqe
    simp only [State.work, List.length_append, List.length_eraseIdx, if_pos hn, List.length_cons,
      List.length_nil]
    omega
  | harvest =>
    simp only [step] at h
    split at h
    · cases h
    next hgo =>
    cases h
    rw [not_or] at hgo
    simp only [State.work, harvestWork, if_neg hgo.1, if_neg hgo.2, if_true]
    omega
  | getIoResult waited =>
    obtain rfl : waited = true := hquiet.1
    simp only [step, getIoResult] at h
    split at h
    · cases h
    next hgo =>
    simp only [Bool.true_eq_false, if_false] at h
    split at h
    · cases h
    next response cq hcq =>
    cases h
    rw [not_or, Bool.not_eq_false] at hgo
    simp only [State.work, harvestWork, hcq, hgo.1, List.length_cons, if_true]
    omega
  | rest =>
    simp only [step] at h
    split at h
    · next hgo =>
      cases h
      simp only [State.work, harvestWork, hgo.1, hgo.2, if_true, Bool.false_eq_true, if_false]
      omega
    · cases h

theorem Inv.oneAnswerEach (inv : Inv s) : OneAnswerEach s := by
  have hcounted := inv.counted
  have hunsubmitted := inv.unsubmitted
  refine ⟨inv.conserved, ?_, ?_, ?_, ?_⟩
  · intro hbatch
    omega
  · omega
  · rintro ⟨hcall, -, hpending⟩
    have hnone : s.uncounted = 0 := by simp [State.uncounted, hcall]
    have hzero : s.pendingCqeCount.toNat = 0 := by simp [hpending]
    have hsq : s.ring.sq = [] := List.length_eq_zero_iff.mp (by omega)
    have howes : s.ring.owes = 0 := by omega
    unfold Ring.owes at howes
    have hinflight : s.ring.inflight = [] := List.length_eq_zero_iff.mp (by omega)
    have hcq : s.ring.cq = [] := List.length_eq_zero_iff.mp (by omega)
    have h := inv.conserved
    simpa [Ring.userDatas, State.left, hsq, hinflight, hcq, hcall] using h
  · intro as t hok hrun
    have hstep : ∀ s a t, Inv s → Quiet s a → step s a = some t → Inv t ∧ t.work < s.work :=
      fun s a t inv hquiet h => ⟨step_inv s a t inv hquiet.1 h, step_work inv hquiet h⟩
    have hle := length_le_of_decreases hstep inv hok hrun
    exact ⟨by omega, (run_invariant (fun s a t inv hq h => (hstep s a t inv hq h).1) inv hok
      hrun).progress⟩

/-- In every run whose steps meet the condition, in every state reached, every request has one
answer or waits for one, and the counter is right. -/
theorem oneAnswerEach_of_run {as : List Action} {s : State} (hrun : run step {} as = some s)
    (hok : StepsOk step ActionOk {} as) : OneAnswerEach s :=
  (run_invariant step_inv init_inv hok hrun).oneAnswerEach

/-! ### One request -/

/-- A call with one request, its completion and its harvest. -/
def oneRead : List Action :=
  [.start .read [7], .getSqe true, .submit (.took 1), .proceed, .complete 0 42 0, .harvest,
    .getIoResult true, .rest]

theorem oneAnswerEach_oneRead : ∃ s, run step {} oneRead = some s ∧
    s.delivered = [⟨7, 42, 0⟩] ∧ Settled s ∧ OneAnswerEach s := by
  refine ⟨{ requested := [7], delivered := [⟨7, 42, 0⟩] }, rfl, rfl, ⟨rfl, rfl, rfl⟩,
    @oneAnswerEach_of_run oneRead _ rfl ?_⟩
  refine .cons trivial rfl <| .cons (fun tries _ => .inr (.inl rfl)) rfl <|
    .cons (fun _ => rfl) rfl <| .cons (fun _ => by decide) rfl <| .cons trivial rfl <|
    .cons trivial rfl <| .cons rfl rfl <| .cons trivial rfl .nil

/-- A submit that fails: the caller is answered, the entry stays in the queue, and it goes out
with the next call and is answered again. -/
def failedSubmit : List Action :=
  [.start .read [7], .getSqe true, .submit (.error (-11)), .proceed, .proceed,
    .start .read [8], .getSqe true, .submit (.took 2), .proceed, .complete 0 42 0, .harvest,
    .getIoResult true]

theorem failedSubmit_not_oneAnswerEach : ∃ s, run step {} failedSubmit = some s ∧
    s.delivered.map IoResponse.userData = [7, 7] ∧ s.requested = [7, 8] ∧ ¬ OneAnswerEach s := by
  refine ⟨⟨⟨[], [⟨.read, 8⟩], []⟩, 1, none, true, [7, 8], [⟨7, busy, 0⟩, ⟨7, 42, 0⟩]⟩, rfl, rfl,
    rfl, fun h => ?_⟩
  exact absurd (h.conserved.count_eq 7) (by decide)

end FileApi.HyperAio
