import FileApi.Swapfs.Manager

/-!
# Keys are handed out once

A step either appends a call or moves one; a call keeps its request and its key. The keys of the
`SwapOut` calls are counted up from one, so as long as the counter does not wrap, a key names one
call.
-/

namespace FileApi.Swapfs

open Pool Machine

/-- The key and the request of a `SwapOut`. -/
def Call.made : Call → Option (UInt64 × SwapOutRequest)
  | .swapOut request keyId _ => some (keyId, request)
  | _ => none

def Call.key (c : Call) : Option UInt64 := c.made.map Prod.fst

/-- How many keys were handed out. -/
def State.issued (s : State) : Nat := (s.calls.filterMap Call.key).length

/-- The parts of the state that a step of a call does not change. -/
structure SameCalls (s s' : State) : Prop where
  calls : s'.calls = s.calls
  nextKeyId : s'.nextKeyId = s.nextKeyId
  spaceLimit : s'.control.spaceLimitBytes = s.control.spaceLimitBytes

/-- The parts that only a `RemoveAllData` changes, too. -/
structure Frame (s s' : State) : Prop extends SameCalls s s' where
  removeAll : s'.removeAllInProgress = s.removeAllInProgress

theorem SameCalls.trans {s s' s'' : State} (h : SameCalls s s') (h' : SameCalls s' s'') :
    SameCalls s s'' :=
  ⟨h'.calls.trans h.calls, h'.nextKeyId.trans h.nextKeyId, h'.spaceLimit.trans h.spaceLimit⟩

theorem Frame.trans {s s' s'' : State} (h : Frame s s') (h' : Frame s' s'') : Frame s s'' :=
  ⟨h.toSameCalls.trans h'.toSameCalls, h'.removeAll.trans h.removeAll⟩

theorem finalizeEntry_frame (s : State) (keyId dataSize : UInt64) (removed : Bool) :
    Frame s (finalizeEntry s keyId dataSize removed) := by
  unfold finalizeEntry
  split
  · exact ⟨⟨rfl, rfl, rfl⟩, rfl⟩
  · split
    · exact ⟨⟨rfl, rfl, rfl⟩, rfl⟩
    · exact ⟨⟨rfl, rfl, rfl⟩, rfl⟩

theorem finalizeEntries_frame (removed : List (SwapKeyEntry × Bool)) : ∀ s : State,
    Frame s (removed.foldl (fun s r => finalizeEntry s r.1.keyId r.1.dataSize r.2) s) := by
  induction removed with
  | nil => exact fun s => ⟨⟨rfl, rfl, rfl⟩, rfl⟩
  | cons r removed ih => exact fun s => (finalizeEntry_frame s _ _ r.2).trans (ih _)

variable {s s' : State}

theorem refreshBegin_frame {now : Int} {start : Option UInt64}
    (h : refreshBegin s now = some (s', start)) : Frame s s' := by
  unfold refreshBegin at h
  split at h
  · cases h
  · split at h
    · cases h
      exact ⟨⟨rfl, rfl, rfl⟩, rfl⟩
    · cases h
      exact ⟨⟨rfl, rfl, rfl⟩, rfl⟩

theorem refreshEnd_frame (s : State) (now : Int) (committedAtStart : UInt64)
    (free : Option UInt64) : Frame s (refreshEnd s now committedAtStart free) := by
  cases free with
  | none => exact ⟨⟨rfl, rfl, rfl⟩, rfl⟩
  | some space => exact ⟨⟨rfl, rfl, rfl⟩, rfl⟩

theorem reserveSwapOut_spaceLimit (c : Control) (size : UInt64) :
    (c.reserveSwapOut size).2.spaceLimitBytes = c.spaceLimitBytes := by
  unfold Control.reserveSwapOut
  split
  · rfl
  · rfl

variable {outcome : Outcome}

theorem stepSwapOut_frame {request : SwapOutRequest} {keyId : UInt64} {pc pc' : OutPc}
    (h : stepSwapOut s request keyId pc outcome = some (s', pc')) :
    Frame s s' := by
  unfold stepSwapOut at h
  split at h
  · obtain ⟨⟨s₁, start⟩, hbegin, hr⟩ := Option.map_eq_some_iff.mp h
    have hframe := refreshBegin_frame hbegin
    cases start <;> cases hr <;> exact hframe
  · cases h
    exact refreshEnd_frame s _ _ _
  · have hlimit := reserveSwapOut_spaceLimit s.control request.bufferSize
    split at h
    all_goals
      next hreserve =>
      rw [hreserve] at hlimit
      cases h
      exact ⟨⟨rfl, rfl, hlimit⟩, rfl⟩
  · cases h; exact ⟨⟨rfl, rfl, rfl⟩, rfl⟩
  · cases h; exact ⟨⟨rfl, rfl, rfl⟩, rfl⟩
  · split at h
    · cases h; exact ⟨⟨rfl, rfl, rfl⟩, rfl⟩
    · split at h
      · cases h
      · cases h; exact ⟨⟨rfl, rfl, rfl⟩, rfl⟩
  · cases h; exact ⟨⟨rfl, rfl, rfl⟩, rfl⟩
  · cases h; exact ⟨⟨rfl, rfl, rfl⟩, rfl⟩
  · cases h; exact ⟨⟨rfl, rfl, rfl⟩, rfl⟩
  · obtain ⟨disk, -, hr⟩ := Option.map_eq_some_iff.mp h
    cases hr; exact ⟨⟨rfl, rfl, rfl⟩, rfl⟩
  · cases h; exact ⟨⟨rfl, rfl, rfl⟩, rfl⟩
  · obtain ⟨disk, -, hr⟩ := Option.map_eq_some_iff.mp h
    cases hr; exact ⟨⟨rfl, rfl, rfl⟩, rfl⟩
  · cases h; exact ⟨⟨rfl, rfl, rfl⟩, rfl⟩
  · cases h; exact ⟨⟨rfl, rfl, rfl⟩, rfl⟩
  · cases h; exact ⟨⟨rfl, rfl, rfl⟩, rfl⟩
  · cases h; exact ⟨⟨rfl, rfl, rfl⟩, rfl⟩
  · cases h

theorem lookupKeyForSwapIn_frame (s : State) (request : SwapInRequest) :
    Frame s (lookupKeyForSwapIn s request).1 := by
  unfold lookupKeyForSwapIn
  split
  · exact ⟨⟨rfl, rfl, rfl⟩, rfl⟩
  · split
    · exact ⟨⟨rfl, rfl, rfl⟩, rfl⟩
    · exact ⟨⟨rfl, rfl, rfl⟩, rfl⟩

theorem finishSwapIn_frame (s : State) (keyId : UInt64) (result : Except SwapfsErr (List UInt8)) :
    Frame s (finishSwapIn s keyId result).1 := by
  unfold finishSwapIn
  split
  · exact ⟨⟨rfl, rfl, rfl⟩, rfl⟩
  · simp only
    split
    · exact ⟨⟨rfl, rfl, rfl⟩, rfl⟩
    · exact ⟨⟨rfl, rfl, rfl⟩, rfl⟩

theorem stepSwapIn_frame {request : SwapInRequest} {pc pc' : InPc}
    (h : stepSwapIn s request pc outcome = some (s', pc')) : Frame s s' := by
  unfold stepSwapIn at h
  split at h
  · obtain ⟨rfl, -⟩ := Prod.mk.inj (Option.some.inj h).symm
    exact lookupKeyForSwapIn_frame s request
  · split at h
    · cases h; exact ⟨⟨rfl, rfl, rfl⟩, rfl⟩
    split at h
    · cases h; exact ⟨⟨rfl, rfl, rfl⟩, rfl⟩
    split at h
    · cases h
    split at h
    · cases h
    · cases h; exact ⟨⟨rfl, rfl, rfl⟩, rfl⟩
  · cases h; exact ⟨⟨rfl, rfl, rfl⟩, rfl⟩
  · split at h
    · cases h
    simp only at h
    split at h
    · cases h
    split at h
    · cases h; exact ⟨⟨rfl, rfl, rfl⟩, rfl⟩
    split at h
    · cases h; exact ⟨⟨rfl, rfl, rfl⟩, rfl⟩
    · cases h; exact ⟨⟨rfl, rfl, rfl⟩, rfl⟩
  · cases h; exact ⟨⟨rfl, rfl, rfl⟩, rfl⟩
  · obtain ⟨rfl, -⟩ := Prod.mk.inj (Option.some.inj h).symm
    exact finishSwapIn_frame s _ _
  · obtain ⟨disk, -, hr⟩ := Option.map_eq_some_iff.mp h
    cases hr; exact ⟨⟨rfl, rfl, rfl⟩, rfl⟩
  · cases h; exact ⟨⟨rfl, rfl, rfl⟩, rfl⟩
  · cases h
    exact finalizeEntry_frame s _ _ _
  · cases h; exact ⟨⟨rfl, rfl, rfl⟩, rfl⟩
  · cases h

/-- A step of a call is one of what it runs. -/
inductive CallStep (s : State) (outcome : Outcome) (s' : State) : Call → Call → Prop
  | swapOut {request : SwapOutRequest} {keyId : UInt64} {pc pc' : OutPc}
      (h : stepSwapOut s request keyId pc outcome = some (s', pc')) :
      CallStep s outcome s' (.swapOut request keyId pc) (.swapOut request keyId pc')
  | swapIn {request : SwapInRequest} {pc pc' : InPc}
      (h : stepSwapIn s request pc outcome = some (s', pc')) :
      CallStep s outcome s' (.swapIn request pc) (.swapIn request pc')
  | removeData {keyId : UInt64} {pc pc' : RemovePc}
      (h : stepRemoveData s pc outcome = some (s', pc')) :
      CallStep s outcome s' (.removeData keyId pc) (.removeData keyId pc')
  | removeAllData {pc pc' : RemoveAllPc} (h : stepRemoveAllData s pc outcome = some (s', pc')) :
      CallStep s outcome s' (.removeAllData pc) (.removeAllData pc')
  | getStats {pc pc' : StatsPc} (h : stepGetStats s pc outcome = some (s', pc')) :
      CallStep s outcome s' (.getStats pc) (.getStats pc')

theorem callStep {c c' : Call} (h : stepCall s outcome c = some (s', c')) :
    CallStep s outcome s' c c' := by
  cases c with
  | refused err => cases h
  | _ =>
    obtain ⟨⟨s₁, pc'⟩, hstep, hr⟩ := Option.map_eq_some_iff.mp h
    cases hr
    constructor
    exact hstep

/-- A step of a call does not touch the other calls, and the call keeps its request and key. Only
`RemoveAllData` sets its flag. -/
theorem stepCall_frame {c c' : Call} (h : stepCall s outcome c = some (s', c')) :
    SameCalls s s' ∧ c'.made = c.made ∧
      (s'.removeAllInProgress = s.removeAllInProgress ∨ ∃ pc, c = .removeAllData pc) := by
  have hquiet : ∀ {c₁ : Call}, Frame s s' → c₁.made = c.made → SameCalls s s' ∧ c₁.made = c.made ∧
      (s'.removeAllInProgress = s.removeAllInProgress ∨ ∃ pc, c = .removeAllData pc) :=
    fun hframe hmade => ⟨hframe.toSameCalls, hmade, .inl hframe.removeAll⟩
  cases callStep h with
  | swapOut hstep =>
    exact hquiet (stepSwapOut_frame hstep) rfl
  | swapIn hstep =>
    exact hquiet (stepSwapIn_frame hstep) rfl
  | removeData hstep =>
    refine hquiet ?_ rfl
    unfold stepRemoveData at hstep
    split at hstep
    · obtain ⟨disk, -, hr⟩ := Option.map_eq_some_iff.mp hstep
      cases hr; exact ⟨⟨rfl, rfl, rfl⟩, rfl⟩
    · cases hstep; exact ⟨⟨rfl, rfl, rfl⟩, rfl⟩
    · cases hstep
      exact finalizeEntry_frame s _ _ _
    · cases hstep; exact ⟨⟨rfl, rfl, rfl⟩, rfl⟩
    · cases hstep
  | removeAllData hstep =>
    unfold stepRemoveAllData at hstep
    split at hstep
    · cases hstep; exact hquiet ⟨⟨rfl, rfl, rfl⟩, rfl⟩ rfl
    · obtain ⟨disk, -, hr⟩ := Option.map_eq_some_iff.mp hstep
      cases hr; exact hquiet ⟨⟨rfl, rfl, rfl⟩, rfl⟩ rfl
    · cases hstep; exact hquiet ⟨⟨rfl, rfl, rfl⟩, rfl⟩ rfl
    · next removed firstError =>
      cases hstep
      have hframe := finalizeEntries_frame removed s
      exact ⟨⟨hframe.calls, hframe.nextKeyId, hframe.spaceLimit⟩, rfl, .inr ⟨_, rfl⟩⟩
    · cases hstep; exact hquiet ⟨⟨rfl, rfl, rfl⟩, rfl⟩ rfl
    · cases hstep
  | getStats hstep =>
    refine hquiet ?_ rfl
    unfold stepGetStats at hstep
    split at hstep
    · obtain ⟨⟨s₁, start⟩, hbegin, hr⟩ := Option.map_eq_some_iff.mp hstep
      have hframe := refreshBegin_frame hbegin
      cases start <;> cases hr <;> exact hframe
    · cases hstep
      exact refreshEnd_frame s _ _ _
    · cases hstep; exact ⟨⟨rfl, rfl, rfl⟩, rfl⟩
    · cases hstep; exact ⟨⟨rfl, rfl, rfl⟩, rfl⟩
    · cases hstep

theorem start_frame (s : State) (request : Request) :
    (start s request).1.calls = s.calls ∧ (start s request).1.control = s.control ∧
    ((start s request).2.key = none ∧ (start s request).1.nextKeyId = s.nextKeyId ∨
      (start s request).2.key = some s.nextKeyId ∧
        (start s request).1.nextKeyId = s.nextKeyId + 1) := by
  cases request with
  | swapOut request =>
    simp only [start, startSwapOut]
    split
    · exact ⟨rfl, rfl, .inl ⟨rfl, rfl⟩⟩
    split
    · exact ⟨rfl, rfl, .inl ⟨rfl, rfl⟩⟩
    split
    · exact ⟨rfl, rfl, .inl ⟨rfl, rfl⟩⟩
    · exact ⟨rfl, rfl, .inr ⟨rfl, rfl⟩⟩
  | swapIn request =>
    simp only [start, startSwapIn]
    split
    · exact ⟨rfl, rfl, .inl ⟨rfl, rfl⟩⟩
    · exact ⟨rfl, rfl, .inl ⟨rfl, rfl⟩⟩
  | removeData keyId =>
    simp only [start, startRemoveData]
    split
    · exact ⟨rfl, rfl, .inl ⟨rfl, rfl⟩⟩
    split
    · exact ⟨rfl, rfl, .inl ⟨rfl, rfl⟩⟩
    split
    · exact ⟨rfl, rfl, .inl ⟨rfl, rfl⟩⟩
    split
    · exact ⟨rfl, rfl, .inl ⟨rfl, rfl⟩⟩
    · exact ⟨rfl, rfl, .inl ⟨rfl, rfl⟩⟩
  | removeAllData =>
    simp only [start, startRemoveAllData]
    split
    · exact ⟨rfl, rfl, .inl ⟨rfl, rfl⟩⟩
    split
    · exact ⟨rfl, rfl, .inl ⟨rfl, rfl⟩⟩
    · exact ⟨rfl, rfl, .inl ⟨rfl, rfl⟩⟩
  | getStats => exact ⟨rfl, rfl, .inl ⟨rfl, rfl⟩⟩

theorem step_cases {s t : State} {a : Action} (h : step s a = some t) :
    (∃ request, a = .start request ∧
      t = { (start s request).1 with calls := s.calls ++ [(start s request).2] }) ∨
    (∃ i outcome c s' c', a = .go i outcome ∧ s.calls[i]? = some c ∧
      stepCall s outcome c = some (s', c') ∧ t = { s' with calls := s.calls.set i c' }) := by
  cases a with
  | start request =>
    left
    refine ⟨request, rfl, ?_⟩
    rw [← (start_frame s request).1]
    exact (Option.some.inj h).symm
  | go i outcome =>
    right
    simp only [step] at h
    split at h
    · cases h
    next c hc =>
    obtain ⟨⟨s', c'⟩, hstep, hr⟩ := Option.map_eq_some_iff.mp h
    refine ⟨i, outcome, c, s', c', rfl, hc, hstep, ?_⟩
    rw [← (stepCall_frame hstep).1.calls]
    exact hr.symm

theorem step_spaceLimit {s t : State} {a : Action} (h : step s a = some t) :
    t.control.spaceLimitBytes = s.control.spaceLimitBytes := by
  rcases step_cases h with ⟨request, -, rfl⟩ | ⟨i, outcome, c, s', c', -, hc, hstep, rfl⟩
  · exact congrArg Control.spaceLimitBytes (start_frame s request).2.1
  · exact (stepCall_frame hstep).1.spaceLimit

/-! ## The counter of the keys -/

/-- The keys of the calls are the first numbers from one, and the next one is next. -/
structure KeysInv (s : State) : Prop where
  keys : s.calls.filterMap Call.key = (List.range s.issued).map fun n => UInt64.ofNat (n + 1)
  next : s.nextKeyId = UInt64.ofNat (s.issued + 1)

theorem init_keysInv (useDirectIo : Bool) (control : Control) : KeysInv (init useDirectIo control) :=
  ⟨rfl, rfl⟩

theorem step_keysInv {s t : State} {a : Action} (inv : KeysInv s) (h : step s a = some t) :
    KeysInv t ∧ s.issued ≤ t.issued := by
  rcases step_cases h with ⟨request, -, rfl⟩ | ⟨i, outcome, c, s', c', -, hc, hstep, rfl⟩
  · have hframe := (start_frame s request).2.2
    rcases hframe with ⟨hnone, hnext⟩ | ⟨hsome, hnext⟩
    · have hissued : State.issued { (start s request).1 with
          calls := s.calls ++ [(start s request).2] } = s.issued := by
        simp [State.issued, List.filterMap_append, hnone]
      refine ⟨⟨?_, ?_⟩, Nat.le_of_eq hissued.symm⟩
      · rw [hissued, ← inv.keys]
        simp [List.filterMap_append, hnone]
      · rw [hissued, ← inv.next]
        exact hnext
    · have hissued : State.issued { (start s request).1 with
          calls := s.calls ++ [(start s request).2] } = s.issued + 1 := by
        simp [State.issued, List.filterMap_append, hsome]
      refine ⟨⟨?_, ?_⟩, by omega⟩
      · rw [hissued, List.range_succ, List.map_append, ← inv.keys]
        simp [List.filterMap_append, hsome, inv.next]
      · rw [hissued]
        simp only [hnext, inv.next]
        rw [← UInt64.ofNat_one, ← UInt64.ofNat_add]
  · obtain ⟨hframe, hmade, -⟩ := stepCall_frame hstep
    have hnext := hframe.nextKeyId
    have hkeys : (s.calls.set i c').filterMap Call.key = s.calls.filterMap Call.key :=
      filterMap_set Call.key c' hc (by simp [Call.key, hmade])
    have hissued : State.issued { s' with calls := s.calls.set i c' } = s.issued := by
      simp only [State.issued, hkeys]
    refine ⟨⟨?_, ?_⟩, Nat.le_of_eq hissued.symm⟩
    · rw [hissued, ← inv.keys]
      exact hkeys
    · rw [hissued, ← inv.next]
      exact hnext

theorem KeysInv.nodup {s : State} (inv : KeysInv s) (hfew : s.issued ≤ 2 ^ 64) :
    (s.calls.filterMap Call.key).Nodup := by
  rw [inv.keys]
  refine List.Nodup.map_on ?_ List.nodup_range
  intro m hm n hn heq
  rw [List.mem_range] at hm hn
  have hmod := congrArg UInt64.toNat heq
  simp only [UInt64.toNat_ofNat'] at hmod
  omega

theorem made_unique {calls : List Call} (hnodup : (calls.filterMap Call.key).Nodup) {c d : Call}
    {k : UInt64} {r r' : SwapOutRequest} (hc : c ∈ calls) (hd : d ∈ calls)
    (hmade : c.made = some (k, r)) (hmade' : d.made = some (k, r')) : c = d := by
  obtain ⟨i, hi⟩ := List.mem_iff_getElem?.mp hc
  obtain ⟨j, hj⟩ := List.mem_iff_getElem?.mp hd
  have hij : i = j := index_unique hnodup hi hj (by rw [Call.key, hmade]; rfl)
    (by rw [Call.key, hmade']; rfl)
  subst hij
  exact Option.some.inj (hi.symm.trans hj)

/-! ## A call alone -/

/-- A call alone: its first section and the steps behind it. -/
def alone (i : Nat) (request : Request) (outcomes : List Outcome) : List Action :=
  .start request :: outcomes.map (.go i)

/-- The steps of the last call `c`, behind the calls `l`. -/
def stepsLast (l : List Call) : State → Call → List Outcome → Option State
  | s, c, [] => some { s with calls := l ++ [c] }
  | s, c, outcome :: outcomes =>
      (stepCall { s with calls := l ++ [c] } outcome c).bind fun r => stepsLast l r.1 r.2 outcomes

theorem run_go_last (l : List Call) (outcomes : List Outcome) : ∀ (s : State) (c : Call),
    run step { s with calls := l ++ [c] } (outcomes.map (.go l.length)) =
      stepsLast l s c outcomes := by
  induction outcomes with
  | nil => exact fun s c => rfl
  | cons outcome outcomes ih =>
    intro s c
    simp only [List.map_cons, run, step, List.getElem?_concat_length, stepsLast]
    cases hstep : stepCall { s with calls := l ++ [c] } outcome c with
    | none => rfl
    | some r =>
      have hcalls := (stepCall_frame hstep).1.calls
      have hset : (l ++ [c]).set l.length r.2 = l ++ [r.2] := by simp
      simp only [Option.map_some, Option.bind_some, hcalls, hset]
      exact ih r.1 r.2

theorem run_alone (s : State) (request : Request) (outcomes : List Outcome) :
    run step s (alone s.calls.length request outcomes) =
      stepsLast s.calls (start s request).1 (start s request).2 outcomes := by
  simp only [alone, run, step, (start_frame s request).1, Option.bind_some]
  exact run_go_last s.calls outcomes _ _

end FileApi.Swapfs
