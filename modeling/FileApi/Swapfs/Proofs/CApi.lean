import FileApi.Misc.Pool
import FileApi.Swapfs.CApi

/-!
# No method on a dead manager

The object at an address has one owner while it is made or destroyed: the call that does so. In
between it is registered and idle, and then only data calls are inside it, as many as the
registry counts. So nobody is inside an object when it is deleted, and nobody else deletes it.
-/

namespace FileApi.Swapfs

open Pool Machine

/-! ## Who is where -/

/-- The handle whose object the call makes or destroys. -/
def ApiPc.owner : ApiPc → Option Handle
  | .init h => some h
  | .initialising h _ => some h
  | .discard h _ => some h
  | .register h => some h
  | .destroy h => some h
  | .destroying h _ _ => some h
  | .unregister h => some h
  | .delete h => some h
  | .restore h _ => some h
  | _ => none

/-- The handle that the call's guard counts. -/
def ApiPc.caller : ApiPc → Option Handle
  | .enter h _ => some h
  | .run h _ _ => some h
  | .release h _ => some h
  | _ => none

def ApiPc.owns (h : Handle) (pc : ApiPc) : Nat := if pc.owner = some h then 1 else 0

def ApiPc.calls (h : Handle) (pc : ApiPc) : Nat := if pc.caller = some h then 1 else 0

/-- The data calls inside a handle. -/
def Api.inside (s : Api) (h : Handle) : Nat := total (ApiPc.calls h) s.threads

/-- `Init` or `Destroy` has left the manager ready for data calls. -/
def Session.Ready (s : Session) : Prop := s.initialized = true ∧ s.shuttingDown = false

/-- A handle that data calls and `SwapfsNativeDestroyManager` accept, of an object that lives. -/
def Api.Usable (s : Api) (h : Handle) : Prop :=
  ∃ state object, s.states h = some state ∧ state.destroying = false ∧
    (s.memory h).object = some object ∧ object.registered = true ∧ object.session.Ready

/-- The registered handle that is not being destroyed, as a number. -/
def idleAt : Option ManagerApiState → Nat
  | some state => if state.destroying then 0 else 1
  | none => 0

def Cell.alive (c : Cell) : Nat := if c.object.isSome then 1 else 0

/-- What is known of an address with so many owners and calls. -/
structure CellOk (state : Option ManagerApiState) (cell : Cell) (owners calls : Nat) : Prop where
  owned : owners + idleAt state = cell.alive
  unregistered : state = none → calls = 0
  counted : ∀ st, state = some st → st.activeCalls = UInt32.ofNat calls
  quiet : ∀ st, state = some st → st.destroying = true → calls = 0
  registered : ∀ st, state = some st → ∃ object, cell.object = some object ∧
    object.registered = true ∧ (st.destroying = false → object.session.Ready)

/-- The object at the address is there, and its session is like this. -/
def Cell.Has (c : Cell) (p : Session → Prop) : Prop := ∃ object, c.object = some object ∧ p object.session

/-- The handle is being destroyed. -/
def Destroying (state : Option ManagerApiState) : Prop := ∃ st, state = some st ∧ st.destroying = true

/-- What a call knows of its handle. -/
def PcOk (states : Handle → Option ManagerApiState) (memory : Handle → Cell) : ApiPc → Prop
  | .init h => states h = none ∧ (memory h).Has fun s => s.initialized = false ∧ s.shuttingDown = false
  | .initialising h this =>
      states h = none ∧ (memory h).generation = this ∧
        (memory h).Has fun s => s.initialized = false ∧ s.shuttingDown = false
  | .discard h _ => states h = none
  | .register h => states h = none ∧ (memory h).Has Session.Ready
  | .run h this _ => (memory h).generation = this
  | .destroy h => Destroying (states h) ∧ (memory h).Has fun s => s.initialized = true
  | .destroying h this i =>
      Destroying (states h) ∧ (memory h).generation = this ∧
        (memory h).Has fun s => s.initialized = true ∧ ∃ d, s.destroys[i]? = some d ∧ d.inFlight = true
  | .unregister h => Destroying (states h)
  | .delete h => states h = none
  | .restore h _ => Destroying (states h) ∧ (memory h).Has Session.Ready
  | _ => True

structure ApiInv (s : Api) : Prop where
  cells : ∀ h, CellOk (s.states h) (s.memory h) (total (ApiPc.owns h) s.threads) (s.inside h)
  threads : ∀ pc ∈ s.threads, PcOk s.states s.memory pc
  faults : ∀ f ∈ s.faults, f = .unregistered .init

/-- Fewer than `2 ^ 32` data calls are inside a handle. -/
def FewInside (s : Api) : Prop := ∀ h, s.inside h < 2 ^ 32

theorem init_apiInv : ApiInv {} := by
  refine ⟨fun h => ⟨rfl, fun _ => rfl, nofun, nofun, nofun⟩, nofun, nofun⟩

/-! ## Moves -/

variable {faults : List Fault} {s : Api}

section Moves

variable {states states' : Handle → Option ManagerApiState} {memory memory' : Handle → Cell}
  {threads : List ApiPc} {t : Nat} {pc pc' : ApiPc} {h : Handle} {owners calls : Nat}

theorem CellOk.owners_le (ok : CellOk (states h) (memory h) owners calls) : owners ≤ 1 := by
  have howned := ok.owned
  rw [Cell.alive] at howned
  split at howned <;> omega

theorem CellOk.calls_of_owner (ok : CellOk (states h) (memory h) owners calls) (hown : 0 < owners) :
    calls = 0 := by
  cases hstate : states h with
  | none => exact ok.unregistered hstate
  | some st =>
    refine ok.quiet st hstate ?_
    have howned := ok.owned
    rw [hstate, idleAt, Cell.alive] at howned
    by_contra hne
    rw [if_neg hne] at howned
    split at howned <;> omega

theorem CellOk.idle_of_calls (ok : CellOk (states h) (memory h) owners calls) (hcalls : 0 < calls) :
    ∃ st, states h = some st ∧ st.destroying = false ∧ owners = 0 := by
  cases hstate : states h with
  | none =>
    have hzero := ok.unregistered hstate
    omega
  | some st =>
    have hdestroying : st.destroying = false := by
      by_contra hne
      have hzero := ok.quiet st hstate (by simpa using hne)
      omega
    refine ⟨st, rfl, hdestroying, ?_⟩
    by_contra hne
    have hzero := ok.calls_of_owner (Nat.pos_of_ne_zero hne)
    omega

theorem PcOk.congr {pc : ApiPc}
    (howner : ∀ h, pc.owner = some h → states' h = states h ∧ memory' h = memory h)
    (hcaller : ∀ h, pc.caller = some h → (memory' h).generation = (memory h).generation)
    (ok : PcOk states memory pc) : PcOk states' memory' pc := by
  cases pc with
  | run h this i => exact (hcaller h rfl).trans ok
  | enter h call => trivial
  | release h ret => trivial
  | new => trivial
  | guard h call => trivial
  | beginDestroy h => trivial
  | done ret => trivial
  | _ h =>
    obtain ⟨hstates, hmemory⟩ := howner h rfl
    simpa only [PcOk, hstates, hmemory] using ok

theorem owns_set (pc' : ApiPc) (ht : threads[t]? = some pc) (h : Handle) :
    total (ApiPc.owns h) (threads.set t pc') + pc.owns h =
      total (ApiPc.owns h) threads + pc'.owns h :=
  total_set (ApiPc.owns h) pc' ht

theorem calls_set (pc' : ApiPc) (ht : threads[t]? = some pc) (h : Handle) :
    total (ApiPc.calls h) (threads.set t pc') + pc.calls h =
      total (ApiPc.calls h) threads + pc'.calls h :=
  total_set (ApiPc.calls h) pc' ht

theorem ApiPc.owns_eq_zero (hne : pc.owner ≠ some h) : pc.owns h = 0 := if_neg hne

theorem ApiPc.owns_eq_one (hown : pc.owner = some h) : pc.owns h = 1 := if_pos hown

theorem ApiPc.calls_eq_zero (hne : pc.caller ≠ some h) : pc.calls h = 0 := if_neg hne

theorem ApiPc.calls_eq_one (hcaller : pc.caller = some h) : pc.calls h = 1 := if_pos hcaller

/-- A call moves at one address: it is not at another before or after, and the calls that stay at
the address do not see the change. -/
theorem ApiInv.move (inv : ApiInv s) (ht : s.threads[t]? = some pc)
    (hat : ∀ k, k ≠ h → pc.owner ≠ some k ∧ pc'.owner ≠ some k ∧
      pc.caller ≠ some k ∧ pc'.caller ≠ some k)
    (hsame : ∀ k, k ≠ h → states' k = s.states k ∧ memory' k = s.memory k)
    (hothers : ∀ j other, j ≠ t → s.threads[j]? = some other → other.owner ≠ some h ∧
      (other.caller = some h → (memory' h).generation = (s.memory h).generation))
    (hcell : CellOk (states' h) (memory' h) (total (ApiPc.owns h) (s.threads.set t pc'))
      (total (ApiPc.calls h) (s.threads.set t pc'))) (hpc : PcOk states' memory' pc')
    (hfaults : ∀ f ∈ faults, f = .unregistered .init) :
    ApiInv { s with states := states', memory := memory', threads := s.threads.set t pc', faults } := by
  refine ⟨fun k => ?_, forall_mem_set_of_ne (fun j other hj hother => ?_) hpc, hfaults⟩
  · by_cases hk : k = h
    · subst hk
      exact hcell
    · obtain ⟨hown, hown', hcall, hcall'⟩ := hat k hk
      have howns := owns_set pc' ht k
      have hcalls := calls_set pc' ht k
      rw [ApiPc.owns_eq_zero hown, ApiPc.owns_eq_zero hown'] at howns
      rw [ApiPc.calls_eq_zero hcall, ApiPc.calls_eq_zero hcall'] at hcalls
      have hok := inv.cells k
      rw [Api.inside] at hok
      simp only [Api.inside, (hsame k hk).1, (hsame k hk).2]
      rwa [show total (ApiPc.owns k) (s.threads.set t pc') = total (ApiPc.owns k) s.threads by omega,
        show total (ApiPc.calls k) (s.threads.set t pc') = total (ApiPc.calls k) s.threads by omega]
  · obtain ⟨hnot, hgeneration⟩ := hothers j other hj hother
    refine PcOk.congr (fun k hk => ?_) (fun k hk => ?_)
      (inv.threads other (List.mem_of_getElem? hother))
    · exact hsame k fun heq => hnot (heq ▸ hk)
    · by_cases heq : k = h
      · subst heq
        exact hgeneration hk
      · exact congrArg Cell.generation (hsame k heq).2

theorem ApiInv.alone (inv : ApiInv s) (ht : s.threads[t]? = some pc) (hown : pc.owner = some h) :
    total (ApiPc.owns h) s.threads = pc.owns h ∧ s.inside h = 0 := by
  have hok := inv.cells h
  have hone := le_total (ApiPc.owns h) ht
  rw [ApiPc.owns_eq_one hown] at hone ⊢
  exact ⟨Nat.le_antisymm hok.owners_le hone, hok.calls_of_owner hone⟩

theorem ApiInv.exclusive (inv : ApiInv s) (ht : s.threads[t]? = some pc)
    (hcaller : pc.caller = none) (hcaller' : pc'.caller = none)
    (howner : ∀ k, k ≠ h → pc.owner ≠ some k) (howner' : ∀ k, k ≠ h → pc'.owner ≠ some k)
    (halone : total (ApiPc.owns h) s.threads = pc.owns h ∧ s.inside h = 0)
    (hsame : ∀ k, k ≠ h → states' k = s.states k ∧ memory' k = s.memory k)
    (hcell : CellOk (states' h) (memory' h) (pc'.owns h) 0) (hpc : PcOk states' memory' pc')
    (hfaults : ∀ f ∈ faults, f = .unregistered .init) :
    ApiInv { s with states := states', memory := memory', threads := s.threads.set t pc', faults } := by
  obtain ⟨hfree, hinside⟩ := halone
  have hnone : ∀ k, pc.caller ≠ some k ∧ pc'.caller ≠ some k := by
    intro k
    rw [hcaller, hcaller']
    exact ⟨nofun, nofun⟩
  refine inv.move ht (fun k hk => ⟨howner k hk, howner' k hk, hnone k⟩) hsame
    (fun j other hj hother => ⟨fun hown => ?_, fun hcall => ?_⟩) ?_ hpc hfaults
  · have htwo := add_le_total (ApiPc.owns h) hj hother ht
    rw [ApiPc.owns_eq_one hown] at htwo
    omega
  · have hone := le_total (ApiPc.calls h) hother
    rw [ApiPc.calls_eq_one hcall] at hone
    rw [Api.inside] at hinside
    omega
  · have howns := owns_set pc' ht h
    have hcalls := calls_set pc' ht h
    rw [ApiPc.calls_eq_zero (hnone h).1, ApiPc.calls_eq_zero (hnone h).2] at hcalls
    rw [Api.inside] at hinside
    rwa [show total (ApiPc.owns h) (s.threads.set t pc') = pc'.owns h by omega,
      show total (ApiPc.calls h) (s.threads.set t pc') = 0 by omega]

theorem ApiInv.shared (inv : ApiInv s) (ht : s.threads[t]? = some pc) (howner : pc.owner = none)
    (howner' : pc'.owner = none) (hcaller : ∀ k, k ≠ h → pc.caller ≠ some k)
    (hcaller' : ∀ k, k ≠ h → pc'.caller ≠ some k) (hfree : total (ApiPc.owns h) s.threads = 0)
    (hsame : ∀ k, k ≠ h → states' k = s.states k ∧ memory' k = s.memory k)
    (hgeneration : (memory' h).generation = (s.memory h).generation)
    (hcell : ∀ calls, calls + pc.calls h = s.inside h + pc'.calls h →
      CellOk (states' h) (memory' h) 0 calls) (hpc : PcOk states' memory' pc')
    (hfaults : ∀ f ∈ faults, f = .unregistered .init) :
    ApiInv { s with states := states', memory := memory', threads := s.threads.set t pc', faults } := by
  have hnone : ∀ k, pc.owner ≠ some k ∧ pc'.owner ≠ some k := by
    intro k
    rw [howner, howner']
    exact ⟨nofun, nofun⟩
  refine inv.move ht (fun k hk => ⟨(hnone k).1, (hnone k).2, hcaller k hk, hcaller' k hk⟩) hsame
    (fun j other hj hother => ⟨fun hown => ?_, fun _ => hgeneration⟩) ?_ hpc hfaults
  · have hone := le_total (ApiPc.owns h) hother
    rw [ApiPc.owns_eq_one hown] at hone
    omega
  · have howns := owns_set pc' ht h
    rw [ApiPc.owns_eq_zero (hnone h).1, ApiPc.owns_eq_zero (hnone h).2] at howns
    rw [show total (ApiPc.owns h) (s.threads.set t pc') = 0 by omega]
    exact hcell _ (calls_set _ ht h)

theorem ApiInv.stay (inv : ApiInv s) (ht : s.threads[t]? = some pc) (howner : pc.owner = none)
    (howner' : pc'.owner = none) (hcaller : pc.caller = none) (hcaller' : pc'.caller = none)
    (hpc : PcOk s.states s.memory pc') :
    ApiInv { s with threads := s.threads.set t pc' } := by
  refine ⟨fun h => ?_, forall_mem_set t inv.threads hpc, inv.faults⟩
  have howns := owns_set pc' ht h
  have hcalls := calls_set pc' ht h
  simp only [ApiPc.owns, ApiPc.calls, howner, howner', hcaller, hcaller', reduceCtorEq, if_false,
    Nat.add_zero] at howns hcalls
  have hok := inv.cells h
  rw [Api.inside] at hok
  simp only [Api.inside]
  rwa [howns, hcalls]

end Moves

/-! ## Every step -/

section Steps

variable {s s' : Api} {t this : Nat} {h : Handle} {pc pc' dead : ApiPc} {response : ApiResponse}
  {m : Method} {f : Session → Option (Session × ApiPc)} {object : ApiObject}
  {state : Option ManagerApiState} {cell : Cell} {owners calls : Nat}

theorem onObject_live (hobject : (s.memory h).object = some object)
    (hgeneration : (s.memory h).generation = this)
    (hstep : s.onObject h this m dead f = some (s', pc')) :
    ∃ session, f object.session = some (session, pc') ∧
      s' = { s with
        memory := Function.update s.memory h
          { s.memory h with object := some { object with session } }
        faults := if object.registered then s.faults else s.faults ++ [Fault.unregistered m] } := by
  subst hgeneration
  simp only [Api.onObject, hobject, ne_eq, not_true_eq_false, if_false,
    Option.map_eq_some_iff, Prod.mk.injEq] at hstep
  obtain ⟨⟨session, pc₁⟩, hf, rfl, rfl⟩ := hstep
  exact ⟨session, hf, rfl⟩

theorem update_same {α : Type} (g : Handle → α) (h : Handle) (a : α) :
    ∀ k, k ≠ h → Function.update g h a k = g k :=
  fun _ hk => Function.update_of_ne hk a g

theorem owner_at {h : Handle} (hown : pc.owner = some h) : ∀ k, k ≠ h → pc.owner ≠ some k := by
  intro k hk heq
  rw [hown] at heq
  exact hk (Option.some.inj heq).symm

theorem caller_at {h : Handle} (hcaller : pc.caller = some h) : ∀ k, k ≠ h → pc.caller ≠ some k := by
  intro k hk heq
  rw [hcaller] at heq
  exact hk (Option.some.inj heq).symm

theorem CellOk.setSession (ok : CellOk state cell owners calls) (hobject : cell.object = some object)
    {session : Session}
    (hready : ∀ st, state = some st → st.destroying = false → session.Ready) :
    CellOk state { cell with object := some { object with session } } owners calls := by
  refine ⟨?_, ok.unregistered, ok.counted, ok.quiet, fun st hst => ?_⟩
  · have howned := ok.owned
    rw [Cell.alive, hobject] at howned
    exact howned
  · obtain ⟨o, ho, hregistered, -⟩ := ok.registered st hst
    obtain rfl : object = o := Option.some.inj (hobject.symm.trans ho)
    exact ⟨_, rfl, hregistered, hready st hst⟩

theorem call_ready {session session' : Session} {action : Action}
    (hstep : session.step (.call action) = some session') (hready : session.Ready) :
    session'.Ready := by
  cases action with
  | start request =>
    cases hstep
    exact hready
  | go i outcome =>
    obtain ⟨manager, -, rfl⟩ := Option.map_eq_some_iff.mp hstep
    exact hready

theorem Cell.alive_of_object (hobject : cell.object = some object) : cell.alive = 1 := by
  rw [Cell.alive, hobject]
  rfl

theorem faults_registered (inv : ApiInv s) (hregistered : object.registered = true) :
    ∀ fault ∈ (if object.registered then s.faults else s.faults ++ [Fault.unregistered m]),
      fault = .unregistered .init := by
  rw [if_pos hregistered]
  exact inv.faults

theorem faults_init (inv : ApiInv s) :
    ∀ fault ∈ (if object.registered then s.faults else s.faults ++ [Fault.unregistered .init]),
      fault = .unregistered .init := by
  split
  · exact inv.faults
  · exact forall_mem_append_singleton inv.faults rfl

theorem ApiInv.ownerMethod (inv : ApiInv s) (ht : s.threads[t]? = some pc)
    (hown : pc.owner = some h) (hcaller : pc.caller = none) (hown' : pc'.owner = some h)
    (hcaller' : pc'.caller = none) (hobject : (s.memory h).object = some object) {session : Session}
    (hidle : ∀ st, s.states h = some st → st.destroying = true)
    (hpc : PcOk s.states (Function.update s.memory h
      { s.memory h with object := some { object with session } }) pc')
    (hfaults : ∀ fault ∈ faults, fault = .unregistered .init) :
    ApiInv { s with
      memory := Function.update s.memory h { s.memory h with object := some { object with session } }
      threads := s.threads.set t pc'
      faults } := by
  have halone := inv.alone ht hown
  have hok := inv.cells h
  rw [halone.1, halone.2, ApiPc.owns_eq_one hown] at hok
  refine inv.exclusive ht hcaller hcaller' (owner_at hown) (owner_at hown') halone
    (fun k hk => ⟨rfl, update_same _ h _ k hk⟩) ?_ hpc hfaults
  rw [ApiPc.owns_eq_one hown', Function.update_self]
  refine hok.setSession hobject fun st hst hfalse => ?_
  rw [hidle st hst] at hfalse
  cases hfalse

theorem ApiInv.delete (inv : ApiInv s) (ht : s.threads[t]? = some pc) (hown : pc.owner = some h)
    (hcaller : pc.caller = none) (hnone : s.states h = none) (ret : Except SwapfsErr Unit) :
    ApiInv { s.deleteManager h with threads := s.threads.set t (.done ret) } := by
  have halone := inv.alone ht hown
  have hok := inv.cells h
  rw [halone.1, halone.2, ApiPc.owns_eq_one hown, hnone] at hok
  have halive := hok.owned
  cases hobject : (s.memory h).object with
  | none =>
    rw [Cell.alive, hobject] at halive
    cases halive
  | some object =>
    rw [Api.deleteManager, hobject]
    refine inv.exclusive ht hcaller rfl (owner_at hown) (fun k _ => nofun) halone
      (fun k hk => ⟨rfl, update_same _ h _ k hk⟩) ?_ trivial inv.faults
    simp only [hnone, Function.update_self]
    exact ⟨rfl, fun _ => rfl, nofun, nofun, nofun⟩

theorem stepCreate_inv (inv : ApiInv s) (ht : s.threads[t]? = some pc)
    (hstep : s.stepCreate pc response = some (s', pc')) :
    ApiInv { s' with threads := s'.threads.set t pc' } := by
  have hpcOk := inv.threads pc (List.mem_of_getElem? ht)
  unfold Api.stepCreate at hstep
  split at hstep
  · cases hstep
    exact inv.stay ht rfl rfl rfl rfl trivial
  · next h =>
    obtain ⟨s₁, hallocate, heq⟩ := Option.map_eq_some_iff.mp hstep
    cases heq
    simp only [Api.allocate, Option.ite_none_right_eq_some, Option.some.injEq] at hallocate
    obtain ⟨⟨-, hfree⟩, rfl⟩ := hallocate
    have hok := inv.cells h
    have hobject : (s.memory h).object = none := Option.isNone_iff_eq_none.mp hfree
    have howned := hok.owned
    rw [Cell.alive, hobject] at howned
    have hstate : s.states h = none := by
      cases hstate : s.states h with
      | none => rfl
      | some st =>
        obtain ⟨o, ho, -⟩ := hok.registered st hstate
        rw [hobject] at ho
        cases ho
    have hinside := hok.unregistered hstate
    refine inv.exclusive ht rfl rfl (fun k _ => nofun) (owner_at rfl) ⟨?_, hinside⟩
      (fun k hk => ⟨rfl, update_same _ h _ k hk⟩) ?_ ⟨hstate, ?_⟩ inv.faults
    · simp only [Option.isSome_none, Bool.false_eq_true, if_false] at howned
      rw [show ApiPc.new.owns h = 0 from rfl]
      omega
    · simp only [ApiPc.owns_eq_one (show (ApiPc.init h).owner = some h from rfl), hstate, Function.update_self]
      exact ⟨rfl, fun _ => rfl, nofun, nofun, nofun⟩
    · simp only [Function.update_self]
      exact ⟨_, rfl, rfl, rfl⟩
  · next h =>
    obtain ⟨hstate, object, hobject, hflags⟩ := hpcOk
    obtain ⟨session, hf, rfl⟩ := onObject_live hobject rfl hstep
    cases hf
    refine inv.ownerMethod ht rfl rfl rfl rfl hobject (fun st hst => ?_) ⟨hstate, ?_, ?_⟩
      (faults_init inv)
    · rw [hstate] at hst
      cases hst
    · rw [Function.update_self]
    · rw [Function.update_self]
      exact ⟨_, rfl, hflags⟩
  · next h this useDirectIo available limit intervalMs now =>
    obtain ⟨hstate, hgeneration, object, hobject, hinit, hshutting⟩ := hpcOk
    obtain ⟨session, hf, rfl⟩ := onObject_live hobject hgeneration hstep
    obtain ⟨session', hsession, heq⟩ := Option.map_eq_some_iff.mp hf
    cases heq
    refine inv.ownerMethod ht rfl rfl rfl rfl hobject (fun st hst => ?_) ⟨hstate, ?_⟩
      (faults_init inv)
    · rw [hstate] at hst
      cases hst
    · simp only [Session.step, hinit, Bool.false_eq_true, if_false, Option.some.injEq] at hsession
      subst hsession
      rw [Function.update_self]
      exact ⟨_, rfl, rfl, hshutting⟩
  · next h this err =>
    obtain ⟨hstate, hgeneration, object, hobject, hflags⟩ := hpcOk
    obtain ⟨session, hf, rfl⟩ := onObject_live hobject hgeneration hstep
    cases hf
    refine inv.ownerMethod ht rfl rfl rfl rfl hobject (fun st hst => ?_) hstate (faults_init inv)
    rw [hstate] at hst
    cases hst
  · next h ret =>
    cases hstep
    have hdelete := inv.delete ht rfl rfl hpcOk (.error ret)
    rwa [show (s.deleteManager h).threads = s.threads by unfold Api.deleteManager; split <;> rfl]
  · next h =>
    cases hstep
    obtain ⟨hstate, object, hobject, hready⟩ := hpcOk
    refine inv.exclusive ht rfl rfl (owner_at rfl) (fun k _ => nofun) (inv.alone ht rfl)
      (fun k hk => ⟨update_same _ h _ k hk, update_same _ h _ k hk⟩) ?_ trivial inv.faults
    simp only [Api.registerManager, hstate, hobject, Function.update_self]
    refine ⟨rfl, nofun, fun st hst => ?_, fun st hst => ?_, fun st hst => ?_⟩
    · cases hst
      rfl
    · cases hst
      nofun
    · cases hst
      exact ⟨_, rfl, rfl, fun _ => hready⟩
  · cases hstep

theorem ApiInv.entered (inv : ApiInv s) (ht : s.threads[t]? = some pc) (hcaller : pc.caller = some h) :
    ∃ st object, s.states h = some st ∧ st.destroying = false ∧
      st.activeCalls = UInt32.ofNat (s.inside h) ∧ 0 < s.inside h ∧
      total (ApiPc.owns h) s.threads = 0 ∧ (s.memory h).object = some object ∧
      object.registered = true ∧ object.session.Ready := by
  have hok := inv.cells h
  have hone := le_total (ApiPc.calls h) ht
  rw [ApiPc.calls_eq_one hcaller] at hone
  obtain ⟨st, hst, hdestroying, hfree⟩ := hok.idle_of_calls hone
  obtain ⟨object, hobject, hregistered, hready⟩ := hok.registered st hst
  exact ⟨st, object, hst, hdestroying, hok.counted st hst, hone, hfree, hobject, hregistered,
    hready hdestroying⟩

theorem ApiInv.dataMethod (inv : ApiInv s) (ht : s.threads[t]? = some pc) (howner : pc.owner = none)
    (hcaller : pc.caller = some h) (howner' : pc'.owner = none) (hcaller' : pc'.caller = some h)
    (hgeneration : (s.memory h).generation = this)
    (hf : ∀ session session' pc₁, session.Ready → f session = some (session', pc₁) → session'.Ready)
    (hpc : ∀ memory, (memory h).generation = this → PcOk s.states memory pc')
    (hstep : s.onObject h this .data dead f = some (s', pc')) :
    ApiInv { s' with threads := s'.threads.set t pc' } := by
  obtain ⟨st, object, hst, -, -, -, hfree, hobject, hregistered, hready⟩ := inv.entered ht hcaller
  obtain ⟨session, hsession, rfl⟩ := onObject_live hobject hgeneration hstep
  have hok := inv.cells h
  rw [hfree] at hok
  refine inv.shared ht howner howner' (caller_at hcaller) (caller_at hcaller') hfree
    (fun k hk => ⟨rfl, update_same _ h _ k hk⟩) ?_ (fun calls hcalls => ?_) (hpc _ ?_)
    (faults_registered inv hregistered)
  · simp only [Function.update_self]
  · rw [ApiPc.calls_eq_one hcaller, ApiPc.calls_eq_one hcaller'] at hcalls
    obtain rfl : calls = s.inside h := by omega
    simp only [Function.update_self]
    exact hok.setSession hobject fun _ _ _ => hf _ _ _ hready hsession
  · simp only [Function.update_self]
    exact hgeneration

theorem runPc_cases (session : Session) (h : Handle) (this i : Nat) :
    session.runPc h this i = .run h this i ∨ ∃ ret, session.runPc h this i = .release h ret := by
  unfold Session.runPc
  split
  · exact .inl rfl
  · exact .inr ⟨_, rfl⟩

theorem runPc_at (session : Session) (h : Handle) (this i : Nat) :
    (session.runPc h this i).owner = none ∧ (session.runPc h this i).caller = some h ∧
      ∀ states memory, (memory h).generation = this → PcOk states memory (session.runPc h this i) := by
  rcases runPc_cases session h this i with heq | ⟨ret, heq⟩
  · rw [heq]
    exact ⟨rfl, rfl, fun _ _ hgeneration => hgeneration⟩
  · rw [heq]
    exact ⟨rfl, rfl, fun _ _ _ => trivial⟩

theorem CellOk.count (ok : CellOk state cell owners calls) {st : ManagerApiState}
    (hst : state = some st) (hdestroying : st.destroying = false) {calls' : Nat}
    {activeCalls : UInt32} (hcount : activeCalls = UInt32.ofNat calls') :
    CellOk (some { st with activeCalls }) cell owners calls' := by
  obtain ⟨object, hobject, hregistered, hready⟩ := ok.registered st hst
  have howned := ok.owned
  rw [hst] at howned
  refine ⟨howned, nofun, fun st' hst' => ?_, fun st' hst' htrue => ?_, fun st' hst' => ?_⟩
  · cases hst'
    exact hcount
  · cases hst'
    rw [hdestroying] at htrue
    cases htrue
  · cases hst'
    exact ⟨object, hobject, hregistered, hready⟩

theorem stepData_inv (inv : ApiInv s) (hfew : FewInside s) (ht : s.threads[t]? = some pc)
    (hstep : s.stepData pc response = some (s', pc')) :
    ApiInv { s' with threads := s'.threads.set t pc' } := by
  have hpcOk := inv.threads pc (List.mem_of_getElem? ht)
  unfold Api.stepData at hstep
  split at hstep
  · next h call =>
    unfold Api.apiCallGuard at hstep
    by_cases hnull : h = 0
    · rw [if_pos hnull] at hstep
      cases hstep
      exact inv.stay ht rfl rfl rfl rfl trivial
    · rw [if_neg hnull] at hstep
      cases hst : s.states h with
      | none =>
        rw [hst] at hstep
        cases hstep
        exact inv.stay ht rfl rfl rfl rfl trivial
      | some st =>
        rw [hst] at hstep
        cases hdestroying : st.destroying with
        | true =>
          simp only [hdestroying, if_true, Option.some.injEq, Prod.mk.injEq] at hstep
          obtain ⟨rfl, rfl⟩ := hstep
          exact inv.stay ht rfl rfl rfl rfl trivial
        | false =>
          simp only [hdestroying, Bool.false_eq_true, if_false, Option.some.injEq,
            Prod.mk.injEq] at hstep
          obtain ⟨rfl, rfl⟩ := hstep
          have hok := inv.cells h
          have hfree : total (ApiPc.owns h) s.threads = 0 := by
            have howned := hok.owned
            rw [hst, idleAt, hdestroying, Cell.alive] at howned
            simp only [Bool.false_eq_true, if_false] at howned
            split at howned <;> omega
          rw [hfree] at hok
          refine inv.shared ht rfl rfl (fun k _ => nofun) (caller_at rfl) hfree
            (fun k hk => ⟨update_same _ h _ k hk, rfl⟩) rfl (fun calls hcalls => ?_) trivial inv.faults
          simp only [Function.update_self]
          rw [ApiPc.calls_eq_one (show (ApiPc.enter h call).caller = some h from rfl)] at hcalls
          obtain rfl : calls = s.inside h + 1 := hcalls
          have hcounted : st.activeCalls + 1 = UInt32.ofNat (s.inside h + 1) := by
            rw [hok.counted st hst, UInt32.ofNat_add]
            rfl
          simpa only [hdestroying] using hok.count hst hdestroying hcounted
  · next h request =>
    obtain ⟨st, object, -, -, -, -, -, hobject, -, -⟩ := inv.entered ht rfl
    obtain ⟨session, hf, -⟩ := onObject_live hobject rfl hstep
    obtain ⟨session', -, heq⟩ := Option.map_eq_some_iff.mp hf
    cases heq
    obtain ⟨howner', hcaller', hpc'⟩ :=
      runPc_at session h (s.memory h).generation object.session.manager.calls.length
    refine inv.dataMethod ht rfl rfl howner' hcaller' rfl ?_ (fun memory => hpc' s.states memory) hstep
    intro before after pc₁ hready hf
    obtain ⟨after, hcall, heq⟩ := Option.map_eq_some_iff.mp hf
    cases heq
    exact call_ready hcall hready
  · next h keyId =>
    obtain ⟨st, object, -, -, -, -, -, hobject, -, -⟩ := inv.entered ht rfl
    obtain ⟨session, hf, -⟩ := onObject_live hobject rfl hstep
    cases hf
    refine inv.dataMethod ht rfl rfl rfl rfl rfl ?_ (fun memory _ => trivial) hstep
    intro before after pc₁ hready hf
    cases hf
    exact hready
  · next h this i outcome =>
    obtain ⟨st, object, -, -, -, -, -, hobject, -, -⟩ := inv.entered ht rfl
    obtain ⟨session, hf, -⟩ := onObject_live hobject hpcOk hstep
    obtain ⟨session', -, heq⟩ := Option.map_eq_some_iff.mp hf
    cases heq
    obtain ⟨howner', hcaller', hpc'⟩ := runPc_at session h this i
    refine inv.dataMethod ht rfl rfl howner' hcaller' hpcOk ?_ (fun memory => hpc' s.states memory) hstep
    intro before after pc₁ hready hf
    obtain ⟨after, hcall, heq⟩ := Option.map_eq_some_iff.mp hf
    cases heq
    exact call_ready hcall hready
  · next h ret =>
    cases hstep
    obtain ⟨st, object, hst, hdestroying, hcounted, hpos, hfree, -⟩ := inv.entered ht rfl
    have hlt := hfew h
    have hactive : 0 < st.activeCalls := by
      rw [hcounted, UInt32.lt_iff_toNat_lt, UInt32.toNat_ofNat']
      simp only [UInt32.toNat_zero]
      omega
    have hend : s.apiCallGuardEnd h = { s with
        states := Function.update s.states h
          (some { st with activeCalls := st.activeCalls - 1 }) } := by
      simp only [Api.apiCallGuardEnd, hst, if_pos hactive]
    rw [hend]
    have hok := inv.cells h
    rw [hfree] at hok
    refine inv.shared ht rfl rfl (caller_at rfl) (fun k _ => nofun) hfree
      (fun k hk => ⟨update_same _ h _ k hk, rfl⟩) rfl (fun calls hcalls => ?_) trivial inv.faults
    rw [ApiPc.calls_eq_one (show (ApiPc.release h ret).caller = some h from rfl)] at hcalls
    simp only [Function.update_self]
    have hinside : s.inside h = calls + 1 := hcalls.symm
    have hcounted' : st.activeCalls - 1 = UInt32.ofNat calls := by
      rw [hcounted, hinside, UInt32.ofNat_add]
      simp
    exact hok.count hst hdestroying hcounted'
  · cases hstep

theorem ApiInv.destroyed (inv : ApiInv s) (hstate : Destroying (s.states h)) :
    ∃ st object, s.states h = some st ∧ st.destroying = true ∧
      (s.memory h).object = some object ∧ object.registered = true := by
  obtain ⟨st, hst, hdestroying⟩ := hstate
  obtain ⟨object, hobject, hregistered, -⟩ := (inv.cells h).registered st hst
  exact ⟨st, object, hst, hdestroying, hobject, hregistered⟩

theorem ApiInv.destroyMethod (inv : ApiInv s) (ht : s.threads[t]? = some pc)
    (howner : pc.owner = some h) (hcaller : pc.caller = none) (hstate : Destroying (s.states h))
    (hgeneration : (s.memory h).generation = this) {p : Session → Prop} (hhas : (s.memory h).Has p)
    (hf : ∀ session session' pc₁, p session → f session = some (session', pc₁) →
      pc₁.owner = some h ∧ pc₁.caller = none ∧ ∀ memory, (memory h).generation = this →
        ((memory h).Has fun s => s = session') → PcOk s.states memory pc₁)
    (hstep : s.onObject h this m dead f = some (s', pc')) :
    ApiInv { s' with threads := s'.threads.set t pc' } := by
  obtain ⟨st, object, hst, hdestroying, hobject, hregistered⟩ := inv.destroyed hstate
  obtain ⟨o, ho, hp⟩ := hhas
  obtain rfl : object = o := Option.some.inj (hobject.symm.trans ho)
  obtain ⟨session, hsession, rfl⟩ := onObject_live hobject hgeneration hstep
  obtain ⟨howner', hcaller', hpc'⟩ := hf _ _ _ hp hsession
  refine inv.ownerMethod ht howner hcaller howner' hcaller' hobject (fun st' hst' => ?_)
    (hpc' _ ?_ ?_) (faults_registered inv hregistered)
  · obtain rfl : st = st' := Option.some.inj (hst.symm.trans hst')
    exact hdestroying
  · rw [Function.update_self]
    exact hgeneration
  · rw [Function.update_self]
    exact ⟨_, rfl, rfl⟩

theorem goDestroy_at {session session' : Session} {i : Nat} {left : SwapFile → Bool}
    {states : Handle → Option ManagerApiState} (hstate : Destroying (states h))
    (hinit : session.initialized = true) (hflight : ∃ d, session.destroys[i]? = some d ∧ d.inFlight = true)
    (hstep : session.step (.goDestroy i left) = some session') :
    (session'.destroyPc h this i).owner = some h ∧ (session'.destroyPc h this i).caller = none ∧
      ∀ memory, (memory h).generation = this → ((memory h).Has fun s => s = session') →
        PcOk states memory (session'.destroyPc h this i) := by
  obtain ⟨d, hd, hflight⟩ := hflight
  have hlt : i < session.destroys.length := (List.getElem?_eq_some_iff.mp hd).1
  simp only [Session.step, hd] at hstep
  cases d with
  | wait =>
    cases hstep
    have hpc : ∀ d', d'.inFlight = true → Session.destroyPc
        { session with destroys := session.destroys.set i d' } h this i = .destroying h this i := by
      intro d' hflight'
      simp only [Session.destroyPc, List.getElem?_set_self hlt]
      cases d' <;> first | rfl | cases hflight'
    rw [hpc _ (by split <;> rfl)]
    refine ⟨rfl, rfl, fun memory hgeneration ⟨object, hobject, hsession⟩ => ?_⟩
    refine ⟨hstate, hgeneration, object, hobject, ?_, ?_⟩
    · rw [hsession]
      exact hinit
    · rw [hsession]
      exact ⟨_, List.getElem?_set_self hlt, by split <;> rfl⟩
  | cleanup =>
    cases hstep
    simp only [Session.destroyPc, List.getElem?_set_self hlt]
    exact ⟨rfl, rfl, fun _ _ _ => hstate⟩
  | reset =>
    cases hstep
    simp only [Session.destroyPc, List.getElem?_set_self hlt]
    refine ⟨rfl, rfl, fun memory _ ⟨object, hobject, hsession⟩ => ⟨hstate, object, hobject, ?_⟩⟩
    rw [hsession]
    exact ⟨hinit, rfl⟩
  | done result => cases hflight

theorem stepDestroy_inv (inv : ApiInv s) (hfew : FewInside s) (ht : s.threads[t]? = some pc)
    (hstep : s.stepDestroy pc response = some (s', pc')) :
    ApiInv { s' with threads := s'.threads.set t pc' } := by
  have hpcOk := inv.threads pc (List.mem_of_getElem? ht)
  unfold Api.stepDestroy at hstep
  split at hstep
  · next h =>
    unfold Api.beginDestroy at hstep
    cases hst : s.states h with
    | none =>
      rw [hst] at hstep
      cases hstep
      exact inv.stay ht rfl rfl rfl rfl trivial
    | some st =>
      rw [hst] at hstep
      by_cases hbusy : st.destroying ∨ 0 < st.activeCalls
      · simp only [if_pos hbusy, Option.some.injEq, Prod.mk.injEq] at hstep
        obtain ⟨rfl, rfl⟩ := hstep
        exact inv.stay ht rfl rfl rfl rfl trivial
      · simp only [if_neg hbusy, Option.some.injEq, Prod.mk.injEq] at hstep
        obtain ⟨rfl, rfl⟩ := hstep
        have hok := inv.cells h
        obtain ⟨hdestroying, hactive⟩ := not_or.mp hbusy
        have hdestroying : st.destroying = false := by simpa using hdestroying
        obtain ⟨object, hobject, hregistered, hready⟩ := hok.registered st hst
        -- a count of zero is no call, as long as it has not wrapped around
        have hinside : s.inside h = 0 := by
          have hlt := hfew h
          have hcounted := congrArg UInt32.toNat (hok.counted st hst)
          rw [UInt32.toNat_ofNat', Nat.mod_eq_of_lt hlt] at hcounted
          rw [UInt32.lt_iff_toNat_lt, UInt32.toNat_zero] at hactive
          omega
        have howned := hok.owned
        rw [hst, idleAt, hdestroying, Cell.alive_of_object hobject] at howned
        have hfree : total (ApiPc.owns h) s.threads = 0 := Nat.succ.inj howned
        refine inv.exclusive ht rfl rfl (fun k _ => nofun) (owner_at rfl) ⟨hfree, hinside⟩
          (fun k hk => ⟨update_same _ h _ k hk, rfl⟩) ?_ ?_ inv.faults
        · rw [ApiPc.owns_eq_one (show (ApiPc.destroy h).owner = some h from rfl)]
          simp only [Function.update_self]
          refine ⟨(Cell.alive_of_object hobject).symm, nofun, fun st' hst' => ?_, fun _ _ _ => rfl,
            fun st' hst' => ?_⟩
          · cases hst'
            rw [hok.counted st hst, hinside]
          · cases hst'
            exact ⟨object, hobject, hregistered, nofun⟩
        · exact ⟨⟨_, Function.update_self .., rfl⟩, object, hobject, (hready hdestroying).1⟩
  · next h =>
    obtain ⟨hstate, hhas⟩ := hpcOk
    refine inv.destroyMethod ht rfl rfl hstate rfl hhas ?_ hstep
    intro session session' pc₁ hinit hf
    obtain ⟨after, hdestroy, heq⟩ := Option.map_eq_some_iff.mp hf
    cases heq
    cases hdestroy
    refine ⟨rfl, rfl, fun memory hgeneration ⟨object, hobject, hsession⟩ => ?_⟩
    refine ⟨hstate, hgeneration, object, hobject, ?_, ?_⟩
    · rw [hsession]
      exact hinit
    · rw [hsession]
      exact ⟨.wait, by simp, rfl⟩
  · next h this i left =>
    obtain ⟨hstate, hgeneration, hhas⟩ := hpcOk
    refine inv.destroyMethod ht rfl rfl hstate hgeneration hhas ?_ hstep
    rintro session session' pc₁ ⟨hinit, hflight⟩ hf
    obtain ⟨after, hgo, heq⟩ := Option.map_eq_some_iff.mp hf
    cases heq
    exact goDestroy_at hstate hinit hflight hgo
  · next h =>
    cases hstep
    obtain ⟨st, object, hst, hdestroying, hobject, hregistered⟩ := inv.destroyed hpcOk
    refine inv.exclusive ht rfl rfl (owner_at rfl) (owner_at rfl) (inv.alone ht rfl)
      (fun k hk => ⟨update_same _ h _ k hk, rfl⟩) ?_ ?_ inv.faults
    · rw [ApiPc.owns_eq_one (show (ApiPc.delete h).owner = some h from rfl)]
      simp only [Api.unregisterManager, Function.update_self]
      exact ⟨(Cell.alive_of_object hobject).symm, fun _ => rfl, nofun, nofun, nofun⟩
    · exact Function.update_self ..
  · next h =>
    cases hstep
    have hdelete := inv.delete ht rfl rfl hpcOk (.ok ())
    rwa [show (s.deleteManager h).threads = s.threads by unfold Api.deleteManager; split <;> rfl]
  · next h ret =>
    cases hstep
    obtain ⟨hstate, o, ho, hready⟩ := hpcOk
    obtain ⟨st, object, hst, hdestroying, hobject, hregistered⟩ := inv.destroyed hstate
    obtain rfl : object = o := Option.some.inj (hobject.symm.trans ho)
    have halone := inv.alone ht rfl
    have hrestore : s.restoreDestroyable h = { s with
        states := Function.update s.states h (some { st with destroying := false }) } := by
      simp only [Api.restoreDestroyable, hst]
    rw [hrestore]
    refine inv.exclusive ht rfl rfl (owner_at rfl) (fun k _ => nofun) halone
      (fun k hk => ⟨update_same _ h _ k hk, rfl⟩) ?_ trivial inv.faults
    simp only [Function.update_self]
    refine ⟨(Cell.alive_of_object hobject).symm, nofun, fun st' hst' => ?_,
      fun st' hst' htrue => ?_, fun st' hst' => ?_⟩
    · cases hst'
      rw [(inv.cells h).counted st hst, halone.2]
    · cases hst'
      cases htrue
    · cases hst'
      exact ⟨object, hobject, hregistered, fun _ => hready⟩
  · cases hstep

theorem step_apiInv (s : Api) (a : ApiAction) (s' : Api) (inv : ApiInv s) (hfew : FewInside s)
    (hstep : s.step a = some s') : ApiInv s' := by
  cases a with
  | call request =>
    cases hstep
    have hat : request.begin.owner = none ∧ request.begin.caller = none ∧
        PcOk s.states s.memory request.begin := by
      unfold ApiRequest.begin
      split <;> (try split) <;> exact ⟨rfl, rfl, trivial⟩
    obtain ⟨howner, hcaller, hpc⟩ := hat
    refine ⟨fun h => ?_, forall_mem_append_singleton inv.threads hpc, inv.faults⟩
    have hok := inv.cells h
    rw [Api.inside] at hok
    have howns : request.begin.owns h = 0 := by rw [ApiPc.owns, howner, if_neg nofun]
    have hcalls : request.begin.calls h = 0 := by rw [ApiPc.calls, hcaller, if_neg nofun]
    simp only [Api.inside, total_append, total_cons, total_nil, howns, hcalls, Nat.add_zero]
    exact hok
  | go t response =>
    simp only [Api.step] at hstep
    cases ht : s.threads[t]? with
    | none =>
      rw [ht] at hstep
      cases hstep
    | some pc =>
      rw [ht] at hstep
      obtain ⟨⟨s₁, pc'⟩, hpc, rfl⟩ := Option.map_eq_some_iff.mp hstep
      unfold Api.stepPc at hpc
      split at hpc
      all_goals first
        | exact stepCreate_inv inv ht hpc
        | exact stepData_inv inv hfew ht hpc
        | exact stepDestroy_inv inv hfew ht hpc
        | cases hpc

end Steps

/-! ## Every run -/

/-- The handle that a `SwapfsNativeDestroyManager` is to destroy. -/
def ApiPc.destroys : ApiPc → Option Handle
  | .beginDestroy h => some h
  | .destroy h => some h
  | .destroying h _ _ => some h
  | .unregister h => some h
  | .delete h => some h
  | .restore h _ => some h
  | _ => none

/-- No method ran on an object that was gone, none but `Init` on one that was not registered, and
none was deleted twice. -/
def Api.NoFault (s : Api) : Prop := ∀ fault ∈ s.faults, fault = .unregistered .init

/-- A step with which the destroying of a handle fails leaves the handle usable. If it was not
registered, or another call is destroying it, it leaves it as it was. -/
def Api.FailsUsable (s : Api) : Prop :=
  ∀ t pc h response s' err, s.threads[t]? = some pc → pc.destroys = some h →
    s.step (.go t response) = some s' → s'.threads[t]? = some (.done (.error err)) →
    s'.Usable h ∨ s'.states = s.states ∧ s'.memory = s.memory ∧
      ∀ st, s.states h = some st → st.destroying = true

variable {s s' : Api}

theorem onObject_threads {h : Handle} {this : Nat} {m : Method} {dead pc' : ApiPc}
    {f : Session → Option (Session × ApiPc)} (hstep : s.onObject h this m dead f = some (s', pc')) :
    pc' = dead ∨ ∃ session session', f session = some (session', pc') := by
  unfold Api.onObject at hstep
  split at hstep
  · cases hstep
    exact .inl rfl
  · next object _ =>
    split at hstep
    · cases hstep
      exact .inl rfl
    · obtain ⟨⟨session, pc₁⟩, hf, heq⟩ := Option.map_eq_some_iff.mp hstep
      cases heq
      exact .inr ⟨_, _, hf⟩

variable {response : ApiResponse}

theorem stepDestroy_fails {pc : ApiPc} {err : SwapfsErr}
    (hstep : s.stepDestroy pc response = some (s', .done (.error err))) :
    (∃ h, pc = .beginDestroy h ∧ s' = s ∧
      ∀ st, s.states h = some st → st.destroying = true ∨ 0 < st.activeCalls) ∨
    ∃ h, pc = .restore h err ∧ s' = s.restoreDestroyable h := by
  unfold Api.stepDestroy at hstep
  split at hstep
  · next h =>
    left
    unfold Api.beginDestroy at hstep
    cases hst : s.states h with
    | none =>
      rw [hst] at hstep
      cases hstep
      exact ⟨h, rfl, rfl, fun st hst' => by rw [hst] at hst'; cases hst'⟩
    | some st =>
      rw [hst] at hstep
      by_cases hbusy : st.destroying ∨ 0 < st.activeCalls
      · simp only [if_pos hbusy, Option.some.injEq, Prod.mk.injEq] at hstep
        refine ⟨h, rfl, hstep.1.symm, fun st' hst' => ?_⟩
        obtain rfl : st = st' := Option.some.inj (hst.symm.trans hst')
        exact hbusy
      · simp [if_neg hbusy] at hstep
  · rcases onObject_threads hstep with heq | ⟨session, session', hf⟩
    · cases heq
    · obtain ⟨after, -, heq⟩ := Option.map_eq_some_iff.mp hf
      cases heq
  · next h this i left =>
    rcases onObject_threads hstep with heq | ⟨session, session', hf⟩
    · cases heq
    · obtain ⟨after, -, heq⟩ := Option.map_eq_some_iff.mp hf
      have hpc := congrArg Prod.snd heq
      simp only [Session.destroyPc] at hpc
      split at hpc <;> cases hpc
  · cases hstep
  · cases hstep
  · next h ret =>
    cases hstep
    exact .inr ⟨h, rfl, rfl⟩
  · cases hstep

theorem ApiInv.failsUsable (inv : ApiInv s) : s.FailsUsable := by
  intro t pc h response s' err ht hdestroys hstep hdone
  simp only [Api.step, ht] at hstep
  obtain ⟨⟨s₁, pc'⟩, hpc, rfl⟩ := Option.map_eq_some_iff.mp hstep
  obtain rfl : pc' = .done (.error err) := by
    obtain ⟨hlt, -⟩ := List.getElem?_eq_some_iff.mp hdone
    rw [List.length_set] at hlt
    rw [List.getElem?_set_self hlt] at hdone
    exact Option.some.inj hdone
  have hpc : s.stepDestroy pc response = some (s₁, .done (.error err)) := by
    cases pc <;> first | exact hpc | cases hdestroys
  rcases stepDestroy_fails hpc with ⟨h', rfl, rfl, hbusy⟩ | ⟨h', rfl, rfl⟩
  · cases hdestroys
    by_cases hdestroying : ∀ st, s₁.states h = some st → st.destroying = true
    · exact .inr ⟨rfl, rfl, hdestroying⟩
    · push Not at hdestroying
      obtain ⟨st, hst, hfalse⟩ := hdestroying
      have hfalse : st.destroying = false := by simpa using hfalse
      obtain ⟨object, hobject, hregistered, hready⟩ := (inv.cells h).registered st hst
      exact .inl ⟨st, object, hst, hfalse, hobject, hregistered, hready hfalse⟩
  · cases hdestroys
    obtain ⟨hstate, o, ho, hready⟩ := inv.threads _ (List.mem_of_getElem? ht)
    obtain ⟨st, object, hst, -, hobject, hregistered⟩ := inv.destroyed hstate
    obtain rfl : object = o := Option.some.inj (hobject.symm.trans ho)
    have hrestore : s.restoreDestroyable h = { s with
        states := Function.update s.states h (some { st with destroying := false }) } := by
      simp only [Api.restoreDestroyable, hst]
    rw [hrestore]
    exact .inl ⟨_, object, Function.update_self .., rfl, hobject, hregistered, hready⟩

/-- Any number of threads create, destroy and use managers through handles of any kind. -/
theorem noFault_of_run {as : List ApiAction} {s : Api} (hrun : run Api.step {} as = some s)
    (hfew : StepsOk Api.step (fun s _ => FewInside s) {} as) : s.NoFault ∧ s.FailsUsable := by
  have inv := run_invariant step_apiInv init_apiInv hfew hrun
  exact ⟨inv.faults, inv.failsUsable⟩

theorem onObject_keeps {h : Handle} {this : Nat} {m : Method} {dead pc' : ApiPc}
    {f : Session → Option (Session × ApiPc)} (hstep : s.onObject h this m dead f = some (s', pc')) :
    s'.threads = s.threads := by
  unfold Api.onObject at hstep
  split at hstep
  · cases hstep
    rfl
  · split at hstep
    · cases hstep
      rfl
    · obtain ⟨r, -, heq⟩ := Option.map_eq_some_iff.mp hstep
      cases heq
      rfl

@[simp] theorem deleteManager_threads (s : Api) (h : Handle) :
    (s.deleteManager h).threads = s.threads := by
  unfold Api.deleteManager
  split <;> rfl

@[simp] theorem apiCallGuardEnd_threads (s : Api) (h : Handle) :
    (s.apiCallGuardEnd h).threads = s.threads := by
  unfold Api.apiCallGuardEnd
  split
  · rfl
  · split <;> rfl

@[simp] theorem restoreDestroyable_threads (s : Api) (h : Handle) :
    (s.restoreDestroyable h).threads = s.threads := by
  unfold Api.restoreDestroyable
  split <;> rfl

variable {pc pc' : ApiPc}

theorem stepCreate_threads (hstep : s.stepCreate pc response = some (s', pc')) :
    s'.threads = s.threads := by
  unfold Api.stepCreate at hstep
  split at hstep
  · cases hstep
    rfl
  · obtain ⟨s₁, hallocate, heq⟩ := Option.map_eq_some_iff.mp hstep
    cases heq
    simp only [Api.allocate, Option.ite_none_right_eq_some, Option.some.injEq] at hallocate
    rw [← hallocate.2]
  · exact onObject_keeps hstep
  · exact onObject_keeps hstep
  · exact onObject_keeps hstep
  · cases hstep
    exact deleteManager_threads s _
  · cases hstep
    rfl
  · cases hstep

theorem stepData_threads (hstep : s.stepData pc response = some (s', pc')) :
    s'.threads = s.threads := by
  unfold Api.stepData at hstep
  split at hstep
  · unfold Api.apiCallGuard at hstep
    split at hstep
    · cases hstep
      rfl
    · next hguard =>
      cases hstep
      split at hguard
      · cases hguard
      · split at hguard
        · cases hguard
        · split at hguard <;> cases hguard
          rfl
  · exact onObject_keeps hstep
  · exact onObject_keeps hstep
  · exact onObject_keeps hstep
  · cases hstep
    exact apiCallGuardEnd_threads s _
  · cases hstep

theorem stepDestroy_threads (hstep : s.stepDestroy pc response = some (s', pc')) :
    s'.threads = s.threads := by
  unfold Api.stepDestroy at hstep
  split at hstep
  · unfold Api.beginDestroy at hstep
    split at hstep
    · cases hstep
      rfl
    · next hbegin =>
      cases hstep
      split at hbegin
      · cases hbegin
      · split at hbegin <;> cases hbegin
        rfl
  · exact onObject_keeps hstep
  · exact onObject_keeps hstep
  · cases hstep
    rfl
  · cases hstep
    exact deleteManager_threads s _
  · cases hstep
    exact restoreDestroyable_threads s _
  · cases hstep

theorem stepPc_threads (hstep : s.stepPc pc response = some (s', pc')) :
    s'.threads = s.threads := by
  unfold Api.stepPc at hstep
  split at hstep
  all_goals first
    | exact stepCreate_threads hstep
    | exact stepData_threads hstep
    | exact stepDestroy_threads hstep
    | cases hstep

theorem stepsOk_fewInside {as : List ApiAction} : ∀ {s : Api},
    s.threads.length + as.length < 2 ^ 32 → StepsOk Api.step (fun s _ => FewInside s) s as := by
  induction as with
  | nil => exact fun _ => .nil
  | cons a as ih =>
    intro s hlength
    rw [List.length_cons] at hlength
    refine ⟨fun h => ?_, fun s' hstep => ih ?_⟩
    · have hle : s.inside h ≤ total (fun _ => 1) s.threads :=
        total_le_total fun pc _ => by rw [ApiPc.calls]; split <;> omega
      have hlen : total (fun _ => 1) s.threads = s.threads.length := by simp [total]
      omega
    · have hle : s'.threads.length ≤ s.threads.length + 1 := by
        cases a with
        | call request =>
          cases hstep
          simp
        | go t response =>
          simp only [Api.step] at hstep
          split at hstep
          · cases hstep
          · obtain ⟨⟨s₁, pc'⟩, hpc, rfl⟩ := Option.map_eq_some_iff.mp hstep
            simp [stepPc_threads hpc]
      omega

/-! ## A destroy while a call is inside -/

theorem Api.run_go_last {threads : List ApiPc} {i : Nat} {as : List ApiAction}
    (hthreads : s.threads = threads ++ [pc]) (hi : i = threads.length)
    (hpc : s.stepPc pc response = some (s', pc')) :
    run Api.step s (.go i response :: as) =
      run Api.step { s' with threads := threads ++ [pc'] } as := by
  subst hi
  have hsame := stepPc_threads hpc
  rw [run]
  simp only [Api.step, hthreads, List.getElem?_concat_length, hpc, Option.map_some, hsame,
    Option.bind_some]
  rw [List.set_append_right _ _ (Nat.le_refl _), Nat.sub_self]
  rfl

/-- What `Init` found in the runs below. -/
def roomyInit : ApiResponse := .inited false (6 * 1024 * 1024 * 1024) 8 1000 0

/-- A manager is created at the address `1`. -/
def createSteps : List ApiAction :=
  [.call (.createManager true), .go 0 (.address (some 1)), .go 0 .ok, .go 0 roomyInit, .go 0 .ok]

/-- The manager behind its `Init`. -/
def readySession : Session :=
  { initialized := true
    manager := Session.initManager Session.new.manager false (6 * 1024 * 1024 * 1024) 8 1000 0 }

/-- The manager is registered, with so many calls counted. -/
def apiWith (activeCalls : UInt32) (threads : List ApiPc) : Api :=
  { states := Function.update (fun _ => none) 1 (some { activeCalls })
    memory := Function.update (fun _ => {}) 1
      { generation := 1, object := some { session := readySession, registered := true } }
    threads
    faults := [.unregistered .init, .unregistered .init] }

theorem run_createSteps : run Api.step {} createSteps = some (apiWith 0 [.done (.ok ())]) := by
  have hcall : run Api.step {} createSteps =
      run Api.step { ({} : Api) with threads := [] ++ [.new] } createSteps.tail := rfl
  rw [hcall]
  refine Eq.trans (Api.run_go_last rfl rfl rfl) ?_
  refine Eq.trans (Api.run_go_last rfl rfl rfl) ?_
  refine Eq.trans (Api.run_go_last rfl rfl rfl) ?_
  refine Eq.trans (Api.run_go_last rfl rfl rfl) ?_
  simp only [run, Api.registerManager, Function.update_idem]
  rfl

/-- A `RemoveAllData` that its guard let in. -/
def insideCall : ApiPc := .enter 1 (.op .removeAllData)

/-- So many calls pass their guards. -/
def enterCalls : Nat → List ApiAction
  | 0 => []
  | n + 1 => enterCalls n ++ [.call (.removeAllData 1), .go (n + 1) .ok]

theorem run_enterCalls (n : Nat) : run Api.step (apiWith 0 [.done (.ok ())]) (enterCalls n) =
    some (apiWith (UInt32.ofNat n) (.done (.ok ()) :: List.replicate n insideCall)) := by
  induction n with
  | zero => rfl
  | succ n ih =>
    rw [enterCalls, run_append, ih, Option.bind_some]
    let threads : List ApiPc := .done (.ok ()) :: List.replicate n insideCall
    have hlength : n + 1 = threads.length := by simp [threads]
    have hguard : (apiWith (UInt32.ofNat n) (threads ++ [ApiPc.guard 1 (.op .removeAllData)])).stepPc
        (.guard 1 (.op .removeAllData)) .ok =
        some (apiWith (UInt32.ofNat n + 1) (threads ++ [ApiPc.guard 1 (.op .removeAllData)]),
          insideCall) := by
      simp only [Api.stepPc, Api.stepData, Api.apiCallGuard, apiWith, insideCall,
        Function.update_self, Function.update_idem]
      rfl
    have hend : threads ++ [insideCall] = .done (.ok ()) :: List.replicate (n + 1) insideCall := by
      simp [threads, List.replicate_succ']
    refine Eq.trans (Api.run_go_last rfl hlength hguard) ?_
    rw [← hend, UInt32.ofNat_add]
    rfl

/-- A destroy comes while a data call is inside. -/
def busyDestroy : Api := apiWith 1 [.done (.ok ()), insideCall, .beginDestroy 1]

theorem noFault_busyDestroy : busyDestroy.NoFault ∧ busyDestroy.FailsUsable := by
  have hrun : run Api.step {} (createSteps ++ (enterCalls 1 ++ [ApiAction.call (.destroyManager 1)])) =
      some busyDestroy := by
    rw [run_append, run_createSteps, Option.bind_some, run_append, run_enterCalls, Option.bind_some]
    rfl
  exact noFault_of_run hrun (stepsOk_fewInside (by simp [createSteps, enterCalls]))

/-- The `i`-th call destroys the manager; then the first of the data calls goes on. -/
def destroySteps (i : Nat) : List ApiAction :=
  [.call (.destroyManager 1), .go i .ok, .go i .ok, .go i (.left fun _ => false),
    .go i (.left fun _ => false), .go i .ok, .go i .ok, .go 1 .ok]

theorem run_destroySteps {threads : List ApiPc} (hinside : threads[1]? = some insideCall) :
    ∃ s, run Api.step (apiWith 0 threads) (destroySteps threads.length) = some s ∧
      .dead .data ∈ s.faults := by
  have hlt : 1 < threads.length := (List.getElem?_eq_some_iff.mp hinside).1
  have hinside' : (threads ++ [ApiPc.done (.ok ())])[1]? = some insideCall := by
    rw [List.getElem?_append_left hlt, hinside]
  have hcall : run Api.step (apiWith 0 threads) (destroySteps threads.length) =
      run Api.step { apiWith 0 threads with threads := threads ++ [.beginDestroy 1] }
        (destroySteps threads.length).tail := rfl
  rw [hcall]
  refine Exists.intro ?left (And.intro ?ran ?dead)
  case ran =>
    refine Eq.trans (Api.run_go_last rfl rfl rfl) ?_
    refine Eq.trans (Api.run_go_last rfl rfl rfl) ?_
    refine Eq.trans (Api.run_go_last rfl rfl rfl) ?_
    refine Eq.trans (Api.run_go_last rfl rfl rfl) ?_
    refine Eq.trans (Api.run_go_last rfl rfl rfl) ?_
    refine Eq.trans (Api.run_go_last rfl rfl rfl) ?_
    simp only [run, Api.step, hinside']
    rfl
  case dead => exact .tail _ (.tail _ List.mem_cons_self)

/-- `Init` runs before the manager is registered; and `2 ^ 32` calls inside a handle are counted
as none. -/
theorem unregistered_and_dead :
    (∃ as s, run Api.step {} as = some s ∧ .unregistered .init ∈ s.faults) ∧
    ∃ as s, run Api.step {} as = some s ∧ .dead .data ∈ s.faults := by
  refine ⟨⟨createSteps, _, run_createSteps, List.mem_cons_self⟩, ?_⟩
  let threads : List ApiPc := .done (.ok ()) :: List.replicate (2 ^ 32) insideCall
  have hinside : threads[1]? = some insideCall := by
    simp only [threads, List.getElem?_cons_succ, List.getElem?_replicate]
    rfl
  obtain ⟨s, hrun, hdead⟩ := run_destroySteps hinside
  refine ⟨createSteps ++ (enterCalls (2 ^ 32) ++ destroySteps threads.length), s, ?_, hdead⟩
  rw [run_append, run_createSteps, Option.bind_some, run_append, run_enterCalls, Option.bind_some,
    ← hrun]
  rfl

end FileApi.Swapfs
