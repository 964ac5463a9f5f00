import FileApi.HyperAio.Lifecycle

/-!
# Which batches a HyperAio object accepts

What the calls on an object say about its flags, in every state that the object, the kernel and
the harvest thread can reach: `initialized_` is whether the object lives, and `destroyed_` is
whether one of its lives has ended. Nothing resets the second one.
-/

namespace FileApi.HyperAio

open Machine

/-- The object lives: a `CtxInit` has succeeded, and no `DestroyCtx` has come since. -/
def live : List ApiCall → Bool
  | [] => false
  | .ctxInit callBack queueInit :: before => live before || (callBack && decide (0 ≤ queueInit))
  | .start _ _ :: before => live before
  | .destroyCtx :: _ => false

/-- A life of the object has ended. -/
def ended : List ApiCall → Bool
  | [] => false
  | .destroyCtx :: before => live before || ended before
  | .ctxInit _ _ :: before => ended before
  | .start _ _ :: before => ended before

/-- By what the calls have returned: a `CtxInit` returned `EOK`, and no `DestroyCtx` since. -/
def opened : List (ApiCall × Int) → Bool
  | [] => false
  | (.ctxInit _ _, ret) :: before => ret == eok || opened before
  | (.start _ _, _) :: before => opened before
  | (.destroyCtx, _) :: _ => false

/-- Between a `CtxInit` that returned `EOK` and the next `DestroyCtx` every valid batch was
accepted, and elsewhere none. -/
def LifecycleOk (calls : List (ApiCall × Int)) : Prop :=
  ∀ kind reqs ret before, (.start kind (some reqs), ret) :: before <:+ calls →
    validateReqNum reqs.length = true → (ret = eok ↔ opened before = true)

/-- No valid batch was given to an object in a second life. -/
def OneLife (calls : List ApiCall) : Prop :=
  ∀ kind reqs before, .start kind (some reqs) :: before <:+ calls →
    validateReqNum reqs.length = true → live before = true → ended before = false

/-- What a `start` of a valid batch returned. -/
def Returned (calls : List (ApiCall × Int)) : Prop :=
  ∀ kind reqs ret before, (.start kind (some reqs), ret) :: before <:+ calls →
    validateReqNum reqs.length = true →
      (ret = eok ↔ live (before.map Prod.fst) = true ∧ ended (before.map Prod.fst) = false)

/-- A `CtxInit` returned `EOK` where its object lived afterwards. -/
def Opens (calls : List (ApiCall × Int)) : Prop :=
  ∀ before, before <:+ calls → opened before = live (before.map Prod.fst)

/-- The flags of an object follow from the calls. -/
structure ObjectInv (o : Object) : Prop where
  impl : o.initialized = true → o.impl = true
  initialized : o.initialized = (live (o.calls.map Prod.fst))
  destroyed : o.destroyed = (o.destroying || ended (o.calls.map Prod.fst))
  destroying : o.destroying = true → o.initialized = true
  returned : Returned o.calls
  opens : Opens o.calls

section Calls

variable {calls : List (ApiCall × Int)} {call : ApiCall} {ret : Int}

theorem Returned.nil : Returned [] := by
  intro kind reqs ret before hsuffix
  exact absurd (List.eq_nil_of_suffix_nil hsuffix) (List.cons_ne_nil _ _)

theorem Opens.nil : Opens [] := by
  intro before hsuffix
  rw [List.eq_nil_of_suffix_nil hsuffix]
  rfl

theorem Returned.cons (h : Returned calls)
    (hcall : ∀ kind reqs, call = .start kind (some reqs) → validateReqNum reqs.length = true →
      (ret = eok ↔ live (calls.map Prod.fst) = true ∧ ended (calls.map Prod.fst) = false)) :
    Returned ((call, ret) :: calls) := by
  intro kind reqs ret' before hsuffix hvalid
  rcases List.suffix_cons_iff.mp hsuffix with heq | hsuffix
  · cases heq
    exact hcall kind reqs rfl hvalid
  · exact h kind reqs ret' before hsuffix hvalid

theorem Opens.cons (h : Opens calls)
    (hcall : opened ((call, ret) :: calls) = live (call :: calls.map Prod.fst)) :
    Opens ((call, ret) :: calls) := by
  intro before hsuffix
  rcases List.suffix_cons_iff.mp hsuffix with heq | hsuffix
  · rw [heq]
    exact hcall
  · exact h before hsuffix

theorem Opens.self (h : Opens calls) : opened calls = live (calls.map Prod.fst) :=
  h calls List.suffix_rfl

theorem lifecycleOk_iff (hreturned : Returned calls) (hopens : Opens calls) :
    LifecycleOk calls ↔ OneLife (calls.map Prod.fst) := by
  constructor
  · intro hok kind reqs before hsuffix hvalid hlive
    obtain ⟨before', hsuffix', heq⟩ : ∃ before', before' <:+ calls ∧
        before'.map Prod.fst = .start kind (some reqs) :: before := by
      obtain ⟨front, hfront⟩ := hsuffix
      obtain ⟨front', back, rfl, -, hback⟩ := List.map_eq_append_iff.mp hfront.symm
      exact ⟨back, List.suffix_append front' back, hback⟩
    obtain ⟨⟨call, ret⟩, rest, rfl, rfl, rfl⟩ := List.map_eq_cons_iff.mp heq
    have hrest : rest <:+ calls := (List.suffix_cons _ _).trans hsuffix'
    have hret : ret = eok := by
      rw [hok kind reqs ret rest hsuffix' hvalid, hopens rest hrest]
      exact hlive
    exact ((hreturned kind reqs ret rest hsuffix' hvalid).mp hret).2
  · intro hone kind reqs ret before hsuffix hvalid
    have hmap : ApiCall.start kind (some reqs) :: before.map Prod.fst <:+ calls.map Prod.fst :=
      hsuffix.map Prod.fst
    rw [hreturned kind reqs ret before hsuffix hvalid,
      hopens before ((List.suffix_cons _ _).trans hsuffix)]
    exact ⟨fun h => h.1, fun h => ⟨h, hone kind reqs _ hmap hvalid h⟩⟩

end Calls

/-! ## The flags -/

variable {o p : Object}

theorem Object.checkParameter_eq (hinv : ObjectInv o) (hidle : o.destroying = false) (n : Nat) :
    o.checkParameter n =
      if live (o.calls.map Prod.fst) && !ended (o.calls.map Prod.fst) && validateReqNum n then eok
      else invalid := by
  have hdestroyed := hinv.destroyed
  rw [hidle, Bool.false_or] at hdestroyed
  unfold Object.checkParameter
  rw [hdestroyed, ← hinv.initialized]
  cases himpl : o.impl with
  | false =>
    have hnot : o.initialized = false := by
      cases h : o.initialized with
      | false => rfl
      | true =>
        rw [hinv.impl h] at himpl
        cases himpl
    simp [hnot]
  | true =>
    cases o.initialized <;> cases ended (o.calls.map Prod.fst) <;> cases validateReqNum n <;> simp

theorem ctxInit_inv (hinv : ObjectInv o) (hidle : o.idle = true) (callBack : Bool)
    (queueInit : Int) :
    ObjectInv ((o.ctxInit callBack queueInit).1.returns (.ctxInit callBack queueInit)
      (o.ctxInit callBack queueInit).2) := by
  have hnot : o.destroying = false := by simpa [Object.idle] using (Bool.and_eq_true_iff.mp hidle).1
  have hlive := hinv.initialized
  have hopens := hinv.opens.self
  have hstart : ∀ ret : Int, Returned ((ApiCall.ctxInit callBack queueInit, ret) :: o.calls) :=
    fun ret => hinv.returned.cons nofun
  unfold Object.ctxInit
  split
  · next hinit =>
    refine ⟨hinv.impl, ?_, hinv.destroyed, hinv.destroying, hstart eok, hinv.opens.cons ?_⟩
    · simp [Object.returns, live, ← hlive, hinit]
    · simp [opened, live, ← hlive, hinit]
  next hinit =>
  rw [Bool.not_eq_true] at hinit
  split
  · next hnull =>
    have hnull' : callBack = false := by simpa using hnull
    refine ⟨hinv.impl, ?_, hinv.destroyed, hinv.destroying, hstart invalid, hinv.opens.cons ?_⟩
    · simp [Object.returns, live, ← hlive, hinit, hnull']
    · simp [opened, live, hopens, hnull', invalid, eok]
  next hcallBack =>
  have hcallBack' : callBack = true := by simpa using hcallBack
  dsimp only
  split
  · next hfails =>
    refine ⟨fun _ => rfl, ?_, hinv.destroyed, hinv.destroying, hstart queueInit,
      hinv.opens.cons ?_⟩
    · simp [Object.returns, live, ← hlive, hinit, hfails]
    · have hne : (queueInit == eok) = false := beq_false_of_ne (by unfold eok; omega)
      simp [opened, live, hopens, Int.not_le.mpr hfails, hne]
  · next hgood =>
    refine ⟨fun _ => rfl, ?_, hinv.destroyed, fun h => ?_, hstart eok, hinv.opens.cons ?_⟩
    · simp [Object.returns, live, hcallBack', Int.not_lt.mp hgood]
    · rfl
    · simp [opened, live, hcallBack', Int.not_lt.mp hgood]

theorem start_inv (hinv : ObjectInv o) (hidle : o.idle = true) {kind : ReqKind}
    {reqs : Option (List UInt64)} {ret : Int} (h : o.start kind reqs = some (p, ret)) :
    ObjectInv (p.returns (.start kind reqs) ret) := by
  have hnot : o.destroying = false := by simpa [Object.idle] using (Bool.and_eq_true_iff.mp hidle).1
  have hcheck := o.checkParameter_eq hinv hnot
  have hopens : Opens ((ApiCall.start kind reqs, ret) :: o.calls) := hinv.opens.cons hinv.opens.self
  cases reqs with
  | none =>
    cases h
    exact ⟨hinv.impl, hinv.initialized, hinv.destroyed, hinv.destroying,
      hinv.returned.cons nofun, hopens⟩
  | some reqs =>
    simp only [Object.start] at h
    split at h
    · next hrefused =>
      cases h
      refine ⟨hinv.impl, hinv.initialized, hinv.destroyed, hinv.destroying,
        hinv.returned.cons ?_, hopens⟩
      rintro kind' reqs' ⟨⟩ hvalid
      rw [hcheck, hvalid, Bool.and_true] at hrefused ⊢
      cases hlive : live (o.calls.map Prod.fst) <;> cases hended : ended (o.calls.map Prod.fst) <;>
        simp_all [eok, invalid]
    · next haccepted =>
      obtain ⟨context, -, heq⟩ := Option.map_eq_some_iff.mp h
      cases heq
      refine ⟨hinv.impl, hinv.initialized, hinv.destroyed, hinv.destroying,
        hinv.returned.cons ?_, hopens⟩
      rintro kind' reqs' ⟨⟩ hvalid
      rw [hcheck, hvalid, Bool.and_true] at haccepted
      cases hlive : live (o.calls.map Prod.fst) <;> cases hended : ended (o.calls.map Prod.fst) <;>
        simp_all [invalid]

theorem beginDestroy_inv (hinv : ObjectInv o) (hidle : o.idle = true) :
    ObjectInv o.beginDestroy := by
  have hnot : o.destroying = false := by simpa [Object.idle] using (Bool.and_eq_true_iff.mp hidle).1
  have hlive := hinv.initialized
  have hdestroyed := hinv.destroyed
  unfold Object.beginDestroy
  split
  · next hinit =>
    have hinit' : o.initialized = false := by simpa using hinit
    refine ⟨hinv.impl, hinit', ?_, hinv.destroying, hinv.returned.cons nofun,
      hinv.opens.cons rfl⟩
    simp [Object.returns, ended, ← hlive, hinit', hdestroyed]
  · next hinit =>
    have hinit' : o.initialized = true := by simpa using hinit
    exact ⟨hinv.impl, hlive, rfl, fun _ => hinit', hinv.returned, hinv.opens⟩

theorem endDestroy_inv (hinv : ObjectInv o) (hdestroying : o.destroying = true) :
    ObjectInv o.endDestroy := by
  have hlive := hinv.initialized
  rw [hinv.destroying hdestroying] at hlive
  refine ⟨nofun, rfl, ?_, nofun, hinv.returned.cons nofun, hinv.opens.cons rfl⟩
  simp [Object.endDestroy, Object.returns, ended, ← hlive, hinv.destroyed, hdestroying]

theorem Object.step_inv (o : Object) (a : ObjectAction) (p : Object) (hinv : ObjectInv o)
    (h : o.step a = some p) : ObjectInv p := by
  cases a with
  | call call =>
    simp only [Object.step] at h
    split at h
    · cases h
    next hbusy =>
    have hidle : o.idle = true := by simpa using hbusy
    cases call with
    | ctxInit callBack queueInit =>
      cases h
      exact ctxInit_inv hinv hidle callBack queueInit
    | start kind reqs =>
      obtain ⟨⟨q, ret⟩, hstart, rfl⟩ := Option.map_eq_some_iff.mp h
      exact start_inv hinv hidle hstart
    | destroyCtx =>
      cases h
      exact beginDestroy_inv hinv hidle
  | inner action =>
    simp only [Object.step] at h
    split at h
    · cases h
    · obtain ⟨context, -, rfl⟩ := Option.map_eq_some_iff.mp h
      exact ⟨hinv.impl, hinv.initialized, hinv.destroyed, hinv.destroying, hinv.returned,
        hinv.opens⟩
  | joined =>
    simp only [Object.step] at h
    split at h
    · next hjoined =>
      cases h
      exact endDestroy_inv hinv (Bool.and_eq_true_iff.mp hjoined).1
    · cases h

theorem init_objectInv : ObjectInv {} :=
  ⟨nofun, rfl, rfl, nofun, Returned.nil, Opens.nil⟩

/-- In every state of every object the calls so far have returned what the life of the object
says exactly if no valid batch was given to it in a second life. -/
theorem lifecycleOk_of_run {as : List ObjectAction} (hrun : run Object.step {} as = some o) :
    LifecycleOk o.calls ↔ OneLife (o.calls.map Prod.fst) := by
  have hsteps : ∀ s a t, ObjectInv s → True → s.step a = some t → ObjectInv t :=
    fun s a t hinv _ h => s.step_inv a t hinv h
  have hinv : ObjectInv o := run_invariant hsteps init_objectInv (stepsOk_true as _) hrun
  exact lifecycleOk_iff hinv.returned hinv.opens

/-- An object that is made, gets a batch of one request, and is destroyed. -/
def oneLife : List ObjectAction :=
  [.call (.ctxInit true 0), .call (.start .open (some [1])), .inner (.getSqe true),
    .inner (.submit (.took 1)), .inner .proceed, .inner (.complete 0 3 0), .inner .harvest,
    .inner (.getIoResult true), .inner .rest, .call .destroyCtx, .joined]

/-- An object that is made again. -/
def twoLives : List ObjectAction :=
  oneLife ++ [ObjectAction.call (.ctxInit true 0), .call (.start .open (some [2]))]

/-- In one life every valid batch is accepted. -/
theorem lifecycleOk_oneLife : ∃ o, run Object.step {} oneLife = some o ∧
    (LifecycleOk o.calls ↔ OneLife (o.calls.map Prod.fst)) ∧
    o.calls = [(.destroyCtx, eok), (.start .open (some [1]), eok), (.ctxInit true 0, eok)] := by
  refine ⟨_, rfl, @lifecycleOk_of_run _ oneLife rfl, rfl⟩

/-- In a second life a batch is refused, although `CtxInit` returned `EOK`. -/
theorem twoLives_not_lifecycleOk : ∃ o, run Object.step {} twoLives = some o ∧
    ¬ LifecycleOk o.calls := by
  refine ⟨_, rfl, fun h => ?_⟩
  exact absurd ((h .open [2] invalid _ List.suffix_rfl (by decide)).mpr rfl) (by decide)

end FileApi.HyperAio
