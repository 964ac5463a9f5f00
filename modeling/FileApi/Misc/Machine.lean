import Mathlib.Algebra.Group.Int.Defs
import Mathlib.Algebra.GroupWithZero.Nat
import Mathlib.Data.List.Basic

/-!
# Machines

A machine takes actions; an action that is not enabled in a state has no successor. The
interleavings of several parties are the lists of their actions.
-/

namespace FileApi.Machine

variable {σ α : Type}

/-- The state after a list of actions, each of which was enabled. -/
def run (step : σ → α → Option σ) : σ → List α → Option σ
  | s, [] => some s
  | s, a :: as => (step s a).bind fun t => run step t as

/-- Every action of a run meets a condition on the state before it. -/
def StepsOk (step : σ → α → Option σ) (ok : σ → α → Prop) : σ → List α → Prop
  | _, [] => True
  | s, a :: as => ok s a ∧ ∀ t, step s a = some t → StepsOk step ok t as

variable {step : σ → α → Option σ} {ok : σ → α → Prop}

theorem StepsOk.nil {s : σ} : StepsOk step ok s [] := trivial

variable {as : List α}

theorem StepsOk.cons {s t : σ} {a : α} (hok : ok s a) (h : step s a = some t)
    (rest : StepsOk step ok t as) : StepsOk step ok s (a :: as) := by
  refine ⟨hok, fun t' ht' => ?_⟩
  obtain rfl : t = t' := Option.some.inj (h.symm.trans ht')
  exact rest

theorem stepsOk_cons_of_none {s : σ} {a : α} (h : step s a = none) :
    StepsOk step ok s (a :: as) ↔ ok s a :=
  ⟨fun hok => hok.1, fun hok => ⟨hok, fun _ ht => nomatch h.symm.trans ht⟩⟩

theorem stepsOk_cons_of_some {s t : σ} {a : α} (h : step s a = some t) :
    StepsOk step ok s (a :: as) ↔ ok s a ∧ StepsOk step ok t as :=
  ⟨fun hok => ⟨hok.1, hok.2 t h⟩, fun hok => .cons hok.1 h hok.2⟩

instance decidableStepsOk [∀ s a, Decidable (ok s a)] :
    ∀ (s : σ) (as : List α), Decidable (StepsOk step ok s as)
  | _, [] => isTrue trivial
  | s, a :: as =>
      match h : step s a with
      | none => decidable_of_iff _ (stepsOk_cons_of_none h).symm
      | some t =>
          have : Decidable (StepsOk step ok t as) := decidableStepsOk t as
          decidable_of_iff _ (stepsOk_cons_of_some h).symm

theorem stepsOk_true (as : List α) : ∀ s : σ, StepsOk step (fun _ _ => True) s as := by
  induction as with
  | nil => exact fun s => trivial
  | cons a as ih => exact fun s => ⟨trivial, fun t _ => ih t⟩

theorem stepsOk_of_forall (h : ∀ a ∈ as, ∀ s, ok s a) :
    ∀ s : σ, StepsOk step ok s as := by
  induction as with
  | nil => exact fun s => trivial
  | cons a as ih =>
    exact fun s => ⟨h a List.mem_cons_self s,
      fun t _ => ih (fun b hb => h b (List.mem_cons_of_mem a hb)) t⟩

variable {inv : σ → Prop}

/-- Conditions that are the same in every state that an invariant holds in, in a run whose steps all
meet a third one. -/
theorem stepsOk_congr_of {pre ok' : σ → α → Prop}
    (hstep : ∀ s a t, inv s → pre s a → ok' s a → step s a = some t → inv t)
    (h : ∀ s a, inv s → pre s a → (ok s a ↔ ok' s a)) :
    ∀ {s : σ}, inv s → StepsOk step pre s as → (StepsOk step ok s as ↔ StepsOk step ok' s as) := by
  induction as with
  | nil => exact fun _ _ => Iff.rfl
  | cons a as ih =>
    intro s hs hpre
    refine (and_congr_left' (h s a hs hpre.1)).trans (and_congr_right fun hok => ?_)
    exact forall_congr' fun t =>
      forall_congr' fun ht => ih (hstep s a t hs hpre.1 hok ht) (hpre.2 t ht)

theorem stepsOk_congr {ok' : σ → α → Prop}
    (hstep : ∀ s a t, inv s → ok' s a → step s a = some t → inv t)
    (h : ∀ s a, inv s → (ok s a ↔ ok' s a)) {s : σ} (hs : inv s) :
    StepsOk step ok s as ↔ StepsOk step ok' s as :=
  stepsOk_congr_of (fun s a t hs _ hok => hstep s a t hs hok) (fun s a hs _ => h s a hs) hs
    (stepsOk_true as s)

theorem StepsOk.and {ok' : σ → α → Prop} : ∀ {s : σ}, StepsOk step ok s as →
    StepsOk step ok' s as → StepsOk step (fun s a => ok s a ∧ ok' s a) s as := by
  induction as with
  | nil => exact fun _ _ => trivial
  | cons a as ih =>
    exact fun h h' => ⟨⟨h.1, h'.1⟩, fun t ht => ih (h.2 t ht) (h'.2 t ht)⟩

variable {as bs : List α}

theorem StepsOk.append : ∀ {s t : σ}, run step s as = some t →
    StepsOk step ok s as → StepsOk step ok t bs → StepsOk step ok s (as ++ bs) := by
  induction as with
  | nil =>
    intro s t hrun _ rest
    cases hrun
    exact rest
  | cons a as ih =>
    intro s t hrun hok rest
    refine ⟨hok.1, fun mid hmid => ?_⟩
    simp only [run, hmid, Option.bind_some] at hrun
    exact ih hrun (hok.2 mid hmid) rest

theorem StepsOk.at {a : α} : ∀ {s t : σ}, run step s as = some t →
    StepsOk step ok s (as ++ a :: bs) → ok t a := by
  induction as with
  | nil =>
    intro s t hrun h
    cases hrun
    exact h.1
  | cons b as ih =>
    intro s t hrun h
    obtain ⟨mid, hmid, hrun⟩ := Option.bind_eq_some_iff.mp hrun
    exact ih hrun (h.2 mid hmid)

theorem stepsOk_iff : ∀ {s : σ}, StepsOk step ok s as ↔
    ∀ front a back, as = front ++ a :: back → ∀ t, run step s front = some t → ok t a := by
  intro s
  refine ⟨fun h front a back hsplit t hrun => (hsplit ▸ h).at hrun, fun h => ?_⟩
  induction as generalizing s with
  | nil => trivial
  | cons b as ih =>
    refine ⟨h [] b as rfl s rfl, fun mid hmid => ih fun front a back hsplit t hrun => ?_⟩
    refine h (b :: front) a back (by rw [hsplit, List.cons_append]) t ?_
    simp only [run, hmid, Option.bind_some]
    exact hrun

theorem StepsOk.left : ∀ {s : σ}, StepsOk step ok s (as ++ bs) →
    StepsOk step ok s as := by
  induction as with
  | nil => exact fun _ => trivial
  | cons a as ih => exact fun h => ⟨h.1, fun t ht => ih (h.2 t ht)⟩

theorem StepsOk.right : ∀ {s t : σ}, run step s as = some t →
    StepsOk step ok s (as ++ bs) → StepsOk step ok t bs := by
  induction as with
  | nil =>
    intro s t hrun h
    cases hrun
    exact h
  | cons a as ih =>
    intro s t hrun h
    obtain ⟨mid, hmid, hrun⟩ := Option.bind_eq_some_iff.mp hrun
    exact ih hrun (h.2 mid hmid)

theorem run_append (s : σ) (as bs : List α) :
    run step s (as ++ bs) = (run step s as).bind fun t => run step t bs := by
  induction as generalizing s with
  | nil => rfl
  | cons a as ih =>
    simp only [List.cons_append, run]
    cases step s a with
    | none => rfl
    | some t => exact ih t

/-- What holds at first and is kept by every step that meets the condition holds after every
run that meets it. -/
theorem run_invariant (hstep : ∀ s a t, inv s → ok s a → step s a = some t → inv t) :
    ∀ {as : List α} {s t : σ}, inv s → StepsOk step ok s as → run step s as = some t → inv t := by
  intro as
  induction as with
  | nil =>
    intro s t hinv _ hrun
    cases hrun
    exact hinv
  | cons a as ih =>
    intro s t hinv hok hrun
    obtain ⟨mid, hmid, hrun⟩ := Option.bind_eq_some_iff.mp hrun
    exact ih (hstep s a mid hinv hok.1 hmid) (hok.2 mid hmid) hrun

theorem stepsOk_of_final {bad : σ → Prop} (hbad : ∀ s a t, bad s → step s a = some t → bad t) :
    ∀ {s t : σ}, run step s as = some t → ¬ bad t →
      StepsOk step (fun s a => ∀ t, step s a = some t → ¬ bad t) s as := by
  have hrest : ∀ {as : List α} {s t : σ}, run step s as = some t → ¬ bad t → ¬ bad s :=
    fun hrun hgood hs => hgood (run_invariant (fun s a t hs (_ : True) => hbad s a t hs) hs
      (stepsOk_true _ _) hrun)
  induction as with
  | nil => exact fun _ _ => trivial
  | cons a as ih =>
    intro s t hrun hgood
    obtain ⟨mid, hmid, hrun⟩ := Option.bind_eq_some_iff.mp hrun
    refine .cons (fun u hu => ?_) hmid (ih hrun hgood)
    obtain rfl : mid = u := Option.some.inj (hmid.symm.trans hu)
    exact hrest hrun hgood

theorem length_le_of_decreases {measure : σ → Nat}
    (hstep : ∀ s a t, inv s → ok s a → step s a = some t → inv t ∧ measure t < measure s) :
    ∀ {as : List α} {s t : σ}, inv s → StepsOk step ok s as → run step s as = some t →
      as.length + measure t ≤ measure s := by
  intro as
  induction as with
  | nil =>
    intro s t _ _ hrun
    cases hrun
    simp
  | cons a as ih =>
    intro s t hinv hok hrun
    obtain ⟨mid, hmid, hrun⟩ := Option.bind_eq_some_iff.mp hrun
    obtain ⟨hinv', hlt⟩ := hstep s a mid hinv hok.1 hmid
    have hle := ih hinv' (hok.2 mid hmid) hrun
    rw [List.length_cons]
    omega

/-! ## Simulation -/

section Simulation

variable {τ β γ : Type} {step' : τ → β → Option τ} {rel : σ → τ → Prop} {label : α → List γ}
  {label' : β → List γ}

/-- Where a second machine answers every step with steps that show the same, it answers every run
with a run that shows the same. -/
theorem run_simulation
    (hstep : ∀ s a s' t, rel s t → ok s a → step s a = some s' →
      ∃ bs t', run step' t bs = some t' ∧ rel s' t' ∧ bs.flatMap label' = label a) :
    ∀ {as : List α} {s s' : σ} {t : τ}, rel s t → StepsOk step ok s as → run step s as = some s' →
      ∃ bs t', run step' t bs = some t' ∧ rel s' t' ∧ bs.flatMap label' = as.flatMap label := by
  intro as
  induction as with
  | nil =>
    intro s s' t hrel _ hrun
    cases hrun
    exact ⟨[], t, rfl, hrel, rfl⟩
  | cons a as ih =>
    intro s s' t hrel hok hrun
    obtain ⟨mid, hmid, hrest⟩ := Option.bind_eq_some_iff.mp hrun
    obtain ⟨bs, u, hbs, hu, hlabel⟩ := hstep s a mid t hrel hok.1 hmid
    obtain ⟨cs, v, hcs, hv, hlabels⟩ := ih hu (hok.2 mid hmid) hrest
    refine ⟨bs ++ cs, v, ?_, hv, ?_⟩
    · rw [run_append, hbs]
      exact hcs
    · rw [List.flatMap_append, List.flatMap_cons, hlabel, hlabels]

end Simulation

end FileApi.Machine
