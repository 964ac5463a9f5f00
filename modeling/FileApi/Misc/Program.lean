import Mathlib.Logic.Basic

/-!
# Programs with a state that may fail

`EStateM` keeps the state when a program fails, as a C function does that returns an error code.
A triple says what holds after a program that started in a state: `Q` of its result, or `E` of its
error. What every step keeps is kept by the whole.
-/

namespace FileApi.Program

universe u

variable {ε σ α β : Type u}

/-- A call of the outside world, which always returns. -/
def call (f : σ → α × σ) : EStateM ε σ α := fun s => .ok (f s).1 (f s).2

@[simp] theorem call_run (f : σ → α × σ) (s : σ) :
    (call f : EStateM ε σ α) s = .ok (f s).1 (f s).2 := rfl

@[simp] theorem pure_run (a : α) (s : σ) : (pure a : EStateM ε σ α) s = .ok a s := rfl

@[simp] theorem throw_run (e : ε) (s : σ) : (throw e : EStateM ε σ α) s = .error e s := rfl

theorem bind_run (x : EStateM ε σ α) (f : α → EStateM ε σ β) (s : σ) :
    (x >>= f) s = match x s with
      | .ok a s' => f a s'
      | .error e s' => .error e s' := rfl

theorem throw_bind (e : ε) (f : α → EStateM ε σ β) : (throw e >>= f) = throw e := rfl

theorem get_bind_run (f : σ → EStateM ε σ α) (s : σ) :
    ((get : EStateM ε σ σ) >>= f) s = f s s := rfl

variable {x : EStateM ε σ α} {f : α → EStateM ε σ β} {s s' : σ}

theorem bind_eq_ok {b : β} :
    (x >>= f) s = .ok b s' ↔ ∃ a mid, x s = .ok a mid ∧ f a mid = .ok b s' := by
  rw [bind_run]
  cases x s with
  | ok a mid =>
    constructor
    · exact fun h => ⟨a, mid, rfl, h⟩
    · rintro ⟨a', mid', ⟨⟩, h⟩
      exact h
  | error e mid =>
    constructor
    · nofun
    · rintro ⟨a', mid', ⟨⟩, -⟩

theorem bind_eq_error {e : ε} :
    (x >>= f) s = .error e s' ↔
      x s = .error e s' ∨ ∃ a mid, x s = .ok a mid ∧ f a mid = .error e s' := by
  rw [bind_run]
  cases x s with
  | ok a mid =>
    constructor
    · exact fun h => .inr ⟨a, mid, rfl, h⟩
    · rintro (h | ⟨a', mid', ⟨⟩, h⟩)
      · cases h
      · exact h
  | error e' mid =>
    constructor
    · rintro ⟨⟩
      exact .inl rfl
    · rintro (h | ⟨a', mid', h, -⟩)
      · cases h
        rfl
      · cases h

theorem pure_eq_ok {a b : α} :
    (pure a : EStateM ε σ α) s = .ok b s' ↔ a = b ∧ s = s' := by
  constructor
  · rintro ⟨⟩
    exact ⟨rfl, rfl⟩
  · rintro ⟨rfl, rfl⟩
    rfl

variable {a : α}

theorem bind_ok {s mid : σ} (h : x s = .ok a mid) :
    (x >>= f) s = f a mid := by
  rw [bind_run, h]

/-- The state a program leaves, however it ends. -/
def after (x : EStateM ε σ α) (s : σ) : σ :=
  match x s with
  | .ok _ s' => s'
  | .error _ s' => s'

theorem after_of_ok (h : x s = .ok a s') :
    after x s = s' := by
  rw [after, h]

theorem after_of_error {e : ε} (h : x s = .error e s') :
    after x s = s' := by
  rw [after, h]

theorem after_bind_ok (h : x s = .ok a s') :
    after (x >>= f) s = after (f a) s' := by
  rw [after, bind_ok h]
  rfl

theorem after_bind_error {e : ε} (h : x s = .error e s') :
    after (x >>= f) s = s' := by
  rw [after, bind_run, h]

theorem after_bind_pure (x : EStateM ε σ α) (b : β) (s : σ) :
    after (x >>= fun _ => pure b) s = after x s := by
  cases hrun : x s with
  | ok a mid => rw [after_bind_ok hrun, after_of_ok hrun]; rfl
  | error e mid => rw [after_bind_error hrun, after_of_error hrun]

theorem after_bind {s : σ} {P : σ → Prop} (hx : ∀ e s', x s = .error e s' → P s')
    (hf : ∀ a s', x s = .ok a s' → P (after (f a) s')) :
    P (after (x >>= f) s) := by
  cases hrun : x s with
  | ok a mid => exact after_bind_ok hrun ▸ hf a mid hrun
  | error e mid => exact after_bind_error hrun ▸ hx e mid hrun

/-- The result and the state of a program that ends well. -/
def result (x : EStateM ε σ α) (s : σ) : Option (α × σ) :=
  match x s with
  | .ok a s' => some (a, s')
  | .error _ _ => none

theorem result_eq_some :
    result x s = some (a, s') ↔ x s = .ok a s' := by
  rw [result]
  cases x s with
  | ok b mid =>
    constructor
    · rintro ⟨⟩
      rfl
    · rintro ⟨⟩
      rfl
  | error e mid => exact iff_of_false nofun nofun

/-! ## Triples -/

/-- From `P` the program ends with a result in `Q`, or fails in `E`. -/
def Triple (P : σ → Prop) (x : EStateM ε σ α) (Q : α → σ → Prop) (E : ε → σ → Prop) : Prop :=
  ∀ s, P s → match x s with
    | .ok a s' => Q a s'
    | .error e s' => E e s'

section Rules

variable {P P' : σ → Prop} {Q Q' : α → σ → Prop} {E E' : ε → σ → Prop}

theorem Triple.of_ok (h : Triple P x Q E) (hs : P s) (hx : x s = .ok a s') :
    Q a s' := by
  have hcase := h s hs
  rwa [hx] at hcase

theorem Triple.exists_ok (h : Triple P x Q fun _ _ => False) {s : σ} (hs : P s) :
    ∃ a s', x s = .ok a s' ∧ Q a s' := by
  have hcase := h s hs
  cases hrun : x s with
  | ok a mid =>
    rw [hrun] at hcase
    exact ⟨a, mid, rfl, hcase⟩
  | error e mid =>
    rw [hrun] at hcase
    exact hcase.elim

theorem Triple.any (x : EStateM ε σ α) : Triple P x (fun _ _ => True) fun _ _ => True := by
  intro s _
  cases x s with
  | ok a mid => trivial
  | error e mid => trivial

theorem Triple.pure (h : ∀ s, P s → Q a s) : Triple P (Pure.pure a) Q E :=
  fun s hs => h s hs

theorem Triple.throw {e : ε} (h : ∀ s, P s → E e s) :
    Triple P (throw e : EStateM ε σ α) Q E :=
  fun s hs => h s hs

theorem Triple.call {f : σ → α × σ} (h : ∀ s, P s → Q (f s).1 (f s).2) :
    Triple P (call f) Q E :=
  fun s hs => h s hs

theorem Triple.bind {R : β → σ → Prop} (hx : Triple P x Q E) (hf : ∀ a, Triple (Q a) (f a) R E) :
    Triple P (x >>= f) R E := by
  intro s hs
  have hcase := hx s hs
  rw [bind_run]
  cases hrun : x s with
  | ok a mid =>
    rw [hrun] at hcase
    exact hf a mid hcase
  | error e mid =>
    rw [hrun] at hcase
    exact hcase

theorem Triple.discard {R : σ → Prop} (hx : Triple P x (fun _ => R) E) :
    Triple P (discard x) (fun _ => R) E :=
  hx.bind fun _ => .pure fun _ hs => hs

theorem Triple.assume {p : Prop} (h : p → Triple P x Q E) :
    Triple (fun s => p ∧ P s) x Q E :=
  fun s hs => h hs.1 s hs.2

theorem Triple.ite {c : Prop} [Decidable c] {x y : EStateM ε σ α} (hx : Triple P x Q E)
    (hy : Triple P y Q E) : Triple P (if c then x else y) Q E := by
  split
  · exact hx
  · exact hy

theorem Triple.beside {F : α → σ → Prop} (h : Triple P x Q E)
    (hF : ∀ s a s', x s = .ok a s' → F a s') : Triple P x (fun a s => F a s ∧ Q a s) E := by
  intro s hs
  have hcase := h s hs
  cases hrun : x s with
  | ok a mid =>
    rw [hrun] at hcase
    exact ⟨hF s a mid hrun, hcase⟩
  | error e mid =>
    rw [hrun] at hcase
    exact hcase

theorem Triple.weaken (h : Triple P x Q E) (hP : ∀ s, P' s → P s) (hQ : ∀ a s, Q a s → Q' a s)
    (hE : ∀ e s, E e s → E' e s) : Triple P' x Q' E' := by
  intro s hs
  have hcase := h s (hP s hs)
  cases hrun : x s with
  | ok a mid =>
    rw [hrun] at hcase
    exact hQ a mid hcase
  | error e mid =>
    rw [hrun] at hcase
    exact hE e mid hcase

end Rules

/-! ## What is kept -/

/-- The program keeps `I`, however it ends. -/
def Keeps (I : σ → Prop) (x : EStateM ε σ α) : Prop := Triple I x (fun _ => I) (fun _ => I)

variable {I : σ → Prop}

theorem Keeps.after (h : Keeps I x) {s : σ} (hs : I s) :
    I (Program.after x s) := by
  have hcase := h s hs
  rw [Program.after]
  cases hrun : x s with
  | ok a mid => rwa [hrun] at hcase
  | error e mid => rwa [hrun] at hcase

theorem Keeps.beside {F : α → σ → Prop} (h : Keeps I x) (hF : ∀ s a s', x s = .ok a s' → F a s') :
    Triple I x (fun a s => F a s ∧ I s) fun _ => I :=
  Triple.beside h hF

theorem Keeps.pure (a : α) : Keeps I (Pure.pure a : EStateM ε σ α) := fun _ hs => hs

theorem Keeps.throw (e : ε) : Keeps I (throw e : EStateM ε σ α) := fun _ hs => hs

theorem Keeps.call {f : σ → α × σ} (h : ∀ s, I s → I (f s).2) :
    Keeps I (call f : EStateM ε σ α) := fun s hs => h s hs

theorem Keeps.bind (hx : Keeps I x) (hf : ∀ a, Keeps I (f a)) :
    Keeps I (x >>= f) := Triple.bind hx hf

theorem Keeps.ite {c : Prop} [Decidable c] {x y : EStateM ε σ α} (hx : Keeps I x)
    (hy : Keeps I y) : Keeps I (if c then x else y) := Triple.ite hx hy

end FileApi.Program
