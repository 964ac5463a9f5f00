import FileApi.Misc.Machine

/-!
# Endless runs

A scheduler is fair to a party if the party moves again and again, provided that it is able to again
and again. A party that has only so many moves left is then stuck from some point on.
-/

namespace FileApi.Machine

variable {σ α : Type} {step : σ → α → Option σ}

/-- A run without an end. -/
structure Endless (step : σ → α → Option σ) where
  state : Nat → σ
  action : Nat → α
  next : ∀ n, step (state n) (action n) = some (state (n + 1))

/-- One of the party's own actions is enabled. -/
def Enabled (step : σ → α → Option σ) (own : α → Prop) (s : σ) : Prop :=
  ∃ a, own a ∧ (step s a).isSome

namespace Endless

variable {r : Endless step} {own : α → Prop} {work : σ → Nat} {m : Nat}

/-- The party whose actions these are is not passed over again and again. -/
def StronglyFair (r : Endless step) (own : α → Prop) : Prop :=
  (∀ m, ∃ n, m ≤ n ∧ Enabled step own (r.state n)) → ∀ m, ∃ n, m ≤ n ∧ own (r.action n)

theorem invariant {inv : σ → Prop} (hstep : ∀ n, m ≤ n → inv (r.state n) → inv (r.state (n + 1)))
    (h : inv (r.state m)) : ∀ n, m ≤ n → inv (r.state n) := by
  intro n hn
  induction hn with
  | refl => exact h
  | step hle ih => exact hstep _ hle ih

theorem exists_last_move (hstep : ∀ n, m ≤ n → work (r.state (n + 1)) < work (r.state n) ∨
      work (r.state (n + 1)) = work (r.state n) ∧ ¬ own (r.action n)) :
    ∃ k, m ≤ k ∧ ∀ n, k ≤ n → ¬ own (r.action n) := by
  induction hwork : work (r.state m) using Nat.strongRecOn generalizing m with
  | ind w ih =>
  by_cases hmove : ∃ n, m ≤ n ∧ own (r.action n)
  · obtain ⟨n, hn, hown⟩ := hmove
    have hle := @invariant σ α step r m (fun s => work s ≤ w)
      (fun k hk h => by have hk := hstep k hk; omega) (Nat.le_of_eq hwork) n hn
    have hlt := (hstep n hn).resolve_right fun h => h.2 hown
    obtain ⟨k, hk, hlast⟩ := ih _ (Nat.lt_of_lt_of_le hlt hle) (fun l hl => hstep l (by omega)) rfl
    exact ⟨k, by omega, hlast⟩
  · exact ⟨m, Nat.le_refl m, fun n hn hown => hmove ⟨n, hn, hown⟩⟩

theorem StronglyFair.exists_stuck (hfair : r.StronglyFair own)
    (hstep : ∀ n, m ≤ n → work (r.state (n + 1)) < work (r.state n) ∨
      work (r.state (n + 1)) = work (r.state n) ∧ ¬ own (r.action n)) :
    ∃ k, m ≤ k ∧ ∀ n, k ≤ n → ¬ Enabled step own (r.state n) := by
  obtain ⟨last, hlast, hrest⟩ := exists_last_move hstep
  by_contra hnever
  have hagain : ∀ k, ∃ n, k ≤ n ∧ Enabled step own (r.state n) := by
    intro k
    by_contra hnone
    exact hnever ⟨max m k, Nat.le_max_left _ _,
      fun n hn henabled => hnone ⟨n, by omega, henabled⟩⟩
  obtain ⟨n, hn, hown⟩ := hfair hagain last
  exact hrest n hn hown

end Endless

end FileApi.Machine
