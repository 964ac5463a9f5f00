import Mathlib.Data.List.Basic
import Mathlib.Tactic.ByContra

/-!
# The last number below a bound

The naive search from the back: the numbers below a bound are looked at one by one, the greatest
first.
-/

namespace FileApi

variable {P Q : Nat → Bool} {n k p : Nat}

/-- The greatest number below the bound that is accepted. -/
def lastBelow (P : Nat → Bool) : Nat → Option Nat
  | 0 => none
  | n + 1 => if P n then some n else lastBelow P n

/-- What is found is accepted, and nothing between it and the bound is. -/
theorem lastBelow_eq_some_iff :
    lastBelow P n = some p ↔ p < n ∧ P p = true ∧ ∀ q, p < q → q < n → P q = false := by
  induction n with
  | zero => exact ⟨nofun, fun h => absurd h.1 (Nat.not_lt_zero p)⟩
  | succ n ih =>
    rw [lastBelow]
    by_cases hn : P n = true
    · rw [if_pos hn]
      constructor
      · rintro h
        cases h
        exact ⟨Nat.lt_succ_self p, hn, fun q hlt hle => absurd hlt (by omega)⟩
      · rintro ⟨hlt, -, hlast⟩
        by_contra hne
        have hpn : p ≠ n := fun h => hne (congrArg some h.symm)
        rw [hlast n (by omega) (Nat.lt_succ_self n)] at hn
        cases hn
    · rw [if_neg hn, ih]
      constructor
      · rintro ⟨hlt, hp, hlast⟩
        refine ⟨by omega, hp, fun q hpq hq => ?_⟩
        by_cases heq : q = n
        · rw [heq]
          exact Bool.eq_false_iff.mpr hn
        · exact hlast q hpq (by omega)
      · rintro ⟨hlt, hp, hlast⟩
        have hpn : p ≠ n := by
          rintro rfl
          exact hn hp
        exact ⟨by omega, hp, fun q hpq hq => hlast q hpq (by omega)⟩

theorem lastBelow_eq_none_iff : lastBelow P n = none ↔ ∀ q < n, P q = false := by
  induction n with
  | zero => exact ⟨fun _ q hq => absurd hq (Nat.not_lt_zero q), fun _ => rfl⟩
  | succ n ih =>
    rw [lastBelow]
    split
    · next hn =>
      refine ⟨nofun, fun h => ?_⟩
      rw [h n (Nat.lt_succ_self n)] at hn
      cases hn
    · next hn =>
      rw [ih]
      refine ⟨fun h q hq => ?_, fun h q hq => h q (by omega)⟩
      by_cases heq : q = n
      · rw [heq]
        exact Bool.eq_false_iff.mpr hn
      · exact h q (by omega)

theorem lastBelow_skip (hle : k ≤ n) (h : ∀ q, k ≤ q → q < n → P q = false) :
    lastBelow P n = lastBelow P k := by
  induction n with
  | zero => rw [Nat.le_zero.mp hle]
  | succ n ih =>
    by_cases heq : k = n + 1
    · rw [heq]
    · rw [lastBelow, h n (by omega) (Nat.lt_succ_self n), if_neg Bool.false_ne_true]
      exact ih (by omega) fun q hk hq => h q hk (by omega)

theorem lastBelow_add (h : ∀ q < k, P q = false) (hQ : ∀ q < n, P (k + q) = Q q) :
    lastBelow P (k + n) = (lastBelow Q n).map (k + ·) := by
  induction n with
  | zero => exact lastBelow_eq_none_iff.mpr h
  | succ n ih =>
    rw [← Nat.add_assoc, lastBelow, lastBelow, hQ n (Nat.lt_succ_self n),
      ih fun q hq => hQ q (by omega)]
    split
    · rfl
    · rfl

end FileApi
