import Mathlib.Algebra.Group.Int.Defs
import Mathlib.Algebra.GroupWithZero.Nat

/-!
# Decimal numbers

The bytes of the digits of a number, and the number that digits are.
-/

namespace FileApi

/-- The digits of a number. -/
def decimal (n : Nat) : List UInt8 := (Nat.toDigits 10 n).map fun c => UInt8.ofNat c.toNat

/-- `isdigit`. -/
def isDigit (b : UInt8) : Bool := 0x30 ≤ b ∧ b ≤ 0x39

/-- The number that digits are. -/
def ofDecimal (bytes : List UInt8) : Nat := bytes.foldl (fun n b => 10 * n + (b.toNat - 48)) 0

variable {n : Nat}

theorem toNat_digit {c : Char} (h : c.isDigit = true) :
    (UInt8.ofNat c.toNat).toNat = c.toNat ∧ 48 ≤ c.toNat ∧ c.toNat ≤ 57 := by
  rw [Char.isDigit_iff_toNat] at h
  have hzero : (48 : Nat) ≤ c.toNat := h.1
  have hnine : c.toNat ≤ 57 := h.2
  exact ⟨UInt8.toNat_ofNat_of_lt' (by show c.toNat < 256; omega), hzero, hnine⟩

theorem isDigit_of_mem_decimal {b : UInt8} (h : b ∈ decimal n) : isDigit b = true := by
  obtain ⟨c, hc, rfl⟩ := List.mem_map.mp h
  obtain ⟨hbyte, hzero, hnine⟩ := toNat_digit (Nat.isDigit_of_mem_toDigits (by decide) (by decide) hc)
  rw [isDigit, decide_eq_true_eq, UInt8.le_iff_toNat_le, UInt8.le_iff_toNat_le, hbyte]
  exact ⟨hzero, hnine⟩

theorem decimal_ne_nil (n : Nat) : decimal n ≠ [] := by
  intro h
  exact Nat.toDigits_ne_nil (List.map_eq_nil_iff.mp h)

theorem length_decimal_le_iff {k : Nat} (hk : 0 < k) : (decimal n).length ≤ k ↔ n < 10 ^ k := by
  rw [decimal, List.length_map]
  exact Nat.length_toDigits_le_iff (by decide) hk

theorem ofDecimal_map (cs : List Char) : ∀ init, (∀ c ∈ cs, c.isDigit = true) →
    (cs.map fun c => UInt8.ofNat c.toNat).foldl (fun n b => 10 * n + (b.toNat - 48)) init =
      Nat.ofDigitChars 10 cs init := by
  induction cs with
  | nil => exact fun init _ => Nat.ofDigitChars_nil.symm
  | cons c cs ih =>
    intro init h
    have hbyte := (toNat_digit (h c List.mem_cons_self)).1
    rw [List.map_cons, List.foldl_cons, hbyte, ih _ fun c' hc' => h c' (List.mem_cons_of_mem _ hc'),
      Nat.ofDigitChars_cons]
    rfl

theorem ofDecimal_decimal (n : Nat) : ofDecimal (decimal n) = n := by
  rw [ofDecimal, decimal, ofDecimal_map]
  · exact Nat.ofDigitChars_ten_toDigits
  · exact fun c hc => Nat.isDigit_of_mem_toDigits (by decide) (by decide) hc

end FileApi
