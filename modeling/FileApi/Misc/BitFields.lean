import Mathlib.Data.Nat.Bitwise

/-!
# Bit fields

A word that is a sum of fields, each shifted to its place. A field is read by a shift and a mask.
-/

namespace FileApi.BitFields

/-- The field of a word that is `width` bits wide, behind the low `shift` bits. -/
def field (shift width word : Nat) : Nat := (word >>> shift) &&& (2 ^ width - 1)

theorem field_eq (shift width word : Nat) : field shift width word = word / 2 ^ shift % 2 ^ width := by
  rw [field, Nat.and_two_pow_sub_one_eq_mod, Nat.shiftRight_eq_div_pow]

theorem field_add {shift width low value : Nat} (hlow : low < 2 ^ shift) (hvalue : value < 2 ^ width)
    (high : Nat) :
    field shift width (low + 2 ^ shift * (value + 2 ^ width * high)) = value := by
  rw [field_eq, Nat.add_mul_div_left _ _ (Nat.two_pow_pos shift), Nat.div_eq_of_lt hlow,
    Nat.zero_add, Nat.add_mul_mod_self_left, Nat.mod_eq_of_lt hvalue]

theorem field_mod {shift width bits : Nat} (h : shift + width ≤ bits) (word : Nat) :
    field shift width (word % 2 ^ bits) = field shift width word := by
  have hsplit : 2 ^ bits = 2 ^ shift * 2 ^ (bits - shift) := by
    rw [← Nat.pow_add, Nat.add_sub_cancel' (by omega)]
  have hdvd : 2 ^ width ∣ 2 ^ (bits - shift) := Nat.pow_dvd_pow 2 (by omega)
  rw [field_eq, field_eq, hsplit, Nat.mod_mul_right_div_self, Nat.mod_mod_of_dvd _ hdvd]

theorem shiftLeft_or {shift low : Nat} (hlow : low < 2 ^ shift) (high : Nat) :
    high <<< shift ||| low = low + 2 ^ shift * high := by
  rw [← Nat.shiftLeft_add_eq_or_of_lt hlow, Nat.shiftLeft_eq, Nat.mul_comm, Nat.add_comm]

end FileApi.BitFields
