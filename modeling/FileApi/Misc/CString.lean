import Mathlib.Algebra.Group.Int.Defs
import Mathlib.Algebra.GroupWithZero.Nat
import Mathlib.Data.List.TakeWhile

/-!
# C strings

A byte string without a zero byte, and the string a zero-terminated buffer holds.
-/

namespace FileApi

/-- The bytes of a C string, without the terminator. -/
structure CString where
  bytes : List UInt8
  noNul : (0 : UInt8) ∉ bytes
  deriving DecidableEq

/-- The bytes of a string of ASCII characters. -/
def ascii (s : String) : List UInt8 := s.toList.map fun c => UInt8.ofNat c.toNat

/-- The bytes in front of the first zero byte. -/
def cstr (buffer : List UInt8) : List UInt8 := buffer.takeWhile (· ≠ 0)

theorem cstr_of_noNul {bytes : List UInt8} (h : (0 : UInt8) ∉ bytes) : cstr bytes = bytes := by
  rw [cstr, List.takeWhile_eq_self_iff]
  intro b hb
  simpa using fun h0 : b = 0 => h (h0 ▸ hb)

theorem cstr_append_zero {bytes : List UInt8} (h : (0 : UInt8) ∉ bytes) (rest : List UInt8) :
    cstr (bytes ++ [0] ++ rest) = bytes := by
  have hall : ∀ b ∈ bytes, decide (b ≠ 0) = true := by
    intro b hb
    simpa using fun h0 : b = 0 => h (h0 ▸ hb)
  rw [cstr, List.append_assoc, List.takeWhile_append_of_pos hall]
  simp

theorem noNul_cstr (buffer : List UInt8) : (0 : UInt8) ∉ cstr buffer := by
  intro h
  simpa using List.mem_takeWhile_imp h

end FileApi
