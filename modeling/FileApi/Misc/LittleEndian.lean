import Mathlib.Data.List.Basic
import Mathlib.Tactic.Ring

/-!
# Little-endian byte strings

Fixed-width unsigned numbers as byte strings, least significant byte first, and the
cursor-style reader `takeLE` that pops such a number off the front of a byte string. A
packed record is written as a concatenation of `leBytes` and read by a chain of `takeLE`,
so the round trip of a record is the simp lemma `takeLE_leBytes` applied field by field.
-/

namespace FileApi

/-- The `width` low bytes of `value`, least significant first. -/
def leBytes : Nat → Nat → List UInt8
  | 0, _ => []
  | width + 1, value => UInt8.ofNat value :: leBytes width (value / 256)

/-- The number a byte string denotes, least significant byte first. -/
def leValue : List UInt8 → Nat
  | [] => 0
  | b :: bs => b.toNat + 256 * leValue bs

/-- Pop a `width`-byte number off a byte string. -/
def takeLE (width : Nat) (bytes : List UInt8) : Nat × List UInt8 :=
  (leValue (bytes.take width), bytes.drop width)

@[simp] theorem leBytes_length : ∀ width value, (leBytes width value).length = width
  | 0, _ => rfl
  | width + 1, value => by simp [leBytes, leBytes_length width]

theorem leValue_leBytes : ∀ width value, leValue (leBytes width value) = value % 256 ^ width
  | 0, value => by simp [leBytes, leValue, Nat.mod_one]
  | width + 1, value => by
      simp only [leBytes, leValue, leValue_leBytes width]
      rw [Nat.pow_succ, Nat.mul_comm (256 ^ width), Nat.mod_mul]
      simp

@[simp] theorem takeLE_leBytes (width value : Nat) (rest : List UInt8) :
    takeLE width (leBytes width value ++ rest) = (value % 256 ^ width, rest) := by
  have hlen : (leBytes width value).length = width := leBytes_length width value
  simp only [takeLE, List.take_append, List.drop_append, hlen, Nat.sub_self, List.take_zero,
    List.drop_zero, List.append_nil, Prod.mk.injEq]
  refine ⟨?_, ?_⟩
  · rw [List.take_of_length_le (by omega), leValue_leBytes]
  · rw [List.drop_of_length_le (by omega), List.nil_append]

/-! Machine words of 16, 32 and 64 bits. -/

def putU16 (value : UInt16) : List UInt8 := leBytes 2 value.toNat
def putU32 (value : UInt32) : List UInt8 := leBytes 4 value.toNat
def putU64 (value : UInt64) : List UInt8 := leBytes 8 value.toNat

def getU16 (bytes : List UInt8) : UInt16 × List UInt8 :=
  (UInt16.ofNat (takeLE 2 bytes).1, (takeLE 2 bytes).2)
def getU32 (bytes : List UInt8) : UInt32 × List UInt8 :=
  (UInt32.ofNat (takeLE 4 bytes).1, (takeLE 4 bytes).2)
def getU64 (bytes : List UInt8) : UInt64 × List UInt8 :=
  (UInt64.ofNat (takeLE 8 bytes).1, (takeLE 8 bytes).2)

@[simp] theorem putU16_length (value : UInt16) : (putU16 value).length = 2 := leBytes_length _ _
@[simp] theorem putU32_length (value : UInt32) : (putU32 value).length = 4 := leBytes_length _ _
@[simp] theorem putU64_length (value : UInt64) : (putU64 value).length = 8 := leBytes_length _ _

@[simp] theorem leValue_putU16 (value : UInt16) : leValue (putU16 value) = value.toNat := by
  rw [putU16, leValue_leBytes, Nat.mod_eq_of_lt (show value.toNat < 256 ^ 2 from value.toNat_lt)]

@[simp] theorem leValue_putU32 (value : UInt32) : leValue (putU32 value) = value.toNat := by
  rw [putU32, leValue_leBytes, Nat.mod_eq_of_lt (show value.toNat < 256 ^ 4 from value.toNat_lt)]

@[simp] theorem leValue_putU64 (value : UInt64) : leValue (putU64 value) = value.toNat := by
  rw [putU64, leValue_leBytes, Nat.mod_eq_of_lt (show value.toNat < 256 ^ 8 from value.toNat_lt)]

@[simp] theorem getU16_putU16 (value : UInt16) (rest : List UInt8) :
    getU16 (putU16 value ++ rest) = (value, rest) := by
  have h := value.toNat_lt
  simp [getU16, putU16, Nat.mod_eq_of_lt h]

@[simp] theorem getU32_putU32 (value : UInt32) (rest : List UInt8) :
    getU32 (putU32 value ++ rest) = (value, rest) := by
  have h := value.toNat_lt
  simp [getU32, putU32, Nat.mod_eq_of_lt h]

@[simp] theorem getU64_putU64 (value : UInt64) (rest : List UInt8) :
    getU64 (putU64 value ++ rest) = (value, rest) := by
  have h := value.toNat_lt
  simp [getU64, putU64, Nat.mod_eq_of_lt h]

theorem leBytes_leValue : ∀ bytes : List UInt8, leBytes bytes.length (leValue bytes) = bytes
  | [] => rfl
  | b :: bs => by
      have hb := b.toNat_lt
      simp only [List.length_cons, leBytes, leValue]
      have hdiv : (b.toNat + 256 * leValue bs) / 256 = leValue bs := by omega
      have hhead : UInt8.ofNat (b.toNat + 256 * leValue bs) = b := by
        apply UInt8.toNat_inj.mp
        simp only [UInt8.toNat_ofNat']
        omega
      rw [hdiv, hhead, leBytes_leValue bs]

end FileApi
