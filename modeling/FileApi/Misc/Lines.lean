import Mathlib.Algebra.Group.Int.Defs
import Mathlib.Algebra.GroupWithZero.Nat
import Mathlib.Data.List.Basic

/-!
# Lines

A line ends behind its newline. The cut behind a newline leaves two parts of a UTF-8 text that are
UTF-8 themselves, since no other character has that byte in it.
-/

namespace FileApi

def newline : UInt8 := 10

/-- The bytes up to the first newline, which belongs to them, and the bytes behind it. -/
def splitLine : List UInt8 → List UInt8 × List UInt8
  | [] => ([], [])
  | b :: bs =>
      if b = newline then ([b], bs)
      else
        let (front, rest) := splitLine bs
        (b :: front, rest)

theorem splitLine_append (bytes : List UInt8) :
    (splitLine bytes).1 ++ (splitLine bytes).2 = bytes := by
  induction bytes with
  | nil => rfl
  | cons b bs ih =>
    rw [splitLine]
    split
    · rfl
    · exact congrArg (b :: ·) ih

theorem splitLine_cases (bytes : List UInt8) :
    (∃ text, newline ∉ text ∧ (splitLine bytes).1 = text ++ [newline]) ∨
      newline ∉ bytes ∧ splitLine bytes = (bytes, []) := by
  induction bytes with
  | nil => exact .inr ⟨List.not_mem_nil, rfl⟩
  | cons b bs ih =>
    rw [splitLine]
    by_cases hb : b = newline
    · rw [if_pos hb, hb]
      exact .inl ⟨[], List.not_mem_nil, rfl⟩
    · rw [if_neg hb]
      obtain ⟨text, htext, hfront⟩ | ⟨hmem, hwhole⟩ := ih
      · exact .inl ⟨b :: text, List.not_mem_cons_of_ne_of_not_mem (Ne.symm hb) htext,
          congrArg (b :: ·) hfront⟩
      · exact .inr ⟨List.not_mem_cons_of_ne_of_not_mem (Ne.symm hb) hmem, by rw [hwhole]⟩

/-! ## UTF-8 -/

/-- The bytes are the characters of a string. -/
def validUtf8 (bytes : List UInt8) : Bool := (ByteArray.mk bytes.toArray).validateUTF8

theorem validUtf8_iff {bytes : List UInt8} :
    validUtf8 bytes = true ↔ ∃ chars : List Char, bytes = chars.flatMap String.utf8EncodeChar := by
  rw [validUtf8, ByteArray.validateUTF8_eq_true_iff]
  constructor
  · rintro ⟨chars, h⟩
    refine ⟨chars, ?_⟩
    have hdata := congrArg (fun b : ByteArray => b.data.toList) h
    simpa [List.utf8Encode] using hdata
  · rintro ⟨chars, rfl⟩
    refine ⟨chars, ?_⟩
    apply ByteArray.ext
    simp [List.utf8Encode]

theorem newline_mem_utf8EncodeChar {c : Char} (h : newline ∈ String.utf8EncodeChar c) :
    String.utf8EncodeChar c = [newline] := by
  have hhigh : ∀ n, 128 ≤ n → n < 256 → newline ≠ UInt8.ofNat n := by
    intro n hle hlt heq
    have := congrArg UInt8.toNat heq
    rw [UInt8.toNat_ofNat', newline] at this
    simp only [UInt8.reduceToNat] at this
    omega
  rw [String.utf8EncodeChar] at h ⊢
  split
  · next hascii =>
    rw [if_pos hascii, List.mem_singleton] at h
    rw [← h]
  · next hlong =>
    rw [if_neg hlong] at h
    exfalso
    split at h
    · simp only [List.mem_cons, List.not_mem_nil, or_false] at h
      obtain h | h := h <;> exact hhigh _ (by omega) (by omega) h
    · split at h
      · simp only [List.mem_cons, List.not_mem_nil, or_false] at h
        obtain h | h | h := h <;> exact hhigh _ (by omega) (by omega) h
      · simp only [List.mem_cons, List.not_mem_nil, or_false] at h
        obtain h | h | h | h := h <;> exact hhigh _ (by omega) (by omega) h

/-- The bytes of a text fall apart into two texts behind a newline. -/
theorem validUtf8_append_newline {text rest : List UInt8}
    (h : validUtf8 (text ++ newline :: rest) = true) :
    validUtf8 (text ++ [newline]) = true ∧ validUtf8 rest = true := by
  obtain ⟨chars, hchars⟩ := validUtf8_iff.mp h
  clear h
  simp only [validUtf8_iff]
  induction chars generalizing text with
  | nil => exact absurd hchars (by simp)
  | cons c chars ih =>
    rw [List.flatMap_cons] at hchars
    obtain ⟨more, hmore, hrest⟩ | ⟨more, hmore, hrest⟩ := List.append_eq_append_iff.mp hchars
    · -- the character takes in the newline, so that it is the newline
      cases more with
      | nil =>
        obtain ⟨⟨front, hfront⟩, hback⟩ := @ih [] (by simpa using hrest)
        refine ⟨⟨c :: front, ?_⟩, hback⟩
        rw [List.flatMap_cons, ← hfront, hmore]
        simp
      | cons b more =>
        obtain ⟨rfl, hrest⟩ := List.cons.inj hrest
        have hone := newline_mem_utf8EncodeChar (c := c) (by rw [hmore]; simp)
        have hlength := congrArg List.length (hmore.symm.trans hone)
        simp only [List.length_append, List.length_cons, List.length_nil] at hlength
        obtain rfl : text = [] := List.length_eq_zero_iff.mp (by omega)
        obtain rfl : more = [] := List.length_eq_zero_iff.mp (by omega)
        exact ⟨⟨[c], by simp [hone]⟩, ⟨chars, (List.cons.inj hrest).2⟩⟩
    · obtain ⟨⟨front, hfront⟩, hback⟩ := ih hrest.symm
      refine ⟨⟨c :: front, ?_⟩, hback⟩
      rw [List.flatMap_cons, ← hfront, hmore, List.append_assoc]

theorem validUtf8_nil : validUtf8 [] = true := validUtf8_iff.mpr ⟨[], rfl⟩

theorem validUtf8_line {line rest : List UInt8} (h : validUtf8 (line ++ rest) = true)
    (hline : line.getLast? = some newline ∨ rest = []) :
    validUtf8 line = true ∧ validUtf8 rest = true := by
  obtain hlast | rfl := hline
  · obtain ⟨text, rfl⟩ := List.getLast?_eq_some_iff.mp hlast
    rw [List.append_assoc] at h
    exact validUtf8_append_newline h
  · rw [List.append_nil] at h
    exact ⟨h, validUtf8_nil⟩

end FileApi
