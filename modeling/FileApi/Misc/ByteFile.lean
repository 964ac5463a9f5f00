import Mathlib.Algebra.Group.Int.Defs
import Mathlib.Algebra.GroupWithZero.Nat
import Mathlib.Data.List.Basic

/-!
# A byte array with a cursor

The abstract file behind a stream: its bytes and the position of the next access. Reads stop
at the end of the bytes; a write replaces the bytes under it and extends the array, filling
a gap left by an earlier seek with zero bytes. A write of no bytes does nothing.
-/

namespace FileApi

structure ByteFile where
  data : List UInt8
  pos : Nat
  deriving DecidableEq

namespace ByteFile

/-- At most `len` bytes from the cursor on; the cursor moves past them. -/
def read (f : ByteFile) (len : Nat) : List UInt8 × ByteFile :=
  let got := (f.data.drop f.pos).take len
  (got, { f with pos := f.pos + got.length })

/-- The zero bytes in front of `bytes` that are written at the cursor. -/
def gap (f : ByteFile) (bytes : List UInt8) : List UInt8 :=
  if bytes = [] then [] else List.replicate (f.pos - f.data.length) 0

/-- Replace the bytes from the cursor on by `bytes`. -/
def write (f : ByteFile) (bytes : List UInt8) : ByteFile where
  data := f.data.take f.pos ++ f.gap bytes ++ bytes ++ f.data.drop (f.pos + bytes.length)
  pos := f.pos + bytes.length

/-- Put the cursor at `pos`, which may lie beyond the last byte. -/
def seekTo (f : ByteFile) (pos : Nat) : ByteFile := { f with pos := pos }

/-- A cursor standing behind the last byte. -/
def AtEnd (f : ByteFile) : Prop := f.pos = f.data.length

@[simp] theorem seekTo_data (f : ByteFile) (pos : Nat) : (f.seekTo pos).data = f.data := rfl
@[simp] theorem seekTo_pos (f : ByteFile) (pos : Nat) : (f.seekTo pos).pos = pos := rfl
@[simp] theorem read_data (f : ByteFile) (len : Nat) : (f.read len).2.data = f.data := rfl
@[simp] theorem write_pos (f : ByteFile) (bytes : List UInt8) :
    (f.write bytes).pos = f.pos + bytes.length := rfl

theorem gap_of_le {f : ByteFile} (h : f.pos ≤ f.data.length) (bytes : List UInt8) :
    f.gap bytes = [] := by
  rw [gap, Nat.sub_eq_zero_of_le h, List.replicate_zero, ite_self]

theorem write_nil (f : ByteFile) : f.write [] = f := by
  simp [write, gap]

theorem write_atEnd {f : ByteFile} (h : f.AtEnd) (bytes : List UInt8) :
    f.write bytes = ⟨f.data ++ bytes, f.data.length + bytes.length⟩ := by
  have hgap : f.gap bytes = [] := gap_of_le (Nat.le_of_eq h) bytes
  unfold AtEnd at h
  simp only [write, hgap, h, List.take_length, List.append_nil, ByteFile.mk.injEq, and_true]
  rw [List.drop_of_length_le (by omega), List.append_nil]

theorem AtEnd.write {f : ByteFile} (h : f.AtEnd) (bytes : List UInt8) : (f.write bytes).AtEnd := by
  rw [write_atEnd h]
  simp [AtEnd]

theorem write_mid (pre old post bytes : List UInt8) (pos : Nat) (hpos : pos = pre.length)
    (hlen : bytes.length = old.length) :
    (ByteFile.mk (pre ++ old ++ post) pos).write bytes =
      ⟨pre ++ bytes ++ post, pos + bytes.length⟩ := by
  subst hpos
  have hgap : (ByteFile.mk (pre ++ old ++ post) pre.length).gap bytes = [] :=
    gap_of_le (by simp) bytes
  simp only [write, hgap, List.append_nil, ByteFile.mk.injEq, and_true]
  rw [hlen, show pre.length + old.length = (pre ++ old).length by simp, List.drop_left]
  rw [List.append_assoc pre old post, List.take_left]

theorem write_write (f : ByteFile) (a b : List UInt8) : (f.write a).write b = f.write (a ++ b) := by
  by_cases ha : a = []
  · rw [ha, write_nil, List.nil_append]
  set front := f.data.take f.pos ++ f.gap a with hfront
  have hgaps : f.gap (a ++ b) = f.gap a := by simp [gap, ha]
  have hlen : front.length = f.pos := by
    rw [hfront, gap, if_neg ha]
    simp
    omega
  have hdata : (f.write a).data = front ++ a ++ f.data.drop (f.pos + a.length) := rfl
  have hpos : (f.write a).pos = f.pos + a.length := rfl
  have hgap : (f.write a).gap b = [] := gap_of_le (by rw [hpos, hdata]; simp [hlen]) b
  have htake : (f.write a).data.take (f.pos + a.length) = front ++ a := by
    rw [hdata, ← hlen, ← List.length_append, List.take_left]
  have hdrop : (f.write a).data.drop (f.pos + a.length + b.length) =
      f.data.drop (f.pos + (a ++ b).length) := by
    rw [← List.drop_drop, hdata, ← hlen, ← List.length_append, List.drop_left, List.drop_drop]
    simp [hlen, Nat.add_assoc]
  generalize hmid : f.write a = mid at hpos hgap htake hdrop
  rw [write, write, hgap, hgaps, hpos, htake, hdrop, ← hfront]
  simp [Nat.add_assoc]

end ByteFile

end FileApi
