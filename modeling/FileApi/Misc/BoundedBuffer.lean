import Mathlib.Algebra.Group.Int.Defs
import Mathlib.Algebra.GroupWithZero.Nat
import Mathlib.Data.List.Basic

/-!
# Buffers with a position and a limit

A fixed number of items with a position and a limit among them. A transfer starts at the position,
or at a place that is given, and ends at the limit at the latest.
-/

namespace FileApi

variable {α : Type}

/-- Some items over those from a place on. -/
def splice (items : List α) (start : Nat) (new : List α) : List α :=
  items.take start ++ new ++ items.drop (start + new.length)

@[simp] theorem splice_nil (items : List α) (start : Nat) : splice items start [] = items := by
  simp [splice]

theorem length_splice {items new : List α} {start : Nat}
    (h : start + new.length ≤ items.length) : (splice items start new).length = items.length := by
  simp only [splice, List.length_append, List.length_take, List.length_drop]
  omega

theorem splice_append {front middle back new : List α} {start : Nat}
    (h : start + new.length ≤ middle.length) :
    splice (front ++ (middle ++ back)) (front.length + start) new =
      front ++ (splice middle start new ++ back) := by
  have hstart : start ≤ middle.length := by omega
  rw [splice, splice, List.take_length_add_append, Nat.add_assoc, List.drop_length_add_append,
    List.take_append_of_le_length hstart, List.drop_append_of_le_length h]
  simp only [List.append_assoc]

theorem window_splice {items new : List α} {front start size : Nat}
    (hnew : start + new.length ≤ size) (hsize : front + size ≤ items.length) :
    ((splice items (front + start) new).drop front).take size =
      splice ((items.drop front).take size) start new := by
  have hitems : items = items.take front ++
      ((items.drop front).take size ++ (items.drop front).drop size) := by
    rw [List.take_append_drop, List.take_append_drop]
  have hfront : (items.take front).length = front := List.length_take_of_le (by omega)
  have hmiddle : ((items.drop front).take size).length = size := by
    rw [List.length_take, List.length_drop]
    omega
  generalize items.take front = a at hitems hfront
  generalize (items.drop front).take size = b at hitems hmiddle ⊢
  generalize (items.drop front).drop size = c at hitems
  subst hitems hfront hmiddle
  rw [splice_append hnew, List.drop_left]
  exact List.take_left' (length_splice hnew)

/-- Items with a position and a limit. -/
structure BoundedBuffer (α : Type) where
  items : List α
  position : Nat
  limit : Nat
  position_le : position ≤ limit
  limit_le : limit ≤ items.length

namespace BoundedBuffer

/-- At the start of some items, and without a limit in them. -/
def ofItems (items : List α) : BoundedBuffer α := ⟨items, 0, items.length, Nat.zero_le _, Nat.le_refl _⟩

variable (b : BoundedBuffer α)

def setPosition (position : Nat) : Option (BoundedBuffer α) :=
  if h : position ≤ b.limit then some ⟨b.items, position, b.limit, h, b.limit_le⟩ else none

/-- The position is not left behind the limit. -/
def setLimit (limit : Nat) : Option (BoundedBuffer α) :=
  if h : limit ≤ b.items.length then
    some ⟨b.items, min b.position limit, limit, Nat.min_le_right _ _, h⟩
  else none

/-- What is in front of the position is what there is. -/
def flip : BoundedBuffer α :=
  ⟨b.items, 0, b.position, Nat.zero_le _, Nat.le_trans b.position_le b.limit_le⟩

/-- At most so many items from a place up to the limit. -/
def sliceAt (position count : Nat) : List α := ((b.items.take b.limit).drop position).take count

theorem length_sliceAt (position count : Nat) :
    (b.sliceAt position count).length = min count (b.limit - position) := by
  rw [sliceAt, List.length_take, List.length_drop, List.length_take, Nat.min_eq_left b.limit_le]

theorem sliceAt_min (position count : Nat) :
    b.sliceAt position (min count (b.limit - position)) = b.sliceAt position count := by
  have hlimit := b.limit_le
  have hlength : ((b.items.take b.limit).drop position).length = b.limit - position := by
    rw [List.length_drop, List.length_take, Nat.min_eq_left hlimit]
  rw [sliceAt, sliceAt, ← hlength]
  exact List.take_eq_take_min.symm

/-- The position behind so many items, if there are so many. -/
def advance (count : Nat) : BoundedBuffer α :=
  ⟨b.items, min (b.position + count) b.limit, b.limit, Nat.min_le_right _ _, b.limit_le⟩

/-- The items that fit between a place and the limit are put there. -/
def putAt (position : Nat) (new : List α) : BoundedBuffer α where
  items := splice b.items position (new.take (b.limit - position))
  position := b.position
  limit := b.limit
  position_le := b.position_le
  limit_le := by
    have hlimit := b.limit_le
    by_cases h : position ≤ b.limit
    · rw [length_splice]
      · exact hlimit
      · rw [List.length_take]
        omega
    · rw [Nat.sub_eq_zero_of_le (by omega), List.take_zero, splice_nil]
      exact hlimit

end BoundedBuffer

end FileApi
