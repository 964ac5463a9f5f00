import Mathlib.Data.List.Basic

/-!
# Registers

Values under keys that several callers get and set, one access at a time.
-/

namespace FileApi.Registers

variable {ι κ ν : Type}

/-- An access of a caller, with the value that it saw or left. -/
inductive Access (ι κ ν : Type) where
  | get (caller : ι) (key : κ) (value : ν)
  | set (caller : ι) (key : κ) (value : ν)
  deriving DecidableEq

variable [DecidableEq κ]

/-- The value under a key behind an access. -/
def behind (key : κ) (value : ν) : Access ι κ ν → ν
  | .get _ _ _ => value
  | .set _ changed new => if changed = key then new else value

/-- What was set last under a key, `initial` where nothing was. -/
def last (initial : ν) (history : List (Access ι κ ν)) (key : κ) : ν :=
  history.foldl (behind key) initial

/-- Every caller gets what was set last in front of its access. -/
def Legal (initial : ν) (history : List (Access ι κ ν)) : Prop :=
  ∀ n caller key value, history[n]? = some (.get caller key value) →
    value = last initial (history.take n) key

variable {initial : ν} {history : List (Access ι κ ν)}

@[simp] theorem last_nil (key : κ) : last initial ([] : List (Access ι κ ν)) key = initial := rfl

@[simp] theorem last_append_get (caller : ι) (changed key : κ) (value : ν) :
    last initial (history ++ [.get caller changed value]) key = last initial history key := by
  rw [last, List.foldl_append]
  rfl

@[simp] theorem last_append_set (caller : ι) (changed key : κ) (value : ν) :
    last initial (history ++ [.set caller changed value]) key =
      if changed = key then value else last initial history key := by
  rw [last, List.foldl_append]
  rfl

theorem Legal.nil : Legal initial ([] : List (Access ι κ ν)) := nofun

theorem Legal.append {access : Access ι κ ν} (h : Legal initial history)
    (hnew : ∀ caller key value, access = .get caller key value →
      value = last initial history key) : Legal initial (history ++ [access]) := by
  intro n caller key value hn
  rcases Nat.lt_or_ge n history.length with hlt | hge
  · rw [List.getElem?_append_left hlt] at hn
    rw [List.take_append_of_le_length (Nat.le_of_lt hlt)]
    exact h n caller key value hn
  · obtain ⟨hlt, -⟩ := List.getElem?_eq_some_iff.mp hn
    rw [List.length_append, List.length_singleton] at hlt
    obtain rfl : n = history.length := by omega
    rw [List.getElem?_concat_length] at hn
    rw [List.take_left]
    exact hnew caller key value (Option.some.inj hn)

theorem Legal.append_get (h : Legal initial history) (caller : ι) (key : κ) :
    Legal initial (history ++ [.get caller key (last initial history key)]) := by
  refine h.append fun _ _ _ heq => ?_
  cases heq
  rfl

theorem Legal.append_set (h : Legal initial history) (caller : ι) (key : κ) (value : ν) :
    Legal initial (history ++ [.set caller key value]) := h.append nofun

end FileApi.Registers
