import Mathlib.Algebra.Group.Int.Defs
import Mathlib.Algebra.GroupWithZero.Nat

/-!
# Error numbers

The values of `errno` that the programs tell apart or give back themselves.
-/

namespace FileApi

inductive Errno where
  | enoent | eio | eacces | eexist | exdev | enotdir | eisdir | einval | enotempty | enotsup
  | enomem | eloop | ecanceled
  | other (code : Nat)
  deriving DecidableEq

/-- A call that fails as the environment says, or does its work. -/
def orFail {α : Type} (failure : Option Errno) (result : Except Errno α) : Except Errno α :=
  match failure with
  | some errno => .error errno
  | none => result

@[simp] theorem orFail_none {α : Type} (result : Except Errno α) : orFail none result = result :=
  rfl

@[simp] theorem orFail_some {α : Type} (errno : Errno) (result : Except Errno α) :
    orFail (some errno) result = .error errno := rfl

end FileApi
