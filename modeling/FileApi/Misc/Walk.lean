import Mathlib.Data.List.Nodup

/-!
# Walks from a queue

A tree is walked from a queue: its first is visited, and what grows from it is queued behind the
others. If everything grows from at most one thing, nothing is visited twice.
-/

namespace FileApi

variable {α : Type} {grows : α → α → Prop} {root x : α} {visited queue children : List α}

/-- What was visited and what is queued: nothing is there twice, and everything but the root grows
from something that was visited. -/
structure Walk (grows : α → α → Prop) (root : α) (visited queue : List α) : Prop where
  nodup : (visited ++ queue).Nodup
  origin : ∀ y ∈ visited ++ queue, y = root ∨ ∃ parent ∈ visited, grows parent y

namespace Walk

theorem start : Walk grows root [] [root] :=
  ⟨List.nodup_singleton root, fun _ hmem => .inl (List.mem_singleton.mp hmem)⟩

theorem not_mem (h : Walk grows root visited (x :: queue)) : x ∉ visited := fun hmem =>
  (List.nodup_append.mp h.nodup).2.2 x hmem x List.mem_cons_self rfl

theorem step (h : Walk grows root visited (x :: queue)) (hnodup : children.Nodup)
    (hgrows : ∀ c ∈ children, grows x c) (hroot : root ∉ children)
    (hunique : ∀ parent ∈ visited, ∀ c ∈ children, grows parent c → parent = x) :
    Walk grows root (visited ++ [x]) (queue ++ children) := by
  have hsplit : visited ++ [x] ++ (queue ++ children) = visited ++ x :: queue ++ children := by
    simp only [List.append_assoc, List.cons_append, List.nil_append]
  refine ⟨?_, ?_⟩
  · rw [hsplit, List.nodup_append]
    refine ⟨h.nodup, hnodup, ?_⟩
    rintro y hy _ hc rfl
    rcases h.origin y hy with rfl | ⟨parent, hparent, hparentGrows⟩
    · exact hroot hc
    · have := hunique parent hparent y hc hparentGrows
      subst this
      exact h.not_mem hparent
  · rw [hsplit]
    intro y hy
    rcases List.mem_append.mp hy with hold | hchild
    · refine (h.origin y hold).imp_right ?_
      rintro ⟨parent, hparent, hparentGrows⟩
      exact ⟨parent, List.mem_append_left _ hparent, hparentGrows⟩
    · exact .inr ⟨x, List.mem_append_right _ (List.mem_singleton.mpr rfl), hgrows y hchild⟩

end Walk

end FileApi
