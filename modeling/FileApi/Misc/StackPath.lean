import Mathlib.Data.List.Basic
import Mathlib.Logic.Function.Iterate

/-!
# Paths and stacks

A path is a list of symbols with a separator; its components are pushed on a stack one by one,
where a single dot does nothing and a double dot pops. At the bottom a double dot does nothing
either.
-/

namespace FileApi.StackPath

variable {α : Type} [DecidableEq α] (sep dot : α)

/-- A component comes on the stack. -/
def push (stack : List (List α)) (c : List α) : List (List α) :=
  if c = [] ∨ c = [dot] then stack
  else if c = [dot, dot] then stack.tail
  else c :: stack

/-- All components of a path come on the stack. -/
def onto (stack : List (List α)) (path : List α) : List (List α) :=
  (path.splitOn sep).foldl (push dot) stack

/-- The components that are left of a path, from the root on. -/
def resolve (path : List α) : List (List α) := (onto sep dot [] path).reverse

/-- The components of a path that say something. -/
def components (path : List α) : List (List α) :=
  (path.splitOn sep).filter fun c => c ≠ [] ∧ c ≠ [dot]

variable {sep dot} {stack : List (List α)} {a b c path : List α}

@[simp] theorem onto_nil : onto sep dot stack [] = stack := by
  rw [onto, List.splitOn_nil]
  rfl

theorem onto_append_sep : onto sep dot stack (a ++ sep :: b) =
    onto sep dot (onto sep dot stack a) b := by
  rw [onto, List.splitOn_append_cons_self, List.foldl_append]
  rfl

@[simp] theorem onto_sep_cons : onto sep dot stack (sep :: b) = onto sep dot stack b := by
  have h : onto sep dot stack ([] ++ sep :: b) = onto sep dot (onto sep dot stack []) b :=
    onto_append_sep
  rwa [List.nil_append, onto_nil] at h

theorem onto_part (h : sep ∉ c) : onto sep dot stack c = push dot stack c := by
  rw [onto, List.splitOn_eq_singleton h]
  rfl

theorem onto_part_sep (h : sep ∉ c) : onto sep dot stack (c ++ sep :: b) =
    onto sep dot (push dot stack c) b := by
  rw [onto_append_sep, onto_part h]

theorem push_dot : push dot stack [dot] = stack := if_pos (.inr rfl)

theorem push_dotdot : push dot stack [dot, dot] = stack.tail := by
  rw [push, if_neg (by simp), if_pos rfl]

theorem push_of_ne (hne : c ≠ []) (hdot : c ≠ [dot]) (hdotdot : c ≠ [dot, dot]) :
    push dot stack c = c :: stack := by
  rw [push, if_neg (not_or.mpr ⟨hne, hdot⟩), if_neg hdotdot]

theorem onto_of_not_mem (h : [dot, dot] ∉ path.splitOn sep) :
    onto sep dot stack path = (components sep dot path).reverse ++ stack := by
  rw [onto, components]
  generalize path.splitOn sep = parts at h
  induction parts generalizing stack with
  | nil => rfl
  | cons c parts ih =>
    obtain ⟨hc, hparts⟩ := not_or.mp fun h' => h (List.mem_cons.mpr h')
    rw [List.foldl_cons, ih hparts, push]
    by_cases hhere : c = [] ∨ c = [dot]
    · rw [if_pos hhere, List.filter_cons_of_neg]
      simpa using fun hne => hhere.resolve_left hne
    · rw [if_neg hhere, if_neg (Ne.symm hc), List.filter_cons_of_pos]
      · simp
      · simpa using not_or.mp hhere

theorem resolve_of_not_mem (h : [dot, dot] ∉ path.splitOn sep) :
    resolve sep dot path = components sep dot path := by
  rw [resolve, onto_of_not_mem h, List.append_nil, List.reverse_reverse]

theorem components_append_sep : components sep dot (a ++ sep :: b) =
    components sep dot a ++ components sep dot b := by
  rw [components, List.splitOn_append_cons_self, List.filter_append]
  rfl

theorem components_part (h : sep ∉ c) (hne : c ≠ []) (hdot : c ≠ [dot]) :
    components sep dot c = [c] := by
  rw [components, List.splitOn_eq_singleton h, List.filter_cons_of_pos (by simp [hne, hdot])]
  rfl

theorem append_sep_inj {m n : List α} (hm : sep ∉ m) (hn : sep ∉ n)
    (h : a ++ sep :: m = b ++ sep :: n) : a = b ∧ m = n := by
  have hsplit := congrArg (List.splitOn sep) h
  rw [List.splitOn_append_cons_self, List.splitOn_append_cons_self, List.splitOn_eq_singleton hm,
    List.splitOn_eq_singleton hn] at hsplit
  have hname := (List.cons.inj (List.append_inj' hsplit rfl).2).1
  subst hname
  exact ⟨List.append_cancel_right h, rfl⟩

theorem components_flatMap {cs : List (List α)}
    (h : ∀ c ∈ cs, sep ∉ c ∧ c ≠ [] ∧ c ≠ [dot]) :
    components sep dot (cs.flatMap (sep :: ·)) = cs := by
  induction cs with
  | nil => rw [List.flatMap_nil, components, List.splitOn_nil]; rfl
  | cons c cs ih =>
    obtain ⟨hsep, hne, hdot⟩ := h c List.mem_cons_self
    have hcs := ih fun c' hc' => h c' (List.mem_cons_of_mem _ hc')
    have hhead : ∀ rest, components sep dot (sep :: rest) = components sep dot rest := by
      intro rest
      have happend : components sep dot ([] ++ sep :: rest) = _ := components_append_sep
      rw [List.nil_append] at happend
      rw [happend, components, List.splitOn_nil]
      rfl
    rw [List.flatMap_cons, List.cons_append, hhead]
    cases cs with
    | nil => rw [List.flatMap_nil, List.append_nil, components_part hsep hne hdot]
    | cons c' cs =>
      rw [List.flatMap_cons, List.cons_append, components_append_sep, components_part hsep hne hdot,
        ← hhead, ← List.cons_append, ← List.flatMap_cons, hcs]
      rfl

/-! ## Paths from some directory on -/

/-- How many levels a path climbs above where it starts, and the names it goes down from there, the
last one first. -/
structure Climb (α : Type) where
  levels : Nat
  names : List (List α)
  deriving DecidableEq

variable (dot) in
/-- One component more. -/
def Climb.step (r : Climb α) (c : List α) : Climb α :=
  if c = [] ∨ c = [dot] then r
  else if c = [dot, dot] then
    match r.names with
    | [] => ⟨r.levels + 1, []⟩
    | _ :: rest => ⟨r.levels, rest⟩
  else ⟨r.levels, c :: r.names⟩

variable (dot) in
def climb (cs : List (List α)) : Climb α := cs.foldl (Climb.step dot) ⟨0, []⟩

/-- On the stack that comes to be, a component does what it does on the stack of the directory; `up`
is what a double dot does to that one. -/
theorem foldl_climb {up : List (List α) → List (List α)} {act : List (List α) → List α → List (List α)}
    (hhere : ∀ s c, c = [] ∨ c = [dot] → act s c = s)
    (hup : ∀ s, act s [dot, dot] = up s) (hpop : ∀ c s, up (c :: s) = s)
    (hdown : ∀ s c, ¬ (c = [] ∨ c = [dot]) → c ≠ [dot, dot] → act s c = c :: s)
    (cs : List (List α)) (stack : List (List α)) :
    cs.foldl act stack = (climb dot cs).names ++ up^[(climb dot cs).levels] stack := by
  have hfold : ∀ (cs : List (List α)) (r : Climb α),
      cs.foldl act (r.names ++ up^[r.levels] stack) =
        (cs.foldl (Climb.step dot) r).names ++ up^[(cs.foldl (Climb.step dot) r).levels] stack := by
    intro cs
    induction cs with
    | nil => exact fun r => rfl
    | cons c cs ih =>
      intro r
      rw [List.foldl_cons, List.foldl_cons, ← ih]
      congr 1
      rw [Climb.step]
      by_cases hc : c = [] ∨ c = [dot]
      · rw [if_pos hc, hhere _ _ hc]
      · rw [if_neg hc]
        by_cases hdots : c = [dot, dot]
        · subst hdots
          rw [if_pos rfl, hup]
          cases r.names with
          | nil => exact (Function.iterate_succ_apply' up r.levels stack).symm
          | cons n rest => exact hpop n _
        · rw [if_neg hdots]
          exact hdown _ _ hc hdots
  exact hfold cs ⟨0, []⟩

theorem foldl_push (cs : List (List α)) (stack : List (List α)) :
    cs.foldl (push dot) stack = (climb dot cs).names ++ stack.drop (climb dot cs).levels := by
  have htail : ∀ n, (List.tail^[n] stack : List (List α)) = stack.drop n := by
    intro n
    induction n with
    | zero => rfl
    | succ n ih => rw [Function.iterate_succ_apply', ih, List.tail_drop]
  rw [← htail]
  have hdown : ∀ (s : List (List α)) (c : List α), ¬ (c = [] ∨ c = [dot]) → c ≠ [dot, dot] →
      push dot s c = c :: s := by
    intro s c hc hdots
    exact push_of_ne (fun h => hc (.inl h)) (fun h => hc (.inr h)) hdots
  have hhere : ∀ (s : List (List α)) (c : List α), c = [] ∨ c = [dot] → push dot s c = s :=
    fun s c h => if_pos h
  exact foldl_climb hhere (fun s => push_dotdot) (fun c s => rfl) hdown cs stack

theorem resolve_eq_climb (path : List α) :
    resolve sep dot path = (climb dot (path.splitOn sep)).names.reverse := by
  rw [resolve, onto, foldl_push, List.drop_nil, List.append_nil]

theorem mem_climb_names {cs : List (List α)} (h : c ∈ (climb dot cs).names) :
    c ∈ cs ∧ c ≠ [] ∧ c ≠ [dot] ∧ c ≠ [dot, dot] := by
  have hfold : ∀ (cs : List (List α)) (r : Climb α), c ∈ (cs.foldl (Climb.step dot) r).names →
      c ∈ r.names ∨ c ∈ cs ∧ c ≠ [] ∧ c ≠ [dot] ∧ c ≠ [dot, dot] := by
    intro cs
    induction cs with
    | nil => exact fun r h => .inl h
    | cons c' cs ih =>
      intro r h
      rcases ih _ h with hin | ⟨hmem, hc⟩
      · rw [Climb.step] at hin
        split at hin
        · exact .inl hin
        · next hhere =>
          split at hin
          · split at hin
            · cases hin
            · next hnames => exact .inl (hnames ▸ List.mem_cons_of_mem _ hin)
          · next hdots =>
            rcases List.mem_cons.mp hin with rfl | hin
            · exact .inr ⟨List.mem_cons_self, fun h => hhere (.inl h), fun h => hhere (.inr h), hdots⟩
            · exact .inl hin
      · exact .inr ⟨List.mem_cons_of_mem _ hmem, hc⟩
  exact (hfold cs ⟨0, []⟩ h).resolve_left List.not_mem_nil

end FileApi.StackPath
