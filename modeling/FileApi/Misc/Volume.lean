import FileApi.Misc.FileTree
import Mathlib.Data.List.Dedup
import Mathlib.Data.List.Infix

/-!
# Volumes

A tree of files as a list of its nodes by their places, so that a directory can be listed. The root
is there always, everything else is in a directory, and all names are good ones. A node is put at a
place, a place is taken away with all that is below it, and a place is moved with all that is below
it to another one.
-/

namespace FileApi

open FileTree

variable {ν β : Type}

/-- What is below `src`, as it is below `dest`. -/
def rebase (src dest place : List ν) : List ν := place.take (place.length - src.length) ++ dest

@[simp] theorem rebase_append (src dest rest : List ν) :
    rebase src dest (rest ++ src) = rest ++ dest := by
  rw [rebase, List.length_append, Nat.add_sub_cancel, List.take_left]

theorem suffix_disjoint {a b place : List ν} (hab : ¬ a <:+ b) (hba : ¬ b <:+ a)
    (ha : a <:+ place) : ¬ b <:+ place := fun hb =>
  (List.suffix_or_suffix_of_suffix ha hb).elim hab hba

/-- Strictly below a place. -/
def Below (place q : List ν) : Prop := place <:+ q ∧ q ≠ place

instance [DecidableEq ν] (place q : List ν) : Decidable (Below place q) :=
  inferInstanceAs (Decidable (_ ∧ _))

theorem below_append {place rest : List ν} (h : rest ≠ []) : Below place (rest ++ place) := by
  refine ⟨List.suffix_append _ _, fun heq => h ?_⟩
  simpa using congrArg List.length heq

theorem below_of_cons {name : ν} {place q : List ν} (h : name :: place <:+ q) : Below place q := by
  refine ⟨(List.suffix_cons name place).trans h, ?_⟩
  rintro rfl
  exact absurd h.length_le (Nat.not_succ_le_self _)

theorem suffix_of_cons_suffix_cons {name : ν} {a b : List ν} (h : name :: a <:+ name :: b) :
    a <:+ b := by
  rcases List.suffix_cons_iff.mp h with heq | h
  · exact (List.cons.inj heq).2 ▸ List.suffix_rfl
  · exact (List.suffix_cons name a).trans h

theorem eq_of_suffix {a b : ν} {dir q : List ν} (ha : a :: dir <:+ q) (hb : b :: dir <:+ q) :
    a = b := by
  rcases List.suffix_or_suffix_of_suffix ha hb with h | h
  · exact (List.cons.inj (h.eq_of_length rfl)).1
  · exact (List.cons.inj (h.eq_of_length rfl)).1.symm

section Lists

variable [DecidableEq ν]

/-- A place after a move, if it is there still. -/
def relocate (src dest place : List ν) : Option (List ν) :=
  if src <:+ place then some (rebase src dest place)
  else if dest <:+ place then none
  else some place

theorem relocate_symm {src dest p q : List ν} (h : relocate src dest p = some q) :
    relocate dest src q = some p := by
  unfold relocate at h ⊢
  split at h
  · next hp =>
    obtain ⟨rest, rfl⟩ := hp
    rw [rebase_append] at h
    cases h
    rw [if_pos (List.suffix_append _ _), rebase_append]
  · next hp =>
    split at h
    · cases h
    · next hq =>
      cases h
      rw [if_neg hq, if_neg hp]

/-- What is found in a list whose places were moved by a function with a way back. -/
theorem lookup_filterMap {f g : List ν → Option (List ν)}
    (h : ∀ p q, f p = some q ↔ g q = some p) (nodes : List (List ν × Node ν β)) (q : List ν) :
    (nodes.filterMap fun e => (f e.1).map fun p => (p, e.2)).lookup q =
      (g q).bind fun p => nodes.lookup p := by
  induction nodes with
  | nil => simp
  | cons entry nodes ih =>
    obtain ⟨first, node⟩ := entry
    rw [List.filterMap_cons]
    cases hf : f first with
    | none =>
      rw [Option.map_none]
      dsimp only
      rw [ih]
      cases hg : g q with
      | none => rfl
      | some p =>
        have hne : p ≠ first := by
          rintro rfl
          rw [(h p q).mpr hg] at hf
          cases hf
        rw [Option.bind_some, Option.bind_some, List.lookup_cons, beq_eq_false_iff_ne.mpr hne]
    | some moved =>
      rw [Option.map_some]
      dsimp only
      rw [List.lookup_cons, ih]
      by_cases heq : q = moved
      · subst heq
        rw [(h first q).mp hf]
        simp [List.lookup_cons]
      · rw [beq_eq_false_iff_ne.mpr heq]
        cases hg : g q with
        | none => rfl
        | some p =>
          have hne : p ≠ first := by
            rintro rfl
            rw [(h p q).mpr hg] at hf
            exact heq (Option.some.inj hf)
          rw [Option.bind_some, Option.bind_some, List.lookup_cons, beq_eq_false_iff_ne.mpr hne]

theorem lookup_ne_none {nodes : List (List ν × Node ν β)} {place : List ν} :
    nodes.lookup place ≠ none ↔ ∃ node, (place, node) ∈ nodes := by
  induction nodes with
  | nil => exact iff_of_false (fun h => h rfl) nofun
  | cons entry nodes ih =>
    obtain ⟨first, node⟩ := entry
    rw [List.lookup_cons]
    by_cases h : place = first
    · subst h
      simp only [beq_self_eq_true]
      exact iff_of_true nofun ⟨node, List.mem_cons_self⟩
    · rw [beq_eq_false_iff_ne.mpr h]
      simp only [List.mem_cons, Prod.mk.injEq, h, false_and, false_or]
      exact ih

end Lists

/-! ## Nodes by their places -/

section Nodes

variable [DecidableEq ν]

/-- The node at a place; the first one in the list is the one that is there. -/
def treeOf (nodes : List (List ν × Node ν β)) (place : List ν) : Option (Node ν β) :=
  if place = [] then some .directory else nodes.lookup place

def dropTree (nodes : List (List ν × Node ν β)) (place : List ν) : List (List ν × Node ν β) :=
  nodes.filterMap fun e => (if place <:+ e.1 then none else some e.1).map fun q => (q, e.2)

def shiftTree (nodes : List (List ν × Node ν β)) (src dest : List ν) : List (List ν × Node ν β) :=
  nodes.filterMap fun e => (relocate src dest e.1).map fun q => (q, e.2)

variable {nodes : List (List ν × Node ν β)} {place q src dest dir : List ν} {node : Node ν β}

@[simp] theorem treeOf_root : treeOf nodes [] = some .directory := if_pos rfl

theorem treeOf_of_ne (h : place ≠ []) : treeOf nodes place = nodes.lookup place := if_neg h

theorem treeOf_cons (hplace : place ≠ []) :
    treeOf ((place, node) :: nodes) q = if q = place then some node else treeOf nodes q := by
  by_cases hq : q = []
  · subst hq
    rw [treeOf_root, if_neg (Ne.symm hplace), treeOf_root]
  · rw [treeOf_of_ne hq, treeOf_of_ne hq, List.lookup_cons]
    by_cases h : q = place
    · rw [if_pos h, h, beq_self_eq_true]
    · rw [if_neg h, beq_eq_false_iff_ne.mpr h]

theorem treeOf_dropTree (hplace : place ≠ []) :
    treeOf (dropTree nodes place) q = if place <:+ q then none else treeOf nodes q := by
  by_cases hq : q = []
  · subst hq
    rw [treeOf_root, if_neg fun h => hplace (List.suffix_nil.mp h), treeOf_root]
  · rw [treeOf_of_ne hq, treeOf_of_ne hq, dropTree,
      lookup_filterMap (f := fun p => if place <:+ p then none else some p)
        (g := fun p => if place <:+ p then none else some p)]
    · split <;> rfl
    · intro p q
      constructor
      · intro h
        split at h
        · cases h
        · next hp =>
          cases h
          exact if_neg hp
      · intro h
        split at h
        · cases h
        · next hp =>
          cases h
          exact if_neg hp

theorem treeOf_shiftTree (hsrc : ¬ src <:+ dest) (hdest : ¬ dest <:+ src) :
    treeOf (shiftTree nodes src dest) q =
      if dest <:+ q then treeOf nodes (rebase dest src q)
      else if src <:+ q then none
      else treeOf nodes q := by
  have hsrc0 : src ≠ [] := fun h => hsrc (h ▸ List.nil_suffix)
  have hdest0 : dest ≠ [] := fun h => hdest (h ▸ List.nil_suffix)
  by_cases hq : q = []
  · subst hq
    rw [treeOf_root, if_neg fun h => hdest0 (List.suffix_nil.mp h),
      if_neg fun h => hsrc0 (List.suffix_nil.mp h), treeOf_root]
  · rw [treeOf_of_ne hq, shiftTree,
      lookup_filterMap (f := relocate src dest) (g := relocate dest src)
        fun p q => ⟨relocate_symm, relocate_symm⟩, relocate]
    split
    · next h =>
      obtain ⟨rest, rfl⟩ := h
      rw [rebase_append, Option.bind_some, treeOf_of_ne]
      exact fun h => hsrc0 (List.append_eq_nil_iff.mp h).2
    · split
      · rfl
      · rw [Option.bind_some, treeOf_of_ne hq]

end Nodes

/-! ## Well-formed trees -/

/-- Everything is in a directory, under a good name. -/
structure Sound (good : ν → Prop) (t : List ν → Option (Node ν β)) : Prop where
  rooted : ∀ name dir, t (name :: dir) ≠ none → t dir = some .directory
  named : ∀ name dir, t (name :: dir) ≠ none → good name

variable {good : ν → Prop}

namespace Sound

variable {t : List ν → Option (Node ν β)} {rest place : List ν}

theorem above (h : Sound good t) (hne : rest ≠ []) (hthere : t (rest ++ place) ≠ none) :
    t place = some .directory := by
  induction rest with
  | nil => exact absurd rfl hne
  | cons name rest ih =>
    have hdir := h.rooted name (rest ++ place) hthere
    cases rest with
    | nil => exact hdir
    | cons first rest => exact ih (List.cons_ne_nil _ _) (by rw [hdir]; nofun)

theorem below (h : Sound good t) (hne : rest ≠ []) (hplace : t place ≠ some .directory) :
    t (rest ++ place) = none := by
  by_contra hthere
  exact hplace (h.above hne hthere)

end Sound

section Nodes

variable [DecidableEq ν] {nodes : List (List ν × Node ν β)} {place src dest : List ν}
  {node : Node ν β}

theorem sound_cons (h : Sound good (treeOf nodes)) {name : ν} {dir : List ν} (hname : good name)
    (hdir : treeOf nodes dir = some .directory)
    (hold : treeOf nodes (name :: dir) = some .directory → node = .directory) :
    Sound good (treeOf ((name :: dir, node) :: nodes)) := by
  refine ⟨fun first parent hthere => ?_, fun first parent hthere => ?_⟩
  · rw [treeOf_cons (List.cons_ne_nil _ _)] at hthere ⊢
    have hparent : treeOf nodes parent = some .directory := by
      split at hthere
      · next heq =>
        cases heq
        exact hdir
      · exact h.rooted first parent hthere
    split
    · next heq => rw [hold (heq ▸ hparent)]
    · exact hparent
  · rw [treeOf_cons (List.cons_ne_nil _ _)] at hthere
    split at hthere
    · next heq =>
      cases heq
      exact hname
    · exact h.named first parent hthere

theorem sound_dropTree (h : Sound good (treeOf nodes)) (hplace : place ≠ []) :
    Sound good (treeOf (dropTree nodes place)) := by
  refine ⟨fun first parent hthere => ?_, fun first parent hthere => ?_⟩
  · rw [treeOf_dropTree hplace] at hthere ⊢
    split at hthere
    · exact absurd rfl hthere
    · next hfirst =>
      rw [if_neg fun hp => hfirst (hp.trans (List.suffix_cons first parent))]
      exact h.rooted first parent hthere
  · rw [treeOf_dropTree hplace] at hthere
    split at hthere
    · exact absurd rfl hthere
    · exact h.named first parent hthere

theorem sound_shiftTree (h : Sound good (treeOf nodes)) {name : ν} {dir : List ν}
    (hname : good name) (hdir : treeOf nodes dir = some .directory)
    (hsrc : ¬ src <:+ name :: dir) (hdest : ¬ name :: dir <:+ src) :
    Sound good (treeOf (shiftTree nodes src (name :: dir))) := by
  refine ⟨fun first parent hthere => ?_, fun first parent hthere => ?_⟩
  · rw [treeOf_shiftTree hsrc hdest] at hthere ⊢
    by_cases hfirst : name :: dir <:+ first :: parent
    · rw [if_pos hfirst] at hthere
      rcases List.suffix_cons_iff.mp hfirst with heq | hparent
      · cases heq
        have hsuffix : ¬ name :: dir <:+ dir := fun hs =>
          absurd hs.length_le (Nat.not_succ_le_self _)
        rw [if_neg hsuffix, if_neg fun hs => hsrc (hs.trans (List.suffix_cons name dir))]
        exact hdir
      · obtain ⟨rest, rfl⟩ := hparent
        rw [if_pos (List.suffix_append _ _), rebase_append]
        have hrebase : rebase (name :: dir) src (first :: (rest ++ name :: dir)) =
            first :: (rest ++ src) := rebase_append (name :: dir) src (first :: rest)
        rw [hrebase] at hthere
        exact h.rooted first (rest ++ src) hthere
    · rw [if_neg hfirst] at hthere
      split at hthere
      · exact absurd rfl hthere
      · next hs =>
        rw [if_neg fun hp => hfirst (hp.trans (List.suffix_cons first parent)),
          if_neg fun hp => hs (hp.trans (List.suffix_cons first parent))]
        exact h.rooted first parent hthere
  · rw [treeOf_shiftTree hsrc hdest] at hthere
    by_cases hfirst : name :: dir <:+ first :: parent
    · rw [if_pos hfirst] at hthere
      rcases List.suffix_cons_iff.mp hfirst with heq | ⟨rest, rfl⟩
      · cases heq
        exact hname
      · have hrebase : rebase (name :: dir) src (first :: (rest ++ name :: dir)) =
            first :: (rest ++ src) := rebase_append (name :: dir) src (first :: rest)
        rw [hrebase] at hthere
        exact h.named first (rest ++ src) hthere
    · rw [if_neg hfirst] at hthere
      split at hthere
      · exact absurd rfl hthere
      · exact h.named first parent hthere

end Nodes

/-! ## Volumes -/

/-- The nodes of a tree but for the root. -/
structure Volume (ν β : Type) [DecidableEq ν] (good : ν → Prop) where
  nodes : List (List ν × Node ν β)
  sound : Sound good (treeOf nodes)

namespace Volume

variable [DecidableEq ν]

def tree (v : Volume ν β good) : List ν → Option (Node ν β) := treeOf v.nodes

/-- The names of what is in a directory. -/
def children (v : Volume ν β good) (dir : List ν) : List ν :=
  (v.nodes.filterMap fun e =>
    match e.1 with
    | name :: parent => if parent = dir then some name else none
    | [] => none).dedup

/-- Only the root. -/
def empty : Volume ν β good where
  nodes := []
  sound := ⟨fun _ _ h => absurd rfl h, fun _ _ h => absurd rfl h⟩

/-- Something is put under a name in a directory; a directory is not replaced. -/
def put [DecidableEq β] [DecidablePred good] (v : Volume ν β good) (name : ν) (dir : List ν)
    (node : Node ν β) : Volume ν β good :=
  if h : good name ∧ v.tree dir = some .directory ∧ v.tree (name :: dir) ≠ some .directory then
    ⟨(name :: dir, node) :: v.nodes, sound_cons v.sound h.1 h.2.1 fun hold => absurd hold h.2.2⟩
  else v

def removeTree (v : Volume ν β good) (place : List ν) : Volume ν β good :=
  if h : place ≠ [] then ⟨dropTree v.nodes place, sound_dropTree v.sound h⟩ else v

/-- All that is at and below `src` comes to a name in a directory, in place of what is there. -/
def moveTree [DecidableEq β] [DecidablePred good] (v : Volume ν β good) (src : List ν) (name : ν)
    (dir : List ν) : Volume ν β good :=
  if h : good name ∧ v.tree dir = some .directory ∧ ¬ src <:+ name :: dir ∧ ¬ name :: dir <:+ src
  then
    ⟨shiftTree v.nodes src (name :: dir), sound_shiftTree v.sound h.1 h.2.1 h.2.2.1 h.2.2.2⟩
  else v

variable {v : Volume ν β good} {place q src dir : List ν} {node : Node ν β} {name : ν}

@[simp] theorem tree_root : v.tree [] = some .directory := treeOf_root

theorem tree_below (v : Volume ν β good) {rest : List ν} (hplace : v.tree place ≠ some .directory)
    (hne : rest ≠ []) : v.tree (rest ++ place) = none :=
  v.sound.below hne hplace

theorem tree_append_of_none (v : Volume ν β good) (hplace : v.tree place = none) (rest : List ν) :
    v.tree (rest ++ place) = none := by
  cases rest with
  | nil => exact hplace
  | cons first rest =>
    exact v.tree_below (by rw [hplace]; nofun) (List.cons_ne_nil first rest)

theorem mem_children : name ∈ v.children dir ↔ v.tree (name :: dir) ≠ none := by
  rw [children, List.mem_dedup, List.mem_filterMap, tree, treeOf_of_ne (List.cons_ne_nil _ _),
    lookup_ne_none]
  constructor
  · rintro ⟨⟨place, node⟩, hmem, h⟩
    cases place with
    | nil => cases h
    | cons first parent =>
      dsimp only at h
      split at h
      · next hparent =>
        subst hparent
        cases h
        exact ⟨node, hmem⟩
      · cases h
  · rintro ⟨node, hmem⟩
    exact ⟨(name :: dir, node), hmem, if_pos rfl⟩

theorem mem_nodes_of_tree (hplace : place ≠ []) (h : v.tree place = some node) :
    (place, node) ∈ v.nodes := by
  rw [tree, treeOf_of_ne hplace, List.lookup_eq_some_iff] at h
  obtain ⟨front, back, hnodes, -⟩ := h
  rw [hnodes]
  exact List.mem_append_right _ List.mem_cons_self

theorem exists_depth (v : Volume ν β good) : ∃ depth, ∀ place : List ν, depth ≤ place.length →
    v.tree place = none := by
  have hbound : ∀ nodes : List (List ν × Node ν β),
      ∃ depth, ∀ entry ∈ nodes, entry.1.length < depth := by
    intro nodes
    induction nodes with
    | nil => exact ⟨0, nofun⟩
    | cons first nodes ih =>
      obtain ⟨depth, hdepth⟩ := ih
      refine ⟨max depth (first.1.length + 1), fun entry hmem => ?_⟩
      rcases List.mem_cons.mp hmem with rfl | hmem
      · exact Nat.lt_of_lt_of_le (Nat.lt_succ_self _) (Nat.le_max_right _ _)
      · exact Nat.lt_of_lt_of_le (hdepth entry hmem) (Nat.le_max_left _ _)
  obtain ⟨depth, hdepth⟩ := hbound v.nodes
  refine ⟨depth + 1, fun place hlength => ?_⟩
  by_contra hthere
  have hne : place ≠ [] := by
    rintro rfl
    cases hlength
  rw [tree, treeOf_of_ne hne] at hthere
  obtain ⟨node, hmem⟩ := lookup_ne_none.mp hthere
  have hless : place.length < depth := hdepth _ hmem
  omega

theorem nodup_children (v : Volume ν β good) (dir : List ν) : (v.children dir).Nodup :=
  List.nodup_dedup _

theorem tree_removeTree (hplace : place ≠ []) :
    (v.removeTree place).tree q = if place <:+ q then none else v.tree q := by
  rw [removeTree, dif_pos hplace]
  exact treeOf_dropTree hplace

theorem exists_entry_of_below (hbelow : Below place q) (hthere : v.tree q ≠ none) :
    ∃ name ∈ v.children place, name :: place <:+ q := by
  obtain ⟨⟨rest, rfl⟩, hne⟩ := hbelow
  cases rest using List.reverseRecOn with
  | nil => exact absurd rfl hne
  | append_singleton rest name =>
    rw [List.append_assoc] at hthere ⊢
    refine ⟨name, mem_children.mpr fun hnone => hthere ?_, List.suffix_append _ _⟩
    exact v.tree_append_of_none hnone rest

theorem tree_below_of_childless (h : ∀ name, v.tree (name :: place) = none)
    (hbelow : Below place q) : v.tree q = none := by
  by_contra hthere
  obtain ⟨name, hname, -⟩ := exists_entry_of_below hbelow hthere
  exact mem_children.mp hname (h name)

theorem tree_removeTree_of_childless (hplace : place ≠ [])
    (h : ∀ name, v.tree (name :: place) = none) :
    (v.removeTree place).tree = Function.update v.tree place none := by
  funext q
  rw [tree_removeTree hplace, Function.update_apply]
  by_cases heq : q = place
  · rw [if_pos heq, if_pos (heq ▸ List.suffix_rfl)]
  · rw [if_neg heq]
    split
    · next hq => exact (tree_below_of_childless h ⟨hq, heq⟩).symm
    · rfl

theorem tree_foldl_removeTree (v : Volume ν β good) (names : List ν) :
    (names.foldl (fun v name => v.removeTree (name :: dir)) v).tree q =
      if ∃ name ∈ names, name :: dir <:+ q then none else v.tree q := by
  induction names generalizing v with
  | nil => simp
  | cons first names ih =>
    rw [List.foldl_cons, ih, tree_removeTree (List.cons_ne_nil _ _)]
    by_cases hfirst : first :: dir <:+ q
    · rw [if_pos hfirst, ite_self, if_pos ⟨first, List.mem_cons_self, hfirst⟩]
    · rw [if_neg hfirst]
      refine if_congr ?_ rfl rfl
      simp [hfirst]

variable [DecidableEq β] [DecidablePred good]

theorem tree_put (hname : good name) (hdir : v.tree dir = some .directory)
    (hold : v.tree (name :: dir) ≠ some .directory) :
    (v.put name dir node).tree q = if q = name :: dir then some node else v.tree q := by
  rw [put, dif_pos ⟨hname, hdir, hold⟩]
  exact treeOf_cons (List.cons_ne_nil _ _)

theorem tree_moveTree (hname : good name) (hdir : v.tree dir = some .directory)
    (hsrc : ¬ src <:+ name :: dir) (hdest : ¬ name :: dir <:+ src) :
    (v.moveTree src name dir).tree q =
      if name :: dir <:+ q then v.tree (rebase (name :: dir) src q)
      else if src <:+ q then none
      else v.tree q := by
  rw [moveTree, dif_pos ⟨hname, hdir, hsrc, hdest⟩]
  exact treeOf_shiftTree hsrc hdest

/-! ## Volumes of which something was taken away -/

section Pruned

variable {p r : List ν → Prop} {w x : Volume ν β good}

/-- Something is gone where `p` holds, and nothing else has changed. -/
def Pruned (p : List ν → Prop) (v w : Volume ν β good) : Prop :=
  ∀ q, w.tree q = v.tree q ∨ p q ∧ w.tree q = none

omit [DecidableEq β] [DecidablePred good]

theorem Pruned.refl (p : List ν → Prop) (v : Volume ν β good) : Pruned p v v := fun _ => .inl rfl

theorem Pruned.trans (h : Pruned p v w) (h' : Pruned p w x) : Pruned p v x := by
  intro q
  rcases h' q with heq | hgone
  · rw [heq]
    exact h q
  · exact .inr hgone

theorem Pruned.mono (h : Pruned p v w) (hp : ∀ q, p q → r q) : Pruned r v w := fun q =>
  (h q).imp_right fun ⟨hq, hnone⟩ => ⟨hp q hq, hnone⟩

theorem Pruned.outside (h : Pruned p v w) (hq : ¬ p q) : w.tree q = v.tree q :=
  (h q).resolve_right fun hgone => hq hgone.1

theorem Pruned.eq_or_none (h : Pruned p v w) (q : List ν) :
    w.tree q = v.tree q ∨ w.tree q = none :=
  (h q).imp_right And.right

theorem Pruned.none (h : Pruned p v w) (hq : v.tree q = none) : w.tree q = none := by
  rcases h q with heq | hgone
  · rw [heq, hq]
  · exact hgone.2

theorem pruned_removeTree (hplace : place ≠ []) : Pruned (place <:+ ·) v (v.removeTree place) := by
  intro q
  rw [tree_removeTree hplace]
  split
  · next h => exact .inr ⟨h, rfl⟩
  · exact .inl rfl

theorem children_eq_nil_iff : v.children dir = [] ↔ ∀ name, v.tree (name :: dir) = none := by
  rw [List.eq_nil_iff_forall_not_mem]
  exact forall_congr' fun name => by rw [mem_children, not_not]

end Pruned

/-! ## Volumes without links -/

/-- There are only directories and files. -/
def Plain (v : Volume ν β good) : Prop := ∀ place route, v.tree place ≠ some (.link route)

omit [DecidableEq β] [DecidablePred good] in
theorem Plain.empty : Plain (Volume.empty : Volume ν β good) := by
  intro place route h
  by_cases hplace : place = []
  · subst hplace
    cases h
  · rw [tree, treeOf_of_ne hplace] at h
    cases h

theorem Plain.put (h : Plain v) (hnode : ∀ route, node ≠ .link route) (name : ν) (dir : List ν) :
    Plain (v.put name dir node) := by
  intro place route hlink
  by_cases hput : good name ∧ v.tree dir = some .directory ∧ v.tree (name :: dir) ≠ some .directory
  · rw [tree_put hput.1 hput.2.1 hput.2.2] at hlink
    split at hlink
    · exact hnode route (Option.some.inj hlink)
    · exact h place route hlink
  · rw [Volume.put, dif_neg hput] at hlink
    exact h place route hlink

end Volume

end FileApi
