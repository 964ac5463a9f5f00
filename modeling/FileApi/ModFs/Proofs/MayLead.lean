import FileApi.Misc.OpenTree
import FileApi.ModFs.Proofs.Regions

/-!
# What comes to be beside a directory

Where paths lead while files and directories come to be beside a directory that stays as it is: to
the place that they may lead to from the start on, if anywhere.
-/

namespace FileApi.ModFs

open Compress FileTree

variable {sys : System} {o v v' w : FileVolume} {path name : PathName} {S place : List PathName}

namespace System

/-- The place a path may lead to when files and directories come to be. -/
def MayLead (sys : System) (v : FileVolume) (path : PathName) (place : List PathName) : Prop :=
  lookupAt (opened v.tree) sys.cwd sys.limit path = .there place

/-- The place that the last name of a path may have then. -/
def MayName (sys : System) (v : FileVolume) (path : PathName) (place : List PathName) : Prop :=
  entryAt (opened v.tree) sys.cwd sys.limit path = some place

instance : Decidable (MayLead sys v path place) := inferInstanceAs (Decidable (_ = _))

theorem MayLead.unique {p q : List PathName} (h : MayLead sys v path p)
    (h' : MayLead sys v path q) : p = q := by
  cases Eq.trans (Eq.symm h) h'
  rfl

theorem lookup_place (h : (sys.lookup v path).place? = some place) :
    path ≠ [] ∧ (lookupAt v.tree sys.cwd sys.limit path).place? = some place := by
  have hne : path ≠ [] := by
    rintro rfl
    cases h
  rw [lookup_of_ne hne] at h
  exact ⟨hne, h⟩

theorem MayLead.child (h : MayLead sys v path place) (hpath : path ≠ [])
    (hplace : ∀ route, v.tree place ≠ some (.link route)) (hname : PlainName name)
    (hlink : ∀ route, v.tree (name :: place) ≠ some (.link route)) :
    MayLead sys v (path ++ slash :: name) (name :: place) := by
  unfold MayLead lookupAt
  rw [routeOf_child hpath hname]
  refine walk_append h (opened_of_not_link hplace) fun again => ?_
  rw [walkWith, opened_of_not_link hlink]
  rfl

end System

open FileApi.ModFs.System

/-! ## Beside a directory -/

/-- No links have come to be, no directories where links were, and nothing is changed in a directory. -/
structure Beside (S : List PathName) (o v : FileVolume) : Prop where
  grown : Grown o.tree v.tree
  inside : ∀ rest, v.tree (rest ++ S) = o.tree (rest ++ S)

namespace Beside

theorem mayLead (h : Beside S o v) (hlookup : (sys.lookup v path).place? = some place) :
    MayLead sys o path place ∨
      ∃ route, o.tree place = some (.link route) ∧ v.tree place ≠ some (.link route) :=
  walk_grown h.grown (lookup_place hlookup).2

theorem removed (h : Beside S o v) (hplace : ¬ S <:+ place)
    (htree : ∀ q, v'.tree q = if q = place then none else v.tree q) : Beside S o v' where
  grown := by
    refine ⟨fun q route hq => ?_, fun q route hq => ?_⟩
    · rw [htree] at hq
      split at hq
      · cases hq
      · exact h.grown.link q route hq
    · rw [htree] at hq
      split at hq
      · cases hq
      · exact h.grown.directory q route hq
  inside rest := by
    rw [htree, if_neg, h.inside]
    rintro rfl
    exact hplace (List.suffix_append rest S)

end Beside

/-! ## What is made -/

/-- What may come to be at a place: nothing in the source, no link, and no directory where a link
is. -/
structure MakeRule (o : FileVolume) (S : List PathName)
    (made : List PathName → FileNode → Prop) : Prop where
  outside : ∀ q node, made q node → ¬ S <:+ q
  link : ∀ q route, ¬ made q (.link route)
  directory : ∀ q route, made q .directory → o.tree q ≠ some (.link route)

variable {made : List PathName → FileNode → Prop}

/-- Nothing is changed but where something has been made. -/
def Made (made : List PathName → FileNode → Prop) (o v : FileVolume) : Prop :=
  ∀ q, v.tree q = o.tree q ∨ ∃ node, v.tree q = some node ∧ made q node

/-- What is there was there or has been made. -/
def Created (made : List PathName → FileNode → Prop) (o v : FileVolume) : Prop :=
  ∀ q node, v.tree q = some node → o.tree q = some node ∨ made q node

namespace Made

theorem refl (made : List PathName → FileNode → Prop) (o : FileVolume) : Made made o o :=
  fun _ => .inl rfl

theorem created (h : Made made o v) : Created made o v := by
  intro q node hnode
  rcases h q with hsame | ⟨node', hnode', hmade⟩
  · exact .inl (hsame ▸ hnode)
  · cases hnode.symm.trans hnode'
    exact .inr hmade

theorem none (h : Made made o v) (hnone : v.tree place = none) : o.tree place = none := by
  rcases h place with hsame | ⟨node, hnode, -⟩
  · exact hsame ▸ hnone
  · exact nomatch hnone.symm.trans hnode

theorem beside (rule : MakeRule o S made) (h : Made made o v) : Beside S o v where
  grown := by
    refine ⟨fun q route hq => ?_, fun q route hq => ?_⟩
    · rcases h q with hsame | ⟨node, hnode, hmade⟩
      · exact hsame ▸ hq
      · cases hq.symm.trans hnode
        exact absurd hmade (rule.link q route)
    · rcases h q with hsame | ⟨node, hnode, hmade⟩
      · rw [← hsame, hq]
        nofun
      · cases hq.symm.trans hnode
        exact rule.directory q route hmade
  inside rest := by
    rcases h (rest ++ S) with hsame | ⟨node, -, hmade⟩
    · exact hsame
    · exact absurd (List.suffix_append rest S) (rule.outside _ _ hmade)

theorem make {node : FileNode} (h : Made made o v) (hmade : made place node)
    (htree : ∀ q, v'.tree q = if q = place then some node else v.tree q) : Made made o v' := by
  intro q
  rw [htree]
  split
  · next heq => exact .inr ⟨node, rfl, heq ▸ hmade⟩
  · exact h q

theorem mayLead (rule : MakeRule o S made) (h : Made made o v)
    (hlookup : (sys.lookup v path).place? = some place) :
    MayLead sys o path place ∨ ∃ route bytes, o.tree place = some (.link route) ∧
      v.tree place = some (.file bytes) ∧ made place (.file bytes) := by
  refine ((h.beside rule).mayLead hlookup).imp_right ?_
  rintro ⟨route, hlink, hgone⟩
  rcases h place with hsame | ⟨node, hnode, hmade⟩
  · exact absurd (hsame.trans hlink) hgone
  · cases node with
    | directory => exact absurd hlink (rule.directory place route hmade)
    | file bytes => exact ⟨route, bytes, hlink, hnode, hmade⟩
    | link route' => exact absurd hmade (rule.link place route')

end Made

/-! ## Copies of a directory -/

variable {src dest : PathName} {rest : List PathName}

/-- How a part of a copy ends early. -/
def EndsEarly (made : List PathName → FileNode → Prop) (o : FileVolume) (deep : Prop) (stop : Stop)
    (v : FileVolume) : Prop :=
  Created made o v ∧ (stop = .fuel → deep)

theorem pathBelow_ne_nil (hpath : dest ≠ []) (rest : List PathName) : pathBelow dest rest ≠ [] := by
  cases rest with
  | nil => exact hpath
  | cons first rest => simp [pathBelow]

theorem plainName_of_node {node : FileNode} (h : o.tree (name :: rest ++ S) = some node) :
    PlainName name := by
  have hthere : o.tree (name :: rest ++ S) ≠ none := by
    rw [h]
    nofun
  exact plainName_of_tree hthere name List.mem_cons_self

/-- A source directory without links on the way to it from the source on, and paths to it and to its
target. -/
structure SourceDir (sys : System) (o : FileVolume) (src dest : PathName) (S rest : List PathName) :
    Prop where
  src_ne : src ≠ []
  dest_ne : dest ≠ []
  leads : MayLead sys o (pathBelow src rest) (rest ++ S)
  directory : o.tree (rest ++ S) = some .directory

theorem SourceDir.child (h : SourceDir sys o src dest S rest)
    (hdir : o.tree (name :: rest ++ S) = some .directory) :
    SourceDir sys o src dest S (name :: rest) where
  src_ne := h.src_ne
  dest_ne := h.dest_ne
  leads := by
    refine h.leads.child (pathBelow_ne_nil h.src_ne rest) (fun route => ?_) (plainName_of_node hdir)
      fun route => ?_
    · rw [h.directory]
      nofun
    · rw [show o.tree (name :: (rest ++ S)) = _ from hdir]
      nofun
  directory := hdir

end FileApi.ModFs
