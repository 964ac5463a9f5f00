import FileApi.ModFs.Proofs.FileSystem

/-!
# Changes in a region

What the calls change in a volume, and where paths lead while a region of it is changed. A region
without links can hide where a path leads, but it cannot lead the path to another place.
-/

namespace FileApi.ModFs

open Compress FileTree

variable {sys : System} {v v' w : FileVolume} {path name : PathName}
  {place : List PathName}

namespace System

/-! ## What calls change -/

variable {e : List PathName}

theorem entry_eq_some (h : sys.entry v path = some e) :
    path ≠ [] ∧ entryAt v.tree sys.cwd sys.limit path = some e := by
  unfold entry at h
  split at h
  · cases h
  · next hpath => exact ⟨(not_or.mp hpath).1, h⟩

theorem entry_named (h : sys.entry v path = some e) :
    ∃ name dir, e = name :: dir ∧ PlainName name ∧ v.tree dir = some .directory := by
  obtain ⟨front, name, dir, hsplit, -, hdir, rfl⟩ := FileTree.entry_eq_some (entry_eq_some h).2
  obtain ⟨back, -, hsteps⟩ := splitLastName_eq_some hsplit
  have hdown : .down name ∈ (routeOf path).steps := by
    rw [hsteps]
    exact List.mem_append_right _ List.mem_cons_self
  exact ⟨name, dir, rfl, plainName_of_down hdown, tree_of_isDirectory Volume.tree_root hdir⟩

theorem found_eq_some {node : FileNode} (h : sys.found v path = some node) :
    ∃ place, sys.lookup v path = .there place ∧ v.tree place = some node := by
  unfold found at h
  split at h
  · next place hlookup => exact ⟨place, hlookup, h⟩
  · cases h

theorem createDirectory_cases {result : Except Errno Bool}
    (h : sys.createDirectory v path = (result, v')) :
    v' = v ∧ (∀ made, result = .ok made → made = false ∧ sys.found v path = some .directory) ∨
      ∃ e, result = .ok true ∧ sys.entry v path = some e ∧ v.tree e = none ∧
        ∀ q, v'.tree q = if q = e then some .directory else v.tree q := by
  unfold createDirectory at h
  split at h
  · cases h
    exact .inl ⟨rfl, nofun⟩
  · split at h
    · next hfound =>
      cases h
      exact .inl ⟨rfl, fun made hmade => ⟨(Except.ok.inj hmade).symm, hfound⟩⟩
    · cases h
      exact .inl ⟨rfl, nofun⟩
    · split at h
      · next name dir hentry =>
        split at h
        · next hnone =>
          cases h
          obtain ⟨name', dir', heq, hname, hdir⟩ := entry_named hentry
          cases heq
          refine .inr ⟨_, rfl, hentry, hnone, fun q => ?_⟩
          exact Volume.tree_put hname hdir (by rw [hnone]; nofun)
        · cases h
          exact .inl ⟨rfl, nofun⟩
      · cases h
        exact .inl ⟨rfl, nofun⟩

theorem tree_remove_childless (he : e ≠ []) (hempty : ∀ name, v.tree (name :: e) = none)
    (q : List PathName) :
    (v.removeTree e).tree q = if q = e then none else v.tree q := by
  rw [Volume.tree_removeTree he]
  by_cases hq : q = e
  · rw [if_pos hq, if_pos (hq ▸ List.suffix_rfl)]
  · rw [if_neg hq]
    split
    · next hsuffix =>
      obtain ⟨rest, rfl⟩ := hsuffix
      rcases List.eq_nil_or_concat rest with rfl | ⟨front, name, rfl⟩
      · exact absurd rfl hq
      · rw [List.concat_eq_append, List.append_assoc]
        exact (v.tree_append_of_none (hempty name) front).symm
    · rfl

theorem remove_cases {result : Except Errno Bool} (h : sys.remove v path = (result, v')) :
    v' = v ∧ (result = .error .eexist → sys.fails .remove path = some .eexist) ∧
        result ≠ .ok true ∨
      ∃ e, result = .ok true ∧ sys.entry v path = some e ∧ v.tree e ≠ none ∧
        ∀ q, v'.tree q = if q = e then none else v.tree q := by
  unfold remove at h
  split at h
  · next errno hfails =>
    cases h
    exact .inl ⟨rfl, fun heq => Except.error.inj heq ▸ hfails, nofun⟩
  · split at h
    · next e hentry =>
      obtain ⟨name, dir, rfl, -, -⟩ := entry_named hentry
      split at h
      · cases h
        exact .inl ⟨rfl, nofun, nofun⟩
      · next hnode =>
        split at h
        · next hempty =>
          cases h
          refine .inr ⟨_, rfl, hentry, by rw [hnode]; nofun, ?_⟩
          exact tree_remove_childless (List.cons_ne_nil _ _) (Volume.children_eq_nil_iff.mp hempty)
        · cases h
          exact .inl ⟨rfl, nofun, nofun⟩
      · next node hdir hnode =>
        cases h
        refine .inr ⟨_, rfl, hentry, by rw [hnode]; nofun, ?_⟩
        refine tree_remove_childless (List.cons_ne_nil _ _) fun first => ?_
        show v.tree ([first] ++ name :: dir) = none
        refine v.tree_below ?_ (List.cons_ne_nil _ _)
        rw [hnode]
        exact fun heq => hdir (Option.some.inj heq)
    · split at h
      · cases h
        exact .inl ⟨rfl, nofun, nofun⟩
      · cases h
        exact .inl ⟨rfl, nofun, nofun⟩

theorem lookup_child_inv {p : List PathName} (hpath : path ≠ []) (hname : PlainName name)
    (h : (sys.lookup v (path ++ slash :: name)).place? = some p) :
    ∃ place, sys.lookup v path = .there place ∧
      ((∀ route, v.tree (name :: place) ≠ some (.link route)) → p = name :: place) ∧
        (v.tree (name :: place) = none →
          sys.lookup v (path ++ slash :: name) = .missing (name :: place)) := by
  have hroute : sys.lookup v (path ++ slash :: name) = walk v.tree true sys.limit
      ((routeOf path).start sys.cwd) ((routeOf path).steps ++ [Step.down name]) := by
    rw [lookup_of_ne (by simp), lookupAt, routeOf_child hpath hname]
    rfl
  rw [hroute] at h ⊢
  have hsome : walk v.tree true sys.limit ((routeOf path).start sys.cwd)
      ((routeOf path).steps ++ [Step.down name]) ≠ .nowhere := by
    intro hnowhere
    rw [hnowhere] at h
    cases h
  obtain ⟨place, again, hwalk, hchild⟩ := walk_append_down hsome
  rw [hchild] at h ⊢
  refine ⟨place, (lookup_of_ne hpath).trans hwalk, fun hlink => ?_, fun hnone => ?_⟩
  · rw [walkWith] at h
    cases hnode : v.tree (name :: place) with
    | none =>
      rw [hnode] at h
      exact (Option.some.inj h).symm
    | some node =>
      rw [hnode] at h
      cases node with
      | directory => exact (Option.some.inj h).symm
      | file bytes => exact (Option.some.inj h).symm
      | link route => exact absurd hnode (hlink route)
  · rw [walkWith, hnone]
    rfl

theorem entry_child_inv (hpath : path ≠ []) (hname : PlainName name)
    (h : sys.entry v (path ++ slash :: name) = some e) :
    ∃ place, sys.lookup v path = .there place ∧ e = name :: place := by
  have hentry := (entry_eq_some h).2
  rw [entryAt, routeOf_child hpath hname] at hentry
  obtain ⟨front, last, place, hsplit, hwalk, -, rfl⟩ := FileTree.entry_eq_some hentry
  rw [splitLastName_append_down] at hsplit
  cases hsplit
  exact ⟨place, (lookup_of_ne hpath).trans hwalk, rfl⟩

end System

/-! ## Regions -/

/-- Nothing is changed outside a region, and there are no links in it. -/
structure Within (region : List PathName → Prop) (v v' : FileVolume) : Prop where
  outside : ∀ q, ¬ region q → v'.tree q = v.tree q
  plain : ∀ q route, region q → v'.tree q ≠ some (.link route)

/-- A path leads to no other place, whatever happens in a region. -/
structure Sole (sys : System) (region : List PathName → Prop) (v : FileVolume) (path : PathName)
    (place : List PathName) : Prop where
  ne_nil : path ≠ []
  unique : ∀ ⦃v' : FileVolume⦄, Within region v v' → ∀ ⦃place' : List PathName⦄,
    (sys.lookup v' path).place? = some place' → place' = place

/-- A path names no other place, whatever happens in a region. -/
structure SoleName (sys : System) (region : List PathName → Prop) (v : FileVolume)
    (path : PathName) (place : List PathName) : Prop extends Sole sys region v path place where
  entry : ∀ ⦃v' : FileVolume⦄, Within region v v' → ∀ ⦃e : List PathName⦄,
    sys.entry v' path = some e → e = place

variable {region : List PathName → Prop}

namespace Sole

theorem there (h : Sole sys region v path place) (hv' : Within region v v') {p : List PathName}
    (hlookup : sys.lookup v' path = .there p) : p = place :=
  h.unique hv' (by rw [hlookup]; rfl)

theorem found (h : Sole sys region v path place) (hv' : Within region v v') {node : FileNode}
    (hfound : sys.found v' path = some node) : v'.tree place = some node := by
  obtain ⟨p, hlookup, hnode⟩ := System.found_eq_some hfound
  exact h.there hv' hlookup ▸ hnode

theorem childName (h : Sole sys region v path place) (hname : PlainName name)
    (hlink : ∀ route, ¬ region (name :: place) → v.tree (name :: place) ≠ some (.link route)) :
    SoleName sys region v (path ++ slash :: name) (name :: place) where
  ne_nil := by simp
  unique v' hv' p hp := by
    obtain ⟨parent, hparent, hp, -⟩ := System.lookup_child_inv h.ne_nil hname hp
    cases h.there hv' hparent
    refine hp fun route hroute => ?_
    by_cases hregion : region (name :: place)
    · exact hv'.plain _ route hregion hroute
    · exact hlink route hregion ((hv'.outside _ hregion).symm.trans hroute)
  entry v' hv' e he := by
    obtain ⟨parent, hparent, rfl⟩ := System.entry_child_inv h.ne_nil hname he
    rw [h.there hv' hparent]

end Sole

/-! ## Directories that are kept -/

/-- The directories and the links of a volume are in another one. -/
def Kept (v v' : FileVolume) : Prop :=
  ∀ q node, v.tree q = some node → (∀ bytes, node ≠ .file bytes) → v'.tree q = some node

namespace Kept

theorem refl (v : FileVolume) : Kept v v := fun _ _ h _ => h

theorem trans (h : Kept v v') (h' : Kept v' w) : Kept v w :=
  fun q node hnode hfile => h' q node (h q node hnode hfile) hfile

theorem lookup (h : Kept v v') (hpath : sys.lookup v path = .there place)
    (hdir : v.tree place = some .directory) : sys.lookup v' path = .there place := by
  have hne := System.ne_nil_of_lookup hpath
  rw [System.lookup_of_ne hne] at hpath ⊢
  refine walk_keeps h (fun node hnode => ?_) hpath
  cases hdir.symm.trans hnode
  exact h place _ hdir nofun

theorem entry (h : Kept v v') (hentry : sys.entry v path = some place) :
    sys.entry v' path = some place := by
  have hplace := (System.entry_eq_some hentry).2
  unfold System.entry at hentry ⊢
  split at hentry
  · cases hentry
  · next hpath =>
    rw [if_neg hpath]
    exact entry_keeps Volume.tree_root h hplace

end Kept

namespace System.Works

variable {bytes : List UInt8}

end System.Works

/-! ## Sources and targets -/

variable {o : FileVolume} {src dest : PathName} {S T : List PathName}

/-- The target of a directory or a file of a source. -/
def TargetPlace (v : FileVolume) (S T q : List PathName) : Prop :=
  ∃ rest node, v.tree (rest ++ S) = some node ∧ (∀ route, node ≠ .link route) ∧ q = rest ++ T

theorem TargetPlace.of_child {q : List PathName} (h : TargetPlace v (name :: S) (name :: T) q) :
    TargetPlace v S T q := by
  obtain ⟨rest, node, hnode, hlink, rfl⟩ := h
  exact ⟨rest ++ [name], node, by rwa [List.append_assoc], hlink, by rw [List.append_assoc]; rfl⟩

/-- No target is in the source, and none is a link. -/
structure TargetsClear (v : FileVolume) (S T : List PathName) : Prop where
  apart : ∀ q, TargetPlace v S T q → ¬ S <:+ q
  plain : ∀ q route, TargetPlace v S T q → v.tree q ≠ some (.link route)

namespace TargetsClear

theorem child (h : TargetsClear v S T) : TargetsClear v (name :: S) (name :: T) where
  apart q hq hs := h.apart q hq.of_child ((List.suffix_cons name S).trans hs)
  plain q route hq := h.plain q route hq.of_child

theorem after (h : TargetsClear v S T) (hsource : ∀ rest, v'.tree (rest ++ S) = v.tree (rest ++ S))
    (hplain : ∀ q, (∀ route, v.tree q ≠ some (.link route)) →
      ∀ route, v'.tree q ≠ some (.link route)) : TargetsClear v' S T := by
  have hplace : ∀ q, TargetPlace v' S T q → TargetPlace v S T q := by
    rintro q ⟨rest, node, hnode, hlink, hq⟩
    exact ⟨rest, node, (hsource rest).symm.trans hnode, hlink, hq⟩
  refine ⟨fun q hq => h.apart q (hplace q hq), fun q route hq => ?_⟩
  exact hplain q (fun route => h.plain q route (hplace q hq)) route

end TargetsClear

/-- Paths that lead to a source and to a target, if anywhere, whatever is changed in a region; the
targets are in it and the source is not. -/
structure PathPair (sys : System) (region : List PathName → Prop) (o : FileVolume)
    (src dest : PathName) (S T : List PathName) : Prop where
  src : Sole sys region o src S
  dest : Sole sys region o dest T
  source : ∀ rest, ¬ region (rest ++ S)
  target : ∀ rest, o.tree (rest ++ S) ≠ none → region (rest ++ T)

namespace PathPair

theorem destName (h : PathPair sys region o src dest S T) (hname : PlainName name)
    (hthere : o.tree (name :: S) ≠ none) :
    SoleName sys region o (dest ++ slash :: name) (name :: T) :=
  h.dest.childName hname fun _ hregion => absurd (h.target [name] hthere) hregion

theorem child (h : PathPair sys region o src dest S T) (hname : PlainName name)
    (hthere : o.tree (name :: S) ≠ none) (hlink : ∀ route, o.tree (name :: S) ≠ some (.link route)) :
    PathPair sys region o (src ++ slash :: name) (dest ++ slash :: name) (name :: S)
      (name :: T) where
  src := (h.src.childName hname fun route _ => hlink route).toSole
  dest := (h.destName hname hthere).toSole
  source rest := by
    have hsource := h.source (rest ++ [name])
    rwa [List.append_assoc] at hsource
  target rest hrest := by
    have htarget := h.target (rest ++ [name])
    rw [List.append_assoc, List.append_assoc] at htarget
    exact htarget hrest

end PathPair

/-- There is something in the source as deep as that. -/
def Deep (o : FileVolume) (S : List PathName) (depth : Nat) : Prop :=
  ∃ rest, depth ≤ rest.length ∧ o.tree (rest ++ S) ≠ none

theorem Deep.of_child {depth : Nat} (h : Deep o (name :: S) depth) : Deep o S (depth + 1) := by
  obtain ⟨rest, hlength, hthere⟩ := h
  refine ⟨rest ++ [name], ?_, ?_⟩
  · rw [List.length_append]
    exact Nat.succ_le_succ hlength
  · rw [List.append_assoc]
    exact hthere

/-! ## Changes below a target -/

/-- What may happen at a place, with what there is at its source, before and after. What has no source
stays, and nothing becomes a link. -/
structure ChangeRule (change : Option FileNode → Option FileNode → Option FileNode → Prop) :
    Prop where
  refl : ∀ source before, change source before before
  trans : ∀ {source a b c}, change source a b → change source b c → change source a c
  eq_of_none : ∀ {before after}, change none before after → after = before
  eq_or_ne_link : ∀ {source before after}, change source before after →
    after = before ∨ ∀ route, after ≠ some (.link route)

variable {change : Option FileNode → Option FileNode → Option FileNode → Prop}

/-- What a copy from `S` to `T` may have changed, however it ended; `o` has the source. -/
structure Changes (change : Option FileNode → Option FileNode → Option FileNode → Prop)
    (o v v' : FileVolume) (S T : List PathName) : Prop where
  inside : ∀ rest, change (o.tree (rest ++ S)) (v.tree (rest ++ T)) (v'.tree (rest ++ T))
  outside : ∀ q, ¬ T <:+ q → v'.tree q = v.tree q

namespace Changes

variable (rule : ChangeRule change)
include rule

theorem refl (o v : FileVolume) (S T : List PathName) : Changes change o v v S T :=
  ⟨fun _ => rule.refl _ _, fun _ _ => rfl⟩

theorem trans (h : Changes change o v v' S T) (h' : Changes change o v' w S T) :
    Changes change o v w S T :=
  ⟨fun rest => rule.trans (h.inside rest) (h'.inside rest),
    fun q hq => (h'.outside q hq).trans (h.outside q hq)⟩

theorem of_child (h : Changes change o v v' (name :: S) (name :: T)) : Changes change o v v' S T := by
  refine ⟨fun rest => ?_, fun q hq => h.outside q fun hs => hq ((List.suffix_cons _ _).trans hs)⟩
  by_cases hs : name :: T <:+ rest ++ T
  · obtain ⟨front, hfront⟩ := hs
    have hrest : rest = front ++ [name] :=
      List.append_cancel_right (hfront.symm.trans (by rw [List.append_assoc]; rfl))
    have hinside := h.inside front
    rw [hrest, List.append_assoc, List.append_assoc]
    exact hinside
  · rw [h.outside _ hs]
    exact rule.refl _ _

theorem within (h : Changes change o v v' S T)
    (htarget : ∀ rest, o.tree (rest ++ S) ≠ none → region (rest ++ T)) (hv : Within region o v) :
    Within region o v' := by
  refine ⟨fun q hq => ?_, fun q route hq => ?_⟩
  · by_cases hT : T <:+ q
    · obtain ⟨rest, rfl⟩ := hT
      have hnone : o.tree (rest ++ S) = none := by
        by_contra hthere
        exact hq (htarget rest hthere)
      have hchange := h.inside rest
      rw [hnone] at hchange
      rw [rule.eq_of_none hchange, hv.outside _ hq]
    · rw [h.outside q hT, hv.outside q hq]
  · by_cases hT : T <:+ q
    · obtain ⟨rest, rfl⟩ := hT
      rcases rule.eq_or_ne_link (h.inside rest) with heq | hne
      · rw [heq]
        exact hv.plain _ route hq
      · exact hne route
    · rw [h.outside q hT]
      exact hv.plain q route hq

end Changes

end FileApi.ModFs
