import FileApi.Compress.Proofs.OutputPath
import FileApi.ModFs.Proofs.FileSystem
import FileApi.ModFs.Proofs.RealPath
import FileApi.Swapfs.TreeRemoval

/-!
# The removal of a session's tree stays inside, and the marker goes last

A removal takes nodes away at the place it is about and nowhere else, in all its states. In a
directory with a marker that is seen everything else goes first; what is left then is found by a
later clean, which finishes.
-/

namespace FileApi.Swapfs

open Compress FileTree ModFs Volume

/-! ## Trails -/

/-- The volumes from one trail to a later one, of which something holds. -/
def Trail.Goes (P : FileVolume → Prop) (t t' : Trail) : Prop :=
  P t'.now ∧ ∃ passed, t'.past = passed ++ t.past ∧ ∀ u ∈ passed, P u

namespace Trail.Goes

variable {P Q : FileVolume → Prop} {t t' t'' : Trail}

theorem refl (h : P t.now) : t.Goes P t := ⟨h, [], rfl, nofun⟩

theorem trans (h : t.Goes P t') (h' : t'.Goes P t'') : t.Goes P t'' := by
  obtain ⟨-, passed, hpast, hpassed⟩ := h
  obtain ⟨hnow, later, hpast', hlater⟩ := h'
  refine ⟨hnow, later ++ passed, by rw [hpast', hpast, List.append_assoc], fun u hu => ?_⟩
  rcases List.mem_append.mp hu with hu | hu
  · exact hlater u hu
  · exact hpassed u hu

theorem mono (h : t.Goes P t') (hPQ : ∀ u, P u → Q u) : t.Goes Q t' := by
  obtain ⟨hnow, passed, hpast, hpassed⟩ := h
  exact ⟨hPQ _ hnow, passed, hpast, fun u hu => hPQ u (hpassed u hu)⟩

theorem remove {place : List PathName} (h : P t.now) (hgone : P (t.now.removeTree place)) :
    t.Goes P (t.remove place) :=
  ⟨hgone, [t.now], rfl, fun _ hu => List.mem_singleton.mp hu ▸ h⟩

end Trail.Goes

/-- Something is gone where `p` holds, in all volumes on the way. -/
def Trail.Prunes (p : List PathName → Prop) (t t' : Trail) : Prop := t.Goes (Pruned p t.now) t'

namespace Trail.Prunes

variable {p r : List PathName → Prop} {t t' t'' : Trail}

theorem refl (p : List PathName → Prop) (t : Trail) : t.Prunes p t := Goes.refl (Pruned.refl p t.now)

theorem trans (h : t.Prunes p t') (h' : t'.Prunes p t'') : t.Prunes p t'' :=
  Goes.trans h (Goes.mono h' fun _ hu => h.1.trans hu)

theorem mono (h : t.Prunes p t') (hp : ∀ q, p q → r q) : t.Prunes r t' :=
  Goes.mono h fun _ hu => hu.mono hp

theorem remove {place : List PathName} (hplace : place ≠ []) :
    t.Prunes (place <:+ ·) (t.remove place) :=
  Goes.remove (Pruned.refl _ _) (pruned_removeTree hplace)

end Trail.Prunes

/-! ## Entries -/

variable {v : FileVolume}

namespace RemovalSystem

variable {sys : RemovalSystem} {dir parent place : List PathName} {name : PathName}
  {t t' : Trail} {entryAt : PathName → Trail → Bool × Trail} {levels : Nat}

theorem unlinkEntry_prunes (hplace : place ≠ []) :
    t.Prunes (place <:+ ·) (sys.unlinkEntry place t).2 := by
  unfold unlinkEntry
  split
  · exact .refl _ _
  · exact .remove hplace

theorem rmdirEntry_prunes (hplace : place ≠ []) :
    t.Prunes (place <:+ ·) (sys.rmdirEntry place t).2 := by
  unfold rmdirEntry
  split
  · exact .refl _ _
  · exact .remove hplace

/-- What `RemoveEntryAt` is to do with each entry of a directory. -/
def EntryPrunes (entryAt : PathName → Trail → Bool × Trail) (dir : List PathName) : Prop :=
  ∀ (name : PathName) (t : Trail), t.Prunes (name :: dir <:+ ·) (entryAt name t).2

theorem keepMarker_eq_true :
    sys.keepMarker dir name v = true ↔ name = sessionMarker ∧
      sys.failsAt .markerStat (name :: dir) = none ∧ ∃ bytes, v.tree (name :: dir) = some (.file bytes) := by
  unfold keepMarker
  cases v.tree (name :: dir) with
  | none => simp
  | some node => cases node <;> simp

theorem removeEntries_prunes (sys : RemovalSystem) (hentry : EntryPrunes entryAt dir) (names : List PathName)
    (removed : Bool) (t : Trail) :
    t.Prunes (fun q => Below dir q ∧ (sys.keepMarker dir sessionMarker t.now = true →
      ¬ sessionMarker :: dir <:+ q)) (sys.removeEntries entryAt dir names (removed, t)).2 := by
  induction names generalizing removed t with
  | nil => exact .refl _ _
  | cons name names ih =>
    rw [removeEntries]
    split
    · exact ih removed t
    · next hkeep =>
      have hfirst : t.Prunes (fun q => Below dir q ∧ (sys.keepMarker dir sessionMarker t.now = true →
          ¬ sessionMarker :: dir <:+ q)) (entryAt name t).2 := by
        refine (hentry name t).mono fun q hq => ⟨below_of_cons hq, fun hmarker hmq => hkeep ?_⟩
        rw [eq_of_suffix hq hmq]
        exact hmarker
      refine hfirst.trans ((ih (removed && (entryAt name t).1) (entryAt name t).2).mono fun q hq =>
        ⟨hq.1, fun hmarker => hq.2 ?_⟩)
      obtain ⟨-, hstat, bytes, hfile⟩ := keepMarker_eq_true.mp hmarker
      refine keepMarker_eq_true.mpr ⟨rfl, hstat, bytes, ?_⟩
      rw [hfirst.1.outside fun hq => hq.2 hmarker List.suffix_rfl, hfile]

/-- The files of a directory are gone but for a marker that is there. -/
def Emptied (dir : List PathName) (names : List PathName) (v : FileVolume) : Prop :=
  ∀ name ∈ names, v.tree (name :: dir) = none ∨
    name = sessionMarker ∧ ∃ bytes, v.tree (name :: dir) = some (.file bytes)

theorem removeEntries_emptied (hentry : EntryPrunes entryAt dir)
    (hgone : ∀ name t t', entryAt name t = (true, t') → t'.now.tree (name :: dir) = none)
    {names : List PathName} {removed : Bool}
    (h : sys.removeEntries entryAt dir names (removed, t) = (true, t')) :
    removed = true ∧ Emptied dir names t'.now := by
  induction names generalizing removed t with
  | nil =>
    cases h
    exact ⟨rfl, nofun⟩
  | cons name names ih =>
    rw [removeEntries] at h
    have hrest := fun removed t => (removeEntries_prunes sys hentry names removed t).1
    split at h
    · next hkeep =>
      obtain ⟨hname, -, bytes, hfile⟩ := keepMarker_eq_true.mp hkeep
      obtain ⟨hremoved, hempty⟩ := ih h
      refine ⟨hremoved, List.forall_mem_cons.mpr ⟨?_, hempty⟩⟩
      have hlater := hrest removed t
      rw [h] at hlater
      rcases hlater.eq_or_none (name :: dir) with heq | hnone
      · exact .inr ⟨hname, bytes, heq.trans hfile⟩
      · exact .inl hnone
    · obtain ⟨hboth, hempty⟩ := ih h
      rw [Bool.and_eq_true] at hboth
      refine ⟨hboth.1, List.forall_mem_cons.mpr ⟨.inl ?_, hempty⟩⟩
      have hlater := hrest (removed && (entryAt name t).1) (entryAt name t).2
      rw [h] at hlater
      exact hlater.none (hgone name t _ (Prod.ext hboth.2 rfl))

/-! ## Directories -/

/-- A marker stays as long as anything is in its directory. -/
def MarkerLast (dir : List PathName) (v u : FileVolume) : Prop :=
  u.tree (sessionMarker :: dir) = v.tree (sessionMarker :: dir) ∨ ∀ name, u.tree (name :: dir) = none

/-- What the removal of the contents of a directory comes by: only what is below is taken away, and
a marker that is seen last. -/
def ContentsGo (sys : RemovalSystem) (dir : List PathName) (v u : FileVolume) : Prop :=
  Pruned (Below dir) v u ∧ (sys.keepMarker dir sessionMarker v = true → MarkerLast dir v u)

theorem ContentsGo.refl (v : FileVolume) : ContentsGo sys dir v v := ⟨.refl _ v, fun _ => .inl rfl⟩

theorem removeEntries_contentsGo (sys : RemovalSystem) (hentry : EntryPrunes entryAt dir) (names : List PathName)
    (removed : Bool) (t : Trail) :
    t.Goes (ContentsGo sys dir t.now) (sys.removeEntries entryAt dir names (removed, t)).2 :=
  Trail.Goes.mono (removeEntries_prunes sys hentry names removed t) fun _ hu =>
    ⟨hu.mono fun _ hq => hq.1, fun hmarker => .inl (hu.outside fun hq =>
      hq.2 hmarker List.suffix_rfl)⟩

theorem Emptied.all {v u : FileVolume} (h : Emptied dir (v.children dir) u)
    (hpruned : Pruned (Below dir) v u) {name : PathName} (hname : name ≠ sessionMarker) :
    u.tree (name :: dir) = none := by
  by_cases hmem : name ∈ v.children dir
  · exact (h name hmem).resolve_right fun hkept => hname hkept.1
  · exact hpruned.none (by_contra fun hthere => hmem (mem_children.mpr hthere))

theorem unlinkMarker_contentsGo (h : ContentsGo sys dir v t.now)
    (hempty : Emptied dir (v.children dir) t.now) :
    t.Goes (ContentsGo sys dir v) (sys.unlinkMarker dir t).2 := by
  unfold unlinkMarker
  split
  · exact .refl h
  split
  · exact .refl h
  · exact .refl h
  · have hmarker : Pruned (sessionMarker :: dir <:+ ·) t.now
        (t.now.removeTree (sessionMarker :: dir)) := pruned_removeTree (List.cons_ne_nil _ _)
    refine .remove h ⟨h.1.trans (hmarker.mono fun q hq => below_of_cons hq), fun _ => .inr fun name => ?_⟩
    rw [tree_removeTree (List.cons_ne_nil _ _)]
    split
    · rfl
    · next hother =>
      refine hempty.all h.1 ?_
      rintro rfl
      exact hother List.suffix_rfl

theorem removeTreeContentsAt_goes (sys : RemovalSystem) (hentry : EntryPrunes entryAt dir)
    (hgone : ∀ name t t', entryAt name t = (true, t') → t'.now.tree (name :: dir) = none)
    (t : Trail) :
    t.Goes (ContentsGo sys dir t.now) (sys.removeTreeContentsAt entryAt dir t).2 := by
  have hloop := fun names => removeEntries_contentsGo sys hentry names true t
  unfold removeTreeContentsAt
  split
  · exact .refl (.refl _)
  dsimp only
  split
  · exact hloop _
  · cases hr : sys.removeEntries entryAt dir (t.now.children dir) (true, t) with
    | mk removed t₁ =>
      have hgoes := hloop (t.now.children dir)
      rw [hr] at hgoes
      cases removed with
      | false => exact hgoes
      | true =>
        exact hgoes.trans (unlinkMarker_contentsGo hgoes.1 (removeEntries_emptied hentry hgone hr).2)

theorem unlinkEntry_gone (hplace : place ≠ []) (h : sys.unlinkEntry place t = (true, t')) :
    t'.now.tree place = none := by
  unfold unlinkEntry at h
  split at h
  · cases h
  · cases h
    exact (tree_removeTree hplace).trans (if_pos List.suffix_rfl)

theorem rmdirEntry_gone (hplace : place ≠ []) (h : sys.rmdirEntry place t = (true, t')) :
    t'.now.tree place = none := by
  unfold rmdirEntry at h
  split at h
  · cases h
  · cases h
    exact (tree_removeTree hplace).trans (if_pos List.suffix_rfl)

theorem removeEntryAt_gone (h : sys.removeEntryAt levels parent name t = (true, t')) :
    t'.now.tree (name :: parent) = none := by
  cases levels with
  | zero => cases h
  | succ levels =>
    rw [removeEntryAt] at h
    split at h
    · cases h
    split at h
    · cases h
    · split at h
      · cases h
      split at h
      · cases h
      · exact rmdirEntry_gone (List.cons_ne_nil _ _) h
    · exact unlinkEntry_gone (List.cons_ne_nil _ _) h

theorem removeEntryAt_prunes (sys : RemovalSystem) (levels : Nat) : ∀ parent : List PathName,
    EntryPrunes (sys.removeEntryAt levels parent) parent := by
  induction levels with
  | zero => exact fun parent name t => .refl _ _
  | succ levels ih =>
    intro parent name t
    rw [removeEntryAt]
    split
    · exact .refl _ _
    split
    · exact .refl _ _
    · split
      · exact .refl _ _
      have hgoes := removeTreeContentsAt_goes sys (ih (name :: parent))
        (fun _ _ _ => removeEntryAt_gone) t
      split
      · next t₁ hr =>
        rw [hr] at hgoes
        exact hgoes.mono fun u hu => hu.1.mono fun q hq => hq.1
      · next t₁ hr =>
        rw [hr] at hgoes
        exact Trail.Prunes.trans (hgoes.mono fun u hu => hu.1.mono fun q hq => hq.1)
          (rmdirEntry_prunes (List.cons_ne_nil _ _))
    · exact unlinkEntry_prunes (List.cons_ne_nil _ _)

/-! ## A clean without failures -/

/-- No call in a directory fails. -/
def Undisturbed (sys : RemovalSystem) : Prop :=
  (∀ call place, sys.failsAt call place = none) ∧ ∀ place, sys.stops place = none

/-- Nothing is more than so many levels below a place. -/
def Shallow (levels : Nat) (place : List PathName) (v : FileVolume) : Prop :=
  ∀ rest, levels ≤ rest.length → v.tree (rest ++ place) = none

theorem Shallow.child (h : Shallow (levels + 1) dir v) (name : PathName) :
    Shallow levels (name :: dir) v := fun rest hrest => by
  have hdeep := h (rest ++ [name]) (by simpa using hrest)
  rwa [List.append_assoc] at hdeep

theorem Shallow.pruned {p : List PathName → Prop} {v u : FileVolume} (h : Shallow levels place v)
    (hpruned : Pruned p v u) : Shallow levels place u :=
  fun rest hrest => hpruned.none (h rest hrest)

/-- What `RemoveEntryAt` does with each entry of a directory where no call fails. -/
def EntryRemoves (entryAt : PathName → Trail → Bool × Trail) (dir : List PathName)
    (levels : Nat) : Prop :=
  ∀ (name : PathName) (t : Trail), t.now.tree (name :: dir) ≠ none →
    Shallow levels (name :: dir) t.now → (entryAt name t).1 = true

theorem removeEntries_true (sys : RemovalSystem) (hentry : EntryPrunes entryAt dir)
    (hremoves : EntryRemoves entryAt dir levels) {names : List PathName} (hnodup : names.Nodup)
    (hthere : ∀ name ∈ names, t.now.tree (name :: dir) ≠ none)
    (hdepth : Shallow (levels + 1) dir t.now) :
    (sys.removeEntries entryAt dir names (true, t)).1 = true := by
  induction names generalizing t with
  | nil => rfl
  | cons name names ih =>
    obtain ⟨hnew, hnodup⟩ := List.nodup_cons.mp hnodup
    obtain ⟨hfirst, hrest⟩ := List.forall_mem_cons.mp hthere
    rw [removeEntries]
    split
    · exact ih hnodup hrest hdepth
    · have hpruned := (hentry name t).1
      dsimp only
      rw [hremoves name t hfirst (hdepth.child name), Bool.true_and]
      refine ih hnodup (fun other hother => ?_) (hdepth.pruned hpruned)
      rw [hpruned.outside fun hsuffix => hnew ?_]
      · exact hrest other hother
      · rw [eq_of_suffix hsuffix List.suffix_rfl]
        exact hother

theorem unlinkMarker_true (h : Undisturbed sys)
    (hempty : ∀ name, t.now.tree (name :: dir) = none ∨
      name = sessionMarker ∧ ∃ bytes, t.now.tree (name :: dir) = some (.file bytes)) :
    ∃ t', sys.unlinkMarker dir t = (true, t') ∧ ∀ name, t'.now.tree (name :: dir) = none := by
  unfold unlinkMarker
  rw [h.1]
  dsimp only
  rcases hempty sessionMarker with hnone | ⟨-, bytes, hfile⟩
  · rw [hnone]
    refine ⟨t, rfl, fun name => ?_⟩
    rcases hempty name with hname | ⟨rfl, bytes, hfile⟩
    · exact hname
    · exact hnone
  · rw [hfile]
    refine ⟨_, rfl, fun name => ?_⟩
    show (t.now.removeTree _).tree _ = none
    rw [tree_removeTree (List.cons_ne_nil _ _)]
    split
    · rfl
    · next hother =>
      refine (hempty name).resolve_right ?_
      rintro ⟨rfl, -⟩
      exact hother List.suffix_rfl

theorem removeTreeContentsAt_true (h : Undisturbed sys) (hentry : EntryPrunes entryAt dir)
    (hgone : ∀ name t t', entryAt name t = (true, t') → t'.now.tree (name :: dir) = none)
    (hremoves : EntryRemoves entryAt dir levels) (hdepth : Shallow (levels + 1) dir t.now) :
    ∃ t', sys.removeTreeContentsAt entryAt dir t = (true, t') ∧
      ∀ name, t'.now.tree (name :: dir) = none := by
  unfold removeTreeContentsAt
  rw [if_neg (by simp [h.1]), h.2]
  dsimp only
  have htrue := removeEntries_true sys hentry hremoves (nodup_children t.now dir)
    (fun name hname => mem_children.mp hname) hdepth
  cases hr : sys.removeEntries entryAt dir (t.now.children dir) (true, t) with
  | mk removed t₁ =>
    rw [hr] at htrue
    obtain rfl : removed = true := htrue
    have hpruned := (removeEntries_contentsGo sys hentry (t.now.children dir) true t).1.1
    rw [hr] at hpruned
    refine unlinkMarker_true h fun name => ?_
    by_cases hmem : name ∈ t.now.children dir
    · exact (removeEntries_emptied hentry hgone hr).2 name hmem
    · exact .inl (hpruned.none (by_contra fun hthere => hmem (mem_children.mpr hthere)))

theorem removeEntryAt_true (h : Undisturbed sys) (levels : Nat) : ∀ parent : List PathName,
    EntryRemoves (sys.removeEntryAt levels parent) parent levels := by
  induction levels with
  | zero => exact fun parent name t hthere hdepth => absurd (hdepth [] (Nat.le_refl _)) hthere
  | succ levels ih =>
    intro parent name t hthere hdepth
    rw [removeEntryAt, if_neg (by simp [h.1])]
    split
    · next hnone => exact absurd hnone hthere
    · rw [if_neg (by simp [h.1])]
      obtain ⟨t', hcontents, hempty⟩ := removeTreeContentsAt_true h
        (removeEntryAt_prunes sys levels (name :: parent)) (fun _ _ _ => removeEntryAt_gone)
        (ih (name :: parent)) hdepth
      rw [hcontents]
      dsimp only
      rw [rmdirEntry, if_neg (by simp [h.1, children_eq_nil_iff.mpr hempty])]
    · rw [unlinkEntry, if_neg (by simp [h.1])]

end RemovalSystem

/-! ## Paths -/

section Paths

variable {v : FileVolume} {place dir : List PathName} {name : PathName} {limit : Nat}

theorem plainNames (h : v.tree place ≠ none) : ∀ n ∈ place, PlainName n := by
  induction place with
  | nil => exact List.forall_mem_nil _
  | cons name dir ih =>
    have hdir := v.sound.rooted name dir h
    refine List.forall_mem_cons.mpr ⟨v.sound.named name dir h, ih ?_⟩
    show v.tree dir ≠ none
    rw [Volume.tree, hdir]
    exact Option.some_ne_none _

theorem pathOf_cons (name : PathName) (dir : List PathName) :
    pathOf (name :: dir) = (if dir = [] then [] else pathOf dir) ++ slash :: name := by
  rw [pathOf, if_neg (List.cons_ne_nil _ _), List.reverse_cons, List.flatMap_append]
  by_cases hdir : dir = []
  · subst hdir
    simp
  · rw [if_neg hdir, pathOf, if_neg hdir]
    simp

theorem steps_pathOf (h : ∀ n ∈ place, PlainName n) :
    .up ∉ (routeOf (pathOf place)).steps ∧ names (routeOf (pathOf place)).steps = place.reverse := by
  induction place with
  | nil => decide
  | cons name dir ih =>
    obtain ⟨hname, hdir⟩ := List.forall_mem_cons.mp h
    have hlast : (routeOf name).steps = [.down name] := by
      rw [routeOf_part hname.2.2.2, stepOf_plain hname]
    rw [pathOf_cons, routeOf_append_slash, hlast, names_append, List.reverse_cons]
    split
    · next hnil =>
      subst hnil
      have hempty : (routeOf []).steps = [.here] := by decide
      rw [hempty]
      exact ⟨by simp, rfl⟩
    · obtain ⟨hup, hnames⟩ := ih hdir
      refine ⟨fun hmem => ?_, by rw [hnames]; rfl⟩
      rcases List.mem_append.mp hmem with hmem | hmem
      · exact hup hmem
      · cases List.mem_singleton.mp hmem

theorem directories_above (h : v.tree place = some .directory) {q : List PathName}
    (hq : q <:+ place) : v.tree q = some .directory := by
  obtain ⟨rest, rfl⟩ := hq
  cases rest with
  | nil => exact h
  | cons first rest =>
    refine v.sound.above (List.cons_ne_nil first rest) ?_
    show v.tree _ ≠ none
    rw [h]
    nofun

theorem walk_pathOf (h : v.tree place = some .directory) :
    walk v.tree true limit [] (routeOf (pathOf place)).steps = .there place := by
  have hthere : v.tree place ≠ none := by
    rw [h]
    nofun
  obtain ⟨hup, hnames⟩ := steps_pathOf (plainNames hthere)
  have hreverse : (names (routeOf (pathOf place)).steps).reverse ++ [] = place := by
    rw [hnames, List.reverse_reverse, List.append_nil]
  rw [walk_of_directories hup fun q hq _ _ => directories_above h (hreverse ▸ hq), hreverse]

theorem steps_child (path : PathName) (hname : PlainName name) :
    (routeOf (path ++ slash :: name)).steps = (routeOf path).steps ++ [Step.down name] := by
  rw [routeOf_append_slash, routeOf_part hname.2.2.2, stepOf_plain hname]

theorem entryAt_pathOf (h : v.tree dir = some .directory) (hname : PlainName name) :
    entryAt v.tree [] limit (pathOf dir ++ slash :: name) = some (name :: dir) := by
  have hrooted : (routeOf (pathOf dir ++ slash :: name)).start [] = [] := ite_self _
  rw [entryAt, hrooted, steps_child _ hname]
  refine entry_append_down (walk_pathOf h) ?_
  cases dir with
  | nil => rfl
  | cons first dir => simp [FileTree.isDirectory, h]

theorem entryAt_of_file {bytes : List UInt8} (h : v.tree dir = some (.file bytes))
    (hname : PlainName name) : entryAt v.tree [] limit (pathOf dir ++ slash :: name) = none := by
  cases dir with
  | nil => cases v.tree_root.symm.trans h
  | cons first dir =>
    have hthere : v.tree (first :: dir) ≠ none := by
      rw [h]
      nofun
    have hdir := v.sound.rooted first dir hthere
    have hfront : walk v.tree true limit [] (routeOf (pathOf (first :: dir))).steps =
        .there (first :: dir) := by
      have hdirs : walk v.tree true limit []
          (routeOf (if dir = [] then [] else pathOf dir)).steps = .there dir := by
        split
        · next hnil =>
          subst hnil
          cases limit <;> rfl
        · exact walk_pathOf hdir
      rw [pathOf_cons, steps_child _ (v.sound.named first dir hthere)]
      refine walk_append hdirs hdir fun again => ?_
      rw [walkWith, Volume.tree, show treeOf v.nodes (first :: dir) = _ from h]
      rfl
    have hrooted : (routeOf (pathOf (first :: dir) ++ slash :: name)).start [] = [] := ite_self _
    rw [entryAt, hrooted, steps_child _ hname, entry, splitLastName_append_down]
    dsimp only
    rw [hfront]
    exact if_neg (by simp [FileTree.isDirectory, h])

/-- What the comparison of paths says about places. -/
theorem isUnderRoot_pathOf {root : List PathName} (hroot : ∀ n ∈ root, PlainName n)
    (hdir : ∀ n ∈ dir, PlainName n) (h : isUnderRoot (pathOf dir) (pathOf root) = true) :
    root <:+ dir := by
  have hns : Copy.AllPlain root.reverse := fun n hn => hroot n (List.mem_reverse.mp hn)
  have hms : Copy.AllPlain dir.reverse := fun n hn => hdir n (List.mem_reverse.mp hn)
  by_cases hnil : root = []
  · subst hnil
    exact List.nil_suffix
  have hstrip : ((pathOf root).reverse.dropWhile (· = slash)).reverse =
      root.reverse.flatMap (slash :: ·) := by
    rw [pathOf, if_neg hnil, Copy.dropWhile_reverse_flatMap hns.part, List.reverse_reverse]
  have hprefix : Copy.renderSlash root.reverse <+: Copy.renderSlash dir.reverse := by
    unfold isUnderRoot at h
    rw [hstrip] at h
    dsimp only at h
    split at h
    · cases h
    · by_cases hdirnil : dir = []
      · -- the path of the root is shorter than any other
        subst hdirnil
        obtain ⟨n, rest, hreverse⟩ :=
          List.exists_cons_of_ne_nil (List.reverse_ne_nil_iff.mpr hnil)
        have hn : 0 < n.length := List.length_pos_iff.mpr (hns n (hreverse ▸ List.mem_cons_self)).1
        have hlong : 1 < (root.reverse.flatMap (slash :: ·)).length := by
          rw [hreverse, List.flatMap_cons, List.length_append, List.length_cons]
          omega
        rw [decide_eq_true_eq] at h
        rcases h with heq | hpre
        · rw [← heq] at hlong
          exact absurd hlong (by decide)
        · have hle := hpre.length_le
          rw [List.length_append] at hle
          have hone : (pathOf []).length = 1 := rfl
          omega
      · have hpath : pathOf dir = dir.reverse.flatMap (slash :: ·) := if_neg hdirnil
        rw [hpath, decide_eq_true_eq] at h
        rcases h with heq | hpre
        · rw [Copy.renderSlash, Copy.renderSlash, heq]
        · exact hpre.trans (List.prefix_append _ _)
  have hnames := ( Copy.renderSlash_prefix hns hms).mp hprefix
  rwa [List.reverse_prefix] at hnames

theorem realpath_eq_some {sys : RemovalSystem} {path resolved : PathName}
    (h : sys.realpath v path = some resolved) :
    ∃ place, lookupAt v.tree [] sys.limit path = .there place ∧ resolved = pathOf place := by
  unfold RemovalSystem.realpath at h
  split at h
  · cases h
  split at h
  · next place hlookup => exact ⟨place, hlookup, (Option.some.inj h).symm⟩
  · cases h

theorem lookupAt_there {path : PathName} (h : lookupAt v.tree [] limit path = .there place) :
    ∃ node, v.tree place = some node ∧ ∀ target, node ≠ .link target := by
  have hrooted : (routeOf path).start [] = [] := ite_self _
  rw [lookupAt, hrooted] at h
  exact walk_there v.tree_root v.sound.rooted v.tree_root h

theorem plain_lastName {path : PathName} (hhead : path.head? = some slash)
    (hlast : path.getLast? ≠ some slash) (hdots : ¬ (lastName path = [dot] ∨ lastName path = [dot, dot])) :
    PlainName (lastName path) := by
  obtain ⟨hdot, hdouble⟩ := not_or.mp hdots
  refine ⟨fun hnil => ?_, hdot, hdouble, fun hmem => ?_⟩
  · have hne : path ≠ [] := by
      rintro rfl
      cases hhead
    obtain ⟨b, rest, hreverse⟩ := List.exists_cons_of_ne_nil (List.reverse_ne_nil_iff.mpr hne)
    have hb : b ≠ slash := by
      rintro rfl
      refine hlast ?_
      rw [← List.head?_reverse, hreverse]
      rfl
    rw [lastName, hreverse, List.takeWhile_cons_of_pos (by simpa using hb)] at hnil
    simp at hnil
  · have hall := List.mem_takeWhile_imp (List.mem_reverse.mp hmem)
    simp at hall

/-- A path that is resolved: its directory is at or below the safe root. -/
structure Resolved (sys : RemovalSystem) (v : FileVolume) (path safeRoot : PathName)
    (root dir : List PathName) : Prop where
  safe : lookupAt v.tree [] sys.limit safeRoot = .there root
  parent : lookupAt v.tree [] sys.limit (parentOf path) = .there dir
  inside : root <:+ dir
  named : PlainName (lastName path)

theorem resolveRemovalPath_eq_some {sys : RemovalSystem} {path safeRoot canonicalPath : PathName}
    (h : sys.resolveRemovalPath v path safeRoot = some canonicalPath) :
    ∃ root dir, Resolved sys v path safeRoot root dir ∧
      canonicalPath = pathOf dir ++ slash :: lastName path := by
  unfold RemovalSystem.resolveRemovalPath at h
  split at h
  · cases h
  next habsolute =>
  split at h
  · cases h
  next hlast =>
  split at h
  · cases h
  next hdots =>
  split at h
  · next realRoot realParent hroot hparent =>
    split at h
    · next hunder =>
      obtain ⟨root, hsafe, rfl⟩ := realpath_eq_some hroot
      obtain ⟨dir, hdir, rfl⟩ := realpath_eq_some hparent
      have hplain : ∀ {path place}, lookupAt v.tree [] sys.limit path = .there place →
          ∀ n ∈ place, PlainName n := by
        intro path place hlookup
        obtain ⟨node, hnode, -⟩ := lookupAt_there hlookup
        exact plainNames (by rw [hnode]; nofun)
      have hhead : path.head? = some slash := by
        simp only [isAbsolutePath, Bool.or_eq_true, Bool.not_eq_true', not_or, Bool.not_eq_false,
          decide_eq_true_eq] at habsolute
        exact habsolute.1.1
      exact ⟨root, dir, ⟨hsafe, hdir, isUnderRoot_pathOf (hplain hsafe) (hplain hdir) hunder,
        plain_lastName hhead hlast hdots⟩, (Option.some.inj h).symm⟩
    · cases h
  · cases h

end Paths

/-! ## Sessions -/

open RemovalSystem

/-- The volume and all it has been. -/
def Trail.volumes (t : Trail) : List FileVolume := t.now :: t.past

/-- What the removal of a session comes by: nothing else is taken away, and a marker that is seen
last. -/
def SessionGoes (sys : RemovalSystem) (place : List PathName) (v u : FileVolume) : Prop :=
  Pruned (place <:+ ·) v u ∧
    (sys.keepMarker place sessionMarker v = true → MarkerLast place v u)

section Sessions

variable {sys : RemovalSystem} {v u : FileVolume} {t t' : Trail} {place dir : List PathName}
  {name : PathName}

theorem SessionGoes.refl (v : FileVolume) : SessionGoes sys place v v :=
  ⟨.refl _ v, fun _ => .inl rfl⟩

theorem SessionGoes.remove (h : SessionGoes sys place v u) (hplace : place ≠ []) :
    SessionGoes sys place v (u.removeTree place) := by
  refine ⟨h.1.trans (pruned_removeTree hplace), fun _ => .inr fun name => ?_⟩
  rw [tree_removeTree hplace, if_pos (List.suffix_cons name place)]

theorem removeSessionTree_goes (sys : RemovalSystem) (path safeRoot : PathName) (t : Trail) :
    (sys.removeSessionTree path safeRoot t).2 = t ∨
      ∃ root dir, Resolved sys t.now path safeRoot root dir ∧
        t.Goes (SessionGoes sys (lastName path :: dir) t.now)
          (sys.removeSessionTree path safeRoot t).2 := by
  unfold RemovalSystem.removeSessionTree
  split
  · exact .inl rfl
  next canonicalPath hresolve =>
  obtain ⟨root, dir, hresolved, rfl⟩ := resolveRemovalPath_eq_some hresolve
  have hplace : ∀ u : FileVolume, u.tree dir = some .directory →
      sys.placeOf u (pathOf dir ++ slash :: lastName path) = some (lastName path :: dir) :=
    fun u hdir => entryAt_pathOf hdir hresolved.named
  split
  · exact .inl rfl
  · exact .inl rfl
  next place _ hfound =>
  have hdir : t.now.tree dir = some .directory := by
    obtain ⟨node, hnode, hlink⟩ := lookupAt_there hresolved.parent
    cases node with
    | directory => exact hnode
    | file bytes =>
      rw [RemovalSystem.placeOf, entryAt_of_file hnode hresolved.named] at hfound
      cases hfound
    | link target => exact absurd rfl (hlink target)
  obtain rfl : lastName path :: dir = place := Option.some.inj ((hplace _ hdir).symm.trans hfound)
  have hne : lastName path :: dir ≠ [] := List.cons_ne_nil _ _
  split
  · exact .inl rfl
  · split
    · exact .inl rfl
    have hcontents := removeTreeContentsAt_goes sys
      (removeEntryAt_prunes sys maxCleanupDepth (lastName path :: dir))
      (fun _ _ _ => removeEntryAt_gone) t
    refine .inr ⟨root, dir, hresolved, ?_⟩
    have hgoes := hcontents.mono (Q := SessionGoes sys (lastName path :: dir) t.now)
      fun _ hu => ⟨hu.1.mono fun _ hq => hq.1, hu.2⟩
    split
    · next t₁ hr =>
      rw [hr] at hgoes
      exact hgoes
    · next t₁ hr =>
      rw [hr] at hgoes hcontents
      refine hgoes.trans ?_
      unfold RemovalSystem.rmdir
      split
      · exact .refl hgoes.1
      rw [hplace t₁.now]
      · dsimp only
        split
        · exact .remove hgoes.1 (hgoes.1.remove hne)
        · exact .refl hgoes.1
      · rw [hcontents.1.1.outside fun hq => ?_, hdir]
        exact absurd hq.1.length_le (Nat.not_succ_le_self _)
  · split
    · exact .inl rfl
    · exact .inr ⟨root, dir, hresolved, .remove (.refl _) ((SessionGoes.refl _).remove hne)⟩

/-- What is below the directory of a session but for its marker. -/
def Payload (place : List PathName) (u : FileVolume) : Prop :=
  ∃ q, Below place q ∧ q ≠ sessionMarker :: place ∧ u.tree q ≠ none

theorem Payload.there (h : Payload place u) :
    u.tree place = some .directory ∧ ∃ name, u.tree (name :: place) ≠ none := by
  obtain ⟨q, ⟨⟨rest, rfl⟩, hne⟩, -, hthere⟩ := h
  have hrest : rest ≠ [] := by
    rintro rfl
    exact hne rfl
  refine ⟨u.sound.above hrest hthere, ?_⟩
  rcases List.eq_nil_or_concat rest with rfl | ⟨front, name, rfl⟩
  · exact absurd rfl hrest
  · refine ⟨name, fun hnone => hthere ?_⟩
    rw [List.concat_eq_append, List.append_assoc]
    exact u.tree_append_of_none hnone front

/-- A session that a cleaner takes for one, and is able to remove. -/
structure Cleanable (v : FileVolume) (name : PathName) (dir : List PathName) : Prop where
  named : sessionPrefix <+: name ∨ creatingPrefix <+: name
  marked : ∃ bytes, v.tree (sessionMarker :: name :: dir) = some (.file bytes)
  lock : v.tree (sessionLockName :: name :: dir) = none ∨
    ∃ bytes, v.tree (sessionLockName :: name :: dir) = some (.file bytes)
  depth : Shallow (maxCleanupDepth + 1) (name :: dir) v

/-- A clean without failures, of a session that is not locked, removes all of it. -/
theorem cleanupSessionEntry_finishes (hsession : Cleanable v name dir)
    (hpruned : Pruned (name :: dir <:+ ·) v t.now)
    (hdir : t.now.tree (name :: dir) = some .directory)
    (hmarker : t.now.tree (sessionMarker :: name :: dir) = v.tree (sessionMarker :: name :: dir))
    (hsys : Undisturbed sys)
    (hfree : sys.locked (sessionLockName :: name :: dir) = false) :
    ∃ t', sys.cleanupSessionEntry dir name t = (true, t') ∧
      ∀ q, t'.now.tree q = if name :: dir <:+ q then none else v.tree q := by
  have hprefix : (!sessionPrefix.isPrefixOf name && !creatingPrefix.isPrefixOf name) = false := by
    rcases hsession.named with h | h
    · rw [List.isPrefixOf_iff_prefix.mpr h]
      rfl
    · rw [List.isPrefixOf_iff_prefix.mpr h]
      simp
  have hmarked : sys.hasMarker (name :: dir) t.now = true := by
    obtain ⟨bytes, hfile⟩ := hsession.marked
    rw [RemovalSystem.hasMarker, hsys.1, hmarker, hfile]
    rfl
  have hinactive : sys.isInactive (name :: dir) t.now = true := by
    have hlock : t.now.tree (sessionLockName :: name :: dir) = none ∨
        ∃ bytes, t.now.tree (sessionLockName :: name :: dir) = some (.file bytes) := by
      rcases hpruned.eq_or_none (sessionLockName :: name :: dir) with heq | hnone
      · rw [heq]
        exact hsession.lock
      · exact .inl hnone
    rw [RemovalSystem.isInactive, hsys.1]
    rcases hlock with hnone | ⟨bytes, hfile⟩
    · rw [hnone]
    · rw [hfile, hfree]
      rfl
  have hthere : t.now.tree (name :: dir) ≠ none := by
    rw [hdir]
    nofun
  have htrue := removeEntryAt_true hsys (maxCleanupDepth + 1) dir name t hthere
    (hsession.depth.pruned hpruned)
  have hgoes := (removeEntryAt_prunes sys (maxCleanupDepth + 1) dir name t).1
  cases hr : sys.removeEntryAt (maxCleanupDepth + 1) dir name t with
  | mk removed t' =>
    rw [hr] at htrue hgoes
    obtain rfl : removed = true := htrue
    have hgone := removeEntryAt_gone hr
    refine ⟨t', ?_, fun q => ?_⟩
    · rw [RemovalSystem.cleanupSessionEntry, hprefix]
      simp [hsys.1, hdir, hmarked, hinactive, hr]
    · split
      · next hq =>
        obtain ⟨rest, rfl⟩ := hq
        exact t'.now.tree_append_of_none hgone rest
      · next hq => rw [hgoes.outside hq, hpruned.outside hq]

/-- A removal of a session, broken off or not: nothing else is taken away; the marker is there as
long as anything else is, if the look for it does not fail; and then a clean can finish. -/
structure SafelyRemoved (sys : RemovalSystem) (v : FileVolume) (name : PathName)
    (dir : List PathName) (t' : Trail) : Prop where
  inside : ∀ u ∈ t'.volumes, Pruned (name :: dir <:+ ·) v u
  marker : sys.keepMarker (name :: dir) sessionMarker v = true →
    ∀ u ∈ t'.volumes, Payload (name :: dir) u →
      u.tree (sessionMarker :: name :: dir) = v.tree (sessionMarker :: name :: dir)
  finishes : sys.failsAt .markerStat (sessionMarker :: name :: dir) = none → Cleanable v name dir →
    ∀ u ∈ t'.volumes, Payload (name :: dir) u → ∀ sys', Undisturbed sys' →
      sys'.locked (sessionLockName :: name :: dir) = false →
        ∃ t'', sys'.cleanupSessionEntry dir name ⟨u, []⟩ = (true, t'') ∧
          ∀ q, t''.now.tree q = if name :: dir <:+ q then none else v.tree q

/-- `RemoveSessionTree` changes nothing, or it removes a session in a directory at or below the safe
root, whatever fails. -/
theorem removeSessionTree_safe (sys : RemovalSystem) (v : FileVolume) (path safeRoot : PathName) :
    (sys.removeSessionTree path safeRoot ⟨v, []⟩).2 = ⟨v, []⟩ ∨
      ∃ root dir, Resolved sys v path safeRoot root dir ∧
        SafelyRemoved sys v (lastName path) dir
          (sys.removeSessionTree path safeRoot ⟨v, []⟩).2 := by
  rcases removeSessionTree_goes sys path safeRoot ⟨v, []⟩ with hsame | ⟨root, dir, hresolved, hgoes⟩
  · exact .inl hsame
  refine .inr ⟨root, dir, hresolved, ?_⟩
  have hall : ∀ u ∈ (sys.removeSessionTree path safeRoot ⟨v, []⟩).2.volumes,
      SessionGoes sys (lastName path :: dir) v u := by
    obtain ⟨hnow, passed, hpast, hpassed⟩ := hgoes
    rw [List.append_nil] at hpast
    intro u hu
    rw [Trail.volumes, hpast] at hu
    rcases List.mem_cons.mp hu with rfl | hu
    · exact hnow
    · exact hpassed u hu
  have hmarker : sys.keepMarker (lastName path :: dir) sessionMarker v = true →
      ∀ u ∈ (sys.removeSessionTree path safeRoot ⟨v, []⟩).2.volumes, Payload (lastName path :: dir) u →
        u.tree (sessionMarker :: lastName path :: dir) =
          v.tree (sessionMarker :: lastName path :: dir) := by
    intro hkeep u hu hpayload
    obtain ⟨-, name, hname⟩ := hpayload.there
    exact ((hall u hu).2 hkeep).resolve_right fun hempty => hname (hempty name)
  refine ⟨fun u hu => (hall u hu).1, hmarker, ?_⟩
  intro hstat hsession u hu hpayload sys' hsys hfree
  have hkeep := keepMarker_eq_true.mpr ⟨rfl, hstat, hsession.marked⟩
  exact cleanupSessionEntry_finishes (t := ⟨u, []⟩) hsession (hall u hu).1 hpayload.there.1
    (hmarker hkeep u hu hpayload) hsys hfree

end Sessions

/-! ### Sessions that stay -/

def swapRootName : PathName := [0x72]

def sessionName : PathName := sessionPrefix ++ [0x31]

def entryName : PathName := [0x64]

/-- A session with its marker and so many directories, one in the other. -/
def nestedSession : Nat → FileVolume
  | 0 =>
      ((Volume.empty.put swapRootName [] .directory).put sessionName [swapRootName] .directory).put
        sessionMarker [sessionName, swapRootName] (.file [])
  | n + 1 =>
      (nestedSession n).put entryName (List.replicate n entryName ++ [sessionName, swapRootName])
        .directory

/-- `unlinkat` fails on the outer directory. -/
def brokenSystem : RemovalSystem where
  failsAt
    | .rmdir, place => if place = [entryName, sessionName, swapRootName] then some .eio else none
    | _, _ => none

theorem shallow_of_nodes {levels : Nat} {place : List PathName} (hlevels : 0 < levels)
    (h : ∀ entry ∈ v.nodes, entry.1.length < levels + place.length) : Shallow levels place v := by
  intro rest hrest
  by_contra hthere
  have hne : rest ++ place ≠ [] := by
    intro hnil
    rw [(List.append_eq_nil_iff.mp hnil).1] at hrest
    exact absurd hrest (Nat.not_le.mpr hlevels)
  rw [Volume.tree, treeOf_of_ne hne] at hthere
  obtain ⟨node, hmem⟩ := lookup_ne_none.mp hthere
  have hlength := h _ hmem
  rw [List.length_append] at hlength
  omega

/-- Behind a removal that was broken off a clean finishes. -/
theorem removeSessionTree_safe_brokenOff :
    ∃ t, ({} : RemovalSystem).cleanupSessionEntry [swapRootName] sessionName
        ⟨(brokenSystem.removeSessionTree (pathOf [sessionName, swapRootName])
          (pathOf [swapRootName]) ⟨nestedSession 2, []⟩).2.now, []⟩ = (true, t) ∧
      ∀ q, t.now.tree q =
        if [sessionName, swapRootName] <:+ q then none else (nestedSession 2).tree q := by
  rcases removeSessionTree_safe brokenSystem (nestedSession 2) (pathOf [sessionName, swapRootName])
    (pathOf [swapRootName]) with hsame | ⟨root, dir, hresolved, hsafe⟩
  · have hpast := congrArg (fun t : Trail => t.past.length) hsame
    exact absurd hpast (by decide +kernel)
  · have hdir : Found.there [swapRootName] = .there dir := by
      rw [← hresolved.parent]
      decide +kernel
    cases hdir
    refine hsafe.finishes rfl ?_ _ List.mem_cons_self ?_ {} ⟨fun _ _ => rfl, fun _ => rfl⟩ rfl
    · exact ⟨.inl (by decide), ⟨[], by decide +kernel⟩, .inl (by decide +kernel),
        shallow_of_nodes (by decide) (by decide +kernel)⟩
    · exact ⟨[entryName, sessionName, swapRootName], ⟨⟨[entryName], rfl⟩, by decide⟩, by decide,
        by decide +kernel⟩

/-- `fstatat` fails on the marker, and `unlinkat` on the directory next to it. -/
def flakySystem : RemovalSystem where
  failsAt
    | .markerStat, _ => some .eio
    | .rmdir, _ => some .eio
    | _, _ => none

/-- A tree that is too deep is not removed, and not by a later clean, though nothing fails; and where `fstatat` fails on the
marker, the marker goes and something else stays. -/
theorem removeSessionTree_stuck :
    (∃ t, (({} : RemovalSystem).removeSessionTree (pathOf [sessionName, swapRootName])
        (pathOf [swapRootName]) ⟨nestedSession 17, []⟩).2 = t ∧
      Payload [sessionName, swapRootName] t.now ∧
      (({} : RemovalSystem).cleanupSessionEntry [swapRootName] sessionName t).1 = false) ∧
    ∃ t, (flakySystem.removeSessionTree (pathOf [sessionName, swapRootName])
        (pathOf [swapRootName]) ⟨nestedSession 1, []⟩).2 = t ∧
      Payload [sessionName, swapRootName] t.now ∧
      t.now.tree [sessionMarker, sessionName, swapRootName] = none := by
  refine ⟨⟨_, rfl, ⟨[entryName, sessionName, swapRootName], ⟨⟨[entryName], rfl⟩, by decide⟩,
      by decide, ?_⟩, ?_⟩, ⟨_, rfl, ⟨[entryName, sessionName, swapRootName], ⟨⟨[entryName], rfl⟩, by decide⟩,
      by decide, ?_⟩, ?_⟩⟩
  · decide +kernel
  · decide +kernel
  · decide +kernel
  · decide +kernel

end FileApi.Swapfs
