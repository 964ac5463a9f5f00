import FileApi.Compress.Proofs.CreateDirectory
import FileApi.ModFs.Proofs.FileSystem
import FileApi.ModFs.Rmdirent

/-!
# When the two removals of a directory are the same

Both bodies of `RmDirent` only take something away, so a path never leads to another place while
they work. The loop takes away the directories and the regular files alone, and it stops as soon as
the path does not lead to the directory any more; `remove_all` takes away everything.
-/

namespace FileApi.ModFs.Rmdirent

open Compress FileTree Program Volume

variable {sys : Lookups} {t t' : List PathName → Option DirentNode} {v w : DirentVolume}
  {path name : PathName} {place q dir : List PathName} {node : DirentNode} {follow : Bool}
  {fuel : Nat}

/-- What is in `t` is in `t'` too. -/
def Within (t t' : List PathName → Option DirentNode) : Prop :=
  ∀ q node, t q = some node → t' q = some node

theorem Within.refl (t : List PathName → Option DirentNode) : Within t t := fun _ _ h => h

theorem Within.trans {t'' : List PathName → Option DirentNode} (h : Within t t')
    (h' : Within t' t'') : Within t t'' := fun q node hq => h' q node (h q node hq)

variable {p : List PathName → Prop}

theorem within_of_pruned (h : Pruned p v w) : Within w.tree v.tree := by
  intro q node hnode
  rcases h q with heq | ⟨-, hnone⟩
  · exact heq ▸ hnode
  · exact nomatch hnode.symm.trans hnone

/-! ## Paths -/

namespace Lookups

theorem ne_nil_of_leadsTo (h : sys.leadsTo follow t path = .there place) : path ≠ [] := by
  rintro rfl
  cases h

theorem leadsTo_within (h : Within t t') (hpath : sys.leadsTo follow t path = .there place) :
    sys.leadsTo follow t' path = .there place := by
  have hne := ne_nil_of_leadsTo hpath
  rw [leadsTo, if_neg hne] at hpath ⊢
  exact walk_mono h hpath

theorem leadsTo_unfollowed (sys : Lookups) (t : List PathName → Option DirentNode)
    (path : PathName) : sys.leadsTo false t path = sys.leadsTo true t path ∨
      ∃ place target, sys.leadsTo false t path = .there place ∧ t place = some (.link target) := by
  rw [leadsTo, leadsTo]
  split
  · exact .inl rfl
  · exact walk_unfollowed t _ _ _

theorem leadsTo_of_unfollowed (hpath : sys.leadsTo false t path = .there place)
    (hlink : ∀ target, t place ≠ some (.link target)) :
    sys.leadsTo true t path = .there place := by
  rcases leadsTo_unfollowed sys t path with heq | ⟨q, target, hq, htarget⟩
  · exact heq ▸ hpath
  · cases hpath.symm.trans hq
    exact absurd htarget (hlink target)

theorem namesEntry_child (path : PathName) (h : PlainName name) :
    namesEntry (path ++ slash :: name) = true := by
  refine namesEntry_iff.mpr ⟨name, ?_, h.2.1, h.2.2.1⟩
  have hlast : lastPart name = some name := by
    rw [lastPart, List.splitOn_eq_singleton h.2.2.2]
    simp [h.1]
  rw [lastPart_append, hlast, Option.some_or]

theorem entry_child (hpath : sys.leadsTo true t path = .there place)
    (hdir : t place = some .directory) (h : PlainName name) :
    sys.entry t (path ++ slash :: name) = some (name :: place) := by
  have hne := ne_nil_of_leadsTo hpath
  rw [leadsTo, if_neg hne] at hpath
  rw [entry, if_pos (namesEntry_child path h), routeOf_child hne h]
  refine entry_append_down hpath ?_
  cases place with
  | nil => rfl
  | cons first place => simp [FileTree.isDirectory, hdir]

theorem leadsTo_of_entry_child (hne : path ≠ []) (h : PlainName name)
    (hentry : sys.entry t (path ++ slash :: name) = some q) :
    ∃ place, sys.leadsTo true t path = .there place ∧ q = name :: place := by
  rw [entry, if_pos (namesEntry_child path h), routeOf_child hne h] at hentry
  obtain ⟨front, last, place, hsplit, hwalk, -, rfl⟩ := entry_eq_some hentry
  rw [splitLastName_append_down] at hsplit
  cases hsplit
  refine ⟨place, ?_, rfl⟩
  rw [leadsTo, if_neg hne]
  exact hwalk

theorem leadsTo_child (hpath : sys.leadsTo true t path = .there place)
    (hdir : t place = some .directory) (h : PlainName name)
    (hname : t (name :: place) = some .directory) :
    sys.leadsTo true t (path ++ slash :: name) = .there (name :: place) := by
  have hne := ne_nil_of_leadsTo hpath
  rw [leadsTo, if_neg hne] at hpath
  rw [leadsTo, if_neg (by simp), routeOf_child hne h]
  refine walk_append hpath hdir fun again => ?_
  rw [walkWith, hname]
  rfl

theorem ne_nil_of_entry (h : sys.entry t path = some q) : q ≠ [] := by
  unfold entry at h
  split at h
  · obtain ⟨front, name, parent, -, -, -, rfl⟩ := entry_eq_some h
    exact List.cons_ne_nil _ _
  · cases h

theorem leadsTo_of_entry (hroot : t [] = some .directory) (h : sys.entry t path = some q)
    (hdir : t q = some .directory) : sys.leadsTo true t path = .there q := by
  unfold entry at h
  split at h
  · next hnames =>
    have hne : path ≠ [] := by
      rintro rfl
      exact absurd hnames (by decide)
    rw [leadsTo, if_neg hne]
    exact walk_of_entry_directory hroot h hdir
  · cases h

/-! ## Calls -/

theorem rmdir_cases (sys : Lookups) (path : PathName) (v : DirentVolume) :
    (∃ errno, sys.rmdir path v = .error (.errno errno) v) ∨
      ∃ q, sys.entry v.tree path = some q ∧ v.tree q = some .directory ∧
        (∀ name, v.tree (name :: q) = none) ∧ sys.rmdir path v = .ok () (v.removeTree q) := by
  unfold rmdir
  split
  · exact .inl ⟨_, rfl⟩
  · next q hentry =>
    split
    · exact .inl ⟨_, rfl⟩
    · next hdir =>
      split
      · next hempty => exact .inr ⟨q, hentry, hdir, children_eq_nil_iff.mp hempty, rfl⟩
      · exact .inl ⟨_, rfl⟩
    · exact .inl ⟨_, rfl⟩

theorem rmdir_eq (hentry : sys.entry v.tree path = some q) (hdir : v.tree q = some .directory)
    (hempty : ∀ name, v.tree (name :: q) = none) :
    sys.rmdir path v = .ok () (v.removeTree q) := by
  rw [rmdir, hentry]
  dsimp only
  rw [hdir]
  exact if_pos (children_eq_nil_iff.mpr hempty)

theorem unlink_cases (sys : Lookups) (path : PathName) (v : DirentVolume) :
    (∃ errno, sys.unlink path v = .error (.errno errno) v) ∨
      ∃ q, sys.entry v.tree path = some q ∧ v.tree q ≠ some .directory ∧
        sys.unlink path v = .ok () (v.removeTree q) := by
  unfold unlink
  split
  · exact .inl ⟨_, rfl⟩
  · next q hentry =>
    split
    · exact .inl ⟨_, rfl⟩
    · exact .inl ⟨_, rfl⟩
    · next node hdir hnode =>
      refine .inr ⟨q, hentry, fun heq => hdir ?_, rfl⟩
      exact Option.some.inj (hnode.symm.trans heq)

theorem unlink_eq (hentry : sys.entry v.tree path = some q) {content : Content}
    (hfile : v.tree q = some (.file content)) : sys.unlink path v = .ok () (v.removeTree q) := by
  rw [unlink, hentry]
  dsimp only
  rw [hfile]

theorem scandir_eq (hpath : sys.leadsTo true v.tree path = .there place)
    (hdir : v.tree place = some .directory) : sys.scandir path v = .ok (entries v place) v := by
  rw [scandir, hpath]
  exact if_pos hdir

theorem scandir_cases (sys : Lookups) (path : PathName) (v : DirentVolume) :
    (∃ errno, sys.scandir path v = .error (.errno errno) v) ∨
      ∃ place, sys.leadsTo true v.tree path = .there place ∧ v.tree place = some .directory ∧
        sys.scandir path v = .ok (entries v place) v := by
  unfold scandir
  split
  · next place hpath =>
    split
    · next hdir => exact .inr ⟨place, hpath, hdir, rfl⟩
    · exact .inl ⟨_, rfl⟩
  · exact .inl ⟨_, rfl⟩

end Lookups

/-! ## Entries -/

theorem childless (hdir : v.tree q ≠ some .directory) (name : PathName) :
    v.tree (name :: q) = none :=
  v.tree_below hdir (List.cons_ne_nil name [])

/-- What a listing says about a name. -/
structure Listed (v : DirentVolume) (dir : List PathName) (dent : Dirent) : Prop where
  plain : PlainName dent.name
  typed : ∃ node, v.tree (dent.name :: dir) = some node ∧ dent.type = direntType node

theorem map_name_entries (v : DirentVolume) (dir : List PathName) :
    (entries v dir).map Dirent.name = (v.children dir).insertionSort (· ≤ ·) := by
  rw [entries, List.map_filterMap]
  refine (List.filterMap_congr fun name hname => ?_).trans List.filterMap_some
  obtain ⟨node, hnode⟩ := Option.ne_none_iff_exists'.mp
    (mem_children.mp ((List.mem_insertionSort (· ≤ ·)).mp hname))
  rw [hnode]
  rfl

theorem mem_map_name_entries :
    name ∈ (entries v dir).map Dirent.name ↔ v.tree (name :: dir) ≠ none := by
  rw [map_name_entries, List.mem_insertionSort, mem_children]

theorem nodup_entries (v : DirentVolume) (dir : List PathName) :
    ((entries v dir).map Dirent.name).Nodup := by
  rw [map_name_entries]
  exact (List.perm_insertionSort _ _).nodup_iff.mpr (v.nodup_children dir)

theorem listed_of_mem {dent : Dirent} (h : dent ∈ entries v dir) : Listed v dir dent := by
  obtain ⟨name, -, hdent⟩ := List.mem_filterMap.mp h
  obtain ⟨node, hnode, rfl⟩ := Option.map_eq_some_iff.mp hdent
  have hthere : v.tree (name :: dir) ≠ none := by rw [hnode]; nofun
  exact ⟨v.sound.named name dir hthere, node, hnode, rfl⟩

/-! ## What is taken away -/

/-- A directory or a regular file. -/
def IsPlain (node : DirentNode) : Prop :=
  node = .directory ∨ ∃ bytes, node = .file (.regular bytes)

/-- What is at a place is a directory or a regular file. -/
def PlainAt (v : DirentVolume) (q : List PathName) : Prop := ∃ node, v.tree q = some node ∧ IsPlain node

theorem PlainAt.within (h : PlainAt w q) (hwithin : Within w.tree v.tree) : PlainAt v q := by
  obtain ⟨node, hnode, hplain⟩ := h
  exact ⟨node, hwithin q node hnode, hplain⟩

theorem pruned_of_childless (hq : q ≠ []) (hp : p q) (h : ∀ name, v.tree (name :: q) = none) :
    Pruned p v (v.removeTree q) := by
  intro place
  rw [tree_removeTree_of_childless hq h, Function.update_apply]
  split
  · next heq => exact .inr ⟨heq ▸ hp, rfl⟩
  · exact .inl rfl

/-- At the place of a path and below it there are directories and regular files to take away. -/
def Scope (sys : Lookups) (path : PathName) (v : DirentVolume) (q : List PathName) : Prop :=
  (∃ place, sys.leadsTo true v.tree path = .there place ∧ place <:+ q) ∧ PlainAt v q

/-- Those at the entries of a list and below them. -/
def Among (v : DirentVolume) (dir : List PathName) (dents : List Dirent) (q : List PathName) :
    Prop :=
  (∃ dent ∈ dents, dent.name :: dir <:+ q) ∧ PlainAt v q

namespace Lookups

variable {recur : PathName → EStateM ModFs.Stop DirentVolume Unit} {dent : Dirent}
  {dents : List Dirent}

theorem pruned_rmdir (hpath : sys.leadsTo true v.tree path = .there place)
    (hwithin : Within w.tree v.tree) (hp : PlainAt v place → p place) :
    Pruned p w (after (sys.rmdir path) w) := by
  rcases rmdir_cases sys path w with ⟨errno, hrun⟩ | ⟨q, hentry, hdir, hempty, hrun⟩
  · rw [after, hrun]
    exact .refl _ _
  · rw [after, hrun]
    cases hpath.symm.trans (leadsTo_within hwithin (leadsTo_of_entry w.tree_root hentry hdir))
    exact pruned_of_childless (ne_nil_of_entry hentry)
      (hp ⟨.directory, hwithin _ _ hdir, .inl rfl⟩) hempty

theorem pruned_removeEntry (hrecur : ∀ path v, Pruned (Scope sys path v) v (after (recur path) v))
    (hpath : sys.leadsTo true v.tree path = .there place)
    (hplace : v.tree place = some .directory) (hdent : Listed v place dent)
    (hwithin : Within w.tree v.tree) :
    Pruned (fun q => dent.name :: place <:+ q ∧ PlainAt v q) w
      (after (sys.removeEntry recur (path ++ slash :: dent.name) dent.type) w) := by
  obtain ⟨hname, node, hnode, htype⟩ := hdent
  have hne := ne_nil_of_leadsTo hpath
  rw [htype]
  cases node with
  | directory =>
    refine (hrecur _ w).mono fun q hq => ?_
    obtain ⟨⟨other, hother, hsuffix⟩, hplain⟩ := hq
    cases (leadsTo_child hpath hplace hname hnode).symm.trans (leadsTo_within hwithin hother)
    exact ⟨hsuffix, hplain.within hwithin⟩
  | link target => exact .refl _ _
  | file content =>
    cases content with
    | regular bytes =>
      rcases unlink_cases sys (path ++ slash :: dent.name) w with
        ⟨errno, hrun⟩ | ⟨q, hentry, hdir, hrun⟩
      · rw [direntType, removeEntry, after, hrun]
        exact .refl _ _
      · rw [direntType, removeEntry, after, hrun]
        obtain ⟨parent, hparent, rfl⟩ := leadsTo_of_entry_child hne hname hentry
        cases hpath.symm.trans (leadsTo_within hwithin hparent)
        exact pruned_of_childless (List.cons_ne_nil _ _)
          ⟨List.suffix_rfl, _, hnode, .inr ⟨bytes, rfl⟩⟩ (childless hdir)
    | _ => exact .refl _ _

theorem pruned_removeEntries
    (hrecur : ∀ path v, Pruned (Scope sys path v) v (after (recur path) v))
    (hpath : sys.leadsTo true v.tree path = .there place)
    (hplace : v.tree place = some .directory) (hdents : ∀ dent ∈ dents, Listed v place dent)
    (hwithin : Within w.tree v.tree) :
    Pruned (Among v place dents) w (after (sys.removeEntries recur path dents) w) := by
  induction dents generalizing w with
  | nil => exact .refl _ _
  | cons dent dents ih =>
    have hentry := pruned_removeEntry hrecur hpath hplace (hdents dent List.mem_cons_self) hwithin
    have hfirst : Pruned (Among v place (dent :: dents)) w
        (after (sys.removeEntry recur (path ++ slash :: dent.name) dent.type) w) :=
      hentry.mono fun q hq => ⟨⟨dent, List.mem_cons_self, hq.1⟩, hq.2⟩
    rw [removeEntries]
    refine after_bind (fun stop w' hrun => ?_) fun _ w' hrun => ?_
    · exact after_of_error hrun ▸ hfirst
    · rw [after_of_ok hrun] at hfirst hentry
      have hmid : Within w'.tree v.tree := (within_of_pruned hentry).trans hwithin
      refine hfirst.trans ((ih (fun other hother => hdents other (List.mem_cons_of_mem _ hother))
        hmid).mono fun q hq => ?_)
      obtain ⟨⟨other, hother, hsuffix⟩, hplain⟩ := hq
      exact ⟨⟨other, List.mem_cons_of_mem _ hother, hsuffix⟩, hplain⟩

theorem pruned_rmDirent (sys : Lookups) (fuel : Nat) (path : PathName) (v : DirentVolume) :
    Pruned (Scope sys path v) v (after (sys.rmDirent fuel path) v) := by
  induction fuel generalizing path v with
  | zero => exact .refl _ _
  | succ fuel ih =>
    rw [rmDirent]
    rcases scandir_cases sys path v with ⟨errno, hrun⟩ | ⟨place, hpath, hplace, hrun⟩
    · rw [after_bind_error hrun]
      exact .refl _ _
    · have hloop := pruned_removeEntries ih hpath hplace (fun _ hdent => listed_of_mem hdent)
        (.refl v.tree)
      have hscope : Pruned (Scope sys path v) v
          (after (sys.removeEntries (sys.rmDirent fuel) path (entries v place)) v) :=
        hloop.mono fun q ⟨⟨dent, _, hsuffix⟩, hplain⟩ =>
          ⟨⟨place, hpath, (List.suffix_cons dent.name place).trans hsuffix⟩, hplain⟩
      rw [after_bind_ok hrun]
      refine after_bind (fun stop w hentries => ?_) fun _ w hentries => ?_
      · exact after_of_error hentries ▸ hscope
      · rw [after_of_ok hentries] at hscope
        exact hscope.trans (pruned_rmdir hpath (within_of_pruned hscope) fun hplain =>
          ⟨⟨place, hpath, List.suffix_rfl⟩, hplain⟩)

end Lookups

/-! ## The end of the recursion -/

/-- Nothing is so deep below a place. -/
def Shallow (v : DirentVolume) (place : List PathName) (depth : Nat) : Prop :=
  ∀ q, place <:+ q → depth + place.length ≤ q.length → v.tree q = none

theorem Shallow.pos {depth : Nat} (h : Shallow v place depth) (hplace : v.tree place ≠ none) :
    0 < depth := by
  by_contra hzero
  exact hplace (h place List.suffix_rfl (by omega))

theorem Shallow.child {depth : Nat} (h : Shallow v place (depth + 1)) (name : PathName)
    (hwithin : Within w.tree v.tree) : Shallow w (name :: place) depth := by
  intro q hsuffix hlength
  rw [List.length_cons] at hlength
  have hnone := h q ((List.suffix_cons name place).trans hsuffix) (by omega)
  by_contra hthere
  obtain ⟨node, hnode⟩ := Option.ne_none_iff_exists'.mp hthere
  exact nomatch (hwithin q node hnode).symm.trans hnone

namespace Lookups

variable {recur : PathName → EStateM ModFs.Stop DirentVolume Unit} {dent : Dirent}
  {dents : List Dirent}

theorem unlink_ends (sys : Lookups) (path : PathName) (w w' : DirentVolume) :
    sys.unlink path w ≠ .error .fuel w' := by
  rcases unlink_cases sys path w with ⟨errno, hrun⟩ | ⟨q, -, -, hrun⟩
  · rw [hrun]
    nofun
  · rw [hrun]
    nofun

theorem removeEntries_ends (hrecur : ∀ path v, Pruned (Scope sys path v) v (after (recur path) v))
    (hpath : sys.leadsTo true v.tree path = .there place)
    (hplace : v.tree place = some .directory) (hdents : ∀ dent ∈ dents, Listed v place dent)
    (hends : ∀ dent, Listed v place dent → ∀ w, Within w.tree v.tree → ∀ w',
      sys.removeEntry recur (path ++ slash :: dent.name) dent.type w ≠ .error .fuel w')
    (hwithin : Within w.tree v.tree) (w' : DirentVolume) :
    sys.removeEntries recur path dents w ≠ .error .fuel w' := by
  induction dents generalizing w with
  | nil => nofun
  | cons dent dents ih =>
    intro hrun
    have hdent := hdents dent List.mem_cons_self
    rcases Program.bind_eq_error.mp hrun with hfirst | ⟨_, mid, hfirst, hrest⟩
    · exact hends dent hdent w hwithin w' hfirst
    · have hpruned := pruned_removeEntry hrecur hpath hplace hdent hwithin
      rw [after_of_ok hfirst] at hpruned
      have hmid : Within mid.tree v.tree := (within_of_pruned hpruned).trans hwithin
      exact ih (fun other hother => hdents other (List.mem_cons_of_mem _ hother)) hmid hrest

theorem rmDirent_ends (hfuel : 0 < fuel)
    (hdeep : ∀ place, sys.leadsTo true v.tree path = .there place → Shallow v place fuel)
    (w : DirentVolume) : sys.rmDirent fuel path v ≠ .error .fuel w := by
  induction fuel generalizing path v w with
  | zero => exact absurd hfuel (Nat.lt_irrefl 0)
  | succ fuel ih =>
    rw [rmDirent]
    rcases scandir_cases sys path v with ⟨errno, hrun⟩ | ⟨place, hpath, hplace, hrun⟩
    · rw [bind_run, hrun]
      nofun
    · rw [bind_ok hrun]
      have hends : ∀ dent, Listed v place dent → ∀ w, Within w.tree v.tree → ∀ w',
          sys.removeEntry (sys.rmDirent fuel) (path ++ slash :: dent.name) dent.type w ≠
            .error .fuel w' := by
        rintro dent ⟨hname, node, hnode, htype⟩ w hwithin w'
        rw [htype]
        cases node with
        | directory =>
          have hbelow := (hdeep place hpath).child dent.name hwithin
          have hbelow' := (hdeep place hpath).child dent.name (.refl v.tree)
          refine ih (hbelow'.pos (by rw [hnode]; nofun)) (fun q hq => ?_) w'
          cases (leadsTo_child hpath hplace hname hnode).symm.trans (leadsTo_within hwithin hq)
          exact hbelow
        | link target => nofun
        | file content =>
          cases content with
          | regular bytes => exact unlink_ends sys _ w w'
          | _ => nofun
      intro hstop
      rcases Program.bind_eq_error.mp hstop with hentries | ⟨_, mid, -, hrmdir⟩
      · exact removeEntries_ends (pruned_rmDirent sys fuel) hpath hplace
          (fun _ hdent => listed_of_mem hdent) hends (.refl v.tree) w hentries
      · rcases rmdir_cases sys path mid with ⟨errno, hrun⟩ | ⟨q, -, -, -, hrun⟩
        · exact nomatch hrun.symm.trans hrmdir
        · exact nomatch hrun.symm.trans hrmdir

/-! ## A directory that is gone -/

theorem rmDirent_gone (hpath : sys.leadsTo true v.tree path = .there place)
    (hplace : v.tree place ≠ none) (hgone : (after (sys.rmDirent fuel path) v).tree place = none) :
    ∃ w, Pruned (Below place) v w ∧ sys.entry w.tree path = some place ∧
      w.tree place = some .directory ∧ ∀ name, w.tree (name :: place) = none := by
  cases fuel with
  | zero => exact absurd hgone hplace
  | succ fuel =>
    rw [rmDirent] at hgone
    rcases scandir_cases sys path v with ⟨errno, hrun⟩ | ⟨other, hother, hdir, hrun⟩
    · rw [after_bind_error hrun] at hgone
      exact absurd hgone hplace
    · cases hpath.symm.trans hother
      have hloop := (pruned_removeEntries (pruned_rmDirent sys fuel) hpath hdir
        (fun _ hdent => listed_of_mem hdent) (.refl v.tree)).mono (r := Below place)
          fun q hq => hq.1.elim fun dent hdent => below_of_cons hdent.2
      have hkept := hloop.outside (q := place) fun h => h.2 rfl
      rw [after_bind_ok hrun] at hgone
      cases hentries : sys.removeEntries (sys.rmDirent fuel) path (entries v place) v with
      | error stop w =>
        rw [after_bind_error hentries] at hgone
        rw [after_of_error hentries] at hkept
        exact absurd (hkept.symm.trans hgone) hplace
      | ok _ w =>
        rw [after_bind_ok hentries] at hgone
        rw [after_of_ok hentries] at hkept hloop
        rcases rmdir_cases sys path w with ⟨errno, hrmdir⟩ | ⟨q, hentry, hq, hempty, hrmdir⟩
        · rw [after_of_error hrmdir] at hgone
          exact absurd (hkept.symm.trans hgone) hplace
        · cases hpath.symm.trans (leadsTo_within (within_of_pruned hloop)
            (leadsTo_of_entry w.tree_root hentry hq))
          exact ⟨w, hloop, hentry, hq, hempty⟩

end Lookups

/-! ## What is left -/

/-- The tree where nothing is below a place. -/
def cleared (t : List PathName → Option DirentNode) (place : List PathName) :
    List PathName → Option DirentNode :=
  fun q => if Below place q then none else t q

/-- The tree where below a place only one entry is left, and nothing in it. -/
def lastLeft (t : List PathName → Option DirentNode) (place : List PathName) (name : PathName) :
    List PathName → Option DirentNode :=
  fun q => if Below place q ∧ q ≠ name :: place then none else t q

/-- The tree where a place is gone, and all below it. -/
def gone (t : List PathName → Option DirentNode) (place : List PathName) :
    List PathName → Option DirentNode :=
  fun q => if place <:+ q then none else t q

/-- There are only directories and regular files below a place. -/
def OnlyPlain (v : DirentVolume) (place : List PathName) : Prop :=
  ∀ q, Below place q → v.tree q ≠ none → PlainAt v q

theorem not_below_self : ¬ Below place place := fun h => h.2 rfl

theorem cleared_self : cleared t place place = t place := if_neg not_below_self

theorem tree_removeTree_eq_gone (hplace : place ≠ []) :
    (v.removeTree place).tree = gone v.tree place :=
  funext fun _ => tree_removeTree hplace

theorem removeTree_of_cleared (hplace : place ≠ []) (h : w.tree = cleared v.tree place) :
    (w.removeTree place).tree = gone v.tree place := by
  funext q
  rw [tree_removeTree hplace, h, gone, cleared]
  split
  · rfl
  · next hq => exact if_neg fun hbelow => hq hbelow.1

theorem cleared_within : Within (cleared t place) t := by
  intro q node hq
  rw [cleared] at hq
  split at hq
  · cases hq
  · exact hq

theorem cleared_within_lastLeft : Within (cleared t place) (lastLeft t place name) := by
  intro q node hq
  rw [cleared] at hq
  split at hq
  · cases hq
  · next hbelow => exact (if_neg fun h => hbelow h.1).trans hq

/-- Of what was below a place the entries of a list are left, with all that is in them. -/
def Left (v : DirentVolume) (place : List PathName) (dents : List Dirent) (w : DirentVolume) : Prop :=
  ∀ q, w.tree q =
    if Below place q ∧ ∀ dent ∈ dents, ¬ dent.name :: place <:+ q then none else v.tree q

namespace Left

variable {dent : Dirent} {dents : List Dirent} {w' : DirentVolume}

theorem all (v : DirentVolume) (place : List PathName) : Left v place (entries v place) v := by
  intro q
  split
  · next h =>
    by_contra hthere
    obtain ⟨name, hname, hsuffix⟩ := exists_entry_of_below h.1 hthere
    obtain ⟨dent, hdent, rfl⟩ := List.mem_map.mp (mem_map_name_entries.mpr (mem_children.mp hname))
    exact h.2 dent hdent hsuffix
  · rfl

theorem within (h : Left v place dents w) : Within w.tree v.tree := by
  intro q node hq
  rw [h q] at hq
  split at hq
  · cases hq
  · exact hq

theorem self (h : Left v place dents w) : w.tree place = v.tree place :=
  (h place).trans (if_neg fun hbelow => not_below_self hbelow.1)

theorem entry (h : Left v place dents w) (hdent : dent ∈ dents) (hq : dent.name :: place <:+ q) :
    w.tree q = v.tree q :=
  (h q).trans (if_neg fun hbelow => hbelow.2 dent hdent hq)

theorem cleared (h : Left v place [] w) : w.tree = cleared v.tree place := by
  funext q
  rw [h q]
  exact if_congr (and_iff_left nofun) rfl rfl

theorem next (h : Left v place (dent :: dents) w) (hnot : dent.name ∉ dents.map Dirent.name)
    (hgone : w'.tree = gone w.tree (dent.name :: place)) : Left v place dents w' := by
  intro q
  rw [hgone, gone]
  by_cases hq : dent.name :: place <:+ q
  · rw [if_pos hq, if_pos]
    refine ⟨below_of_cons hq, fun other hother hsuffix => hnot ?_⟩
    exact List.mem_map.mpr ⟨other, hother, eq_of_suffix hsuffix hq⟩
  · rw [if_neg hq, h q]
    refine if_congr (and_congr_right fun _ => ?_) rfl rfl
    rw [List.forall_mem_cons, and_iff_right hq]

theorem lastLeft_within {last : Dirent} (h : Left v place (dent :: dents) w)
    (hlast : last ∈ dent :: dents) :
    Within (lastLeft v.tree place last.name) (Rmdirent.cleared w.tree (dent.name :: place)) := by
  intro q node hq
  rw [lastLeft] at hq
  split at hq
  · cases hq
  · next hkept =>
    have hat : Below place q → q = last.name :: place := fun hbelow => by
      by_contra hne
      exact hkept ⟨hbelow, hne⟩
    have hnot : ¬ Below (dent.name :: place) q := by
      rintro ⟨hsuffix, hne⟩
      cases hat (below_of_cons hsuffix)
      exact hne (hsuffix.eq_of_length rfl).symm
    rw [Rmdirent.cleared, if_neg hnot, h q]
    refine (if_neg ?_).trans hq
    rintro ⟨hbelow, hnone⟩
    exact hnone last hlast (hat hbelow ▸ List.suffix_rfl)

end Left

/-! ## A removal that ends well -/

namespace Lookups

variable {recur : PathName → EStateM ModFs.Stop DirentVolume Unit} {dent : Dirent}
  {dents : List Dirent}

/-- What `RmDirent` is to do where there are only directories and regular files and its path holds
to the end. -/
def Removes (sys : Lookups) (fuel : Nat) (recur : PathName → EStateM ModFs.Stop DirentVolume Unit) :
    Prop :=
  ∀ path v place, Shallow v place fuel → v.tree place = some .directory → OnlyPlain v place →
    sys.entry (cleared v.tree place) path = some place →
      ∃ w, recur path v = .ok () w ∧ w.tree = gone v.tree place

theorem removeEntry_ok (hrecur : Removes sys fuel recur)
    (hpath : sys.leadsTo true (cleared w.tree (dent.name :: place)) path = .there place)
    (hplace : w.tree place = some .directory) (hdent : Listed w place dent)
    (hdeep : Shallow w (dent.name :: place) fuel)
    (hplain : ∀ q, dent.name :: place <:+ q → w.tree q ≠ none → PlainAt w q) :
    ∃ w', sys.removeEntry recur (path ++ slash :: dent.name) dent.type w = .ok () w' ∧
      w'.tree = gone w.tree (dent.name :: place) := by
  obtain ⟨hname, node, hnode, htype⟩ := hdent
  have hnot : ¬ Below (dent.name :: place) place := fun h =>
    absurd h.1.length_le (Nat.not_succ_le_self _)
  have hentry := entry_child hpath ((if_neg hnot).trans hplace) hname
  obtain ⟨node', hnode', hkind⟩ := hplain _ List.suffix_rfl (by rw [hnode]; nofun)
  cases hnode.symm.trans hnode'
  rw [htype]
  rcases hkind with rfl | ⟨bytes, rfl⟩
  · exact hrecur _ w _ hdeep hnode (fun q hq => hplain q hq.1) hentry
  · refine ⟨_, unlink_eq ?_ hnode, tree_removeTree_eq_gone (List.cons_ne_nil _ _)⟩
    exact entry_child (leadsTo_within cleared_within hpath) hplace hname

theorem removeEntries_ok (hrecur : Removes sys fuel recur)
    (hlast : ∀ last, dents.getLast? = some last →
      sys.leadsTo true (lastLeft v.tree place last.name) path = .there place)
    (hplace : v.tree place = some .directory) (hdents : ∀ dent ∈ dents, Listed v place dent)
    (hnodup : (dents.map Dirent.name).Nodup) (hdeep : Shallow v place (fuel + 1))
    (hplain : OnlyPlain v place) (hleft : Left v place dents w) :
    ∃ w', sys.removeEntries recur path dents w = .ok () w' ∧ w'.tree = cleared v.tree place := by
  induction dents generalizing w with
  | nil => exact ⟨w, rfl, hleft.cleared⟩
  | cons dent dents ih =>
    obtain ⟨hnot, hnodup⟩ := List.nodup_cons.mp hnodup
    have hmem : dent ∈ dent :: dents := List.mem_cons_self
    have hlastmem := List.getLast_mem (List.cons_ne_nil dent dents)
    have hpath := leadsTo_within (hleft.lastLeft_within hlastmem)
      (hlast _ (List.getLast?_eq_getLast_of_ne_nil (List.cons_ne_nil dent dents)))
    obtain ⟨hname, node, hnode, htype⟩ := hdents dent hmem
    obtain ⟨w', hrun, hgone⟩ := removeEntry_ok (w := w) hrecur hpath (hleft.self.trans hplace)
      ⟨hname, node, (hleft.entry hmem List.suffix_rfl).trans hnode, htype⟩
      (hdeep.child dent.name hleft.within) fun q hq hthere => by
        rw [hleft.entry hmem hq] at hthere
        obtain ⟨node, hnode, hkind⟩ := hplain q (below_of_cons hq) hthere
        exact ⟨node, (hleft.entry hmem hq).trans hnode, hkind⟩
    rw [removeEntries, bind_ok hrun]
    refine ih (fun last hl => hlast last ?_) (fun other hother =>
      hdents other (List.mem_cons_of_mem _ hother)) hnodup (hleft.next hnot hgone)
    rw [List.getLast?_cons, hl, Option.getD_some]

theorem leadsTo_of_entry_cleared (hplace : v.tree place = some .directory)
    (hentry : sys.entry (cleared v.tree place) path = some place) :
    sys.leadsTo true (cleared v.tree place) path = .there place := by
  refine leadsTo_of_entry ?_ hentry (cleared_self.trans hplace)
  exact (if_neg fun h => h.2 (List.suffix_nil.mp h.1).symm).trans v.tree_root

theorem rmdir_of_cleared (hplace : v.tree place = some .directory)
    (hentry : sys.entry (cleared v.tree place) path = some place)
    (hw : w.tree = cleared v.tree place) : sys.rmdir path w = .ok () (w.removeTree place) := by
  refine rmdir_eq (hw ▸ hentry) ?_ fun name => ?_
  · rw [hw, cleared_self, hplace]
  · rw [hw]
    exact if_pos (below_append (List.cons_ne_nil name []))

theorem rmDirent_removes (sys : Lookups) (fuel : Nat) : Removes sys fuel (sys.rmDirent fuel) := by
  induction fuel with
  | zero =>
    intro path v place hdeep hplace
    exact absurd (hdeep.pos (by rw [hplace]; nofun)) (Nat.lt_irrefl 0)
  | succ fuel ih =>
    intro path v place hdeep hplace hplain hentry
    have hpath := leadsTo_of_entry_cleared hplace hentry
    have hscandir := scandir_eq (leadsTo_within cleared_within hpath) hplace
    obtain ⟨w, hloop, hw⟩ := removeEntries_ok ih
      (fun _ _ => leadsTo_within cleared_within_lastLeft hpath) hplace
      (fun _ hdent => listed_of_mem hdent) (nodup_entries v place) hdeep hplain (Left.all v place)
    have hrun : sys.rmDirent (fuel + 1) path v = .ok () (w.removeTree place) := by
      rw [rmDirent, bind_ok hscandir, bind_ok hloop]
      exact rmdir_of_cleared hplace hentry hw
    exact ⟨_, hrun, removeTree_of_cleared (ne_nil_of_entry hentry) hw⟩

end Lookups

end FileApi.ModFs.Rmdirent
