import FileApi.ModFs.Proofs.Rmdirent

/-!
# The two bodies of `RmDirent`

They are the same for a path that names nothing, and for one that names a directory in which there
are only directories and regular files; the path must lead to it still when all but its last entry
is gone, which it does unless it goes through what is removed.
-/

namespace FileApi.ModFs.Rmdirent

open Compress FileTree Program Volume

/-- The program ends well. -/
def succeeds (x : EStateM ModFs.Stop DirentVolume Unit) (v : DirentVolume) : Bool :=
  (result x v).isSome

/-- Nothing has changed but what is where the path leads, and below; a link at its end is not
followed. -/
def Stays (sys : Lookups) (path : PathName) (v w : DirentVolume) : Prop :=
  ∀ q, w.tree q ≠ v.tree q →
    ∃ place, sys.leadsTo false v.tree path = .there place ∧ place <:+ q

/-- Both bodies say the same, leave the same, and follow no link. -/
structure Same (sys : Lookups) (fuel : Nat) (path : PathName) (v : DirentVolume) : Prop where
  answer : succeeds (sys.rmDirentMusl path) v = succeeds (sys.rmDirent fuel path) v
  tree : (after (sys.rmDirentMusl path) v).tree = (after (sys.rmDirent fuel path) v).tree
  muslStays : Stays sys path v (after (sys.rmDirentMusl path) v)
  stays : Stays sys path v (after (sys.rmDirent fuel path) v)

/-- The path leads to the directory still when only its last entry is left in it, with nothing in
that. -/
def Lasting (sys : Lookups) (path : PathName) (v : DirentVolume) (place : List PathName) : Prop :=
  ∀ last, (entries v place).getLast? = some last →
    sys.leadsTo true (lastLeft v.tree place last.name) path = .there place

/-- The path names nothing, or a directory that the loop can empty. -/
def Emptied (sys : Lookups) (path : PathName) (v : DirentVolume) : Prop :=
  ∀ place node, sys.leadsTo false v.tree path = .there place → v.tree place = some node →
    node = .directory ∧ OnlyPlain v place ∧ Lasting sys path v place

variable {sys : Lookups} {v w w' : DirentVolume} {path : PathName} {place q : List PathName}
  {fuel : Nat}

theorem succeeds_of_ok {x : EStateM ModFs.Stop DirentVolume Unit} (h : x v = .ok () w) :
    succeeds x v = true := by
  rw [succeeds, result, h]
  rfl

theorem not_succeeds_of_error {x : EStateM ModFs.Stop DirentVolume Unit} {stop : ModFs.Stop}
    (h : x v = .error stop w) : succeeds x v = false := by
  rw [succeeds, result, h]
  rfl

theorem Stays.of_eq (h : w.tree = v.tree) : Stays sys path v w := fun q hq =>
  absurd (congrFun h q) hq

namespace Lookups

/-! ## With `remove_all` -/

theorem tree_clear (v : DirentVolume) (place : List PathName) :
    (clear v place).tree = cleared v.tree place := by
  funext q
  rw [clear, tree_foldl_removeTree, cleared]
  by_cases hbelow : Below place q
  · rw [if_pos hbelow]
    split
    · rfl
    · next hnone =>
      by_contra hthere
      exact hnone (exists_entry_of_below hbelow hthere)
  · rw [if_neg hbelow]
    refine if_neg ?_
    rintro ⟨name, -, hsuffix⟩
    exact hbelow (below_of_cons hsuffix)

theorem within_clear : Within (clear v place).tree v.tree := by
  rw [tree_clear]
  exact cleared_within

theorem countTree_ne_zero (hplace : place ≠ []) (hthere : v.tree place ≠ none) :
    countTree v place ≠ 0 := by
  obtain ⟨node, hnode⟩ := Option.ne_none_iff_exists'.mp hthere
  refine (List.length_pos_of_mem (a := place) ?_).ne'
  refine List.mem_filter.mpr ⟨List.mem_dedup.mpr ?_, by simp⟩
  exact List.mem_map.mpr ⟨(place, node), mem_nodes_of_tree hplace hnode, rfl⟩

theorem countTree_eq_zero (hnone : v.tree place = none) : countTree v place = 0 := by
  rw [countTree, List.length_eq_zero_iff, List.filter_eq_nil_iff]
  intro q hq hsuffix
  obtain ⟨⟨_, node⟩, hmem, rfl⟩ := List.mem_map.mp (List.mem_dedup.mp hq)
  obtain ⟨rest, heq⟩ := of_decide_eq_true hsuffix
  have hthere : v.tree (rest ++ place) ≠ none := by
    rw [heq, tree, treeOf_of_ne]
    · exact lookup_ne_none.mpr ⟨node, hmem⟩
    · rintro rfl
      rw [(List.append_eq_nil_iff.mp heq).2, tree_root] at hnone
      cases hnone
  exact hthere (v.tree_append_of_none hnone rest)

theorem after_rmDirentMusl (sys : Lookups) (path : PathName) (v : DirentVolume) :
    after (sys.rmDirentMusl path) v = after (sys.removeAll path) v := by
  rw [rmDirentMusl]
  cases hrun : sys.removeAll path v with
  | error stop w => rw [after_bind_error hrun, after_of_error hrun]
  | ok num w =>
    rw [after_bind_ok hrun, after_of_ok hrun, after, get_bind_run]
    by_cases hnum : num = 0 ∨ sys.exists_ path w = true
    · rw [if_pos hnum]
      rfl
    · rw [if_neg hnum]
      rfl

theorem rmDirentMusl_fails (hrun : sys.removeAll path v = .ok 0 w) :
    succeeds (sys.rmDirentMusl path) v = false := by
  have hthrows : sys.rmDirentMusl path v = .error (.errno .enoent) w := by
    rw [rmDirentMusl, bind_ok hrun, get_bind_run, if_pos (.inl rfl)]
    rfl
  exact not_succeeds_of_error hthrows

/-- Of a directory everything goes, and then it is removed as `rmdir` takes the path. -/
theorem rmDirentMusl_directory (hpath : sys.leadsTo false v.tree path = .there place)
    (hplace : v.tree place = some .directory) :
    succeeds (sys.rmDirentMusl path) v = succeeds (sys.rmdir path) (clear v place) ∧
      after (sys.rmDirentMusl path) v = after (sys.rmdir path) (clear v place) := by
  have htrue : sys.leadsTo true v.tree path = .there place :=
    leadsTo_of_unfollowed hpath fun target => by simp [hplace]
  have hallOk : ∀ w', sys.rmdir path (clear v place) = .ok () w' →
      sys.removeAll path v = .ok (countTree v place) w' := by
    intro w' hrun
    simp only [removeAll, hpath, if_pos hplace, hrun]
  have hallError : ∀ stop w', sys.rmdir path (clear v place) = .error stop w' →
      sys.removeAll path v = .error stop w' := by
    intro stop w' hrun
    simp only [removeAll, hpath, if_pos hplace, hrun]
  rw [after_rmDirentMusl]
  rcases rmdir_cases sys path (clear v place) with ⟨errno, hrun⟩ | ⟨q, hentry, hdir, hempty, hrun⟩
  · have hall := hallError _ _ hrun
    rw [after_of_error hall, after_of_error hrun, not_succeeds_of_error hrun]
    have hthrows : sys.rmDirentMusl path v = .error (.errno errno) (clear v place) := by
      rw [rmDirentMusl, bind_run, hall]
    exact ⟨not_succeeds_of_error hthrows, rfl⟩
  · have hall := hallOk _ hrun
    rw [after_of_ok hall, after_of_ok hrun, succeeds_of_ok hrun]
    refine ⟨succeeds_of_ok (w := (clear v place).removeTree q) ?_, rfl⟩
    obtain rfl : q = place := by
      have hq := leadsTo_within within_clear (leadsTo_of_entry (clear v place).tree_root hentry hdir)
      cases htrue.symm.trans hq
      rfl
    have hne := ne_nil_of_entry hentry
    have hgone : ((clear v q).removeTree q).tree q = none := by
      rw [tree_removeTree hne, if_pos List.suffix_rfl]
    have hexists : sys.exists_ path ((clear v q).removeTree q) = false := by
      unfold exists_
      split
      · next other hother =>
        cases htrue.symm.trans (leadsTo_within
          ((within_of_pruned (pruned_removeTree hne)).trans within_clear) hother)
        rw [hgone]
        rfl
      · rfl
    rw [rmDirentMusl, bind_ok hall, get_bind_run, if_neg]
    · rfl
    · rw [hexists]
      exact not_or.mpr ⟨countTree_ne_zero hne (by simp [hplace]), Bool.false_ne_true⟩

theorem removeAll_other (hpath : sys.leadsTo false v.tree path = .there place)
    (hplace : v.tree place ≠ some .directory) :
    sys.removeAll path v = .ok (countTree v place) (v.removeTree place) := by
  rw [removeAll, hpath]
  exact if_neg hplace

/-! ## Without it -/

theorem rmdir_congr (sys : Lookups) (path : PathName) (h : w'.tree = w.tree) :
    succeeds (sys.rmdir path) w' = succeeds (sys.rmdir path) w ∧
      (after (sys.rmdir path) w').tree = (after (sys.rmdir path) w).tree := by
  rcases rmdir_cases sys path w with ⟨errno, hrun⟩ | ⟨q, hentry, hdir, hempty, hrun⟩
  · rcases rmdir_cases sys path w' with ⟨errno', hrun'⟩ | ⟨q, hentry, hdir, hempty, hrun'⟩
    · rw [not_succeeds_of_error hrun, not_succeeds_of_error hrun', after_of_error hrun,
        after_of_error hrun']
      exact ⟨rfl, h⟩
    · rw [h] at hentry hdir hempty
      exact nomatch hrun.symm.trans (rmdir_eq hentry hdir hempty)
  · have hrun' := rmdir_eq (h ▸ hentry : sys.entry w'.tree path = some q) (h ▸ hdir) (h ▸ hempty)
    have hq := ne_nil_of_entry hentry
    rw [succeeds_of_ok hrun, succeeds_of_ok hrun', after_of_ok hrun, after_of_ok hrun',
      tree_removeTree_eq_gone hq, tree_removeTree_eq_gone hq, h]
    exact ⟨rfl, rfl⟩

theorem rmDirent_fails (fuel : Nat) (h : ∀ place, sys.leadsTo true v.tree path = .there place →
    v.tree place ≠ some .directory) :
    succeeds (sys.rmDirent fuel path) v = false ∧ after (sys.rmDirent fuel path) v = v := by
  cases fuel with
  | zero => exact ⟨rfl, rfl⟩
  | succ fuel =>
    rcases scandir_cases sys path v with ⟨errno, hrun⟩ | ⟨place, hpath, hplace, -⟩
    · rw [rmDirent, after_bind_error hrun]
      have hthrows : (sys.scandir path >>= fun scandirReq => do
          sys.removeEntries (sys.rmDirent fuel) path scandirReq
          sys.rmdir path) v = .error (.errno errno) v := by rw [bind_run, hrun]
      exact ⟨not_succeeds_of_error hthrows, rfl⟩
    · exact absurd hplace (h place hpath)

/-- Where there are only directories and regular files and the path lasts, the loop takes away all
that is in the directory. -/
theorem rmDirent_empties (hpath : sys.leadsTo true v.tree path = .there place)
    (hplace : v.tree place = some .directory) (hdeep : Shallow v place (fuel + 1))
    (hplain : OnlyPlain v place) (hlasting : Lasting sys path v place) :
    ∃ w, w.tree = cleared v.tree place ∧
      sys.rmDirent (fuel + 1) path v = sys.rmdir path w := by
  obtain ⟨w, hloop, hw⟩ := removeEntries_ok (rmDirent_removes sys fuel) hlasting hplace
    (fun _ hdent => listed_of_mem hdent) (nodup_entries v place) hdeep hplain (Left.all v place)
  refine ⟨w, hw, ?_⟩
  rw [rmDirent, bind_ok (scandir_eq hpath hplace), bind_ok hloop]

theorem stays_rmDirent (hpath : sys.leadsTo false v.tree path = .there place)
    (hplace : v.tree place = some .directory) (fuel : Nat) :
    Stays sys path v (after (sys.rmDirent fuel path) v) := by
  intro q hq
  have htrue : sys.leadsTo true v.tree path = .there place :=
    leadsTo_of_unfollowed hpath fun target => by rw [hplace]; nofun
  rcases pruned_rmDirent sys fuel path v q with heq | ⟨⟨⟨other, hother, hsuffix⟩, -⟩, -⟩
  · exact absurd heq hq
  · cases htrue.symm.trans hother
    exact ⟨place, hpath, hsuffix⟩

/-! ## Both -/

theorem same_of_emptied (hdeep : ∀ place, Shallow v place (fuel + 1)) (h : Emptied sys path v) :
    Same sys (fuel + 1) path v := by
  by_cases hnone : ∀ place, sys.leadsTo false v.tree path = .there place → v.tree place = none
  · -- the path names nothing
    have hnodir : ∀ place, sys.leadsTo true v.tree path = .there place →
        v.tree place ≠ some .directory := by
      intro place hpath hplace
      rcases leadsTo_unfollowed sys v.tree path with heq | ⟨q, target, hq, htarget⟩
      · exact nomatch hplace.symm.trans (hnone place (heq.trans hpath))
      · exact nomatch htarget.symm.trans (hnone q hq)
    obtain ⟨hfails, hafter⟩ := rmDirent_fails (fuel + 1) hnodir
    have hall : ∃ w, sys.removeAll path v = .ok 0 w ∧ w.tree = v.tree := by
      cases hpath : sys.leadsTo false v.tree path with
      | there place =>
        have hplace := hnone place hpath
        refine ⟨v.removeTree place, ?_, funext fun q => ?_⟩
        · rw [removeAll_other hpath (by rw [hplace]; nofun), countTree_eq_zero hplace]
        · have hne : place ≠ [] := by
            rintro rfl
            exact nomatch (tree_root (v := v)).symm.trans hplace
          rw [tree_removeTree hne]
          split
          · next hsuffix =>
            obtain ⟨rest, rfl⟩ := hsuffix
            exact (v.tree_append_of_none hplace rest).symm
          · rfl
      | _ => exact ⟨v, by rw [removeAll, hpath], rfl⟩
    obtain ⟨w, hrun, hw⟩ := hall
    have hmusl : (after (sys.rmDirentMusl path) v).tree = v.tree := by
      rw [after_rmDirentMusl, after_of_ok hrun, hw]
    refine ⟨?_, ?_, .of_eq hmusl, .of_eq (congrArg tree hafter)⟩
    · rw [rmDirentMusl_fails hrun, hfails]
    · rw [hmusl, hafter]
  · push Not at hnone
    obtain ⟨place, hpath, hthere⟩ := hnone
    obtain ⟨node, hnode⟩ := Option.ne_none_iff_exists'.mp hthere
    obtain ⟨rfl, hplain, hlasting⟩ := h place node hpath hnode
    have htrue : sys.leadsTo true v.tree path = .there place :=
      leadsTo_of_unfollowed hpath fun target => by rw [hnode]; nofun
    obtain ⟨w, hw, hrun⟩ := rmDirent_empties htrue hnode (hdeep place) hplain hlasting
    obtain ⟨hmusl, hafter⟩ := rmDirentMusl_directory hpath hnode
    obtain ⟨hanswer, hleaves⟩ := rmdir_congr sys path ((tree_clear v place).trans hw.symm)
    have hsucceeds : succeeds (sys.rmDirent (fuel + 1) path) v = succeeds (sys.rmdir path) w := by
      rw [succeeds, result, hrun]
      rfl
    have hleft : after (sys.rmDirent (fuel + 1) path) v = after (sys.rmdir path) w := by
      rw [after, hrun]
      rfl
    have htree : (after (sys.rmDirentMusl path) v).tree =
        (after (sys.rmDirent (fuel + 1) path) v).tree := by rw [hafter, hleft, hleaves]
    refine ⟨by rw [hmusl, hanswer, hsucceeds], htree, fun q hq => ?_, stays_rmDirent hpath hnode _⟩
    rw [htree] at hq
    exact stays_rmDirent hpath hnode _ q hq

theorem removeEntries_append (recur : PathName → EStateM ModFs.Stop DirentVolume Unit)
    (a b : List Dirent) : sys.removeEntries recur path (a ++ b) = (do
      sys.removeEntries recur path a
      sys.removeEntries recur path b) := by
  induction a with
  | nil => rfl
  | cons dent a ih => rw [List.cons_append, removeEntries, removeEntries, ih, bind_assoc]

theorem lasting_of_gone {dent : Dirent} (hpath : sys.leadsTo true v.tree path = .there place)
    (hplace : v.tree place = some .directory) (hdent : Listed v place dent)
    (hplain : PlainAt v (dent.name :: place)) (hwithin : Within w.tree v.tree)
    (hkept : w.tree (dent.name :: place) = v.tree (dent.name :: place))
    (hgone : (after (sys.removeEntry (sys.rmDirent fuel) (path ++ slash :: dent.name) dent.type)
      w).tree (dent.name :: place) = none) :
    ∃ w', Pruned (Below (dent.name :: place)) w w' ∧
      sys.leadsTo true w'.tree path = .there place ∧
        ∀ name, w'.tree (name :: dent.name :: place) = none := by
  obtain ⟨hname, node, hnode, htype⟩ := hdent
  obtain ⟨node', hnode', hkind⟩ := hplain
  cases hnode.symm.trans hnode'
  have hthere : w.tree (dent.name :: place) ≠ none := by
    rw [hkept, hnode]
    exact Option.some_ne_none _
  have hne := ne_nil_of_leadsTo hpath
  rw [htype] at hgone
  rcases hkind with rfl | ⟨bytes, rfl⟩
  · have hscope := (pruned_rmDirent sys fuel (path ++ slash :: dent.name) w
      (dent.name :: place)).resolve_left fun heq => hthere (heq.symm.trans hgone)
    obtain ⟨⟨⟨other, hother, -⟩, -⟩, -⟩ := hscope
    cases (leadsTo_child hpath hplace hname hnode).symm.trans (leadsTo_within hwithin hother)
    obtain ⟨w', hpruned, hentry, -, hempty⟩ := rmDirent_gone hother hthere hgone
    obtain ⟨parent, hparent, heq⟩ := leadsTo_of_entry_child hne hname hentry
    cases heq
    exact ⟨w', hpruned, hparent, hempty⟩
  · rw [direntType, removeEntry] at hgone
    rcases unlink_cases sys (path ++ slash :: dent.name) w with
      ⟨errno, hrun⟩ | ⟨q, hentry, -, -⟩
    · rw [after_of_error hrun] at hgone
      exact absurd hgone hthere
    · obtain ⟨parent, hparent, rfl⟩ := leadsTo_of_entry_child hne hname hentry
      cases hpath.symm.trans (leadsTo_within hwithin hparent)
      refine ⟨w, .refl _ _, hparent, childless ?_⟩
      rw [hkept, hnode]
      rintro ⟨⟩

/-- Where the loop has taken all away, the path has led to the directory to the end. -/
theorem lasting_of_empties (hpath : sys.leadsTo true v.tree path = .there place)
    (hplace : v.tree place = some .directory) (hplain : OnlyPlain v place)
    (hempty : ∀ q, Below place q →
      (after (sys.removeEntries (sys.rmDirent fuel) path (entries v place)) v).tree q = none) :
    Lasting sys path v place := by
  intro last hlast
  obtain ⟨front, hentries⟩ := List.getLast?_eq_some_iff.mp hlast
  have hlisted : ∀ dent ∈ entries v place, Listed v place dent := fun _ => listed_of_mem
  have hnodup := nodup_entries v place
  rw [hentries] at hlisted hnodup
  rw [hentries, removeEntries_append] at hempty
  have hfresh : last.name ∉ front.map Dirent.name := by
    rw [List.map_append, List.nodup_append] at hnodup
    exact fun hmem => hnodup.2.2 _ hmem _ (List.mem_map_of_mem List.mem_cons_self) rfl
  have hlastlisted := hlisted last (List.mem_append_right front List.mem_cons_self)
  obtain ⟨-, node, hnode, -⟩ := id hlastlisted
  have hthere : v.tree (last.name :: place) ≠ none := by rw [hnode]; nofun
  have hbelow : Below place (last.name :: place) := below_of_cons List.suffix_rfl
  have hfront := pruned_removeEntries (pruned_rmDirent sys fuel) hpath hplace
    (fun dent hdent => hlisted dent (List.mem_append_left _ hdent)) (.refl v.tree)
  have hnot : ¬ Among v place front (last.name :: place) := by
    rintro ⟨⟨dent, hdent, hsuffix⟩, -⟩
    exact hfresh (List.mem_map.mpr ⟨dent, hdent, eq_of_suffix hsuffix List.suffix_rfl⟩)
  cases hrun : sys.removeEntries (sys.rmDirent fuel) path front v with
  | error stop w =>
    -- the loop has not come to the last entry
    have hgone := hempty _ hbelow
    rw [after_bind_error hrun] at hgone
    rw [after_of_error hrun] at hfront
    exact absurd ((hfront.outside hnot).symm.trans hgone) hthere
  | ok _ w =>
    rw [after_of_ok hrun] at hfront
    have hwithin := within_of_pruned hfront
    have hend : ∀ q, Below place q → (after (sys.removeEntry (sys.rmDirent fuel)
        (path ++ slash :: last.name) last.type) w).tree q = none := by
      intro q hq
      have hgone := hempty q hq
      rw [after_bind_ok hrun, removeEntries, removeEntries, after_bind_pure] at hgone
      exact hgone
    obtain ⟨w', hpruned, hlead, hchildless⟩ := lasting_of_gone hpath hplace hlastlisted
      (hplain _ hbelow hthere) hwithin (hfront.outside hnot) (hend _ hbelow)
    have htouched := pruned_removeEntry (pruned_rmDirent sys fuel) hpath hplace hlastlisted hwithin
    have htree : w'.tree = lastLeft v.tree place last.name := by
      funext q
      rw [lastLeft]
      split
      · next hq =>
        by_cases hin : last.name :: place <:+ q
        · exact tree_below_of_childless hchildless ⟨hin, hq.2⟩
        · rw [hpruned.outside fun h => hin h.1, ← htouched.outside fun h => hin h.1]
          exact hend q hq.1
      · next hq =>
        have hsame : ¬ Below (last.name :: place) q := fun h => hq ⟨below_of_cons h.1, h.2⟩
        rw [hpruned.outside hsame]
        by_cases heq : q = last.name :: place
        · exact heq ▸ hfront.outside hnot
        · refine hfront.outside ?_
          rintro ⟨⟨dent, -, hsuffix⟩, -⟩
          exact hq ⟨below_of_cons hsuffix, heq⟩
    exact htree ▸ hlead

theorem rmDirent_keeps {node : DirentNode} (fuel : Nat)
    (hpath : sys.leadsTo false v.tree path = .there place) (hnode : v.tree place = some node)
    (hdir : node ≠ .directory) : (after (sys.rmDirent fuel path) v).tree place = v.tree place := by
  by_cases hlink : ∃ target, node = .link target
  · obtain ⟨target, rfl⟩ := hlink
    refine (pruned_rmDirent sys fuel path v).outside ?_
    rintro ⟨-, node', hnode', hkind⟩
    cases hnode.symm.trans hnode'
    rcases hkind with hkind | ⟨bytes, hkind⟩ <;> cases hkind
  · have htrue : sys.leadsTo true v.tree path = .there place :=
      leadsTo_of_unfollowed hpath fun target heq =>
        hlink ⟨target, Option.some.inj (hnode.symm.trans heq)⟩
    have hnodir : ∀ other, sys.leadsTo true v.tree path = .there other →
        v.tree other ≠ some .directory := by
      intro other hother heq
      cases htrue.symm.trans hother
      exact hdir (Option.some.inj (hnode.symm.trans heq))
    rw [(rmDirent_fails fuel hnodir).2]

theorem loop_of_rmDirent (hpath : sys.leadsTo true v.tree path = .there place)
    (hplace : v.tree place = some .directory) (hq : Below place q)
    (hgone : (after (sys.rmDirent (fuel + 1) path) v).tree q = none) :
    (after (sys.removeEntries (sys.rmDirent fuel) path (entries v place)) v).tree q = none := by
  rw [rmDirent, after_bind_ok (scandir_eq hpath hplace)] at hgone
  cases hrun : sys.removeEntries (sys.rmDirent fuel) path (entries v place) v with
  | error stop w =>
    rw [after_bind_error hrun] at hgone
    rw [after_of_error hrun]
    exact hgone
  | ok _ w =>
    have hloop := pruned_removeEntries (pruned_rmDirent sys fuel) hpath hplace
      (fun _ hdent => listed_of_mem hdent) (.refl v.tree)
    rw [after_bind_ok hrun] at hgone
    rw [after_of_ok hrun] at hloop ⊢
    have hkept := pruned_rmdir (p := fun q => q = place) hpath (within_of_pruned hloop) fun _ => rfl
    exact (hkept.outside hq.2).symm.trans hgone

theorem emptied_of_same (h : Same sys (fuel + 1) path v) : Emptied sys path v := by
  intro place node hpath hnode
  by_cases hdir : node = .directory
  · subst hdir
    have htrue : sys.leadsTo true v.tree path = .there place :=
      leadsTo_of_unfollowed hpath fun target => by rw [hnode]; nofun
    have hempty : ∀ q, Below place q → (after (sys.rmDirent (fuel + 1) path) v).tree q = none := by
      intro q hq
      rw [← h.tree, (rmDirentMusl_directory hpath hnode).2]
      refine (pruned_rmdir (p := fun _ => True) htrue within_clear fun _ => trivial).none ?_
      rw [tree_clear]
      exact if_pos hq
    have hplain : OnlyPlain v place := by
      intro q hq hq'
      rcases pruned_rmDirent sys (fuel + 1) path v q with heq | hscope
      · exact absurd (heq.symm.trans (hempty q hq)) hq'
      · exact hscope.1.2
    have hlasting := lasting_of_empties htrue hnode hplain fun q hq =>
      loop_of_rmDirent htrue hnode hq (hempty q hq)
    exact ⟨rfl, hplain, hlasting⟩
  · -- `remove_all` removes what is no directory
    have hnotdir : v.tree place ≠ some .directory := fun heq =>
      hdir (Option.some.inj (hnode.symm.trans heq))
    have hne : place ≠ [] := by
      rintro rfl
      exact hnotdir tree_root
    have hgone : (after (sys.rmDirent (fuel + 1) path) v).tree place = none := by
      rw [← h.tree, after_rmDirentMusl, after_of_ok (removeAll_other hpath hnotdir),
        tree_removeTree hne, if_pos List.suffix_rfl]
    rw [rmDirent_keeps (fuel + 1) hpath hnode hdir, hnode] at hgone
    cases hgone

end Lookups

/-- The two bodies of `RmDirent` do the same where the path names nothing or a directory that the
loop can empty, and nowhere else; the recursion comes to its end on every path. -/
theorem rmDirent_same_iff (sys : Lookups) (path : PathName) (v : DirentVolume) :
    ∃ depth, ∀ fuel, depth ≤ fuel →
      (∀ w, sys.rmDirent fuel path v ≠ .error .fuel w) ∧
        (Same sys fuel path v ↔ Emptied sys path v) := by
  obtain ⟨depth, hdepth⟩ := v.exists_depth
  refine ⟨depth + 1, fun fuel hfuel => ?_⟩
  obtain ⟨fuel, rfl⟩ : ∃ less, fuel = less + 1 := ⟨fuel - 1, by omega⟩
  have hdeep : ∀ place, Shallow v place (fuel + 1) := fun place q _ hlength =>
    hdepth q (by omega)
  exact ⟨Lookups.rmDirent_ends (Nat.succ_pos fuel) fun place _ => hdeep place,
    Lookups.emptied_of_same, Lookups.same_of_emptied hdeep⟩

/-- A directory `/d` with a directory `a` and a file `b` in it; `a` has a file too. -/
def nested : DirentVolume :=
  (((Volume.empty.put [0x64] [] .directory).put [0x61] [[0x64]] .directory).put [0x62]
    [[0x61], [0x64]] (.file (.regular [0x68]))).put [0x62] [[0x64]] (.file (.regular []))

/-- Both bodies remove `/d`. -/
theorem nested_same :
    ∃ depth, ∀ fuel, depth ≤ fuel → Same ⟨[], 40⟩ fuel [slash, 0x64] nested := by
  obtain ⟨depth, h⟩ := rmDirent_same_iff ⟨[], 40⟩ [slash, 0x64] nested
  refine ⟨depth, fun fuel hfuel => (h fuel hfuel).2.mpr fun place node hpath hnode => ?_⟩
  have hplace : (⟨[], 40⟩ : Lookups).leadsTo false nested.tree [slash, 0x64] = .there [[0x64]] := by
    decide +kernel
  cases hplace.symm.trans hpath
  have hdir : nested.tree [[0x64]] = some .directory := by decide
  cases hdir.symm.trans hnode
  refine ⟨rfl, fun q hq hthere => ?_, fun last hlast => ?_⟩
  · obtain ⟨node, hnode⟩ := Option.ne_none_iff_exists'.mp hthere
    have hne : q ≠ [] := by
      rintro rfl
      exact absurd hq.1 (by decide)
    have hkinds : ∀ entry ∈ nested.nodes, entry.2 = .directory ∨
        entry.2 = .file (.regular [0x68]) ∨ entry.2 = .file (.regular []) := by decide
    refine ⟨node, hnode, ?_⟩
    rcases hkinds _ (mem_nodes_of_tree hne hnode) with heq | heq | heq
    · exact .inl heq
    · exact .inr ⟨_, heq⟩
    · exact .inr ⟨_, heq⟩
  · have hentries : (entries nested [[0x64]]).getLast? = some ⟨[0x62], .file⟩ := by decide +kernel
    cases hentries.symm.trans hlast
    decide +kernel

/-- A directory `/d` with a link in it. -/
def linked : DirentVolume :=
  (Volume.empty.put [0x64] [] .directory).put [0x6c] [[0x64]] (.link ⟨true, []⟩)

/-- The link is no entry that the loop removes, and `rmdir` does not take the directory then;
`remove_all` removes both. -/
theorem linked_not_same :
    ¬ ∃ depth, ∀ fuel, depth ≤ fuel → Same ⟨[], 40⟩ fuel [slash, 0x64] linked := by
  rintro ⟨depth, h⟩
  have hsame := (h (depth + 1) (Nat.le_succ depth)).answer
  have hmusl : succeeds ((⟨[], 40⟩ : Lookups).rmDirentMusl [slash, 0x64]) linked = true := by
    decide +kernel
  have hother : succeeds ((⟨[], 40⟩ : Lookups).rmDirent (depth + 1) [slash, 0x64]) linked = false := rfl
  rw [hmusl, hother] at hsame
  cases hsame

end FileApi.ModFs.Rmdirent
