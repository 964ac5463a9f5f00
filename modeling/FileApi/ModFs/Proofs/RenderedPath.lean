import FileApi.ModFs.Proofs.MayLead
import FileApi.ModFs.Proofs.RealPath

/-!
# Paths of names

A path of names from the root on leads down by them, and what is in the tree is found by the path of
its place. A path of names with no links on the way leads to the place of its names, if anywhere.
-/

namespace FileApi.ModFs

open Compress FileTree FileApi.ModFs.System FileApi.ModFs.Copy

variable {sys : System} {v : FileVolume} {path name : PathName} {ns : List PathName}

theorem splitOn_flatMap (h : AllPlain ns) : (ns.flatMap (slash :: ·)).splitOn slash = [] :: ns := by
  induction ns using List.reverseRecOn with
  | nil => rfl
  | append_singleton ns n ih =>
    have hn : PlainName n := h n (by simp)
    have hns : AllPlain ns := fun m hm => h m (by simp [hm])
    rw [List.flatMap_append, List.flatMap_singleton, splitOn_child _ hn.2.2.2, ih hns]
    rfl

theorem steps_flatMap (h : AllPlain ns) :
    ([] :: ns).map stepOf = .here :: ns.map .down := by
  rw [List.map_cons]
  congr 1
  exact List.map_congr_left fun n hn => stepOf_plain (h n hn)

theorem names_map_down (ns : List PathName) :
    names (ns.map Step.down) = ns ∧ .up ∉ ns.map Step.down := by
  induction ns with
  | nil => exact ⟨rfl, List.not_mem_nil⟩
  | cons n ns ih =>
    refine ⟨congrArg (n :: ·) ih.1, fun hmem => ?_⟩
    rcases List.mem_cons.mp hmem with heq | hmem
    · cases heq
    · exact ih.2 hmem

theorem names_render (h : AllPlain ns) :
    names (routeOf (render ns)).steps = ns ∧ .up ∉ (routeOf (render ns)).steps := by
  by_cases hnil : ns = []
  · subst hnil
    decide
  · obtain ⟨hnames, hup⟩ := names_map_down ns
    rw [routeOf, render_of_ne hnil, splitOn_flatMap h, steps_flatMap h]
    exact ⟨hnames, fun hmem => hup ((List.mem_cons.mp hmem).resolve_left (by simp))⟩

/-- There are no links on the way to a place. -/
def NoLinks (v : FileVolume) (place : List PathName) : Prop :=
  ∀ q, q <:+ place → ∀ route, v.tree q ≠ some (.link route)

theorem mayLead_of_names (hroot : path.head? = some slash) (hup : .up ∉ (routeOf path).steps)
    (h : NoLinks v (names (routeOf path).steps).reverse) :
    MayLead sys v path (names (routeOf path).steps).reverse := by
  have hstart : (routeOf path).start sys.cwd = [] := by
    rw [Route.start, routeOf, hroot]
    rfl
  unfold MayLead lookupAt
  rw [hstart, walk_of_directories hup, List.append_nil]
  rw [List.append_nil]
  exact fun place hplace _ _ => opened_of_not_link (h place hplace)

theorem head_render (ns : List PathName) : (render ns).head? = some slash := by
  unfold render
  split
  · rfl
  · next hne =>
    obtain ⟨n, ns, rfl⟩ := List.exists_cons_of_ne_nil hne
    rfl

theorem walkWith_down {again : List PathName → List (Step PathName) → Found PathName}
    {follow : Bool} {node : FileNode} (hlink : ∀ target, node ≠ .link target) {dir : List PathName}
    (hdir : v.tree dir = some .directory) (hnode : v.tree (ns.reverse ++ dir) = some node) :
    walkWith v.tree again follow dir (ns.map .down) = .there (ns.reverse ++ dir) := by
  induction ns generalizing dir with
  | nil => rfl
  | cons n ns ih =>
    rw [List.reverse_cons, List.append_assoc, List.singleton_append] at hnode ⊢
    rw [List.map_cons, walkWith]
    by_cases hdown : v.tree (n :: dir) = some .directory
    · rw [hdown]
      exact ih hdown hnode
    · have hlast : ns = [] := by
        by_contra hne
        rw [v.tree_below hdown (List.reverse_ne_nil_iff.mpr hne)] at hnode
        cases hnode
      subst hlast
      rw [List.reverse_nil, List.nil_append] at hnode ⊢
      rw [hnode]
      cases node with
      | directory => exact absurd hnode hdown
      | file bytes => rfl
      | link target => exact absurd rfl (hlink target)

theorem lookup_render {place : List PathName} {node : FileNode} (hnode : v.tree place = some node)
    (hlink : ∀ target, node ≠ .link target) :
    sys.lookup v (render place.reverse) = .there place := by
  have hplain : AllPlain place.reverse := by
    intro n hn
    refine @plainName_of_tree v place [] ?_ n (List.mem_reverse.mp hn)
    rw [List.append_nil, hnode]
    nofun
  have hne : render place.reverse ≠ [] := by
    intro hempty
    have hhead := head_render place.reverse
    rw [hempty] at hhead
    cases hhead
  have hsteps : ∀ again, walkWith v.tree again true [] (routeOf (render place.reverse)).steps =
      .there place := by
    intro again
    by_cases hnil : place.reverse = []
    · rw [hnil, List.reverse_eq_nil_iff.mp hnil]
      rfl
    · rw [routeOf, render_of_ne hnil, splitOn_flatMap hplain, steps_flatMap hplain]
      have hdown := @walkWith_down v place.reverse again true node hlink [] v.tree_root
      rw [List.reverse_reverse, List.append_nil] at hdown
      exact hdown hnode
  have hstart : (routeOf (render place.reverse)).start sys.cwd = [] := by
    rw [Route.start, routeOf, head_render]
    rfl
  rw [lookup_of_ne hne, lookupAt, hstart]
  cases sys.limit with
  | zero => exact hsteps _
  | succ limit => exact hsteps _

theorem mayLead_render (h : AllPlain ns) (hlinks : NoLinks v ns.reverse) :
    MayLead sys v (render ns) ns.reverse := by
  obtain ⟨hnames, hup⟩ := names_render h
  have hleads := @mayLead_of_names sys _ _ (head_render ns) hup (by rwa [hnames])
  rwa [hnames] at hleads

end FileApi.ModFs
