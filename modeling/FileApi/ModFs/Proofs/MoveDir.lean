import FileApi.Misc.Merge
import FileApi.Misc.Program
import FileApi.ModFs.MoveDir
import FileApi.ModFs.Proofs.FileSystem

/-!
# What a moved directory leaves

`RecurMoveDir` merges the source into the target: what it leaves at each place of both trees, and
which pairs it puts into the list, for trees of directories and regular files and calls that do not
fail.
-/

namespace FileApi.ModFs.MoveDir

open Compress FileTree FileApi.ModFs.System Merge

variable {sys : System} {mode : DirMode} {v v' : FileVolume} {s s' : Moving}
  {src dest name : PathName} {S T : List PathName}

/-! ## Conflicts -/

/-- What is not moved onto each other. -/
def clash (mode : DirMode) (source target : Option FileNode) : Bool :=
  match source, target with
  | some (.file _), some .directory => true
  | some (.file _), some (.file _) => mode = .fileThrowErr
  | some .directory, some (.file _) => true
  | _, _ => false

theorem lawful_clash (mode : DirMode) : Lawful (clash mode) where
  none_left target := by cases target <;> rfl
  none_right source := by
    cases source with
    | none => rfl
    | some node => cases node <;> rfl
  directories := rfl
  file_directory _ := rfl

/-- The paths of a place in both trees. -/
def errFilesOf (src dest : PathName) (rest : List PathName) : ErrFiles :=
  ⟨pathBelow src rest, pathBelow dest rest⟩

theorem errFilesOf_concat (src dest name : PathName) (rest : List PathName) :
    errFilesOf (src ++ slash :: name) (dest ++ slash :: name) rest =
      errFilesOf src dest (rest ++ [name]) := by
  rw [errFilesOf, errFilesOf, pathBelow_concat, pathBelow_concat]

/-- The list has grown by the pairs that are in conflict. -/
def Reported (clash : Option FileNode → Option FileNode → Bool) (src dest : PathName)
    (source target : Tree PathName (List UInt8)) (errfiles errfiles' : List ErrFiles) : Prop :=
  ∃ places : List (List PathName),
    errfiles'.Perm (errfiles ++ places.map (errFilesOf src dest)) ∧ places.Nodup ∧
      ∀ rest, rest ∈ places ↔ Conflict clash source target rest

variable {source target : Tree PathName (List UInt8)}

theorem Reported.length_eq_iff {clash : Option FileNode → Option FileNode → Bool}
    {errfiles errfiles' : List ErrFiles}
    (h : Reported clash src dest source target errfiles errfiles') :
    errfiles.length = errfiles'.length ↔ ∀ rest, ¬ Conflict clash source target rest := by
  obtain ⟨places, hperm, -, hplaces⟩ := h
  have hlength := hperm.length_eq
  rw [List.length_append, List.length_map] at hlength
  constructor
  · intro heq rest hconflict
    have hnil : places = [] := List.eq_nil_of_length_eq_zero (by omega)
    rw [← hplaces, hnil] at hconflict
    cases hconflict
  · intro hnone
    have hnil : places = [] := List.eq_nil_iff_forall_not_mem.mpr fun rest hmem =>
      hnone rest ((hplaces rest).mp hmem)
    rw [hnil] at hlength
    exact hlength.symm

theorem reported_nil {clash : Option FileNode → Option FileNode → Bool} {errfiles : List ErrFiles}
    (h : ∀ rest, ¬ Conflict clash source target rest) :
    Reported clash src dest source target errfiles errfiles := by
  refine ⟨[], ?_, List.nodup_nil, fun rest => iff_of_false nofun (h rest)⟩
  rw [List.map_nil, List.append_nil]

theorem reported_root {clash : Option FileNode → Option FileNode → Bool}
    {errfiles errfiles' : List ErrFiles} (hperm : errfiles'.Perm (errfiles ++ [⟨src, dest⟩]))
    (h : ∀ rest, Conflict clash source target rest ↔ rest = []) :
    Reported clash src dest source target errfiles errfiles' :=
  ⟨[[]], hperm, List.nodup_singleton _, fun rest => by rw [h, List.mem_singleton]⟩

/-! ## The trees of a move -/

/-- The places that a move may change. -/
def Movable (v : FileVolume) (S T q : List PathName) : Prop :=
  S <:+ q ∨ T <:+ q ∧ v.tree q ≠ some .directory

/-- The places that a move of all that is in a directory may change. -/
def MovableBelow (v : FileVolume) (S T q : List PathName) : Prop :=
  Below S q ∨ Below T q ∧ v.tree q ≠ some .directory

theorem movable_of_below {q : List PathName} (h : MovableBelow v S T q) : Movable v S T q :=
  h.imp (·.1) fun hq => ⟨hq.1.1, hq.2⟩

theorem movableBelow_of_cons {q : List PathName} (h : Movable v (name :: S) (name :: T) q) :
    MovableBelow v S T q :=
  h.imp below_of_cons fun hq => ⟨below_of_cons hq.1, hq.2⟩

/-- Two trees without links, neither of which is in the other. -/
structure Apart (v : FileVolume) (S T : List PathName) : Prop where
  left : ¬ S <:+ T
  right : ¬ T <:+ S
  plainSource : ∀ rest route, subtree v.tree S rest ≠ some (.link route)
  plainTarget : ∀ rest route, subtree v.tree T rest ≠ some (.link route)

theorem Apart.child (h : Apart v S T) (name : PathName) : Apart v (name :: S) (name :: T) where
  left hs := h.left (suffix_of_cons_suffix_cons hs)
  right hs := h.right (suffix_of_cons_suffix_cons hs)
  plainSource rest := by
    rw [subtree_cons]
    exact h.plainSource (rest ++ [name])
  plainTarget rest := by
    rw [subtree_cons]
    exact h.plainTarget (rest ++ [name])

/-- A source and a name for it. -/
structure MovePair (sys : System) (v : FileVolume) (src dest : PathName) (S T : List PathName) :
    Prop where
  src : SteadyName sys v (Movable v S T) src S
  dest : SteadyName sys v (Movable v S T) dest T
  place : ∃ name dir, T = name :: dir ∧ PlainName name ∧ v.tree dir = some .directory
  apart : Apart v S T

/-- A source directory whose entries are moved, and what is under its name in the target. -/
structure DirPair (sys : System) (v : FileVolume) (src dest : PathName) (S T : List PathName) :
    Prop where
  src : Steady sys v (MovableBelow v S T) src S
  dest : Steady sys v (MovableBelow v S T) dest T
  source : v.tree S = some .directory
  apart : Apart v S T

/-- What is left of both trees when nothing of the target but its files has gone. -/
structure Done (mode : DirMode) (src dest : PathName) (S T : List PathName) (s s' : Moving) :
    Prop where
  outside : ∀ q, ¬ S <:+ q → ¬ T <:+ q → s'.volume.tree q = s.volume.tree q
  reported : Reported (clash mode) src dest (subtree s.volume.tree S) (subtree s.volume.tree T)
    s.errfiles s'.errfiles

structure MoveDone (mode : DirMode) (src dest : PathName) (S T : List PathName) (s s' : Moving) :
    Prop extends Done mode src dest S T s s' where
  moved : Moved (clash mode) (subtree s.volume.tree S) (subtree s.volume.tree T)
    (subtree s'.volume.tree S) (subtree s'.volume.tree T)

structure MergeDone (mode : DirMode) (src dest : PathName) (S T : List PathName) (s s' : Moving) :
    Prop extends Done mode src dest S T s s' where
  merged : Merged (clash mode) (subtree s.volume.tree S) (subtree s.volume.tree T)
    (subtree s'.volume.tree S) (subtree s'.volume.tree T)

theorem Done.same (h : Done mode src dest S T s s') (hapart : Apart s.volume S T)
    (harrived : Arrived (clash mode) (subtree s.volume.tree S) (subtree s.volume.tree T)
      (subtree s'.volume.tree T))
    {q : List PathName} (hq : ¬ Movable s.volume S T q) : s'.volume.tree q = s.volume.tree q := by
  obtain ⟨hS, hT⟩ := not_or.mp hq
  by_cases hbelow : T <:+ q
  · obtain ⟨rest, rfl⟩ := hbelow
    have hdir : s.volume.tree (rest ++ T) = some .directory := by
      by_contra hdir
      exact hT ⟨List.suffix_append rest T, hdir⟩
    have hdir' : subtree s'.volume.tree T rest = some .directory :=
      harrived.directory (lawful_clash mode) (hapart.plainSource rest) hdir
    rw [hdir]
    exact hdir'
  · exact h.outside q hS hbelow

/-! ## One name -/

theorem modify_run (f : Moving → Moving) (s : Moving) :
    (modify f : EStateM Stop Moving Unit) s = .ok () (f s) := rfl

theorem onVolume_ok {α : Type} {x : EStateM Stop FileVolume α} {a : α}
    (h : x s.volume = .ok a v') : onVolume x s = .ok a ⟨v', s.errfiles⟩ := by
  rw [onVolume, h]

theorem subtree_moveTree {dir : List PathName} (hname : PlainName name)
    (hdir : v.tree dir = some .directory) (hapart : Apart v S (name :: dir)) :
    (∀ rest, subtree (v.moveTree S name dir).tree S rest = none) ∧
      subtree (v.moveTree S name dir).tree (name :: dir) = subtree v.tree S ∧
      ∀ q, ¬ S <:+ q → ¬ name :: dir <:+ q → (v.moveTree S name dir).tree q = v.tree q := by
  refine ⟨fun rest => ?_, ?_, fun q hS hT => ?_⟩
  · rw [subtree, Volume.tree_moveTree hname hdir hapart.left hapart.right,
      if_neg (suffix_disjoint hapart.left hapart.right (List.suffix_append rest S)),
      if_pos (List.suffix_append rest S)]
  · funext rest
    rw [subtree, Volume.tree_moveTree hname hdir hapart.left hapart.right,
      if_pos (List.suffix_append _ _), rebase_append]
    rfl
  · rw [Volume.tree_moveTree hname hdir hapart.left hapart.right, if_neg hT, if_neg hS]

theorem rename_done (hworks : Works sys) (hpair : MovePair sys s.volume src dest S T)
    {node : FileNode} (hnode : s.volume.tree S = some node)
    (hfree : s.volume.tree T = none ∨
      node ≠ .directory ∧ ∃ bytes, s.volume.tree T = some (.file bytes))
    (hconflict : ∀ rest,
      ¬ Conflict (clash mode) (subtree s.volume.tree S) (subtree s.volume.tree T) rest) :
    ∃ v', sys.rename s.volume src dest = (.ok (), v') ∧
      MoveDone mode src dest S T s ⟨v', s.errfiles⟩ := by
  obtain ⟨name, dir, rfl, hname, hdir⟩ := hpair.place
  obtain ⟨hgone, hthere, houtside⟩ := subtree_moveTree hname hdir hpair.apart
  refine ⟨_, hworks.rename_eq hpair.src.names.entry hpair.dest.names.entry hnode
    ⟨hpair.apart.left, hpair.apart.right⟩ hfree, ⟨houtside, reported_nil hconflict⟩,
    moved_of_eq hconflict (fun rest hrest => ?_) hgone hthere⟩
  cases rest with
  | nil => exact nomatch hnode.symm.trans hrest
  | cons first rest =>
    refine s.volume.tree_below ?_ (List.cons_ne_nil first rest)
    rcases hfree with hnone | ⟨-, bytes, hfile⟩
    · rw [hnone]
      nofun
    · rw [hfile]
      nofun

theorem clash_done {errfiles : List ErrFiles}
    (hclash : clash mode (s.volume.tree S) (s.volume.tree T) = true)
    (hbelow : ∀ rest, rest ≠ [] →
      ¬ Conflict (clash mode) (subtree s.volume.tree S) (subtree s.volume.tree T) rest)
    (hperm : errfiles.Perm (s.errfiles ++ [⟨src, dest⟩])) :
    MergeDone mode src dest S T s ⟨s.volume, errfiles⟩ := by
  refine ⟨⟨fun _ _ _ => rfl, reported_root hperm fun rest => ?_⟩, merged_of_conflict hclash rfl rfl⟩
  constructor
  · intro hconflict
    by_contra hne
    exact hbelow rest hne hconflict
  · rintro rfl
    exact hclash

theorem MergeDone.moveDone (h : MergeDone mode src dest S T s s')
    (hconflict : ∃ rest,
      Conflict (clash mode) (subtree s.volume.tree S) (subtree s.volume.tree T) rest) :
    MoveDone mode src dest S T s s' :=
  ⟨h.toDone, h.merged.moved hconflict⟩

/-! ## Files -/

theorem renameFile_done (hworks : Works sys) (hpair : MovePair sys s.volume src dest S T)
    {bytes : List UInt8} (hnode : s.volume.tree S = some (.file bytes)) :
    ∃ s', renameFile sys mode src dest s = .ok () s' ∧ MoveDone mode src dest S T s s' := by
  have hfound : sys.found s.volume dest = s.volume.tree T :=
    hpair.dest.names.found (hpair.apart.plainTarget [])
  have hexists : sys.exists_ s.volume dest = .ok (s.volume.tree T).isSome := by
    rw [hworks.exists_eq, hfound]
  have hbelow : ∀ rest, rest ≠ [] →
      ¬ Conflict (clash mode) (subtree s.volume.tree S) (subtree s.volume.tree T) rest :=
    fun rest hne => not_conflict_of_none (lawful_clash mode)
      (s.volume.tree_below (by rw [hnode]; nofun) hne)
  have hrename : ∀ {v'}, sys.rename s.volume src dest = (.ok (), v') →
      onVolume (renameOrCopy sys src dest) s = .ok () ⟨v', s.errfiles⟩ := by
    intro v' h
    refine onVolume_ok ?_
    rw [renameOrCopy, h]
  have hnone : ∀ {target}, s.volume.tree T = target → clash mode (some (.file bytes)) target = false →
      ∀ rest, ¬ Conflict (clash mode) (subtree s.volume.tree S) (subtree s.volume.tree T) rest := by
    intro target htarget hclash rest
    by_cases hne : rest = []
    · subst hne
      have hroot : clash mode (s.volume.tree S) (s.volume.tree T) = false := by
        rw [hnode, htarget]
        exact hclash
      exact fun hconflict => nomatch hroot.symm.trans hconflict
    · exact hbelow rest hne
  unfold renameFile
  rw [Program.get_bind_run]
  cases htarget : s.volume.tree T with
  | none =>
    rw [htarget] at hexists
    rw [hexists, if_neg (by simp), if_neg (by simp)]
    obtain ⟨v', hrun, hdone⟩ := rename_done hworks hpair hnode (.inl htarget)
      (hnone htarget rfl)
    exact ⟨_, hrename hrun, hdone⟩
  | some node =>
    rw [htarget] at hexists
    cases node with
    | link route => exact absurd htarget (hpair.apart.plainTarget [] route)
    | directory =>
      have hdir : sys.isDirectory s.volume dest = true := hworks.isDirectory_iff.mpr
        (hfound.trans htarget)
      rw [if_pos ⟨hexists, hdir⟩]
      refine ⟨_, modify_run _ _, (clash_done ?_ hbelow ?_).moveDone ⟨[], ?_⟩⟩
      · rw [hnode, htarget]
        rfl
      · exact (List.perm_append_singleton _ _).symm
      · show clash mode (s.volume.tree S) (s.volume.tree T) = true
        rw [hnode, htarget]
        rfl
    | file old =>
      have hdir : ¬ sys.isDirectory s.volume dest = true := by
        rw [hworks.isDirectory_iff, hfound, htarget]
        nofun
      rw [if_neg fun h => hdir h.2]
      by_cases hmode : mode = .fileThrowErr
      · have hclash : clash mode (s.volume.tree S) (s.volume.tree T) = true := by
          rw [hnode, htarget]
          exact decide_eq_true hmode
        rw [if_pos ⟨hexists, hmode⟩]
        exact ⟨_, modify_run _ _, (clash_done hclash hbelow (.refl _)).moveDone ⟨[], hclash⟩⟩
      · rw [if_neg fun h => hmode h.2]
        obtain ⟨v', hrun, hdone⟩ := rename_done hworks hpair hnode (.inr ⟨nofun, old, htarget⟩)
          (hnone htarget (decide_eq_false hmode))
        exact ⟨_, hrename hrun, hdone⟩

/-! ## Directories -/

/-- A run of `RecurMoveDir` on any pair that is not so deep. -/
def MergesPairs (sys : System) (mode : DirMode) (depth : Nat)
    (recur : PathName → PathName → EStateM Stop Moving Unit) : Prop :=
  ∀ ⦃s : Moving⦄ ⦃src dest : PathName⦄ ⦃S T : List PathName⦄,
    DirPair sys s.volume src dest S T → s.volume.tree T ≠ none →
      (∀ rest, depth ≤ rest.length → s.volume.tree (rest ++ S) = none) →
      ∃ s', recur src dest s = .ok () s' ∧ MergeDone mode src dest S T s s'

theorem MovePair.dirs (hpair : MovePair sys v src dest S T) (hdir : v.tree S = some .directory)
    (hthere : v.tree T ≠ none) : DirPair sys v src dest S T := by
  have hS : ¬ MovableBelow v S T S := by
    rintro (h | ⟨h, -⟩)
    · exact h.2 rfl
    · exact hpair.apart.right h.1
  have hT : ¬ MovableBelow v S T T := by
    rintro (h | ⟨h, -⟩)
    · exact hpair.apart.left h.1
    · exact h.2 rfl
  obtain ⟨node, hnode⟩ := Option.ne_none_iff_exists'.mp hthere
  exact ⟨hpair.src.steady (fun _ => movable_of_below) hS hdir nofun,
    hpair.dest.steady (fun _ => movable_of_below) hT hnode
      fun route heq => hpair.apart.plainTarget [] route (heq ▸ hnode), hdir, hpair.apart⟩

variable {recur : PathName → PathName → EStateM Stop Moving Unit}

theorem renameDir_done (hworks : Works sys) (hpair : MovePair sys s.volume src dest S T)
    (hdir : s.volume.tree S = some .directory) {depth : Nat}
    (hrecur : MergesPairs sys mode depth recur)
    (hdepth : ∀ rest, depth ≤ rest.length → s.volume.tree (rest ++ S) = none) :
    ∃ s', renameDir sys recur src dest s = .ok () s' ∧
      (MoveDone mode src dest S T s s' ∨ MergeDone mode src dest S T s s') := by
  have hexists : onVolume (ask (sys.exists_ · dest)) s =
      .ok (s.volume.tree T).isSome ⟨s.volume, s.errfiles⟩ := by
    refine onVolume_ok (ask_ok.mpr ⟨?_, rfl⟩)
    rw [hworks.exists_eq, hpair.dest.names.found (hpair.apart.plainTarget [])]
  unfold renameDir
  rw [Program.bind_ok hexists]
  cases htarget : s.volume.tree T with
  | none =>
    have hfree : ∀ rest, s.volume.tree (rest ++ T) = none := s.volume.tree_append_of_none htarget
    obtain ⟨v', hrun, hdone⟩ := rename_done hworks hpair hdir (.inl htarget)
      fun rest => not_conflict_of_free (lawful_clash mode) (hfree rest)
    refine ⟨_, ?_, .inl hdone⟩
    have hrename : onVolume (renameOrCreate sys src dest) s = .ok false ⟨v', s.errfiles⟩ := by
      refine onVolume_ok ?_
      rw [renameOrCreate, hrun]
    show moveRest sys recur src dest s = _
    rw [moveRest, Program.bind_ok hrename]
    rfl
  | some node =>
    obtain ⟨s', hrun, hdone⟩ := hrecur (hpair.dirs hdir (by rw [htarget]; nofun))
      (by rw [htarget]; nofun) hdepth
    exact ⟨s', hrun, .inr hdone⟩

theorem MergeDone.removed (h : MergeDone mode src dest S T s s') (hapart : Apart s.volume S T)
    (hconflict : ∀ rest,
      ¬ Conflict (clash mode) (subtree s.volume.tree S) (subtree s.volume.tree T) rest) :
    MoveDone mode src dest S T s ⟨s'.volume.removeTree S, s'.errfiles⟩ := by
  have hS : S ≠ [] := fun h => hapart.left (h ▸ List.nil_suffix)
  have htree : ∀ q, (s'.volume.removeTree S).tree q =
      if S <:+ q then none else s'.volume.tree q := fun q => Volume.tree_removeTree hS
  have htarget : subtree (s'.volume.removeTree S).tree T = subtree s'.volume.tree T := by
    funext rest
    rw [subtree, htree, if_neg]
    · rfl
    · exact suffix_disjoint hapart.right hapart.left (List.suffix_append rest T)
  refine ⟨⟨fun q hS hT => ?_, h.reported⟩, Arrived.moved ?_ hconflict fun rest => ?_⟩
  · rw [htree, if_neg hS]
    exact h.outside q hS hT
  · rw [htarget]
    exact h.merged.arrived
  · rw [subtree, htree, if_pos (List.suffix_append rest S)]

theorem removeMoved_done (hworks : Works sys) (hpair : MovePair sys s.volume src dest S T)
    (hdir : s.volume.tree S = some .directory)
    (hdone : MoveDone mode src dest S T s s' ∨ MergeDone mode src dest S T s s') :
    ∃ s'', removeMoved sys src s.errfiles.length s' = .ok () s'' ∧
      MoveDone mode src dest S T s s'' := by
  have hbase : Done mode src dest S T s s' := hdone.elim (·.toDone) (·.toDone)
  have harrived : Arrived (clash mode) (subtree s.volume.tree S) (subtree s.volume.tree T)
      (subtree s'.volume.tree T) := hdone.elim (·.moved.arrived) (·.merged.arrived)
  have hnames : Names sys s'.volume src S :=
    (hpair.src.after fun q hq => hbase.same hpair.apart harrived hq).names
  unfold removeMoved
  rw [Program.get_bind_run]
  by_cases hconflict : ∀ rest,
      ¬ Conflict (clash mode) (subtree s.volume.tree S) (subtree s.volume.tree T) rest
  · rw [if_neg (not_not.mpr (hbase.reported.length_eq_iff.mpr hconflict))]
    rcases hdone with hmoved | hmerged
    · have hgone : s'.volume.tree S = none := hmoved.moved.gone [] (not_kept hconflict)
      refine ⟨_, onVolume_ok ?_, hmoved⟩
      exact Program.bind_eq_ok.mpr ⟨false, s'.volume,
        act_ok.mpr (hworks.remove_missing hnames.entry hgone), rfl⟩
    · have hroot : s'.volume.tree S = some .directory := hmerged.merged.root.trans hdir
      have hempty : ∀ name, s'.volume.tree (name :: S) = none := fun name =>
        hmerged.merged.gone [name] (List.cons_ne_nil _ _) (not_kept hconflict)
      refine ⟨_, onVolume_ok ?_, hmerged.removed hpair.apart hconflict⟩
      exact Program.bind_eq_ok.mpr ⟨true, _,
        act_ok.mpr (hworks.remove_empty hnames.entry hroot hempty), rfl⟩
  · obtain ⟨rest, hrest⟩ := not_forall.mp hconflict
    have hthere := not_not.mp hrest
    rw [if_pos fun heq => hconflict (hbase.reported.length_eq_iff.mp heq)]
    exact ⟨s', rfl, hdone.elim id fun h => h.moveDone ⟨rest, hthere⟩⟩

theorem moveEntry_done (hworks : Works sys) (hpair : MovePair sys s.volume src dest S T)
    {node : FileNode} (hnode : s.volume.tree S = some node) {depth : Nat}
    (hrecur : MergesPairs sys mode depth recur)
    (hdepth : ∀ rest, depth ≤ rest.length → s.volume.tree (rest ++ S) = none) :
    ∃ s', moveEntry sys recur mode src dest (typeOf node) s = .ok () s' ∧
      MoveDone mode src dest S T s s' := by
  cases node with
  | link route => exact absurd hnode (hpair.apart.plainSource [] route)
  | file bytes => exact renameFile_done hworks hpair hnode
  | directory =>
    obtain ⟨mid, hrename, hmid⟩ := renameDir_done hworks hpair hnode hrecur hdepth
    obtain ⟨s', hremove, hdone⟩ := removeMoved_done hworks hpair hnode hmid
    refine ⟨s', ?_, hdone⟩
    show (do
      let size := (← get).errfiles.length
      renameDir sys recur src dest
      removeMoved sys src size : EStateM Stop Moving Unit) s = _
    rw [Program.get_bind_run, Program.bind_ok hrename]
    exact hremove

/-! ## The loop -/

/-- What the loop has done with the entries that it went over. -/
structure EntriesDone (mode : DirMode) (src dest : PathName) (S T : List PathName)
    (entries : List DirEntry) (s s' : Moving) : Prop where
  moved : ∀ entry ∈ entries, Moved (clash mode) (subtree s.volume.tree (entry.name :: S))
    (subtree s.volume.tree (entry.name :: T)) (subtree s'.volume.tree (entry.name :: S))
    (subtree s'.volume.tree (entry.name :: T))
  outside : ∀ q, (∀ entry ∈ entries, ¬ entry.name :: S <:+ q ∧ ¬ entry.name :: T <:+ q) →
    s'.volume.tree q = s.volume.tree q
  reported : ∃ places : List (List PathName),
    s'.errfiles.Perm (s.errfiles ++ places.map (errFilesOf src dest)) ∧ places.Nodup ∧
      ∀ rest, rest ∈ places ↔ ∃ entry ∈ entries, ∃ front, rest = front ++ [entry.name] ∧
        Conflict (clash mode) (subtree s.volume.tree (entry.name :: S))
          (subtree s.volume.tree (entry.name :: T)) front

theorem DirPair.entry (hpair : DirPair sys v src dest S T) (htarget : v.tree T = some .directory)
    (hname : PlainName name) :
    MovePair sys v (src ++ slash :: name) (dest ++ slash :: name) (name :: S) (name :: T) := by
  have hS : ¬ Movable v (name :: S) (name :: T) S := by
    rintro (h | ⟨h, -⟩)
    · exact absurd h.length_le (Nat.not_succ_le_self _)
    · exact hpair.apart.right ((List.suffix_cons name T).trans h)
  have hT : ¬ Movable v (name :: S) (name :: T) T := by
    rintro (h | ⟨h, -⟩)
    · exact hpair.apart.left ((List.suffix_cons name S).trans h)
    · exact absurd h.length_le (Nat.not_succ_le_self _)
  exact ⟨(hpair.src.mono fun _ => movableBelow_of_cons).childName hS hpair.source hname,
    (hpair.dest.mono fun _ => movableBelow_of_cons).childName hT htarget hname,
    ⟨name, T, rfl, hname, htarget⟩, hpair.apart.child name⟩

/-- What the move of an entry leaves of the trees is outside the entry, or an entry without links. -/
theorem MoveDone.dirs (hdone : MoveDone mode (src ++ slash :: name) (dest ++ slash :: name)
      (name :: S) (name :: T) s s')
    (hpair : DirPair sys s.volume src dest S T) : DirPair sys s'.volume src dest S T := by
  have hchild := hpair.apart.child name
  have hsame : ∀ q, ¬ MovableBelow s.volume S T q → s'.volume.tree q = s.volume.tree q :=
    fun q hq => hdone.toDone.same hchild hdone.moved.arrived fun h => hq (movableBelow_of_cons h)
  have hregion : ∀ q, MovableBelow s'.volume S T q → MovableBelow s.volume S T q := by
    rintro q (hS | ⟨hT, hdir⟩)
    · exact .inl hS
    · by_contra hq
      have hthere : s.volume.tree q = some .directory := by
        by_contra hno
        exact hq (.inr ⟨hT, hno⟩)
      exact hdir ((hsame q hq).trans hthere)
  have hS : ¬ MovableBelow s.volume S T S := by
    rintro (h | ⟨h, -⟩)
    · exact h.2 rfl
    · exact hpair.apart.right h.1
  refine ⟨(hpair.src.after hsame).mono hregion, (hpair.dest.after hsame).mono hregion,
    (hsame S hS).trans hpair.source, hpair.apart.left, hpair.apart.right, ?_, ?_⟩
  · intro rest route hlink
    by_cases hbelow : name :: S <:+ rest ++ S
    · obtain ⟨front, hfront⟩ := hbelow
      have hnode : subtree s'.volume.tree (name :: S) front = some (.link route) := by
        rw [subtree, hfront]
        exact hlink
      by_cases hkept : Kept (clash mode) (subtree s.volume.tree (name :: S))
          (subtree s.volume.tree (name :: T)) front
      · rw [hdone.moved.kept front hkept] at hnode
        exact hchild.plainSource front route hnode
      · rw [hdone.moved.gone front hkept] at hnode
        cases hnode
    · have hother : ¬ name :: T <:+ rest ++ S := fun hs =>
        suffix_disjoint hpair.apart.left hpair.apart.right (List.suffix_append rest S)
          ((List.suffix_cons name T).trans hs)
      rw [subtree, hdone.outside _ hbelow hother] at hlink
      exact hpair.apart.plainSource rest route hlink
  · intro rest route hlink
    by_cases hbelow : name :: T <:+ rest ++ T
    · obtain ⟨front, hfront⟩ := hbelow
      have hnode : subtree s'.volume.tree (name :: T) front = some (.link route) := by
        rw [subtree, hfront]
        exact hlink
      by_cases hleft : subtree s.volume.tree (name :: S) front = none ∨
          Stuck (clash mode) (subtree s.volume.tree (name :: S))
            (subtree s.volume.tree (name :: T)) front
      · rw [hdone.moved.arrived.left front hleft] at hnode
        exact hchild.plainTarget front route hnode
      · obtain ⟨hthere, hstuck⟩ := not_or.mp hleft
        rw [hdone.moved.arrived.came front hthere hstuck] at hnode
        exact hchild.plainSource front route hnode
    · have hother : ¬ name :: S <:+ rest ++ T := fun hs =>
        suffix_disjoint hpair.apart.right hpair.apart.left (List.suffix_append rest T)
          ((List.suffix_cons name S).trans hs)
      rw [subtree, hdone.outside _ hother hbelow] at hlink
      exact hpair.apart.plainTarget rest route hlink

theorem MoveDone.other (hdone : MoveDone mode (src ++ slash :: name) (dest ++ slash :: name)
      (name :: S) (name :: T) s s')
    (hapart : Apart s.volume S T) {other : PathName} (hne : other ≠ name) :
    subtree s'.volume.tree (other :: S) = subtree s.volume.tree (other :: S) ∧
      subtree s'.volume.tree (other :: T) = subtree s.volume.tree (other :: T) := by
  constructor
  · funext rest
    refine hdone.outside _ (fun hs => hne ?_) fun hs => ?_
    · exact (eq_of_suffix hs (List.suffix_append rest (other :: S))).symm
    · exact suffix_disjoint hapart.left hapart.right
        ((List.suffix_cons other S).trans (List.suffix_append rest (other :: S)))
        ((List.suffix_cons name T).trans hs)
  · funext rest
    refine hdone.outside _ (fun hs => ?_) fun hs => hne ?_
    · exact suffix_disjoint hapart.right hapart.left
        ((List.suffix_cons other T).trans (List.suffix_append rest (other :: T)))
        ((List.suffix_cons name S).trans hs)
    · exact (eq_of_suffix hs (List.suffix_append rest (other :: T))).symm

theorem MoveDone.source_none (hdone : MoveDone mode (src ++ slash :: name) (dest ++ slash :: name)
      (name :: S) (name :: T) s s')
    (hapart : Apart s.volume S T) {rest : List PathName}
    (hnone : s.volume.tree (rest ++ S) = none) : s'.volume.tree (rest ++ S) = none := by
  by_cases hbelow : name :: S <:+ rest ++ S
  · obtain ⟨front, hfront⟩ := hbelow
    rw [← hfront] at hnone ⊢
    show subtree s'.volume.tree (name :: S) front = none
    by_cases hkept : Kept (clash mode) (subtree s.volume.tree (name :: S))
        (subtree s.volume.tree (name :: T)) front
    · rw [hdone.moved.kept front hkept]
      exact hnone
    · exact hdone.moved.gone front hkept
  · rw [hdone.outside _ hbelow fun hs => ?_]
    · exact hnone
    · exact suffix_disjoint hapart.left hapart.right (List.suffix_append rest S)
        ((List.suffix_cons name T).trans hs)

theorem EntriesDone.other {entries : List DirEntry}
    (hdone : EntriesDone mode src dest S T entries s s') (hapart : ¬ S <:+ T ∧ ¬ T <:+ S)
    (hname : ∀ entry ∈ entries, entry.name ≠ name) :
    subtree s'.volume.tree (name :: S) = subtree s.volume.tree (name :: S) ∧
      subtree s'.volume.tree (name :: T) = subtree s.volume.tree (name :: T) := by
  constructor
  · funext rest
    refine hdone.outside _ fun entry hmem => ⟨fun hs => ?_, fun hs => ?_⟩
    · exact hname entry hmem (eq_of_suffix hs (List.suffix_append rest _))
    · exact suffix_disjoint hapart.1 hapart.2
        ((List.suffix_cons _ S).trans (List.suffix_append rest _))
        ((List.suffix_cons _ T).trans hs)
  · funext rest
    refine hdone.outside _ fun entry hmem => ⟨fun hs => ?_, fun hs => ?_⟩
    · exact suffix_disjoint hapart.2 hapart.1
        ((List.suffix_cons _ T).trans (List.suffix_append rest _))
        ((List.suffix_cons _ S).trans hs)
    · exact hname entry hmem (eq_of_suffix hs (List.suffix_append rest _))

/-- The pairs of an entry, and those of the entries behind it. -/
theorem reported_cons {entry : DirEntry} {entries : List DirEntry} {mid : Moving}
    (hnew : entry.name ∉ entries.map (·.name))
    (hsame : ∀ other ∈ entries,
      subtree mid.volume.tree (other.name :: S) = subtree s.volume.tree (other.name :: S) ∧
        subtree mid.volume.tree (other.name :: T) = subtree s.volume.tree (other.name :: T))
    (hentry : Reported (clash mode) (src ++ slash :: entry.name) (dest ++ slash :: entry.name)
      (subtree s.volume.tree (entry.name :: S)) (subtree s.volume.tree (entry.name :: T))
      s.errfiles mid.errfiles)
    (hrest : ∃ places : List (List PathName),
      s'.errfiles.Perm (mid.errfiles ++ places.map (errFilesOf src dest)) ∧ places.Nodup ∧
        ∀ rest, rest ∈ places ↔ ∃ other ∈ entries, ∃ front, rest = front ++ [other.name] ∧
          Conflict (clash mode) (subtree mid.volume.tree (other.name :: S))
            (subtree mid.volume.tree (other.name :: T)) front) :
    ∃ places : List (List PathName),
      s'.errfiles.Perm (s.errfiles ++ places.map (errFilesOf src dest)) ∧ places.Nodup ∧
        ∀ rest, rest ∈ places ↔
          ∃ other ∈ entry :: entries, ∃ front, rest = front ++ [other.name] ∧
            Conflict (clash mode) (subtree s.volume.tree (other.name :: S))
              (subtree s.volume.tree (other.name :: T)) front := by
  obtain ⟨first, hfirstPerm, hfirstNodup, hfirst⟩ := hentry
  obtain ⟨later, hlaterPerm, hlaterNodup, hlater⟩ := hrest
  have hmap : first.map (errFilesOf (src ++ slash :: entry.name) (dest ++ slash :: entry.name)) =
      (first.map (· ++ [entry.name])).map (errFilesOf src dest) := by
    rw [List.map_map]
    exact List.map_congr_left fun rest _ => errFilesOf_concat src dest entry.name rest
  refine ⟨first.map (· ++ [entry.name]) ++ later, ?_, ?_, fun rest => ?_⟩
  · rw [List.map_append, ← List.append_assoc, ← hmap]
    exact hlaterPerm.trans (hfirstPerm.append_right _)
  · refine List.nodup_append'.mpr ⟨?_, hlaterNodup, ?_⟩
    · exact hfirstNodup.map fun a b h => List.append_cancel_right h
    · intro rest hmem hmem'
      obtain ⟨front, -, rfl⟩ := List.mem_map.mp hmem
      obtain ⟨other, hother, front', heq, -⟩ := (hlater _).mp hmem'
      have hname := (List.append_inj' heq rfl).2
      refine hnew (List.mem_map.mpr ⟨other, hother, ?_⟩)
      exact (List.cons.inj hname).1.symm
  · rw [List.mem_append, List.mem_map, hlater]
    constructor
    · rintro (⟨front, hmem, rfl⟩ | ⟨other, hmem, front, rfl, hconflict⟩)
      · exact ⟨entry, List.mem_cons_self, front, rfl, (hfirst front).mp hmem⟩
      · rw [(hsame other hmem).1, (hsame other hmem).2] at hconflict
        exact ⟨other, List.mem_cons_of_mem _ hmem, front, rfl, hconflict⟩
    · rintro ⟨other, hmem, front, rfl, hconflict⟩
      rcases List.mem_cons.mp hmem with rfl | hmem
      · exact .inl ⟨front, (hfirst front).mpr hconflict, rfl⟩
      · refine .inr ⟨other, hmem, front, rfl, ?_⟩
        rw [(hsame other hmem).1, (hsame other hmem).2]
        exact hconflict

theorem moveEntries_done (hworks : Works sys) {depth : Nat}
    (hrecur : MergesPairs sys mode depth recur) {entries : List DirEntry}
    (hpair : DirPair sys s.volume src dest S T) (htarget : s.volume.tree T = some .directory)
    (hentries : ∀ entry ∈ entries, ∃ node, s.volume.tree (entry.name :: S) = some node ∧
      entry.type = typeOf node) (hnodup : (entries.map (·.name)).Nodup)
    (hdepth : ∀ rest, depth + 1 ≤ rest.length → s.volume.tree (rest ++ S) = none) :
    ∃ s', moveEntries sys recur mode src dest entries s = .ok () s' ∧
      EntriesDone mode src dest S T entries s s' := by
  induction entries generalizing s with
  | nil =>
    refine ⟨s, rfl, nofun, fun _ _ => rfl, [], ?_, List.nodup_nil, fun rest => ?_⟩
    · rw [List.map_nil, List.append_nil]
    · exact iff_of_false nofun nofun
  | cons entry entries ih =>
    obtain ⟨node, hnode, htype⟩ := hentries entry List.mem_cons_self
    obtain ⟨hnew, hnodup⟩ := List.nodup_cons.mp hnodup
    have hname : PlainName entry.name := s.volume.sound.named entry.name S (by
      show s.volume.tree (entry.name :: S) ≠ none
      rw [hnode]
      nofun)
    have hother : ∀ other ∈ entries, other.name ≠ entry.name := fun other hmem heq =>
      hnew (List.mem_map.mpr ⟨other, hmem, heq⟩)
    obtain ⟨mid, hentry, hdone⟩ := moveEntry_done hworks (hpair.entry htarget hname) hnode hrecur
      fun rest hlength => by
        have hnone := hdepth (rest ++ [entry.name]) (by
          rw [List.length_append]
          exact Nat.succ_le_succ hlength)
        rwa [List.append_assoc] at hnone
    have hsame : ∀ other ∈ entries,
        subtree mid.volume.tree (other.name :: S) = subtree s.volume.tree (other.name :: S) ∧
          subtree mid.volume.tree (other.name :: T) = subtree s.volume.tree (other.name :: T) :=
      fun other hmem => hdone.other hpair.apart (hother other hmem)
    have hmid := hdone.dirs hpair
    have hmidTarget : mid.volume.tree T = some .directory := by
      refine (hdone.outside T (fun hs => ?_) fun hs => ?_).trans htarget
      · exact hpair.apart.left ((List.suffix_cons _ S).trans hs)
      · exact absurd hs.length_le (Nat.not_succ_le_self _)
    obtain ⟨s', hrest, hall⟩ := ih hmid hmidTarget (fun other hmem => by
        obtain ⟨node, hnode, htype⟩ := hentries other (List.mem_cons_of_mem _ hmem)
        exact ⟨node, (congrFun (hsame other hmem).1 []).trans hnode, htype⟩) hnodup
      fun rest hlength => hdone.source_none hpair.apart (hdepth rest hlength)
    refine ⟨s', ?_, fun other hmem => ?_, fun q hq => ?_,
      reported_cons hnew hsame hdone.reported hall.reported⟩
    · rw [moveEntries, htype, Program.bind_ok hentry]
      exact hrest
    · rcases List.mem_cons.mp hmem with rfl | hmem
      · have hkeep := hall.other ⟨hpair.apart.left, hpair.apart.right⟩ hother
        rw [hkeep.1, hkeep.2]
        exact hdone.moved
      · have hmoved := hall.moved other hmem
        rwa [(hsame other hmem).1, (hsame other hmem).2] at hmoved
    · rw [hall.outside q fun other hmem => hq other (List.mem_cons_of_mem _ hmem)]
      exact hdone.outside q (hq entry List.mem_cons_self).1 (hq entry List.mem_cons_self).2

/-! ## The recursion -/

/-- The entries of the source are all that is in it. -/
theorem merged_of_entries (hpair : DirPair sys s.volume src dest S T)
    (htarget : s.volume.tree T = some .directory)
    (hdone : EntriesDone mode src dest S T (entries s.volume S) s s') :
    MergeDone mode src dest S T s s' := by
  have hroot : ¬ Conflict (clash mode) (subtree s.volume.tree S) (subtree s.volume.tree T) [] := by
    show ¬ clash mode (s.volume.tree S) (s.volume.tree T) = true
    rw [hpair.source, htarget, (lawful_clash mode).directories]
    nofun
  have hunder : ∀ q, ¬ S <:+ q → ¬ T <:+ q → s'.volume.tree q = s.volume.tree q := fun q hS hT =>
    hdone.outside q fun entry _ => ⟨fun hs => hS ((List.suffix_cons _ S).trans hs),
      fun hs => hT ((List.suffix_cons _ T).trans hs)⟩
  have hlisted : ∀ {name node}, s.volume.tree (name :: S) = some node →
      ⟨name, typeOf node⟩ ∈ entries s.volume S := fun hnode => mem_entries.mpr ⟨_, hnode, rfl⟩
  have hsource : s'.volume.tree S = s.volume.tree S := by
    refine hdone.outside S fun entry _ => ⟨fun hs => ?_, fun hs => ?_⟩
    · exact absurd hs.length_le (Nat.not_succ_le_self _)
    · exact hpair.apart.right ((List.suffix_cons _ T).trans hs)
  have hdest : s'.volume.tree T = s.volume.tree T := by
    refine hdone.outside T fun entry _ => ⟨fun hs => ?_, fun hs => ?_⟩
    · exact hpair.apart.left ((List.suffix_cons _ S).trans hs)
    · exact absurd hs.length_le (Nat.not_succ_le_self _)
  refine ⟨⟨hunder, ?_⟩, merged_of_children hroot hsource hdest
    (hpair.source.trans htarget.symm) fun name => ?_⟩
  · obtain ⟨places, hperm, hnodup, hplaces⟩ := hdone.reported
    refine ⟨places, hperm, hnodup, fun rest => (hplaces rest).trans ⟨?_, fun hconflict => ?_⟩⟩
    · rintro ⟨entry, -, front, rfl, hconflict⟩
      rwa [subtree_cons, subtree_cons] at hconflict
    · rcases List.eq_nil_or_concat rest with rfl | ⟨front, name, rfl⟩
      · exact absurd hconflict hroot
      · rw [List.concat_eq_append] at hconflict ⊢
        have hchild : Conflict (clash mode) (subtree s.volume.tree (name :: S))
            (subtree s.volume.tree (name :: T)) front := by
          rw [subtree_cons, subtree_cons]
          exact hconflict
        cases hnode : s.volume.tree (name :: S) with
        | none =>
          exact absurd hchild (not_conflict_of_none (lawful_clash mode)
            (s.volume.tree_append_of_none hnode front))
        | some node => exact ⟨_, hlisted hnode, front, rfl, hchild⟩
  · rw [← subtree_cons, ← subtree_cons, ← subtree_cons, ← subtree_cons]
    cases hnode : s.volume.tree (name :: S) with
    | some node => exact hdone.moved _ (hlisted hnode)
    | none =>
      have hother : ∀ entry ∈ entries s.volume S, entry.name ≠ name := by
        intro entry hmem heq
        obtain ⟨node, hthere, -⟩ := mem_entries.mp hmem
        rw [heq, hnode] at hthere
        cases hthere
      have hkeep := hdone.other ⟨hpair.apart.left, hpair.apart.right⟩ hother
      exact moved_of_none (s.volume.tree_append_of_none hnode) hkeep.1 hkeep.2

theorem recurMoveDir_merges (hworks : Works sys) (mode : DirMode) (depth : Nat) :
    MergesPairs sys mode depth (recurMoveDir sys mode depth) := by
  induction depth with
  | zero =>
    intro s src dest S T hpair _ hdepth
    exact nomatch (hdepth [] (Nat.zero_le _)).symm.trans hpair.source
  | succ depth ih =>
    intro s src dest S T hpair hthere hdepth
    have hfound : sys.found s.volume dest = s.volume.tree T := found_of_lookup hpair.dest.lookup
    rw [recurMoveDir, Program.get_bind_run]
    by_cases htarget : s.volume.tree T = some .directory
    · have hdir : sys.isDirectory s.volume dest = true :=
        hworks.isDirectory_iff.mpr (hfound.trans htarget)
      rw [if_pos hdir, hworks.listed_directory hpair.src.lookup hpair.source]
      obtain ⟨s', hrun, hdone⟩ := moveEntries_done hworks ih hpair htarget
        (fun entry hmem => mem_entries.mp hmem) (nodup_entries s.volume S) hdepth
      exact ⟨s', hrun, merged_of_entries hpair htarget hdone⟩
    · have hdir : ¬ sys.isDirectory s.volume dest = true := by
        rw [hworks.isDirectory_iff, hfound]
        exact htarget
      rw [if_neg hdir]
      refine ⟨_, modify_run _ _, clash_done ?_ (fun rest hne => ?_) ?_⟩
      · rw [hpair.source]
        cases hnode : s.volume.tree T with
        | none => exact absurd hnode hthere
        | some node =>
          cases node with
          | directory => exact absurd hnode htarget
          | link route => exact absurd hnode (hpair.apart.plainTarget [] route)
          | file bytes => rfl
      · exact not_conflict_of_free (lawful_clash mode) (s.volume.tree_below htarget hne)
      · exact (List.perm_append_singleton _ _).symm

end FileApi.ModFs.MoveDir
