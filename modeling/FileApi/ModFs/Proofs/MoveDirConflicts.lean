import FileApi.ModFs.Proofs.MoveDir

/-!
# The conflicts of `moveDir`

When `DoMoveDir` says that files are in conflict, which ones it names, and where all files are then.
-/

namespace FileApi.ModFs.MoveDir

open Compress FileTree FileApi.ModFs.System Merge

variable {sys : System} {mode : DirMode} {v v' : FileVolume} {s s' : Moving}
  {src dest name : PathName} {S T D : List PathName}

theorem nodup_errFiles {places : List (List PathName)} (hnodup : places.Nodup)
    (hplaces : ∀ rest ∈ places, v.tree (rest ++ S) ≠ none) :
    (places.map (errFilesOf src dest)).Nodup := by
  refine hnodup.map_on fun a ha b hb heq => ?_
  exact pathBelow_inj (fun name hmem => (plainName_of_tree (hplaces a ha) name hmem).2.2.2)
    (fun name hmem => (plainName_of_tree (hplaces b hb) name hmem).2.2.2)
    (congrArg ErrFiles.srcFiles heq)

/-! ## Conflicts -/

/-- A file of the source whose target is there, or a directory whose target is no directory. -/
def IsConflict (v : FileVolume) (S T rest : List PathName) : Prop :=
  (∃ bytes, v.tree (rest ++ S) = some (.file bytes)) ∧ v.tree (rest ++ T) ≠ none ∨
    v.tree (rest ++ S) = some .directory ∧ v.tree (rest ++ T) ≠ none ∧
      v.tree (rest ++ T) ≠ some .directory

/-- A file and a directory by one name. -/
def IsTypeClash (v : FileVolume) (S T rest : List PathName) : Prop :=
  (∃ bytes, v.tree (rest ++ S) = some (.file bytes)) ∧ v.tree (rest ++ T) = some .directory ∨
    v.tree (rest ++ S) = some .directory ∧ ∃ bytes, v.tree (rest ++ T) = some (.file bytes)

variable {rest : List PathName}

theorem conflict_iff (hapart : Apart v S T) :
    Conflict (clash .fileThrowErr) (subtree v.tree S) (subtree v.tree T) rest ↔
      IsConflict v S T rest := by
  have hsource := hapart.plainSource rest
  have htarget := hapart.plainTarget rest
  unfold Conflict IsConflict
  unfold subtree at hsource htarget ⊢
  cases hS : v.tree (rest ++ S) with
  | none => simp [clash]
  | some source =>
    cases hT : v.tree (rest ++ T) with
    | none => simp [(lawful_clash .fileThrowErr).none_right]
    | some target =>
      cases source with
      | link route => exact absurd hS (hsource route)
      | file bytes =>
        cases target with
        | link route => exact absurd hT (htarget route)
        | file old => simp [clash]
        | directory => simp [clash]
      | directory =>
        cases target with
        | link route => exact absurd hT (htarget route)
        | file old => simp [clash]
        | directory => simp [clash]

theorem typeClash_of_conflict (hmode : mode ≠ .fileThrowErr) (hapart : Apart v S T)
    (h : Conflict (clash mode) (subtree v.tree S) (subtree v.tree T) rest) :
    IsTypeClash v S T rest := by
  have hsource := hapart.plainSource rest
  have htarget := hapart.plainTarget rest
  unfold Conflict at h
  unfold IsTypeClash
  unfold subtree at hsource htarget h
  cases hS : v.tree (rest ++ S) with
  | none =>
    rw [hS, (lawful_clash mode).none_left] at h
    cases h
  | some source =>
    cases hT : v.tree (rest ++ T) with
    | none =>
      rw [hT, (lawful_clash mode).none_right] at h
      cases h
    | some target =>
      cases source with
      | link route => exact absurd hS (hsource route)
      | file bytes =>
        cases target with
        | link route => exact absurd hT (htarget route)
        | file old =>
          rw [hS, hT] at h
          exact absurd (of_decide_eq_true h) hmode
        | directory => exact .inl ⟨⟨bytes, rfl⟩, rfl⟩
      | directory =>
        cases target with
        | link route => exact absurd hT (htarget route)
        | file old => exact .inr ⟨rfl, old, rfl⟩
        | directory =>
          rw [hS, hT] at h
          exact absurd h (by simp [clash])

/-! ## The call -/

/-- A call with the source directory at `S` and its name in the directory at `D`. -/
structure MoveCall (sys : System) (v : FileVolume) (src dest name : PathName)
    (S D : List PathName) : Prop where
  works : Works sys
  last : ∃ front, src = front ++ slash :: name
  named : PlainName name
  src : SteadyName sys v (Movable v S (name :: D)) src S
  dest : Steady sys v (Movable v S (name :: D)) dest D
  source : v.tree S = some .directory
  parent : v.tree D = some .directory
  apart : Apart v S (name :: D)

theorem MoveCall.pair (h : MoveCall sys v src dest name S D) :
    MovePair sys v src (dest ++ slash :: name) S (name :: D) := by
  have hD : ¬ Movable v S (name :: D) D := by
    rintro (hs | ⟨hs, -⟩)
    · exact h.apart.left (hs.trans (List.suffix_cons name D))
    · exact absurd hs.length_le (Nat.not_succ_le_self _)
  exact ⟨h.src, h.dest.childName hD h.parent h.named, ⟨name, D, rfl, h.named, h.parent⟩, h.apart⟩

theorem MoveCall.dirName_eq (h : MoveCall sys v src dest name S D) :
    dirName src = some (slash :: name) := by
  obtain ⟨front, rfl⟩ := h.last
  have hname : ∀ b ∈ name.reverse, decide (b ≠ slash) = true := fun b hb =>
    decide_eq_true fun heq => h.named.2.2.2 (heq ▸ List.mem_reverse.mp hb)
  rw [dirName, if_pos (by simp), List.reverse_append, List.reverse_cons, List.append_assoc,
    List.takeWhile_append_of_pos hname]
  simp

theorem MoveCall.validMoveDirArg_eq (h : MoveCall sys v src dest name S D) (modeType : Option Int) :
    validMoveDirArg sys v src dest modeType =
      match modeType with
      | some mode => dirMode mode
      | none => some .directoryThrowErr := by
  have hsrc : sys.isDirectory v src = true := h.works.isDirectory_iff.mpr
    ((h.src.names.found (h.apart.plainSource [])).trans h.source)
  have hdest : sys.isDirectory v dest = true := h.works.isDirectory_iff.mpr
    ((found_of_lookup h.dest.lookup).trans h.parent)
  unfold validMoveDirArg
  refine (if_pos ⟨hsrc, hdest⟩).trans ?_
  cases modeType with
  | none => rfl
  | some mode => rfl

/-- How `MoveDirFunc` ends behind the target that it has made free. -/
theorem finish_done (hworks : Works sys) (hpair : MovePair sys v src dest S T)
    (hdir : v.tree S = some .directory)
    (hdone : MoveDone mode src dest S T ⟨v, []⟩ s ∨ MergeDone mode src dest S T ⟨v, []⟩ s) :
    ∃ s', MoveDone mode src dest S T ⟨v, []⟩ s' ∧
      ((∃ rest, Conflict (clash mode) (subtree v.tree S) (subtree v.tree T) rest) ∧
          finish sys src s = .error (.errno .eexist) s' ∨
        (∀ rest, ¬ Conflict (clash mode) (subtree v.tree S) (subtree v.tree T) rest) ∧
          finish sys src s = .ok () s') := by
  have hbase : Done mode src dest S T ⟨v, []⟩ s := hdone.elim (·.toDone) (·.toDone)
  have harrived : Arrived (clash mode) (subtree v.tree S) (subtree v.tree T)
      (subtree s.volume.tree T) := hdone.elim (·.moved.arrived) (·.merged.arrived)
  have hnames : Names sys s.volume src S :=
    (hpair.src.after fun q hq => hbase.same hpair.apart harrived hq).names
  have hempty := hbase.reported.length_eq_iff
  unfold finish
  rw [Program.get_bind_run]
  by_cases hconflict : ∀ rest, ¬ Conflict (clash mode) (subtree v.tree S) (subtree v.tree T) rest
  · have hnil : s.errfiles = [] := List.eq_nil_of_length_eq_zero (hempty.mpr hconflict).symm
    rw [if_neg (not_not.mpr hnil)]
    rcases hdone with hmoved | hmerged
    · have hgone : s.volume.tree S = none := hmoved.moved.gone [] (not_kept hconflict)
      have hfound : sys.found s.volume src = none :=
        (hnames.found (by rw [hgone]; nofun)).trans hgone
      refine ⟨_, hmoved, .inr ⟨hconflict, onVolume_ok ?_⟩⟩
      refine Program.bind_eq_ok.mpr ⟨false, s.volume, ask_ok.mpr ⟨?_, rfl⟩, rfl⟩
      rw [hworks.exists_eq, hfound]
      rfl
    · have hroot : s.volume.tree S = some .directory := hmerged.merged.root.trans hdir
      have hfound : sys.found s.volume src = some .directory :=
        (hnames.found (by rw [hroot]; nofun)).trans hroot
      refine ⟨_, hmerged.removed hpair.apart hconflict, .inr ⟨hconflict, onVolume_ok ?_⟩⟩
      refine Program.bind_eq_ok.mpr ⟨true, s.volume, ask_ok.mpr ⟨?_, rfl⟩, ?_⟩
      · rw [hworks.exists_eq, hfound]
        rfl
      · show act (sys.removeAll · src) s.volume = _
        exact act_ok.mpr (hworks.removeAll_eq hnames.entry)
  · obtain ⟨rest, hrest⟩ := not_forall.mp hconflict
    have hthere := not_not.mp hrest
    have hnil : s.errfiles ≠ [] := fun h => hconflict (hempty.mp (by rw [h]))
    rw [if_pos hnil]
    exact ⟨s, hdone.elim id fun h => h.moveDone ⟨rest, hthere⟩, .inl ⟨⟨rest, hthere⟩, rfl⟩⟩

theorem MoveCall.moveDirFunc_done (h : MoveCall sys v src dest name S D) {fuel : Nat}
    (hfuel : ∀ place, fuel ≤ place.length → v.tree place = none)
    (hprepare : prepareDest sys mode (dest ++ slash :: name) v = .ok () v) :
    ∃ s', MoveDone mode src (dest ++ slash :: name) S (name :: D) ⟨v, []⟩ s' ∧
      ((∃ rest, Conflict (clash mode) (subtree v.tree S) (subtree v.tree (name :: D)) rest) ∧
          moveDirFunc sys fuel src dest mode ⟨v, []⟩ = .error (.errno .eexist) s' ∨
        (∀ rest, ¬ Conflict (clash mode) (subtree v.tree S) (subtree v.tree (name :: D)) rest) ∧
          moveDirFunc sys fuel src dest mode ⟨v, []⟩ = .ok () s') := by
  have hdepth : ∀ rest, fuel ≤ rest.length → v.tree (rest ++ S) = none := by
    intro rest hlength
    refine hfuel _ ?_
    rw [List.length_append]
    exact hlength.trans (Nat.le_add_right _ _)
  obtain ⟨s, hrename, hdone⟩ := renameDir_done h.works (s := ⟨v, []⟩) h.pair h.source
    (recurMoveDir_merges h.works mode fuel) hdepth
  obtain ⟨s', hmoved, hend⟩ := finish_done h.works h.pair h.source hdone
  have hrun : moveDirFunc sys fuel src dest mode ⟨v, []⟩ = finish sys src s := by
    rw [moveDirFunc, h.dirName_eq]
    dsimp only
    rw [Program.bind_ok (onVolume_ok hprepare), Program.bind_ok hrename]
  rw [hrun]
  exact ⟨s', hmoved, hend⟩

/-! ## A target that is replaced -/

variable {errno : Errno}

theorem renameTo_errno {node : FileNode} {dir : List PathName}
    (h : renameTo v S node name dir = (.error errno, v')) : errno ≠ .eexist ∧ errno ≠ .exdev := by
  unfold renameTo at h
  dsimp only at h
  split at h
  · cases h
  · split at h
    · cases h
      exact ⟨nofun, nofun⟩
    · split at h
      · cases h
        exact ⟨nofun, nofun⟩
      · split at h
        · cases h
        · split at h
          · cases h
          · cases h
            exact ⟨nofun, nofun⟩
        · cases h
          exact ⟨nofun, nofun⟩
        · cases h
          exact ⟨nofun, nofun⟩
        · cases h

theorem rename_errno (hworks : Works sys) (h : sys.rename v src dest = (.error errno, v')) :
    errno ≠ .eexist ∧ errno ≠ .exdev := by
  unfold rename at h
  rw [hworks] at h
  dsimp only at h
  split at h
  · split at h
    · cases h
      exact ⟨nofun, nofun⟩
    · exact renameTo_errno h
  · cases h
    exact ⟨nofun, nofun⟩

theorem removeAll_errno (hworks : Works sys) (h : sys.removeAll v src = (.error errno, v')) :
    errno = .einval := by
  unfold removeAll at h
  rw [hworks] at h
  dsimp only at h
  split at h
  · cases h
  · split at h
    · cases h
      rfl
    · cases h

theorem rmDirectory_errno (hworks : Works sys) {stop : Stop}
    (h : rmDirectory sys src v = .error stop v') : stop = .errno .einval := by
  rcases Program.bind_eq_error.mp h with hask | ⟨there, mid, -, hact⟩
  · rw [ask, hworks.exists_eq] at hask
    cases hask
  · cases there with
    | false => cases hact
    | true =>
      have hact : act (sys.removeAll · src) mid = .error stop v' := hact
      unfold act at hact
      split at hact
      · cases hact
      · next errno v'' hremove =>
        cases hact
        rw [removeAll_errno hworks hremove]

theorem renameOrCreate_error (hworks : Works sys) (h : sys.rename v src dest = (.error errno, v')) :
    renameOrCreate sys src dest v = .error (.errno errno) v' := by
  unfold renameOrCreate
  split
  · next hok => exact nomatch h.symm.trans hok
  · next hexdev => exact absurd rfl (rename_errno hworks hexdev).2
  · next herror =>
    cases h.symm.trans herror
    rfl

theorem moveRest_free (hworks : Works sys)
    (recur : PathName → PathName → EStateM Stop Moving Unit) (v : FileVolume) (src dest : PathName) :
    (∃ v', moveRest sys recur src dest ⟨v, []⟩ = .ok () ⟨v', []⟩) ∨
      ∃ errno s', moveRest sys recur src dest ⟨v, []⟩ = .error (.errno errno) s' ∧
        errno ≠ .eexist := by
  obtain ⟨result, v', hrename⟩ : ∃ result v', sys.rename v src dest = (result, v') := ⟨_, _, rfl⟩
  cases result with
  | ok u =>
    have hlift : onVolume (renameOrCreate sys src dest) ⟨v, []⟩ = .ok false ⟨v', []⟩ := by
      refine onVolume_ok ?_
      rw [renameOrCreate, hrename]
    refine .inl ⟨v', ?_⟩
    rw [moveRest, Program.bind_ok hlift]
    rfl
  | error errno =>
    refine .inr ⟨errno, ⟨v', []⟩, ?_, (rename_errno hworks hrename).1⟩
    refine Program.bind_eq_error.mpr (.inl ?_)
    rw [onVolume, renameOrCreate_error hworks hrename]

theorem renameDir_free (hworks : Works sys)
    {recur : PathName → PathName → EStateM Stop Moving Unit} (hfound : sys.found v dest = none)
    {stop : Stop}
    (h : (renameDir sys recur src dest >>= fun _ => finish sys src) ⟨v, []⟩ = .error stop s') :
    ∃ errno, stop = .errno errno ∧ errno ≠ .eexist := by
  have hexists : onVolume (ask (sys.exists_ · dest)) ⟨v, []⟩ = .ok false ⟨v, []⟩ := by
    refine onVolume_ok (ask_ok.mpr ⟨?_, rfl⟩)
    rw [hworks.exists_eq, hfound]
    rfl
  have hdir : renameDir sys recur src dest ⟨v, []⟩ = moveRest sys recur src dest ⟨v, []⟩ := by
    rw [renameDir, Program.bind_ok hexists]
    rfl
  rcases moveRest_free hworks recur v src dest with ⟨mid, hrun⟩ | ⟨errno, mid, hrun, herrno⟩
  · rw [Program.bind_ok (hdir.trans hrun)] at h
    have hfinish : onVolume (rmDirectory sys src) ⟨mid, []⟩ = .error stop s' := h
    unfold onVolume at hfinish
    split at hfinish
    · cases hfinish
    · next hremove =>
      cases hfinish
      exact ⟨.einval, rmDirectory_errno hworks hremove, nofun⟩
  · rw [Program.bind_run, hdir, hrun] at h
    cases h
    exact ⟨errno, rfl, herrno⟩

theorem found_removed (hnames : Names sys v dest T) (hthere : v.tree T ≠ none)
    (hlink : ∀ route, v.tree T ≠ some (.link route)) (hT : T ≠ []) :
    sys.found (v.removeTree T) dest = none := by
  obtain ⟨node, hnode⟩ := Option.ne_none_iff_exists'.mp hthere
  have hlookup := hnames.there node hnode fun route heq => hlink route (heq ▸ hnode)
  have htree : ∀ q, (v.removeTree T).tree q = if T <:+ q then none else v.tree q :=
    fun q => Volume.tree_removeTree hT
  have hsmaller : ∀ place node, (v.removeTree T).tree place = some node →
      v.tree place = some node := by
    intro place node h
    rw [htree] at h
    split at h
    · cases h
    · exact h
  rw [found]
  cases hwalk : sys.lookup (v.removeTree T) dest with
  | nowhere => rfl
  | missing place => rfl
  | there place =>
    have hne : dest ≠ [] := ne_nil_of_lookup hlookup
    have hthere : sys.lookup v dest = .there place := by
      rw [lookup_of_ne hne] at hwalk ⊢
      exact walk_mono hsmaller hwalk
    cases hlookup.symm.trans hthere
    show (v.removeTree T).tree T = none
    rw [htree, if_pos List.suffix_rfl]

theorem prepareDest_cases (hworks : Works sys) (mode : DirMode) (hnames : Names sys v dest T)
    (hlink : ∀ route, v.tree T ≠ some (.link route)) :
    prepareDest sys mode dest v = .ok () v ∨
      mode = .directoryThrowErr ∧ prepareDest sys mode dest v = .error (.errno .enotempty) v ∨
        mode = .directoryReplace ∧ v.tree T ≠ none ∧
          prepareDest sys mode dest v = .ok () (v.removeTree T) := by
  unfold prepareDest
  rw [Program.get_bind_run]
  split
  · next hjudge =>
    have hexists : sys.exists_ v dest = .ok true := by
      unfold judgeExistAndEmpty at hjudge
      split at hjudge
      · next hexists => exact hexists
      · cases hjudge
    have hfound : (sys.found v dest).isSome = true := by
      rw [hworks.exists_eq] at hexists
      exact Except.ok.inj hexists
    have hthere : v.tree T ≠ none := by
      rw [hnames.found hlink] at hfound
      intro hnone
      rw [hnone] at hfound
      cases hfound
    cases mode with
    | directoryThrowErr => exact .inr (.inl ⟨rfl, rfl⟩)
    | fileThrowErr => exact .inl rfl
    | fileReplace => exact .inl rfl
    | directoryReplace =>
      refine .inr (.inr ⟨rfl, hthere, ?_⟩)
      refine Program.bind_eq_ok.mpr ⟨true, v, ask_ok.mpr ⟨hexists, rfl⟩, ?_⟩
      show act (sys.removeAll · dest) v = _
      exact act_ok.mpr (hworks.removeAll_eq hnames.entry)
  · exact .inl rfl

/-! ## The report -/

/-- What `DoMoveDir` says about conflicts, and where it has left the files. -/
structure ConflictReport (v v' : FileVolume) (src dest : PathName) (S T : List PathName)
    (result : MoveDirResult) : Prop where
  eexist : result.fsResult = .error .eexist ↔ ∃ rest, IsConflict v S T rest
  success : (∀ rest, ¬ IsConflict v S T rest) → result.fsResult = .ok ()
  listed : result.errFiles.isSome ↔ ∃ rest, IsConflict v S T rest
  pairs : ∀ errFiles, result.errFiles = some errFiles → errFiles.Nodup ∧
    ∀ pair, pair ∈ errFiles ↔ ∃ rest, IsConflict v S T rest ∧ pair = errFilesOf src dest rest
  conflicting : ∀ rest bytes, IsConflict v S T rest → v.tree (rest ++ S) = some (.file bytes) →
    v'.tree (rest ++ S) = some (.file bytes)
  existing : ∀ rest bytes, v.tree (rest ++ T) = some (.file bytes) →
    v'.tree (rest ++ T) = some (.file bytes)
  moved : ∀ rest bytes, v.tree (rest ++ S) = some (.file bytes) →
    (∀ above, above <:+ rest → ¬ IsConflict v S T above) →
      v'.tree (rest ++ T) = some (.file bytes) ∧ v'.tree (rest ++ S) = none

theorem mem_errfiles (hdone : MoveDone mode src dest S T ⟨v, []⟩ s) (pair : ErrFiles) :
    pair ∈ s.errfiles ↔
      ∃ rest, Conflict (clash mode) (subtree v.tree S) (subtree v.tree T) rest ∧
        pair = errFilesOf src dest rest := by
  obtain ⟨places, hperm, -, hplaces⟩ := hdone.reported
  rw [hperm.mem_iff, List.nil_append, List.mem_map]
  constructor
  · rintro ⟨rest, hmem, rfl⟩
    exact ⟨rest, (hplaces rest).mp hmem, rfl⟩
  · rintro ⟨rest, hconflict, rfl⟩
    exact ⟨rest, (hplaces rest).mpr hconflict, rfl⟩

theorem nodup_errfiles (hdone : MoveDone mode src dest S T ⟨v, []⟩ s) : s.errfiles.Nodup := by
  obtain ⟨places, hperm, hnodup, hplaces⟩ := hdone.reported
  rw [hperm.nodup_iff, List.nil_append]
  have hthere : ∀ rest ∈ places, v.tree (rest ++ S) ≠ none := fun rest hmem hnone =>
    absurd ((hplaces rest).mp hmem) (not_conflict_of_none (lawful_clash mode) hnone)
  exact nodup_errFiles hnodup hthere

theorem conflicting_file (hapart : Apart v S T)
    (hdone : MoveDone .fileThrowErr src dest S T ⟨v, []⟩ s) (hconflict : IsConflict v S T rest) :
    s.volume.tree (rest ++ S) = v.tree (rest ++ S) :=
  hdone.moved.kept rest (kept_of_stuck (stuck_of_conflict ((conflict_iff hapart).mpr hconflict)))

theorem existing_file (hapart : Apart v S T) (hdone : MoveDone .fileThrowErr src dest S T ⟨v, []⟩ s)
    {bytes : List UInt8} (hfile : v.tree (rest ++ T) = some (.file bytes)) :
    s.volume.tree (rest ++ T) = some (.file bytes) := by
  refine (hdone.moved.arrived.left rest ?_).trans hfile
  cases hnode : v.tree (rest ++ S) with
  | none => exact .inl hnode
  | some node =>
    refine .inr (stuck_of_conflict ((conflict_iff hapart).mpr ?_))
    cases node with
    | link route => exact absurd hnode (hapart.plainSource rest route)
    | file content => exact .inl ⟨⟨content, hnode⟩, by rw [hfile]; nofun⟩
    | directory => exact .inr ⟨hnode, by rw [hfile]; nofun, by rw [hfile]; nofun⟩

theorem moved_file (hapart : Apart v S T) (hdone : MoveDone .fileThrowErr src dest S T ⟨v, []⟩ s)
    {bytes : List UInt8} (hfile : v.tree (rest ++ S) = some (.file bytes))
    (hfree : ∀ above, above <:+ rest → ¬ IsConflict v S T above) :
    s.volume.tree (rest ++ T) = some (.file bytes) ∧ s.volume.tree (rest ++ S) = none := by
  have hnot : ∀ above, above <:+ rest →
      ¬ Conflict (clash .fileThrowErr) (subtree v.tree S) (subtree v.tree T) above :=
    fun above habove hconflict => hfree above habove ((conflict_iff hapart).mp hconflict)
  have hstuck : ¬ Stuck (clash .fileThrowErr) (subtree v.tree S) (subtree v.tree T) rest := by
    rintro ⟨above, habove, hconflict⟩
    exact hnot above habove hconflict
  have hkept : ¬ Kept (clash .fileThrowErr) (subtree v.tree S) (subtree v.tree T) rest := by
    rintro ⟨other, hconflict, hbelow | habove⟩
    · obtain ⟨front, rfl⟩ := hbelow
      cases front with
      | nil => exact hnot rest List.suffix_rfl hconflict
      | cons first front =>
        -- nothing is below a file
        refine not_conflict_of_none (lawful_clash _) ?_ hconflict
        rw [subtree, List.append_assoc]
        exact v.tree_below (by simp [hfile]) (List.cons_ne_nil first front)
    · exact hnot other habove hconflict
  have hthere : v.tree (rest ++ S) ≠ none := by
    rw [hfile]
    exact Option.some_ne_none _
  exact ⟨(hdone.moved.arrived.came rest hthere hstuck).trans hfile, hdone.moved.gone rest hkept⟩

theorem report_of_done (hapart : Apart v S T)
    (hdone : MoveDone .fileThrowErr src dest S T ⟨v, []⟩ s) {result : MoveDirResult}
    (hresult : (∃ rest, IsConflict v S T rest) ∧ result = ⟨.error .eexist, some s.errfiles⟩ ∨
      (∀ rest, ¬ IsConflict v S T rest) ∧ result = { fsResult := .ok () }) :
    ConflictReport v s.volume src dest S T result where
  eexist := by
    rcases hresult with ⟨hconflict, rfl⟩ | ⟨hnone, rfl⟩
    · exact iff_of_true rfl hconflict
    · exact iff_of_false nofun (not_exists.mpr hnone)
  success hnone := by
    rcases hresult with ⟨⟨rest, hconflict⟩, -⟩ | ⟨-, rfl⟩
    · exact absurd hconflict (hnone rest)
    · rfl
  listed := by
    rcases hresult with ⟨hconflict, rfl⟩ | ⟨hnone, rfl⟩
    · exact iff_of_true rfl hconflict
    · exact iff_of_false nofun (not_exists.mpr hnone)
  pairs errFiles heq := by
    rcases hresult with ⟨-, rfl⟩ | ⟨-, rfl⟩
    · cases heq
      refine ⟨nodup_errfiles hdone, fun pair => (mem_errfiles hdone pair).trans ?_⟩
      exact exists_congr fun rest => and_congr_left' (conflict_iff hapart)
    · cases heq
  conflicting _ _ hconflict hfile := (conflicting_file hapart hdone hconflict).trans hfile
  existing _ _ hfile := existing_file hapart hdone hfile
  moved _ _ hfile hfree := moved_file hapart hdone hfile hfree

theorem dirMode_eq_fileThrowErr {number : Int} :
    dirMode number = some .fileThrowErr ↔ number = 1 := by
  unfold dirMode
  constructor
  · intro h
    split at h
    · cases h
    · split at h
      · next hone => exact hone
      · split at h
        · cases h
        · split at h
          · cases h
          · cases h
  · rintro rfl
    rfl

theorem MoveCall.mode_eq (h : MoveCall sys v src dest name S D) {modeType : Option Int}
    {mode : DirMode} (hvalid : validMoveDirArg sys v src dest modeType = some mode) :
    mode = .fileThrowErr ↔ modeType = some 1 := by
  rw [h.validMoveDirArg_eq] at hvalid
  cases modeType with
  | none =>
    cases hvalid
    exact iff_of_false nofun nofun
  | some number =>
    constructor
    · rintro rfl
      rw [dirMode_eq_fileThrowErr.mp hvalid]
    · rintro ⟨⟩
      exact (Option.some.inj (hvalid.symm.trans (dirMode_eq_fileThrowErr.mpr rfl)))

theorem doMoveDir_of_valid {fuel : Nat} {modeType : Option Int}
    (h : validMoveDirArg sys v src dest modeType = some mode) :
    (∀ s', moveDirFunc sys fuel src dest mode ⟨v, []⟩ = .ok () s' →
        doMoveDir sys fuel src dest modeType v = (some { fsResult := .ok () }, s'.volume)) ∧
      ∀ errno s', moveDirFunc sys fuel src dest mode ⟨v, []⟩ = .error (.errno errno) s' →
        doMoveDir sys fuel src dest modeType v =
          (some ⟨.error errno, if errno = .eexist then some s'.errfiles else none⟩, s'.volume) := by
  refine ⟨fun s' hrun => ?_, fun errno s' hrun => ?_⟩
  · rw [doMoveDir, h]
    dsimp only
    rw [hrun]
  · rw [doMoveDir, h]
    dsimp only
    rw [hrun]

/-- `DoMoveDir` with mode `DIRMODE_FILE_THROW_ERR` reports exactly the conflicts and moves the rest;
in the other modes only files and directories by one name are reported. -/
theorem doMoveDir_reports (h : MoveCall sys v src dest name S D) :
    ∃ depth, ∀ fuel, depth ≤ fuel → ∀ modeType, ∃ result v',
      doMoveDir sys fuel src dest modeType v = (some result, v') ∧
        (modeType = some 1 →
          ConflictReport v v' src (dest ++ slash :: name) S (name :: D) result) ∧
        (modeType ≠ some 1 → ∀ errFiles, result.errFiles = some errFiles → ∀ pair ∈ errFiles,
          ∃ rest, IsTypeClash v S (name :: D) rest ∧
            pair = errFilesOf src (dest ++ slash :: name) rest) := by
  obtain ⟨depth, hdepth⟩ := v.exists_depth
  refine ⟨depth, fun fuel hfuel modeType => ?_⟩
  cases hvalid : validMoveDirArg sys v src dest modeType with
  | none =>
    refine ⟨{ fsResult := .error .einval }, v, ?_, ?_, fun _ _ heq => (by cases heq)⟩
    · rw [doMoveDir, hvalid]
    · rintro rfl
      rw [h.validMoveDirArg_eq] at hvalid
      cases hvalid
  | some mode =>
    obtain ⟨hok, herror⟩ := doMoveDir_of_valid hvalid
    have hmode := h.mode_eq hvalid
    have hlink := h.apart.plainTarget []
    rcases prepareDest_cases h.works mode h.pair.dest.names hlink with
      hprepare | ⟨rfl, hprepare⟩ | ⟨rfl, hthere, hprepare⟩
    · obtain ⟨s', hdone, hend⟩ := h.moveDirFunc_done
        (fun place hlength => hdepth place (hfuel.trans hlength)) hprepare
      have hresult : ∃ result, doMoveDir sys fuel src dest modeType v = (some result, s'.volume) ∧
          ((∃ rest, Conflict (clash mode) (subtree v.tree S) (subtree v.tree (name :: D)) rest) ∧
              result = ⟨.error .eexist, some s'.errfiles⟩ ∨
            (∀ rest, ¬ Conflict (clash mode) (subtree v.tree S) (subtree v.tree (name :: D)) rest) ∧
              result = { fsResult := .ok () }) := by
        rcases hend with ⟨hconflict, hrun⟩ | ⟨hnone, hrun⟩
        · exact ⟨_, herror _ _ hrun, .inl ⟨hconflict, rfl⟩⟩
        · exact ⟨_, hok _ hrun, .inr ⟨hnone, rfl⟩⟩
      obtain ⟨result, hrun, hresult⟩ := hresult
      refine ⟨result, s'.volume, hrun, fun hone => ?_, fun hone errFiles heq pair hmem => ?_⟩
      · obtain rfl := hmode.mpr hone
        refine report_of_done h.apart hdone (hresult.imp (fun hr => ⟨?_, hr.2⟩) fun hr => ⟨?_, hr.2⟩)
        · exact hr.1.imp fun rest => (conflict_iff h.apart).mp
        · exact fun rest hconflict => hr.1 rest ((conflict_iff h.apart).mpr hconflict)
      · rcases hresult with ⟨-, rfl⟩ | ⟨-, rfl⟩
        · cases heq
          obtain ⟨rest, hconflict, rfl⟩ := (mem_errfiles hdone pair).mp hmem
          exact ⟨rest, typeClash_of_conflict (fun heq => hone (hmode.mp heq)) h.apart hconflict, rfl⟩
        · cases heq
    · have hrun : moveDirFunc sys fuel src dest .directoryThrowErr ⟨v, []⟩ =
          .error (.errno .enotempty) ⟨v, []⟩ := by
        rw [moveDirFunc, h.dirName_eq]
        dsimp only
        refine Program.bind_eq_error.mpr (.inl ?_)
        rw [onVolume, hprepare]
      exact ⟨_, _, herror _ _ hrun, fun hone => (by cases hmode.mpr hone), fun _ _ heq => (by cases heq)⟩
    · have hfound := found_removed h.pair.dest.names hthere hlink (List.cons_ne_nil name D)
      have hrun : moveDirFunc sys fuel src dest .directoryReplace ⟨v, []⟩ =
          (renameDir sys (recurMoveDir sys .directoryReplace fuel) src (dest ++ slash :: name) >>=
            fun _ => finish sys src) ⟨v.removeTree (name :: D), []⟩ := by
        rw [moveDirFunc, h.dirName_eq]
        dsimp only
        rw [Program.bind_ok (onVolume_ok hprepare)]
      cases hend : (renameDir sys (recurMoveDir sys .directoryReplace fuel) src
          (dest ++ slash :: name) >>= fun _ => finish sys src) ⟨v.removeTree (name :: D), []⟩ with
      | ok u s' =>
        exact ⟨_, _, hok _ (hrun.trans hend), fun hone => (by cases hmode.mpr hone),
          fun _ _ heq => (by cases heq)⟩
      | error stop s' =>
        obtain ⟨errno, rfl, herrno⟩ := renameDir_free h.works hfound hend
        refine ⟨_, _, herror _ _ (hrun.trans hend), fun hone => (by cases hmode.mpr hone),
          fun _ errFiles heq => ?_⟩
        rw [if_neg herrno] at heq
        cases heq

/-! ## A directory onto a file -/

/-- `/p/s` with a file `a` and a directory `x` with a file `b`, and `/d/s` with a file `x`. -/
def clashing : FileVolume :=
  let source := (((Volume.empty.put [0x70] [] .directory).put [0x73] [[0x70]] .directory).put
    [0x61] [[0x73], [0x70]] (.file [0x68, 0x69])).put [0x78] [[0x73], [0x70]] .directory
  let dest := ((source.put [0x62] [[0x78], [0x73], [0x70]] (.file [0x79, 0x6f])).put
    [0x64] [] .directory).put [0x73] [[0x64]] .directory
  dest.put [0x78] [[0x73], [0x64]] (.file [0x6f, 0x6c, 0x64])

theorem clashing_plain : clashing.Plain := by
  have hdir : ∀ route, (Node.directory : FileNode) ≠ .link route := fun _ h => by cases h
  have hfile : ∀ bytes route, (Node.file bytes : FileNode) ≠ .link route := fun _ _ h => by cases h
  have hempty : (Volume.empty : FileVolume).Plain := .empty
  have hsource := (((hempty.put hdir [0x70] []).put hdir [0x73] [[0x70]]).put
    (hfile [0x68, 0x69]) [0x61] [[0x73], [0x70]]).put hdir [0x78] [[0x73], [0x70]]
  have hdest := ((hsource.put (hfile [0x79, 0x6f]) [0x62] [[0x78], [0x73], [0x70]]).put
    hdir [0x64] []).put hdir [0x73] [[0x64]]
  exact hdest.put (hfile _) [0x78] [[0x73], [0x64]]

theorem steady_clashing {region : List PathName → Prop} {name : PathName}
    (hname : name = [0x70] ∨ name = [0x64]) (hregion : ¬ region [name]) :
    Steady {} clashing region (slash :: name) [name] := by
  have hsteps : (names (routeOf (slash :: name)).steps).reverse = [name] := by
    rcases hname with rfl | rfl <;> decide
  have hdir : clashing.tree [name] = some .directory := by
    rcases hname with rfl | rfl <;> decide
  have hup : .up ∉ (routeOf (slash :: name)).steps := by
    rcases hname with rfl | rfl <;> decide
  rw [← hsteps]
  refine steady_of_directories {} rfl hup fun place hplace hne => ?_
  rw [hsteps] at hplace
  rcases List.suffix_cons_iff.mp hplace with rfl | hnil
  · exact ⟨hregion, hdir⟩
  · exact absurd (List.suffix_nil.mp hnil) hne

theorem clashing_call : MoveCall {} clashing ([slash, 0x70] ++ slash :: [0x73]) [slash, 0x64] [0x73]
    [[0x73], [0x70]] [[0x64]] where
  works _ _ := rfl
  last := ⟨_, rfl⟩
  named := by decide
  src := by
    have hregion : ¬ Movable clashing [[0x73], [0x70]] [[0x73], [0x64]] [[0x70]] := by
      unfold Movable
      decide
    exact (steady_clashing (.inl rfl) hregion).childName hregion (by decide) (by decide)
  dest := steady_clashing (.inr rfl) (by unfold Movable; decide)
  source := by decide
  parent := by decide
  apart := ⟨by decide, by decide, fun rest route => clashing_plain _ route,
    fun rest route => clashing_plain _ route⟩

theorem doMoveDir_reports_clashing : ∃ fuel result v',
    doMoveDir {} fuel ([slash, 0x70] ++ slash :: [0x73]) [slash, 0x64] (some 1) clashing =
        (some result, v') ∧
      ConflictReport clashing v' ([slash, 0x70] ++ slash :: [0x73])
        ([slash, 0x64] ++ slash :: [0x73]) [[0x73], [0x70]] [[0x73], [0x64]] result := by
  obtain ⟨depth, h⟩ := doMoveDir_reports clashing_call
  obtain ⟨result, v', hrun, hreport, -⟩ := h depth le_rfl (some 1)
  exact ⟨depth, result, v', hrun, hreport rfl⟩

/-- A file below a conflict stays, though nothing has its name in the target. -/
theorem doMoveDir_not_moved : ∃ result v',
    doMoveDir {} 3 ([slash, 0x70] ++ slash :: [0x73]) [slash, 0x64] (some 1) clashing =
        (some result, v') ∧
      clashing.tree ([[0x62], [0x78]] ++ [[0x73], [0x70]]) = some (.file [0x79, 0x6f]) ∧
      ¬ IsConflict clashing [[0x73], [0x70]] [[0x73], [0x64]] [[0x62], [0x78]] ∧
      v'.tree ([[0x62], [0x78]] ++ [[0x73], [0x64]]) = none := by
  refine ⟨_, _, rfl, by decide, ?_, by decide⟩
  rintro (⟨-, hthere⟩ | ⟨hdir, -⟩)
  · exact hthere (by decide)
  · exact absurd hdir (by decide)

end FileApi.ModFs.MoveDir
