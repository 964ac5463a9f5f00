import FileApi.ModFs.CopyDir
import FileApi.ModFs.Proofs.Regions

/-!
# What copying a directory changes

What `RecurCopyDir` has done when it ends, well or not, for a source and a target in a region without
links that the source is not in. The paths may lead wherever they did; what is found behind them is
at the places of the source and of the target.
-/

namespace FileApi.ModFs.CopyDir

open Compress FileTree FileApi.ModFs.System

variable {sys : System} {mode : ModeOfCopyDir} {region : List PathName → Prop}
  {o v v' w : FileVolume} {s s' s'' : Copying} {src dest name : PathName} {S T : List PathName}

/-! ## Changes -/

/-- What a copy may do at the place of a target: a directory is made where there was nothing, and a
file comes in the place of what was there, which is removed first. -/
def Change (source before after : Option FileNode) : Prop :=
  after = before ∨ (source = some .directory ∧ before = none ∧ after = some .directory) ∨
    ∃ bytes, source = some (.file bytes) ∧ (after = none ∨ after = some (.file bytes))

theorem changeRule : ChangeRule Change where
  refl _ _ := .inl rfl
  trans {source a b c} h h' := by
    rcases h' with rfl | ⟨hsource, hbefore, hafter⟩ | hfile
    · exact h
    · rcases h with rfl | ⟨-, -, hmade⟩ | ⟨bytes, hfile, -⟩
      · exact .inr (.inl ⟨hsource, hbefore, hafter⟩)
      · exact nomatch hmade.symm.trans hbefore
      · exact nomatch hsource.symm.trans hfile
    · exact .inr (.inr hfile)
  eq_of_none {before after} h := by
    rcases h with h | ⟨⟨⟩, -⟩ | ⟨bytes, ⟨⟩, -⟩
    exact h
  eq_or_ne_link {source before after} h := by
    rcases h with h | ⟨-, -, rfl⟩ | ⟨bytes, -, rfl | rfl⟩
    · exact .inl h
    · exact .inr nofun
    · exact .inr nofun
    · exact .inr nofun

/-! ## Sources and targets -/

/-- Paths to a source without links and to a target. -/
structure CopyPair (sys : System) (region : List PathName → Prop) (o : FileVolume)
    (src dest : PathName) (S T : List PathName) : Prop extends
    PathPair sys region o src dest S T where
  plain : ∀ rest route, o.tree (rest ++ S) ≠ some (.link route)

theorem CopyPair.child (h : CopyPair sys region o src dest S T) (hname : PlainName name)
    (hthere : o.tree (name :: S) ≠ none) :
    CopyPair sys region o (src ++ slash :: name) (dest ++ slash :: name) (name :: S)
      (name :: T) where
  toPathPair := h.toPathPair.child hname hthere (h.plain [name])
  plain rest route := by
    have hplain := h.plain (rest ++ [name]) route
    rwa [List.append_assoc] at hplain

/-! ## Single calls -/

/-- The files of a conflict, by their places below the source and the target. -/
def conflictOf (src dest : PathName) (rest : List PathName) : ConflictFiles :=
  ⟨pathBelow src rest, pathBelow dest rest⟩

theorem conflictOf_concat (src dest name : PathName) (rest : List PathName) :
    conflictOf src dest (rest ++ [name]) =
      conflictOf (src ++ slash :: name) (dest ++ slash :: name) rest := by
  rw [conflictOf, pathBelow_concat, pathBelow_concat]
  rfl

/-- What is at a place of the target when the copy has ended well. -/
structure Placed (sys : System) (mode : ModeOfCopyDir) (conflict : Prop)
    (source before after : Option FileNode) : Prop where
  change : Change source before after
  directory : source = some .directory → after ≠ none
  copied : ∀ bytes, source = some (.file bytes) → ¬ conflict →
    after = some (.file bytes) ∧ (mode = .fileCopyThrowErr → before = none)
  conflict : conflict → (∃ bytes, source = some (.file bytes)) ∧
    (mode = .fileCopyThrowErr → after = before) ∧
    (Works sys → mode = .fileCopyThrowErr ∧ before ≠ none)

theorem Placed.of_none {conflict : Prop} (hconflict : ¬ conflict) (before : Option FileNode) :
    Placed sys mode conflict none before before :=
  ⟨.inl rfl, nofun, nofun, fun h => absurd h hconflict⟩

theorem Placed.congr {conflict conflict' : Prop} {source before after : Option FileNode}
    (h : Placed sys mode conflict source before after) (hconflict : conflict' ↔ conflict) :
    Placed sys mode conflict' source before after := propext hconflict ▸ h

/-- What a copy has done to the places below the target that are in its scope when it has ended
well, and which of them are in conflict. -/
structure Copied (sys : System) (mode : ModeOfCopyDir) (o : FileVolume) (src dest : PathName)
    (S T : List PathName) (scope : List PathName → Prop) (conflicts : List (List PathName))
    (s s' : Copying) : Prop where
  nodup : conflicts.Nodup
  inScope : ∀ rest ∈ conflicts, scope rest
  listed : s'.errfiles = s.errfiles ++ conflicts.map (conflictOf src dest)
  placed : ∀ rest, scope rest → Placed sys mode (rest ∈ conflicts) (o.tree (rest ++ S))
    (s.volume.tree (rest ++ T)) (s'.volume.tree (rest ++ T))
  outside : ∀ q, (∀ rest, scope rest → q ≠ rest ++ T) → s'.volume.tree q = s.volume.tree q

namespace Copied

variable {scope scope' : List PathName → Prop} {conflicts conflicts' : List (List PathName)}

theorem other (h : Copied sys mode o src dest S T scope conflicts s s') {rest : List PathName}
    (hrest : ¬ scope rest) : s'.volume.tree (rest ++ T) = s.volume.tree (rest ++ T) :=
  h.outside _ fun _ hscope heq => hrest (List.append_cancel_right heq ▸ hscope)

theorem changes (h : Copied sys mode o src dest S T scope conflicts s s') :
    Changes Change o s.volume s'.volume S T := by
  refine ⟨fun rest => ?_, fun q hq => h.outside q fun rest _ heq => hq ⟨rest, heq.symm⟩⟩
  by_cases hrest : scope rest
  · exact (h.placed rest hrest).change
  · exact .inl (h.other hrest)

theorem trans (h : Copied sys mode o src dest S T scope conflicts s s')
    (h' : Copied sys mode o src dest S T scope' conflicts' s' s'')
    (hapart : ∀ rest, scope rest → ¬ scope' rest) :
    Copied sys mode o src dest S T (fun rest => scope rest ∨ scope' rest)
      (conflicts ++ conflicts') s s'' where
  nodup := by
    refine List.nodup_append.mpr ⟨h.nodup, h'.nodup, ?_⟩
    rintro a ha b hb rfl
    exact hapart a (h.inScope a ha) (h'.inScope a hb)
  inScope rest hmem :=
    (List.mem_append.mp hmem).imp (h.inScope rest) (h'.inScope rest)
  listed := by rw [h'.listed, h.listed, List.map_append, List.append_assoc]
  placed rest hrest := by
    by_cases hscope : scope rest
    · rw [h'.other (hapart rest hscope)]
      refine (h.placed rest hscope).congr (List.mem_append.trans (or_iff_left ?_))
      exact fun hmem => hapart rest hscope (h'.inScope rest hmem)
    · rw [← h.other hscope]
      refine (h'.placed rest (hrest.resolve_left hscope)).congr
        (List.mem_append.trans (or_iff_right ?_))
      exact fun hmem => hscope (h.inScope rest hmem)
  outside q hq := by
    rw [h'.outside q fun rest hrest => hq rest (.inr hrest),
      h.outside q fun rest hrest => hq rest (.inl hrest)]

theorem refl (s : Copying) :
    Copied sys mode o src dest S T (fun _ => False) [] s s :=
  ⟨List.nodup_nil, nofun, by simp, nofun, fun _ _ => rfl⟩

theorem of_child (h : Copied sys mode o (src ++ slash :: name) (dest ++ slash :: name) (name :: S)
      (name :: T) (fun _ => True) conflicts s s') :
    Copied sys mode o src dest S T (fun rest => ∃ front, rest = front ++ [name])
      (conflicts.map (· ++ [name])) s s' where
  nodup := h.nodup.map fun _ _ heq => List.append_cancel_right heq
  inScope rest hmem := by
    obtain ⟨front, -, rfl⟩ := List.mem_map.mp hmem
    exact ⟨front, rfl⟩
  listed := by
    rw [h.listed, List.map_map]
    congr 2
    funext rest
    exact (conflictOf_concat src dest name rest).symm
  placed rest hrest := by
    obtain ⟨front, rfl⟩ := hrest
    rw [List.append_assoc, List.append_assoc]
    refine (h.placed front trivial).congr ⟨fun hmem => ?_, fun hmem => ?_⟩
    · obtain ⟨other, hother, heq⟩ := List.mem_map.mp hmem
      exact List.append_cancel_right heq ▸ hother
    · exact List.mem_map_of_mem hmem
  outside q hq := by
    refine h.outside q fun rest _ heq => hq (rest ++ [name]) ⟨rest, rfl⟩ ?_
    rw [heq, List.append_assoc]
    rfl

end Copied

/-- How a copy ends: with everything in its scope done, or with some changes; if its depth was not
enough the source is `deep`. -/
def Outcome (sys : System) (mode : ModeOfCopyDir) (o : FileVolume) (src dest : PathName)
    (S T : List PathName) (scope : List PathName → Prop) (deep : Prop) (s : Copying)
    (result : EStateM.Result Stop Copying Unit) : Prop :=
  match result with
  | .ok () s' => ∃ conflicts, Copied sys mode o src dest S T scope conflicts s s'
  | .error stop s' => Changes Change o s.volume s'.volume S T ∧ (stop = .fuel → deep)

variable {scope scope' : List PathName → Prop} {deep deep' : Prop}
  {result : EStateM.Result Stop Copying Unit}

theorem Outcome.changes (h : Outcome sys mode o src dest S T scope deep s result) :
    match result with
    | .ok () s' => Changes Change o s.volume s'.volume S T
    | .error _ s' => Changes Change o s.volume s'.volume S T := by
  cases result with
  | ok u s' =>
    obtain ⟨conflicts, hcopied⟩ := h
    exact hcopied.changes
  | error stop s' => exact h.1

theorem Outcome.bind {x y : EStateM Stop Copying Unit}
    (h : Outcome sys mode o src dest S T scope deep s (x s))
    (h' : ∀ s', x s = .ok () s' → Outcome sys mode o src dest S T scope' deep' s' (y s'))
    (hapart : ∀ rest, scope rest → ¬ scope' rest) :
    Outcome sys mode o src dest S T (fun rest => scope rest ∨ scope' rest) (deep ∨ deep') s
      ((x >>= fun _ => y) s) := by
  rw [Program.bind_run]
  cases hx : x s with
  | error stop s' =>
    rw [hx] at h
    exact ⟨h.1, fun hfuel => .inl (h.2 hfuel)⟩
  | ok u mid =>
    rw [hx] at h
    obtain ⟨conflicts, hcopied⟩ := h
    have hnext := h' mid hx
    show Outcome sys mode o src dest S T _ _ s (y mid)
    cases hy : y mid with
    | error stop s' =>
      rw [hy] at hnext
      exact ⟨hcopied.changes.trans changeRule hnext.1, fun hfuel => .inr (hnext.2 hfuel)⟩
    | ok u s' =>
      rw [hy] at hnext
      obtain ⟨conflicts', hcopied'⟩ := hnext
      exact ⟨conflicts ++ conflicts', hcopied.trans hcopied' hapart⟩

theorem Outcome.of_child (h : Outcome sys mode o (src ++ slash :: name) (dest ++ slash :: name)
      (name :: S) (name :: T) (fun _ => True) deep s result) :
    Outcome sys mode o src dest S T (fun rest => ∃ front, rest = front ++ [name]) deep s
      result := by
  cases result with
  | ok u s' =>
    obtain ⟨conflicts, hcopied⟩ := h
    exact ⟨_, hcopied.of_child⟩
  | error stop s' => exact ⟨h.1.of_child changeRule, h.2⟩

/-! ## The recursion -/

variable {recur : PathName → PathName → EStateM Stop Copying Unit} {depth : Nat}

theorem Outcome.within (h : Outcome sys mode o src dest S T scope deep s (.ok () s'))
    (hpair : CopyPair sys region o src dest S T) (hv : Within region o s.volume) :
    Within region o s'.volume := by
  obtain ⟨conflicts, hcopied⟩ := h
  exact hcopied.changes.within changeRule hpair.target hv

end FileApi.ModFs.CopyDir
