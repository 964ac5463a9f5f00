import FileApi.ModFs.Proofs.CopyDir
import FileApi.ModFs.Proofs.CopyTree

/-!
# What `copyDir` reports

What a `DoCopyDir` that succeeds has copied, and what it says and does where no call fails and no
entry of the source meets one of another type in the target.
-/

namespace FileApi.ModFs.CopyDir

open Compress FileTree FileApi.ModFs.System

variable {sys : System} {mode : ModeOfCopyDir} {region : List PathName → Prop}
  {o v v' : FileVolume} {s s' : Copying} {src dest name : PathName} {S T : List PathName}

/-! ## Copies that end -/

/-- No directory of the source has a file for its target, and no file a directory. -/
structure SameTypes (o v : FileVolume) (S T : List PathName) : Prop where
  file : ∀ rest bytes, o.tree (rest ++ S) = some (.file bytes) →
    v.tree (rest ++ T) ≠ some .directory
  directory : ∀ rest, o.tree (rest ++ S) = some .directory →
    ∀ bytes, v.tree (rest ++ T) ≠ some (.file bytes)

theorem SameTypes.child (h : SameTypes o v S T) (name : PathName) :
    SameTypes o v (name :: S) (name :: T) := by
  refine ⟨fun rest bytes hfile => ?_, fun rest hdir bytes => ?_⟩
  · have htype := h.file (rest ++ [name]) bytes
    rw [List.append_assoc, List.append_assoc] at htype
    exact htype hfile
  · have htype := h.directory (rest ++ [name])
    rw [List.append_assoc, List.append_assoc] at htype
    exact htype hdir bytes

theorem sameTypes_of_changes (h : Changes Change o v v' S T) (htypes : SameTypes o v S T) :
    SameTypes o v' S T := by
  refine ⟨fun rest bytes hfile => ?_, fun rest hdir bytes => ?_⟩
  · rcases h.inside rest with heq | ⟨hdir, -⟩ | ⟨_, -, hgone | hcopied⟩
    · rw [heq]
      exact htypes.file rest bytes hfile
    · exact (nomatch hfile.symm.trans hdir)
    · rw [hgone]
      nofun
    · rw [hcopied]
      nofun
  · rcases h.inside rest with heq | ⟨-, -, hmade⟩ | ⟨_, hfile, -⟩
    · rw [heq]
      exact htypes.directory rest hdir bytes
    · rw [hmade]
      nofun
    · exact (nomatch hfile.symm.trans hdir)

theorem kept_of_changes (h : Changes Change o v v' S T) (hpair : CopyPair sys region o src dest S T)
    (hv : Within region o v) (htypes : SameTypes o v S T) : Kept v v' := by
  intro q node hnode hfile
  by_cases hT : T <:+ q
  · obtain ⟨rest, rfl⟩ := hT
    rcases h.inside rest with heq | ⟨-, hnone, -⟩ | ⟨bytes, hsource, -⟩
    · exact heq.trans hnode
    · exact (nomatch hnode.symm.trans hnone)
    · have hregion : region (rest ++ T) := hpair.target rest (by rw [hsource]; nofun)
      cases node with
      | directory => exact absurd hnode (htypes.file rest bytes hsource)
      | file content => exact absurd rfl (hfile content)
      | link route => exact absurd hnode (hv.plain _ route hregion)
  · exact (h.outside q hT).trans hnode

/-- A path to a directory, or to a name that is free. -/
def Target (sys : System) (v : FileVolume) (path : PathName) (place : List PathName) : Prop :=
  (sys.lookup v path = .there place ∧ v.tree place = some .directory) ∨
    (sys.entry v path = some place ∧ v.tree place = none)

/-- A source directory and a target directory that the paths lead to. -/
structure Ready (sys : System) (region : List PathName → Prop) (o : FileVolume) (s : Copying)
    (src dest : PathName) (S T : List PathName) : Prop where
  within : Within region o s.volume
  types : SameTypes o s.volume S T
  src : sys.lookup s.volume src = .there S
  source : s.volume.tree S = some .directory
  dest : sys.lookup s.volume dest = .there T
  target : s.volume.tree T = some .directory

theorem Ready.after (h : Ready sys region o s src dest S T)
    (hpair : CopyPair sys region o src dest S T) (hchanges : Changes Change o s.volume s'.volume S T) :
    Ready sys region o s' src dest S T :=
  have hkept := kept_of_changes hchanges hpair h.within h.types
  { within := hchanges.within changeRule hpair.target h.within
    types := sameTypes_of_changes hchanges h.types
    src := hkept.lookup h.src h.source
    source := hkept S _ h.source nofun
    dest := hkept.lookup h.dest h.target
    target := hkept T _ h.target nofun }

variable {recur : PathName → PathName → EStateM Stop Copying Unit} {depth : Nat}

/-- A file of the source whose target is there. -/
def Conflict (v : FileVolume) (S T rest : List PathName) : Prop :=
  (∃ bytes, v.tree (rest ++ S) = some (.file bytes)) ∧ v.tree (rest ++ T) ≠ none

section Report

variable {scope : List PathName → Prop} {conflicts : List (List PathName)}

end Report

/-- `/s` with the files `a` and `b`, and `/d/s` with a file `a` and a file `c`. -/
def conflicting : FileVolume :=
  ((((((Volume.empty.put [0x73] [] .directory).put [0x61] [[0x73]] (.file [0x68])).put [0x62]
    [[0x73]] (.file [0x69])).put [0x64] [] .directory).put [0x73] [[0x64]] .directory).put [0x61]
    [[0x73], [0x64]] (.file [0x6a])).put [0x63] [[0x73], [0x64]] (.file [0x6b])

end FileApi.ModFs.CopyDir
