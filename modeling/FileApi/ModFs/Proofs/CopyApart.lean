import FileApi.Misc.Program
import FileApi.ModFs.Proofs.Copy
import FileApi.ModFs.Proofs.CopyDirApart

/-!
# What a copy of a directory makes beside it

The same for `CopyDirFunc` of `fs.copy`, which goes on with what is in a target and copies no links.
-/

namespace FileApi.ModFs.Copy

open Compress FileTree Program FileApi.ModFs.System

variable {env : CopyEnv} {sys : System} {o v v' w : FileVolume} {src dest name : PathName}
  {S place rest : List PathName} {deep deep' : Prop}

/-! ## What may be made -/

/-- A file of the source has its target at a place. -/
def FileTo (sys : System) (o : FileVolume) (S : List PathName) (dest : PathName)
    (place : List PathName) (source : List UInt8) : Prop :=
  ∃ rest, o.tree (rest ++ S) = some (.file source) ∧ MayLead sys o (pathBelow dest rest) place

/-- A copy of an entry at its target, where there was no link. Every byte of a file is the one that a
file of the source has there, or that was there. -/
def CopiedTo (sys : System) (o : FileVolume) (S : List PathName) (dest : PathName)
    (place : List PathName) (node : FileNode) : Prop :=
  (∀ route, o.tree place ≠ some (.link route)) ∧
    match node with
    | .directory => ∃ rest, o.tree (rest ++ S) = some .directory ∧
        MayLead sys o (pathBelow dest rest) place
    | .file bytes => (∃ source, FileTo sys o S dest place source) ∧
        ∀ (i : Nat) (b : UInt8), bytes[i]? = some b →
          (∃ source, FileTo sys o S dest place source ∧ source[i]? = some b) ∨
            ∃ old, o.tree place = some (.file old) ∧ old[i]? = some b
    | .link _ => False

/-- A place that a file is copied to. -/
structure FileTarget (sys : System) (o : FileVolume) (S : List PathName) (dest : PathName)
    (source : List UInt8) (place : List PathName) : Prop where
  target : FileTo sys o S dest place source
  plain : ∀ route, o.tree place ≠ some (.link route)

theorem FileTarget.partly {source : List UInt8} (h : FileTarget sys o S dest source place)
    (hv : Made (CopiedTo sys o S dest) o v) {k : Nat} (hk : k ≤ source.length) :
    CopiedTo sys o S dest place (.file (source.take k ++ (content v place).drop k)) := by
  refine ⟨h.plain, ⟨source, h.target⟩, fun i b hb => ?_⟩
  by_cases hi : i < k
  · rw [List.getElem?_append_left (by rw [List.length_take]; omega), List.getElem?_take_of_lt hi] at hb
    exact .inl ⟨source, h.target, hb⟩
  · have hlength : (source.take k).length = k := by
      rw [List.length_take]
      omega
    rw [List.getElem?_append_right (by omega), hlength, List.getElem?_drop,
      Nat.add_sub_cancel' (Nat.le_of_not_lt hi)] at hb
    unfold content at hb
    split at hb
    · next old hold =>
      rcases hv place with hsame | ⟨node, hnode, hmade⟩
      · exact .inr ⟨old, hsame ▸ hold, hb⟩
      · cases hold.symm.trans hnode
        exact hmade.2.2 i b hb
    · cases hb

variable {bytes : List UInt8}

theorem openWrite_error {errno : Errno} (h : sys.openWrite v dest = (.error errno, v')) : v' = v := by
  unfold openWrite at h
  split at h
  · cases h
    rfl
  · split at h
    · split at h
      · cases h
      · cases h
        rfl
      · cases h
        rfl
    · split at h
      · cases h
      · cases h
        rfl
    · cases h
      rfl

/-- A part of a copy that makes nothing but copies, and comes to an end if the source is not so deep. -/
def Makes (sys : System) (o : FileVolume) (S : List PathName) (dest : PathName) (deep : Prop)
    (x : EStateM Stop FileVolume Unit) : Prop :=
  Triple (Made (CopiedTo sys o S dest) o) x (fun _ => Made (CopiedTo sys o S dest) o)
    (EndsEarly (CopiedTo sys o S dest) o deep)

theorem Makes.weaken {x : EStateM Stop FileVolume Unit} (h : Makes sys o S dest deep x)
    (hdeep : deep → deep') : Makes sys o S dest deep' x :=
  Triple.weaken h (fun _ h => h) (fun _ _ h => h) fun _ _ h => ⟨h.1, fun hfuel => hdeep (h.2 hfuel)⟩

variable {recur : PathName → PathName → EStateM Stop FileVolume Unit} {depth : Nat}

end FileApi.ModFs.Copy
