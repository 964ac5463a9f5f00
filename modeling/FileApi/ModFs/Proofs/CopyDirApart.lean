import FileApi.Misc.Program
import FileApi.ModFs.CopyDir
import FileApi.ModFs.Proofs.CopyDirConflicts
import FileApi.ModFs.Proofs.MayLead

/-!
# What copying a directory makes beside it

What `copyDir` makes where no target of an entry may lie in the source, whatever links there are, and
that it comes to an end then.
-/

namespace FileApi.ModFs

open Compress FileTree Program FileApi.ModFs.System

variable {sys : System} {o v v' w : FileVolume} {src dest name : PathName}
  {S place rest : List PathName} {made : List PathName → FileNode → Prop} {deep : Prop}

namespace CopyDir

/-! ## What may be made -/

/-- A copy of an entry; the file behind a link is copied. -/
def CopyOf : FileNode → FileNode → Prop
  | .directory, node => node = .directory
  | .file bytes, node => node = .file bytes
  | .link _, node => ∃ bytes, node = .file bytes

/-- A copy of an entry of the source at the place of its target, where a link may give way to a file. -/
def CopiedTo (sys : System) (o : FileVolume) (S : List PathName) (dest : PathName)
    (place : List PathName) (node : FileNode) : Prop :=
  (∃ rest source, o.tree (rest ++ S) = some source ∧ CopyOf source node ∧
    (MayLead sys o (pathBelow dest rest) place ∨
      rest ≠ [] ∧ MayName sys o (pathBelow dest rest) place)) ∧
    ∀ route, node = .directory → o.tree place ≠ some (.link route)

theorem CopyOf.not_link {source : FileNode} {route : Route PathName} :
    ¬ CopyOf source (.link route) := by
  cases source with
  | directory => nofun
  | file bytes => nofun
  | link target => nofun

/-- What is known of the file of an entry: what may be in it, and where it may come to be. -/
structure FileEntry (sys : System) (o : FileVolume) (S : List PathName)
    (made : List PathName → FileNode → Prop) (src dest name : PathName) : Prop where
  holds : ∃ content : List UInt8 → Prop, (∃ bytes, content bytes) ∧
    (∀ w p bytes, Beside S o w → sys.lookup w src = .there p → w.tree p = some (.file bytes) →
      content bytes) ∧
    ∀ q bytes, content bytes → MayLead sys o (dest ++ slash :: name) q ∨
      MayName sys o (dest ++ slash :: name) q → made q (.file bytes)
  ne_nil : dest ≠ []
  named : PlainName name

/-- `copy_file` replaces files, so that there is one is no failure of it. -/
def Replaces (sys : System) : Prop := ∀ path, sys.fails .copyFile path ≠ some .eexist

/-- A part of a copy that makes nothing but copies, and comes to an end if the source is not so deep. -/
def Makes (sys : System) (o : FileVolume) (S : List PathName) (dest : PathName) (deep : Prop)
    (x : EStateM Stop Copying Unit) : Prop :=
  Triple (fun s => Made (CopiedTo sys o S dest) o s.volume) x
    (fun _ s => Made (CopiedTo sys o S dest) o s.volume)
    (fun stop s => EndsEarly (CopiedTo sys o S dest) o deep stop s.volume)

theorem Makes.weaken {deep' : Prop} {x : EStateM Stop Copying Unit}
    (h : Makes sys o S dest deep x) (hdeep : deep → deep') : Makes sys o S dest deep' x :=
  Triple.weaken h (fun _ h => h) (fun _ _ h => h) fun _ _ h => ⟨h.1, fun hfuel => hdeep (h.2 hfuel)⟩

variable {mode : ModeOfCopyDir} {recur : PathName → PathName → EStateM Stop Copying Unit}
  {depth : Nat}

end CopyDir

end FileApi.ModFs
