import FileApi.ModFs.Proofs.Copy
import FileApi.ModFs.Proofs.RealPath
import FileApi.ModFs.Proofs.Regions

/-!
# What a copied directory holds

What `RecurCopyDir` leaves in the target when it ends well, place by place, as long as no directory
and no file of the source has its target in the source. A `scandir` that fails is taken for an empty
directory, so nothing below it is reached.
-/

namespace FileApi.ModFs.Copy

open Compress FileTree FileApi.ModFs.System

/-! ## What is left in the target -/

/-- Every `scandir` on the way to a place below a directory succeeds. -/
def reached (sys : System) (src : PathName) : List PathName → Bool
  | [] => true
  | _ :: rest => reached sys src rest && (sys.fails .scandir (pathBelow src rest)).isNone

/-- What is at a place of the target when the copy has ended well. -/
def copiedNode (reached : Bool) (source target : Option FileNode) : Option FileNode :=
  if reached then
    match source, target with
    | some .directory, none => some .directory
    | some (.file bytes), none => some (.file bytes)
    | some (.file bytes), some (.file old) => some (.file (bytes ++ old.drop bytes.length))
    | _, target => target
  else target

@[simp] theorem copiedNode_none (b : Bool) (target : Option FileNode) :
    copiedNode b none target = target := by
  cases b <;> rfl

@[simp] theorem copiedNode_link (b : Bool) (target : Option FileNode) (route : Route PathName) :
    copiedNode b (some (.link route)) target = target := by
  cases b <;> rfl

theorem copiedNode_ne_link {b : Bool} {source target : Option FileNode}
    (h : ∀ route, target ≠ some (.link route)) (route : Route PathName) :
    copiedNode b source target ≠ some (.link route) := by
  cases b with
  | false => exact h route
  | true =>
    unfold copiedNode
    rw [if_pos rfl]
    split
    · nofun
    · nofun
    · nofun
    · exact h route

theorem copiedNode_self (b : Bool) (node : Option FileNode) : copiedNode b node node = node := by
  cases b with
  | false => rfl
  | true =>
    cases node with
    | none => rfl
    | some node =>
      cases node with
      | directory => rfl
      | file bytes =>
        show some (FileTree.Node.file (bytes ++ bytes.drop bytes.length)) = some (.file bytes)
        rw [List.drop_length, List.append_nil]
      | link route => rfl

variable {env : CopyEnv} {v v' : FileVolume} {src dest name : PathName} {S T : List PathName}

/-! ## What a copy keeps -/

/-- When it ends well the directories and the links are what they were. -/
def Keeps (program : EStateM Stop FileVolume Unit) : Prop :=
  ∀ ⦃v v' : FileVolume⦄, program v = .ok () v' → Kept v v'

section

variable {recur : PathName → PathName → EStateM Stop FileVolume Unit} {isMedia : Bool}

end

/-! ## The copy of a directory -/

/-- A source directory and a target that is there. No target is in the source or a link, unless the
target is the source. -/
structure CopyPair (sys : System) (v : FileVolume) (src dest : PathName) (S T : List PathName) :
    Prop where
  src : sys.lookup v src = .there S
  dest : sys.lookup v dest = .there T
  source : v.tree S = some .directory
  target : v.tree T = some .directory ∨ ∃ bytes, v.tree T = some (.file bytes)
  clear : T = S ∨ TargetsClear v S T

/-- What a copy from `S` to `T` that ended well has done at and below `T`. -/
structure Copied (sys : System) (src : PathName) (v v' : FileVolume) (S T : List PathName) :
    Prop where
  inside : ∀ rest, v'.tree (rest ++ T) =
    copiedNode (reached sys src rest) (v.tree (rest ++ S)) (v.tree (rest ++ T))
  outside : ∀ q, ¬ T <:+ q → v'.tree q = v.tree q

namespace Copied

theorem other (h : Copied env.sys src v v' S T) {q : List PathName}
    (hq : ¬ TargetPlace v S T q) : v'.tree q = v.tree q := by
  by_cases hs : T <:+ q
  · obtain ⟨rest, rfl⟩ := hs
    rw [h.inside]
    cases hnode : v.tree (rest ++ S) with
    | none => exact copiedNode_none _ _
    | some node =>
      cases node with
      | link route => exact copiedNode_link _ _ route
      | directory => exact absurd ⟨rest, _, hnode, nofun, rfl⟩ hq
      | file bytes => exact absurd ⟨rest, _, hnode, nofun, rfl⟩ hq
  · exact h.outside q hs

theorem source (h : Copied env.sys src v v' (name :: S) (name :: T))
    (hclear : T = S ∨ TargetsClear v S T) (rest : List PathName) :
    v'.tree (rest ++ S) = v.tree (rest ++ S) := by
  rcases hclear with rfl | hclear
  · by_cases hs : name :: T <:+ rest ++ T
    · obtain ⟨front, hfront⟩ := hs
      rw [← hfront, h.inside, copiedNode_self]
    · exact h.outside _ hs
  · exact h.other fun hplace => hclear.apart _ hplace.of_child (List.suffix_append rest S)

theorem plain (h : Copied env.sys src v v' S T) {q : List PathName}
    (hq : ∀ route, v.tree q ≠ some (.link route)) (route : Route PathName) :
    v'.tree q ≠ some (.link route) := by
  by_cases hs : T <:+ q
  · obtain ⟨rest, rfl⟩ := hs
    rw [h.inside]
    exact copiedNode_ne_link hq route
  · rw [h.outside q hs]
    exact hq route

end Copied

/-- A source directory and a name for the target in a directory. -/
structure SubPair (sys : System) (v : FileVolume) (src dest name : PathName)
    (S D : List PathName) : Prop where
  src : sys.lookup v src = .there S
  dest : sys.lookup v dest = .there D
  source : v.tree S = some .directory
  parent : v.tree D = some .directory
  named : PlainName name
  clear : name :: D = S ∨ TargetsClear v S (name :: D)

theorem SubPair.plain {D : List PathName} (hpair : SubPair env.sys v src dest name S D)
    (route : Route PathName) : v.tree (name :: D) ≠ some (.link route) := by
  rcases hpair.clear with hsame | hclear
  · rw [hsame, hpair.source]
    nofun
  · exact hclear.plain _ route ⟨[], _, hpair.source, nofun, rfl⟩

variable {recur : PathName → PathName → EStateM Stop FileVolume Unit}

variable {node : FileNode}

theorem CopyPair.plain (hpair : CopyPair env.sys v src dest S T)
    (hnode : v.tree (name :: S) = some node) (hlink : ∀ route, node ≠ .link route)
    (route : Route PathName) : v.tree (name :: T) ≠ some (.link route) := by
  rcases hpair.clear with rfl | hclear
  · rw [hnode]
    exact fun heq => hlink route (Option.some.inj heq)
  · exact hclear.plain _ route ⟨[name], node, hnode, hlink, rfl⟩

theorem CopyPair.after (hpair : CopyPair env.sys v src dest S T)
    (htarget : v.tree T = some .directory) (hkept : Kept v v')
    (h : Copied env.sys (src ++ slash :: name) v v' (name :: S) (name :: T)) :
    CopyPair env.sys v' src dest S T where
  src := hkept.lookup hpair.src hpair.source
  dest := hkept.lookup hpair.dest htarget
  source := hkept S _ hpair.source nofun
  target := .inl (hkept T _ htarget nofun)
  clear := hpair.clear.imp_right fun hclear =>
    hclear.after (h.source hpair.clear) fun _ => h.plain

/-- The target of an entry is one that a copy makes good, or, if the entry is not reached, one that
is good. -/
def Meets (reached : Bool) (source : FileNode) (target : Option FileNode) : Prop :=
  if reached then
    match source, target with
    | .directory, none => True
    | .directory, some .directory => True
    | .file _, none => True
    | .file bytes, some (.file old) => old.length ≤ bytes.length
    | _, _ => False
  else target = some source

/-- `/s` with a file `a`, and `/d`. -/
def oneFile : FileVolume :=
  ((Volume.empty.put [0x73] [] .directory).put [0x61] [[0x73]] (.file [0x68, 0x69])).put
    [0x64] [] .directory

end FileApi.ModFs.Copy
