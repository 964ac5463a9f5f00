import FileApi.ModFile.Proofs.FileMove
import FileApi.ModFile.Proofs.Uri

/-!
# A directory that is moved

`DirMove` copies the files of a directory one by one into a directory that it has made, and removes
each behind its copy. As long as the new directory is not in the old one, and each file is sent
whole, each is at one of its two places whenever it stops.
-/

namespace FileApi.ModFile

open Compress FileTree Program StackPath Zip
open ModFs (DirEntry FileType FileVolume PlainName System)
open ModFs.System (MayLead Written content)
open ModFs.Copy (render)

variable {env : Env} {o v v' : FileVolume} {w w' s : World} {src dest srcPath dstPath : PathName}
  {S T p D : List PathName} {bytes : List UInt8} {r : Int} {name : PathName}

/-! ## Paths -/

theorem uriToAbsolute_child (h : uriToAbsolute dest = dest) (hname : PlainName name) :
    uriToAbsolute (dest ++ slash :: name) = dest ++ slash :: name := by
  obtain ⟨hne, hdot, hdots, hslash⟩ := hname
  have hpush : ∀ stack, uriPush stack name = name :: stack := fun stack => by
    rw [uriPush, if_neg (not_or.mpr ⟨hdot, hne⟩), if_neg fun h => hdots h.1]
  have hparts : (uriSplit dest).foldl uriPush [] = (components slash dot dest).foldl uriPush [] :=
    foldl_uriPush_components dest []
  rw [uriToAbsolute, uriPop_eq, hparts, List.append_nil] at h
  rw [uriToAbsolute, foldl_uriPush_components, components_append_sep,
    components_part hslash hne hdot, List.foldl_append, List.foldl_cons, List.foldl_nil, hpush,
    uriPop, uriPop_eq, h, List.append_nil]

/-- The path of a source, and where it leads as long as links stay. -/
structure Source (env : Env) (o : FileVolume) (path : PathName) (S : List PathName) : Prop where
  ne_nil : path ≠ []
  leads : MayLead env.sys o path S
  plain : ∀ target, o.tree S ≠ some (.link target)

/-- The absolute path of a target, at which there is nothing at first. -/
structure Target (env : Env) (o : FileVolume) (path : PathName) (T : List PathName) : Prop where
  ne_nil : path ≠ []
  leads : MayLead env.sys o path T
  absolute : uriToAbsolute path = path
  free : ∀ rest, o.tree (rest ++ T) = none

theorem Source.child (h : Source env o src S) (hname : PlainName name)
    (hlink : ∀ target, o.tree (name :: S) ≠ some (.link target)) :
    Source env o (src ++ slash :: name) (name :: S) where
  ne_nil := by simp
  leads := h.leads.child h.ne_nil h.plain hname hlink
  plain := hlink

theorem Target.not_link (h : Target env o dest T) (rest : List PathName) :
    ∀ target, o.tree (rest ++ T) ≠ some (.link target) := by
  intro target hlink
  cases (h.free rest).symm.trans hlink

theorem Target.child (h : Target env o dest T) (hname : PlainName name) :
    Target env o (dest ++ slash :: name) (name :: T) where
  ne_nil := by simp
  leads := h.leads.child h.ne_nil (h.not_link []) hname (h.not_link [name])
  absolute := uriToAbsolute_child h.absolute hname
  free rest := by
    have hfree := h.free (rest ++ [name])
    rwa [List.append_assoc] at hfree

theorem Source.realOr {real : Except Errno PathName} (h : Source env o srcPath S)
    (hlinks : SameLinks o w.volume) (hreal : env.realpath srcPath w = .ok real s) :
    Source env o (realOr real srcPath) S := by
  cases real with
  | error errno => exact h
  | ok abs =>
    obtain ⟨-, place, hplace, -⟩ := Env.realpath_ok hreal
    have hagain := lookup_realOr hreal hplace
    have hleads : MayLead env.sys o srcPath place := hlinks.mayLead (by rw [hplace]; rfl)
    rw [hleads.unique h.leads] at hagain
    exact ⟨ModFs.System.ne_nil_of_lookup hagain, hlinks.mayLead (by rw [hagain]; rfl), h.plain⟩

/-! ## One file -/

theorem Opens.there {sfd ofd : List PathName} {size : Int}
    (h : Opens env srcPath dstPath w sfd ofd size s) :
    ∃ q, env.sys.lookup w.volume srcPath = .there q := by
  obtain ⟨src, w1, -, -, -, -, hsrc, -⟩ := h
  obtain ⟨-, q, hq, -⟩ := Env.realpath_ok hsrc
  exact ⟨q, hq⟩

theorem Same.there (h : Same env srcPath dstPath w s) :
    ∃ q, env.sys.lookup w.volume srcPath = .there q := by
  obtain ⟨src, w1, -, -, hsrc, -⟩ := h
  obtain ⟨-, q, hq, -⟩ := Env.realpath_ok hsrc
  exact ⟨q, hq⟩

/-- If a file is sent, all of it is. -/
def Whole (env : Env) (srcPath dstPath : PathName) (w : World) : Prop :=
  ∀ place bytes, env.sys.lookup w.volume srcPath = .there place →
    w.volume.tree place = some (.file bytes) → ∀ sfd ofd size n s s',
      Opens env srcPath dstPath w sfd ofd size s → env.sendfile ofd sfd size s = .ok (.ok n) s' →
        n = bytes.length

section

variable (againWhole : PathName → PathName → World → Prop) (again : PathName → PathName → Run Int)

end

/-- The new directory has been made. -/
def Makes (env : Env) (srcPath dstPath : PathName) (w : World) (src : PathName) (s : World) :
    Prop :=
  ∃ real w1 w2 attrSrc w3 u, env.realpath srcPath w = .ok real w1 ∧ real ≠ .error .enoent ∧
    env.realpath dstPath w1 = .ok (.error .enoent) w2 ∧ realOr real srcPath = src ∧
      env.stat src w2 = .ok (.ok attrSrc) w3 ∧ attrSrc.directory = true ∧
        env.mkdir (uriToAbsolute dstPath) w3 = .ok (.ok u) s

/-- Where every transfer is a full one. -/
def Full (env : Env) : Prop := ∀ time count, count ≤ env.sends time count

theorem Full.whole (h : Full env) (srcPath dstPath : PathName) (w : World) :
    Whole env srcPath dstPath w := by
  intro place bytes hplace hfile sfd ofd size n s s' hopens hsent
  have hopened := hopens.opened hplace hfile
  obtain ⟨hn, -⟩ := Env.sendfile_ok hsent (hopened.source ▸ hopened.file)
  have hcount := h s.clock size.toNat
  have hsize := hopened.size_eq
  omega

/-- What a move of the tree at one place to another does. -/
structure Moved (o v v' : FileVolume) (S T : List PathName) (r : Int) : Prop where
  outside : ∀ q, ¬ S <:+ q → ¬ T <:+ q → v'.tree q = v.tree q
  survives : ∀ rest bytes, v.tree (rest ++ S) = some (.file bytes) →
    v'.tree (rest ++ S) = some (.file bytes) ∨ v'.tree (rest ++ T) = some (.file bytes)
  arrived : r = SUCCESS → ∀ rest bytes, v.tree (rest ++ S) = some (.file bytes) →
    v'.tree (rest ++ T) = some (.file bytes)
  links : r = SUCCESS → SameLinks o v'

theorem Moved.refl (hlinks : SameLinks o v)
    (h : r = SUCCESS → ∀ rest bytes, v.tree (rest ++ S) ≠ some (.file bytes)) :
    Moved o v v S T r where
  outside _ _ _ := rfl
  survives _ _ hfile := .inl hfile
  arrived hr rest bytes hfile := absurd hfile (h hr rest bytes)
  links _ := hlinks

section Entry

variable {again : PathName → PathName → Run Int} {againWhole : PathName → PathName → World → Prop}
  {entp : DirEntry} {node : FileNode}

/-- What the loop does with the entries that are left. -/
structure MovedAll (o v v' : FileVolume) (S T : List PathName) (names : List PathName) (r : Int) :
    Prop where
  outside : ∀ q, q ≠ S → (∀ name ∈ names, ¬ name :: S <:+ q ∧ ¬ name :: T <:+ q) →
    v'.tree q = v.tree q
  survives : ∀ name ∈ names, ∀ rest bytes, v.tree (rest ++ name :: S) = some (.file bytes) →
    v'.tree (rest ++ name :: S) = some (.file bytes) ∨
      v'.tree (rest ++ name :: T) = some (.file bytes)
  arrived : r = SUCCESS → ∀ name ∈ names, ∀ rest bytes,
    v.tree (rest ++ name :: S) = some (.file bytes) →
      v'.tree (rest ++ name :: T) = some (.file bytes)
  links : r = SUCCESS → SameLinks o v'

theorem beside (hST : ¬ S <:+ T) (hTS : ¬ T <:+ S) (rest : List PathName) {place : List PathName}
    (hplace : S <:+ place) : ¬ name :: T <:+ rest ++ place := fun hsuffix =>
  suffix_disjoint hST hTS (hplace.trans (List.suffix_append rest place))
    ((List.suffix_cons name T).trans hsuffix)

theorem not_under {other : PathName} (hne : other ≠ name) (rest : List PathName) :
    ¬ other :: S <:+ rest ++ name :: S := fun hsuffix =>
  hne (eq_of_suffix hsuffix (List.suffix_append rest _))

variable {names : List PathName}

theorem Moved.others (h : Moved o v v' (name :: S) (name :: T) r) (hST : ¬ S <:+ T)
    (hTS : ¬ T <:+ S) (hnew : name ∉ names) :
    ∀ other ∈ names, ∀ front, v'.tree (front ++ other :: S) = v.tree (front ++ other :: S) ∧
      v'.tree (front ++ other :: T) = v.tree (front ++ other :: T) := by
  intro other hother front
  have hne : name ≠ other := fun heq => hnew (heq ▸ hother)
  constructor
  · exact h.outside _ (not_under hne front) (beside hST hTS front (List.suffix_cons other S))
  · exact h.outside _ (beside hTS hST front (List.suffix_cons other T)) (not_under hne front)

theorem MovedAll.other (h : MovedAll o v v' S T names r) (hST : ¬ S <:+ T) (hTS : ¬ T <:+ S)
    (hnew : name ∉ names) (front : List PathName) :
    v'.tree (front ++ name :: S) = v.tree (front ++ name :: S) ∧
      v'.tree (front ++ name :: T) = v.tree (front ++ name :: T) := by
  have hne : ∀ other ∈ names, other ≠ name := fun other hother heq => hnew (heq ▸ hother)
  constructor
  · refine h.outside _ (fun heq => ?_) fun other hother =>
      ⟨not_under (hne other hother) front, beside hST hTS front (List.suffix_cons name S)⟩
    have hlength := congrArg List.length heq
    rw [List.length_append, List.length_cons] at hlength
    omega
  · refine h.outside _ (fun heq => hTS ?_) fun other hother =>
      ⟨beside hTS hST front (List.suffix_cons name T), not_under (hne other hother) front⟩
    exact (List.suffix_cons name T).trans (heq ▸ List.suffix_append front _)

theorem Moved.cons {v1 : FileVolume} (h : Moved o v v1 (name :: S) (name :: T) SUCCESS)
    (hall : MovedAll o v1 v' S T names r) (hST : ¬ S <:+ T) (hTS : ¬ T <:+ S)
    (hnew : name ∉ names) :
    MovedAll o v v' S T (name :: names) r := by
  have hothers := h.others hST hTS hnew
  have hfirst := hall.other hST hTS hnew
  refine ⟨fun q hqS hq => ?_, fun other hother front bytes hfile => ?_,
    fun hr other hother front bytes hfile => ?_, hall.links⟩
  · obtain ⟨hnameS, hnameT⟩ := hq name List.mem_cons_self
    rw [hall.outside q hqS fun other hother => hq other (List.mem_cons_of_mem _ hother),
      h.outside q hnameS hnameT]
  · rcases List.mem_cons.mp hother with rfl | hother
    · rw [(hfirst front).1, (hfirst front).2]
      exact h.survives front bytes hfile
    · exact hall.survives other hother front bytes ((hothers other hother front).1.trans hfile)
  · rcases List.mem_cons.mp hother with rfl | hother
    · rw [(hfirst front).2]
      exact h.arrived rfl front bytes hfile
    · exact hall.arrived hr other hother front bytes ((hothers other hother front).1.trans hfile)

theorem Moved.ended {r1 : Int} (h : Moved o v v' (name :: S) (name :: T) r1) (hr : r ≠ SUCCESS)
    (hST : ¬ S <:+ T) (hTS : ¬ T <:+ S) (hnew : name ∉ names) :
    MovedAll o v v' S T (name :: names) r := by
  refine ⟨fun q _ hq => ?_, fun other hother front bytes hfile => ?_, fun h => absurd h hr,
    fun h => absurd h hr⟩
  · obtain ⟨hnameS, hnameT⟩ := hq name List.mem_cons_self
    exact h.outside q hnameS hnameT
  · rcases List.mem_cons.mp hother with rfl | hother
    · exact h.survives front bytes hfile
    · exact .inl ((h.others hST hTS hnew other hother front).1.trans hfile)

end Entry

theorem Makes.made {S : List PathName} {s : World} (h : Makes env srcPath dstPath w src s)
    (hsrc : Source env o srcPath S) (hlinks : SameLinks o w.volume) :
    Source env o src S ∧ (∃ s', env.realpath dstPath w.tick = .ok (.error .enoent) s') ∧
      ∃ u w1, w1.volume = w.volume ∧ env.mkdir (uriToAbsolute dstPath) w1 = .ok (.ok u) s := by
  obtain ⟨real, w1, w2, attrSrc, w3, u, hreal, -, hdest, rfl, hstat, -, hmade⟩ := h
  obtain rfl := Env.realpath_looks hreal
  have hw3 : w3.volume = w.volume := by
    rw [Env.stat_looks hstat, Env.realpath_looks hdest]
    rfl
  exact ⟨hsrc.realOr hlinks hreal, ⟨w2, hdest⟩, u, w3, hw3, hmade⟩

end FileApi.ModFile
