import FileApi.ModFile.Proofs.Answers

/-!
# A file that is copied or moved

`FileCopy` takes any count of `sendfile` for success and does not empty a file that it opens, and
`MoveExec` removes the source behind every success, also where the destination is the source.
-/

namespace FileApi.ModFile

open Compress FileTree Program Zip
open ModFs (FileVolume System)
open ModFs.System (MayLead Written content)
open ModFs.Copy (render)

variable {env : Env} {o v v' : FileVolume} {w w' s : World} {path srcPath dstPath : PathName}
  {url urlDst : PathName} {place p sfd ofd : List PathName} {bytes : List UInt8} {r size : Int}

/-! ## Where paths lead -/

theorem realpath_eq {abs : PathName} (h : env.realpath path w = .ok (.ok abs) s)
    (hplace : env.sys.lookup w.volume path = .there place) : abs = render place.reverse := by
  obtain ⟨-, place', hplace', rfl, -⟩ := Env.realpath_ok h
  cases hplace.symm.trans hplace'
  rfl

theorem lookup_realOr {real : Except Errno PathName} (h : env.realpath path w = .ok real s)
    (hplace : env.sys.lookup w.volume path = .there place) :
    env.sys.lookup w.volume (realOr real path) = .there place := by
  cases real with
  | error errno => exact hplace
  | ok abs =>
    obtain ⟨node, hnode, hlink⟩ := Env.lookup_node hplace
    rw [realOr, realpath_eq h hplace]
    exact ModFs.lookup_render hnode hlink

theorem render_inj {q : List PathName} (hp : env.sys.lookup v path = .there p)
    (hq : env.sys.lookup v srcPath = .there q) (heq : render p.reverse = render q.reverse) :
    p = q := by
  obtain ⟨node, hnode, hlink⟩ := Env.lookup_node hp
  obtain ⟨node', hnode', hlink'⟩ := Env.lookup_node hq
  have hp' : env.sys.lookup v (render p.reverse) = .there p := ModFs.lookup_render hnode hlink
  have hq' : env.sys.lookup v (render q.reverse) = .there q := ModFs.lookup_render hnode' hlink'
  rw [heq] at hp'
  cases hp'.symm.trans hq'
  rfl

/-! ## `FileCopy` -/

/-- The source is found to be the destination. -/
def Same (env : Env) (srcPath dstPath : PathName) (w s : World) : Prop :=
  ∃ src w1 first w2, env.realpath srcPath w = .ok (.ok src) w1 ∧
    env.realpath dstPath w1 = .ok first w2 ∧ first ≠ .error .enoent ∧
    env.realpath (realOr first dstPath) w2 = .ok (.ok src) s

/-- The source is open, and a destination that was not found. -/
def Opens (env : Env) (srcPath dstPath : PathName) (w : World) (sfd ofd : List PathName) (size : Int)
    (s : World) : Prop :=
  ∃ src w1 w2 w3 attrSrc w4, env.realpath srcPath w = .ok (.ok src) w1 ∧
    env.realpath dstPath w1 = .ok (.error .enoent) w2 ∧ env.openRead src w2 = .ok (.ok sfd) w3 ∧
    env.stat src w3 = .ok (.ok attrSrc) w4 ∧ attrSrc.size = size ∧
    env.openWrite (uriToAbsolute dstPath) w4 = .ok (.ok ofd) s

section

variable {src : PathName} {first : Except Errno PathName} {w1 w2 : World}

theorem same_iff (hsrc : env.realpath srcPath w = .ok (.ok src) w1)
    (hfirst : env.realpath dstPath w1 = .ok first w2) :
    Same env srcPath dstPath w s ↔
      first ≠ .error .enoent ∧ env.realpath (realOr first dstPath) w2 = .ok (.ok src) s := by
  constructor
  · rintro ⟨src', w1', first', w2', hsrc', hfirst', hne, hsecond⟩
    cases hsrc.symm.trans hsrc'
    cases hfirst.symm.trans hfirst'
    exact ⟨hne, hsecond⟩
  · rintro ⟨hne, hsecond⟩
    exact ⟨src, w1, first, w2, hsrc, hfirst, hne, hsecond⟩

theorem opens_iff (hsrc : env.realpath srcPath w = .ok (.ok src) w1)
    (hfirst : env.realpath dstPath w1 = .ok first w2) :
    Opens env srcPath dstPath w sfd ofd size s ↔ first = .error .enoent ∧ ∃ w3 attrSrc w4,
      env.openRead src w2 = .ok (.ok sfd) w3 ∧ env.stat src w3 = .ok (.ok attrSrc) w4 ∧
        attrSrc.size = size ∧ env.openWrite (uriToAbsolute dstPath) w4 = .ok (.ok ofd) s := by
  constructor
  · rintro ⟨src', w1', w2', w3, attrSrc, w4, hsrc', hfirst', hrest⟩
    cases hsrc.symm.trans hsrc'
    cases hfirst.symm.trans hfirst'
    exact ⟨rfl, w3, attrSrc, w4, hrest⟩
  · rintro ⟨rfl, w3, attrSrc, w4, hrest⟩
    exact ⟨src, w1, w2, w3, attrSrc, w4, hsrc, hfirst, hrest⟩

end

variable {s' : World}

theorem Opens.unique {sfd' ofd' : List PathName} {size' : Int}
    (h : Opens env srcPath dstPath w sfd ofd size s)
    (h' : Opens env srcPath dstPath w sfd' ofd' size' s') :
    sfd' = sfd ∧ ofd' = ofd ∧ size' = size ∧ s' = s := by
  obtain ⟨src, w1, w2, w3, attrSrc, w4, hsrc, hfirst, hsfd, hattr, rfl, hofd⟩ := h
  obtain ⟨-, w3', attrSrc', w4', hsfd', hattr', rfl, hofd'⟩ := (opens_iff hsrc hfirst).mp h'
  cases hsfd.symm.trans hsfd'
  cases hattr.symm.trans hattr'
  cases hofd.symm.trans hofd'
  exact ⟨rfl, rfl, rfl, rfl⟩

theorem Same.unique (h : Same env srcPath dstPath w s) (h' : Same env srcPath dstPath w s') :
    s' = s := by
  obtain ⟨src, w1, first, w2, hsrc, hfirst, -, hsecond⟩ := h
  cases hsecond.symm.trans ((same_iff hsrc hfirst).mp h').2
  rfl

theorem Same.leads (h : Same env srcPath dstPath w s)
    (hsrc : env.sys.lookup w.volume srcPath = .there p) :
    s.volume = w.volume ∧ env.sys.lookup w.volume dstPath = .there p := by
  obtain ⟨src, w1, first, w2, hreal, hfirst, -, hsecond⟩ := h
  have hw1 : w1.volume = w.volume := by rw [Env.realpath_looks hreal]; rfl
  have hw2 : w2.volume = w.volume := by rw [Env.realpath_looks hfirst, World.tick_volume, hw1]
  have hs : s.volume = w.volume := by rw [Env.realpath_looks hsecond, World.tick_volume, hw2]
  obtain ⟨-, q, hq, hrender, -⟩ := Env.realpath_ok hsecond
  rw [hw2] at hq
  have hpq : p = q := render_inj hsrc hq ((realpath_eq hreal hsrc).symm.trans hrender)
  subst hpq
  refine ⟨hs, ?_⟩
  cases first with
  | error errno => exact hq
  | ok abs =>
    obtain ⟨-, q', hq', -⟩ := Env.realpath_ok hfirst
    have hagain := lookup_realOr hfirst hq'
    rw [hw1] at hq' hagain
    cases hq.symm.trans hagain
    exact hq'

/-- `realpath` does not say of what is there that it is not. -/
def Honest (env : Env) : Prop := ∀ time path, env.fails time .realpath path ≠ some .enoent

theorem Honest.not_there (hhonest : Honest env)
    (h : env.realpath path w = .ok (.error .enoent) s) :
    env.sys.lookup w.volume path ≠ .there place := by
  intro hplace
  rw [Env.realpath, Env.onPath_run] at h
  cases hfails : env.failure w.clock .realpath path with
  | some errno =>
    rw [hfails] at h
    cases h
    rw [Env.failure] at hfails
    split at hfails
    · cases hfails
    · exact hhonest _ _ hfails
  | none =>
    rw [hfails, hplace] at h
    have hresult := (EStateM.Result.ok.inj h).1
    dsimp only at hresult
    split at hresult
    · cases hresult
    · cases hresult

/-- What is open: the source, and what the absolute path of the destination leads to. -/
structure Opened (env : Env) (dstPath : PathName) (p : List PathName) (bytes : List UInt8)
    (w : World) (sfd ofd : List PathName) (size : Int) (s : World) : Prop where
  source : sfd = p
  size_eq : size = bytes.length
  leads : (env.sys.lookup w.volume (uriToAbsolute dstPath)).place? = some ofd
  old : (∃ bytes, w.volume.tree ofd = some (.file bytes)) ∨ w.volume.tree ofd = none
  written : Written w.volume s.volume ofd (content w.volume ofd)
  file : s.volume.tree p = some (.file bytes)
  missing : Honest env → ∀ q, env.sys.lookup w.volume dstPath ≠ .there q

theorem Opens.opened (h : Opens env srcPath dstPath w sfd ofd size s)
    (hsrc : env.sys.lookup w.volume srcPath = .there p)
    (hfile : w.volume.tree p = some (.file bytes)) :
    Opened env dstPath p bytes w sfd ofd size s := by
  obtain ⟨src, w1, w2, w3, attrSrc, w4, hreal, hfirst, hsfd, hattr, rfl, hofd⟩ := h
  have hw1 : w1.volume = w.volume := by rw [Env.realpath_looks hreal]; rfl
  have hw2 : w2.volume = w.volume := by rw [Env.realpath_looks hfirst, World.tick_volume, hw1]
  have hw3 : w3.volume = w.volume := by rw [Env.openRead_looks hsfd, World.tick_volume, hw2]
  have hw4 : w4.volume = w.volume := by rw [Env.stat_looks hattr, World.tick_volume, hw3]
  have hplace : env.sys.lookup w.volume src = .there p := lookup_realOr hreal hsrc
  have hopened := Env.openWrite_ok hofd
  rw [hw4] at hopened
  obtain ⟨hwritten, -, hold⟩ := ModFs.System.openWrite_ok hopened
  refine ⟨?_, ?_, ?_, ?_, hwritten, ?_, fun hhonest q => ?_⟩
  · obtain ⟨hsource, -⟩ := Env.openRead_ok hsfd
    rw [hw2] at hsource
    cases hplace.symm.trans hsource
    rfl
  · exact (Env.stat_file hattr (hw3 ▸ hplace) (hw3 ▸ hfile)).2
  · rcases hold with ⟨-, hthere⟩ | ⟨-, hmissing⟩
    · rw [hthere]
      rfl
    · rw [hmissing]
      rfl
  · exact hold.imp And.left And.left
  · rw [hwritten]
    split
    · next heq => rw [← heq, content, hfile]
    · exact hfile
  · rw [← hw1]
    exact hhonest.not_there hfirst

/-! ## What is promised -/

/-- The place of a destination: where its path leads, or its absolute form if nothing is there. -/
def destination (env : Env) (v : FileVolume) (urlDst : PathName) : Option (List PathName) :=
  match env.sys.lookup v urlDst with
  | .there place => some place
  | _ => (env.sys.lookup v (uriToAbsolute urlDst)).place?

/-- Every file of the source has come to its place in the destination. -/
def Arrived (o v : FileVolume) (p : List PathName) (dest : Option (List PathName)) : Prop :=
  ∀ rest bytes, o.tree (rest ++ p) = some (.file bytes) →
    ∃ D, dest = some D ∧ v.tree (rest ++ D) = some (.file bytes)

/-- Every file of the source is still there, at the one place or at the other. -/
def Survives (o v : FileVolume) (p : List PathName) (dest : Option (List PathName)) : Prop :=
  ∀ rest bytes, o.tree (rest ++ p) = some (.file bytes) →
    v.tree (rest ++ p) = some (.file bytes) ∨
      ∃ D, dest = some D ∧ v.tree (rest ++ D) = some (.file bytes)

theorem destination_missing (h : ∀ q, env.sys.lookup v urlDst ≠ .there q) :
    destination env v urlDst = (env.sys.lookup v (uriToAbsolute urlDst)).place? := by
  rw [destination]
  split
  · next q hq => exact absurd hq (h q)
  · rfl

theorem Opened.sent {n : Nat} (h : Opened env dstPath p bytes w sfd ofd size s)
    (hsent : env.sendfile ofd sfd size s = .ok (.ok n) s') :
    Written w.volume s'.volume ofd (bytes.take n ++ (content w.volume ofd).drop n) := by
  have hwritten := (Env.sendfile_ok hsent (h.source ▸ h.file)).2
  rw [h.written.content] at hwritten
  exact h.written.trans hwritten

variable {result : Except Errno Unit}

theorem Opened.links {b : List UInt8} (h : Opened env dstPath p bytes w sfd ofd size s)
    (hwritten : Written w.volume v' ofd b) : SameLinks w.volume v' := by
  refine (SameLinks.refl _).change (fun target hlink => ?_) (fun target heq => by cases heq) hwritten
  rcases h.old with ⟨old, hold⟩ | hnone
  · cases hold.symm.trans hlink
  · cases hnone.symm.trans hlink

section

variable (hhonest : Honest env) (hsrc : env.sys.lookup w.volume srcPath = .there p)
  (hfile : w.volume.tree p = some (.file bytes))

include hhonest hsrc hfile

theorem Opens.destination (h : Opens env srcPath dstPath w sfd ofd size s) :
    destination env w.volume dstPath = some ofd := by
  have hopened := h.opened hsrc hfile
  rw [destination_missing (hopened.missing hhonest), hopened.leads]

end

end FileApi.ModFile
