import FileApi.Compress.Proofs.PathCalls

/-!
# File systems

The system is a file system here: there is something at its places, and every call changes what its
manual page says it changes. The output is opened over it, and what an attempt leaves behind is
compared with what was there before.
-/

namespace FileApi.Compress

open Program Zip

/-! ## The laws of the calls -/

/-- What is at a place. -/
inductive Node where
  | directory
  | file (bytes : List UInt8)
  | link (target : PathName)
  deriving DecidableEq

/-- The file system behind the calls, and where a file that is open is. -/
structure FileSystem {W H : Type} (os : Os W H) (P : Type) where
  node : P → W → Option Node
  file : H → P
  isDirectory : ∀ path w p, node p (os.isDirectory path w).2 = node p w
  stat : ∀ path w p, node p (os.stat path w).2 = node p w
  access : ∀ path w p, node p (os.access path w).2 = node p w
  isSymlink : ∀ path w p, node p (os.isSymlink path w).2 = node p w
  realpath : ∀ path w p, node p (os.realpath path w).2 = node p w
  cancels : ∀ w p, node p (os.cancels w).2 = node p w
  mkdir_fails : ∀ path w, (os.mkdir path w).1 ≠ .made →
    ∀ p, node p (os.mkdir path w).2 = node p w
  mkdir : ∀ path w p, node p (os.mkdir path w).2 = node p w ∨
    (node p w = none ∧ node p (os.mkdir path w).2 = some .directory)
  remove_fails : ∀ path w, (os.remove path w).1 = false →
    ∀ p, node p (os.remove path w).2 = node p w
  remove : ∀ path w, (os.remove path w).1 = true → ∃ p, node p (os.remove path w).2 = none ∧
    ∀ q, q ≠ p → node q (os.remove path w).2 = node q w
  unlink_fails : ∀ path w, (os.unlink path w).1 = false →
    ∀ p, node p (os.unlink path w).2 = node p w
  /-- What `lstat` has found to be a link. -/
  unlink : ∀ path w, (os.isSymlink path w).1 = true →
    (os.unlink path (os.isSymlink path w).2).1 = true →
    ∃ p target, node p w = some (.link target) ∧
      node p (os.unlink path (os.isSymlink path w).2).2 = none
  symlink_fails : ∀ target path w, (os.symlink target path w).1 = false →
    ∀ p, node p (os.symlink target path w).2 = node p w
  fopen_fails : ∀ path w errno, (os.fopen path w).1 = .error errno →
    ∀ p, node p (os.fopen path w).2 = node p w
  /-- A directory is not opened. -/
  fopen : ∀ path w handle, (os.fopen path w).1 = .ok handle →
    node (file handle) w ≠ some .directory ∧
      (∃ bytes, node (file handle) (os.fopen path w).2 = some (.file bytes)) ∧
        ∀ q, q ≠ file handle → node q (os.fopen path w).2 = node q w
  fwrite : ∀ handle bytes w old, node (file handle) w = some (.file old) →
    (∃ new, node (file handle) (os.fwrite handle bytes w).2 = some (.file new)) ∧
      ∀ q, q ≠ file handle → node q (os.fwrite handle bytes w).2 = node q w
  fclose : ∀ handle w p, node p (os.fclose handle w).2 = node p w

/-! ## What is left behind -/

section

variable {W H P : Type} {os : Os W H} (F : FileSystem os P)

/-- A place where a directory in front of the end of `path` is made. -/
def MadeAbove (path : PathName) (p : P) : Prop :=
  ∃ dir v, InFront dir path ∧ F.node p v = none ∧
    F.node p (os.mkdir dir v).2 = some .directory

/-- Nothing has changed but for directories above `path` that were made. -/
def Traceless (path : PathName) (w w' : W) : Prop :=
  ∀ p, F.node p w' = F.node p w ∨
    (F.node p w = none ∧ F.node p w' = some .directory ∧ MadeAbove F path p)

/-- The file of `handle` is there, and nothing else has changed. -/
structure Filled (handle : H) (w w' : W) : Prop where
  file : ∃ bytes, F.node (F.file handle) w' = some (.file bytes)
  others : ∀ q, q ≠ F.file handle → F.node q w' = F.node q w

/-- What is found where the output is opened is taken away, and it was there at `w` already. -/
def Replaces (path : PathName) (w mid : W) : Prop :=
  (os.access path mid).1 = true ∧ (os.remove path (os.access path mid).2).1 = true ∧
    ∃ p, F.node p w ≠ none ∧ F.node p (os.remove path (os.access path mid).2).2 = none

variable {F} {outPath : PathName} {w mid w' : W} {handle : H}

theorem Traceless.refl (w : W) : Traceless F outPath w w := fun _ => .inl rfl

theorem Traceless.same (h : Traceless F outPath w mid) (hsame : ∀ p, F.node p w' = F.node p mid) :
    Traceless F outPath w w' := by
  intro p
  rw [hsame p]
  exact h p

theorem Traceless.there (h : Traceless F outPath w mid) {p : P} (hp : F.node p w ≠ none) :
    F.node p mid = F.node p w := by
  rcases h p with hsame | ⟨hnone, -⟩
  · exact hsame
  · exact absurd hnone hp

theorem Traceless.missing (h : Traceless F outPath w mid) {p : P} (hnone : F.node p mid = none) :
    F.node p w = none := by
  by_contra hp
  exact hp ((h.there hp).symm.trans hnone)

theorem Traceless.not_there (h : Traceless F outPath w mid) {p : P} (hnone : F.node p w = none)
    (hdir : F.node p mid ≠ some .directory) : F.node p mid = none := by
  rcases h p with hsame | ⟨-, hmade, -⟩
  · exact hsame.trans hnone
  · exact absurd hmade hdir

theorem Traceless.link (h : Traceless F outPath w mid) {p : P} {target : PathName}
    (hlink : F.node p mid = some (.link target)) : F.node p w = some (.link target) := by
  rcases h p with hsame | ⟨-, hdir, -⟩
  · exact hsame.symm.trans hlink
  · rw [hlink] at hdir
    cases hdir

theorem Traceless.mkdir {dir : PathName} (h : Traceless F outPath w mid)
    (hdir : InFront dir outPath) : Traceless F outPath w (os.mkdir dir mid).2 := by
  intro p
  rcases F.mkdir dir mid p with hsame | ⟨hnone, hmade⟩
  · rw [hsame]
    exact h p
  · exact .inr ⟨h.missing hnone, hmade, dir, mid, hdir, hnone, hmade⟩

theorem Traceless.remove {path : PathName} (h : Traceless F outPath w mid)
    (hkept : (os.remove path mid).1 = true →
      ∀ p, F.node p w ≠ none → F.node p (os.remove path mid).2 ≠ none) :
    Traceless F outPath w (os.remove path mid).2 := by
  cases hremoved : (os.remove path mid).1 with
  | false => exact h.same (F.remove_fails path mid hremoved)
  | true =>
    obtain ⟨p, hgone, hothers⟩ := F.remove path mid hremoved
    intro q
    by_cases hq : q = p
    · left
      rw [hq, hgone]
      by_contra hthere
      exact hkept hremoved p (Ne.symm hthere) hgone
    · rw [hothers q hq]
      exact h q

theorem Filled.fwrite (h : Filled F handle mid w') (bytes : List UInt8) :
    Filled F handle mid (os.fwrite handle bytes w').2 := by
  obtain ⟨old, hold⟩ := h.file
  obtain ⟨hfile, hothers⟩ := F.fwrite handle bytes w' old hold
  exact ⟨hfile, fun q hq => (hothers q hq).trans (h.others q hq)⟩

theorem Filled.same {last : W} (h : Filled F handle mid w')
    (hsame : ∀ p, F.node p last = F.node p w') : Filled F handle mid last := by
  obtain ⟨bytes, hfile⟩ := h.file
  exact ⟨⟨bytes, (hsame _).trans hfile⟩, fun q hq => (hsame q).trans (h.others q hq)⟩

theorem FileSystem.remove_gone_or_same (F : FileSystem os P) (path : PathName) (w : W) (p : P) :
    F.node p (os.remove path w).2 = none ∨ F.node p (os.remove path w).2 = F.node p w := by
  cases hremoved : (os.remove path w).1 with
  | false => exact .inr (F.remove_fails path w hremoved p)
  | true =>
    obtain ⟨q, hgone, hothers⟩ := F.remove path w hremoved
    by_cases hp : p = q
    · exact .inl (hp ▸ hgone)
    · exact .inr (hothers p hp)

end

/-! ## Opening the output -/

section

variable {W H P : Type} {os : Os W H} {F : FileSystem os P} {outPath path : PathName}
  {w mid w' : W} {handle : H}

/-- What is found at the path of the output is taken away. -/
def clearedOutput (os : Os W H) (path : PathName) (w : W) : W :=
  if (os.access path w).1 then (os.remove path (os.access path w).2).2 else (os.access path w).2

/-- What `FileStreamOpen` does then. -/
def openOutput (os : Os W H) (path : PathName) : Run W H :=
  match getParentDirectory path with
  | none => throw (.error .openError)
  | some parentPath => do
      match ← call (os.realpath parentPath) with
      | .error errno => throw (.error (convertWriteErrno errno .openError))
      | .ok resolvedPath =>
          let fullPath := resolvedPath ++ slash :: getFileName path
          if ZIP_FILE_NAME_LEN_MAX ≤ fullPath.length then throw (.error .openError)
          else
            match ← call (os.fopen fullPath) with
            | .error errno => throw (.error (convertWriteErrno errno .openError))
            | .ok handle => pure handle

theorem fileStreamOpen_eq (path : PathName) (w : W) :
    fileStreamOpen os path w = openOutput os path (clearedOutput os path w) := by
  have hrun : fileStreamOpen os path w = (if (os.access path w).1 then
      (discard (call (os.remove path)) >>= fun _ => openOutput os path : Run W H)
      else openOutput os path) (os.access path w).2 := rfl
  rw [hrun, clearedOutput]
  split
  · rfl
  · rfl

end

end FileApi.Compress
