import FileApi.Compress.ArchiveUtils
import Mathlib.Data.List.TakeWhile

/-!
# What the path functions keep

The path functions reach the system through its calls on paths only. What each of these calls
keeps, whatever it returns, the functions keep, however they end.
-/

namespace FileApi.Compress

open Program

/-! ## Parts of paths -/

/-- A path leads to the directory in front of one of its slashes. -/
def InFront (dir path : PathName) : Prop :=
  ∃ rest, path = dir ++ rest ∧ rest ≠ [] ∧
    (dir.getLast? = some slash ∨ rest.head? = some slash)

theorem InFront.trans {dir parentPath path rest : PathName} (h : InFront dir parentPath)
    (hpath : path = parentPath ++ rest) : InFront dir path := by
  obtain ⟨behind, rfl, hne, hslash⟩ := h
  refine ⟨behind ++ rest, by rw [hpath, List.append_assoc], ?_, ?_⟩
  · exact List.append_ne_nil_of_left_ne_nil hne rest
  · rwa [List.head?_append_of_ne_nil _ hne]

theorem getFileName_eq (path : PathName) :
    getFileName path = (path.reverse.takeWhile (· ≠ slash)).reverse := by
  rw [getFileName, splitLastSlash]
  split
  · rfl
  · rfl

theorem slash_not_mem_getFileName (path : PathName) : slash ∉ getFileName path := by
  intro h
  rw [getFileName_eq, List.mem_reverse] at h
  simpa using List.mem_takeWhile_imp h

theorem splitLastSlash_eq {filePath parentPath : PathName}
    (h : (splitLastSlash filePath).1 = some parentPath) :
    filePath = parentPath ++ slash :: getFileName filePath ∧ slash ∈ filePath := by
  have hsplit := List.takeWhile_append_dropWhile (p := (· ≠ slash)) (l := filePath.reverse)
  rw [splitLastSlash] at h
  split at h
  · next hmem =>
    refine ⟨?_, hmem⟩
    cases hdrop : filePath.reverse.dropWhile (· ≠ slash) with
    | nil =>
      rw [List.dropWhile_eq_nil_iff] at hdrop
      simpa using hdrop slash (List.mem_reverse.mpr hmem)
    | cons b rest =>
      have hb : b = slash := by
        have hhead := List.head?_dropWhile_not (· ≠ slash) filePath.reverse
        rw [hdrop] at hhead
        simpa using hhead
      rw [hdrop, hb] at hsplit
      have hpath : filePath = rest.reverse ++ slash :: getFileName filePath := by
        have hreverse := congrArg List.reverse hsplit
        rw [List.reverse_append, List.reverse_cons, List.reverse_reverse, List.append_assoc]
          at hreverse
        rw [getFileName_eq]
        exact hreverse.symm
      rw [← getFileName_eq] at h
      generalize getFileName filePath = name at hpath h ⊢
      have hparent : rest.reverse = parentPath := by
        have htake := Option.some.inj h
        rw [hpath, List.length_append, List.length_cons, List.take_left'] at htake
        · exact htake
        · omega
      rw [hpath, hparent]
  · cases h

variable {W H : Type}

theorem liftFuel_triple {α : Type} {result : Option α} {P : W → Prop} :
    Triple P (liftFuel result) (fun a w => result = some a ∧ P w) (fun _ => P) := by
  cases result with
  | none => exact .throw fun _ h => h
  | some a => exact .pure fun _ h => ⟨rfl, h⟩

theorem liftStatus_triple {α : Type} {status : Except ArchiveErr α} {P : W → Prop} :
    Triple P (liftStatus status) (fun a w => status = .ok a ∧ P w) (fun _ => P) := by
  cases status with
  | error err => exact .throw fun _ h => h
  | ok a => exact .pure fun _ h => ⟨rfl, h⟩

theorem liftFuel_keeps {α : Type} {I : W → Prop} (result : Option α) :
    Program.Keeps I (liftFuel result : Run W α) :=
  liftFuel_triple.weaken (fun _ h => h) (fun _ _ h => h.2) fun _ _ h => h

theorem liftStatus_keeps {α : Type} {I : W → Prop} (status : Except ArchiveErr α) :
    Program.Keeps I (liftStatus status : Run W α) :=
  liftStatus_triple.weaken (fun _ h => h) (fun _ _ h => h.2) fun _ _ h => h

/-- Every call on paths keeps `I`, and so does the callback. -/
structure Os.Keeps (os : Os W H) (I : W → Prop) : Prop where
  isDirectory : ∀ path w, I w → I (os.isDirectory path w).2
  stat : ∀ path w, I w → I (os.stat path w).2
  access : ∀ path w, I w → I (os.access path w).2
  isSymlink : ∀ path w, I w → I (os.isSymlink path w).2
  mkdir : ∀ path w, I w → I (os.mkdir path w).2
  remove : ∀ path w, I w → I (os.remove path w).2
  unlink : ∀ path w, I w → I (os.unlink path w).2
  symlink : ∀ target path w, I w → I (os.symlink target path w).2
  realpath : ∀ path w, I w → I (os.realpath path w).2
  cancels : ∀ w, I w → I (os.cancels w).2

section

variable {os : Os W H} {I : W → Prop}

section

variable {path : PathName} {J : W → Prop}

theorem createDirectoryLoop_nil (fuel : Nat) (temp : PathName) :
    createDirectoryLoop os fuel temp [] = pure () := by
  cases fuel with
  | zero => rfl
  | succ fuel => rfl

theorem nextDirectory_append (temp p : PathName) :
    let next : PathName × PathName := if p.dropWhile (· ≠ slash) = [] then
      (temp ++ p.takeWhile (· ≠ slash), p.dropWhile (· ≠ slash))
    else (temp ++ p.takeWhile (· ≠ slash) ++ [slash], (p.dropWhile (· ≠ slash)).tail)
    next.1 ++ next.2 = temp ++ p ∧ (next.2 = [] ∨ next.1.getLast? = some slash) := by
  have hname := List.takeWhile_append_dropWhile (p := (· ≠ slash)) (l := p)
  cases hrest : p.dropWhile (· ≠ slash) with
  | nil =>
    rw [hrest] at hname
    rw [if_pos rfl]
    refine ⟨?_, .inl rfl⟩
    simpa only [List.append_assoc] using congrArg (temp ++ ·) hname
  | cons b rest =>
    have hb : b = slash := by
      have hhead := List.head?_dropWhile_not (· ≠ slash) p
      rw [hrest] at hhead
      simpa using hhead
    rw [hrest, hb] at hname
    rw [if_neg (List.cons_ne_nil _ _)]
    refine ⟨?_, .inr List.getLast?_concat⟩
    simpa only [List.append_assoc, List.tail_cons, List.singleton_append] using
      congrArg (temp ++ ·) hname

variable (hdir : ∀ dir w, I w → I (os.isDirectory dir w).2)
  (hmkdir : ∀ dir w, InFront dir path ∨ (dir = path ∧ (os.mkdir dir w).1 ≠ .made) → I w →
    I (os.mkdir dir w).2)
  (hlast : ∀ w, I w → J (os.mkdir path w).2) (hdone : ∀ w, I w → J w)

include hdir hmkdir hlast hdone

/-- The directories that are made are in front of the end of the path, and the path itself is the
last. -/
theorem createDirectoryLoop_triple (fuel : Nat) : ∀ temp p, temp ++ p = path →
    Triple I (createDirectoryLoop os fuel temp p) (fun _ => J) (fun _ => I) := by
  induction fuel with
  | zero =>
    intro temp p _
    exact .ite (.pure hdone) (.throw fun _ h => h)
  | succ fuel ih =>
    intro temp p hpath
    have hstop : ∀ (err : ArchiveErr) (x : Unit → Run W Unit),
        Triple I (throw (.error err) >>= x) (fun _ => J) (fun _ => I) := fun err x =>
      .bind (Q := fun _ _ => False) (.throw fun _ h => h) fun _ _ h => h.elim
    have hmade : ∀ (rest : MkdirResult → Run W Unit) (temp p : PathName),
        temp ++ p = path → p = [] ∨ temp.getLast? = some slash →
        rest .made = createDirectoryLoop os fuel temp p →
        rest .exists = createDirectoryLoop os fuel temp p →
        rest .nameTooLong = (throw (.error .nameTooLongError) >>= fun _ : Unit =>
          createDirectoryLoop os fuel temp p) →
        rest .fails = (throw (.error .paramError) >>= fun _ : Unit =>
          createDirectoryLoop os fuel temp p) →
        Triple I (call (os.mkdir temp) >>= rest) (fun _ => J) (fun _ => I) := by
      intro rest temp p hpath hend hrestMade hrestExists hrestLong hrestFails
      by_cases hp : p = []
      · -- the path itself
        have htemp : temp = path := by rwa [hp, List.append_nil] at hpath
        refine .bind (Q := fun result w => J w ∧ (result ≠ .made → I w)) (.call fun w h => ?_)
          fun result => ?_
        · refine ⟨?_, fun hnot => hmkdir temp w (.inr ⟨htemp, hnot⟩) h⟩
          rw [htemp]
          exact hlast w h
        · rw [hp, createDirectoryLoop_nil] at hrestMade hrestExists
          cases result with
          | made =>
            rw [hrestMade]
            exact .pure fun _ h => h.1
          | «exists» =>
            rw [hrestExists]
            exact .pure fun _ h => h.1
          | nameTooLong =>
            rw [hrestLong]
            exact (hstop _ _).weaken (fun w h => h.2 (by decide)) (fun _ _ h => h) fun _ _ h => h
          | fails =>
            rw [hrestFails]
            exact (hstop _ _).weaken (fun w h => h.2 (by decide)) (fun _ _ h => h) fun _ _ h => h
      · have hfront : InFront temp path := ⟨p, hpath.symm, hp, .inl (hend.resolve_left hp)⟩
        refine .bind (Q := fun _ => I) (.call fun w h => hmkdir temp w (.inl hfront) h)
          fun result => ?_
        cases result with
        | made => exact hrestMade ▸ ih temp p hpath
        | «exists» => exact hrestExists ▸ ih temp p hpath
        | nameTooLong => exact hrestLong ▸ hstop _ _
        | fails => exact hrestFails ▸ hstop _ _
    rw [createDirectoryLoop]
    dsimp only
    refine .ite (.pure hdone) (.ite (hstop _ _) (.ite (hstop _ _) ?_))
    have hnext := nextDirectory_append temp p
    generalize (if p.dropWhile (· ≠ slash) = [] then _ else _ : PathName × PathName) = next
      at hnext ⊢
    have hrest := ih next.1 next.2 (hnext.1.trans hpath)
    refine .ite (.bind (Q := fun _ => I) (.call fun w h => hdir next.1 w h) fun there => ?_) hrest
    exact .ite (hmade _ next.1 next.2 (hnext.1.trans hpath) hnext.2 rfl rfl rfl rfl) hrest

theorem createDirectory_triple :
    Triple I (createDirectory os path) (fun _ => J) (fun _ => I) := by
  refine .bind (Q := fun _ => I) (.call fun w h => hdir path w h) fun there =>
    .ite (.pure hdone) ?_
  cases path with
  | nil => exact .pure hdone
  | cons b rest =>
    dsimp only
    split
    · next hb => exact createDirectoryLoop_triple hdir hmkdir hlast hdone _ _ _ (by rw [hb]; rfl)
    · exact createDirectoryLoop_triple hdir hmkdir hlast hdone _ _ _ rfl

end

theorem createDirectory_keeps (hdir : ∀ dir w, I w → I (os.isDirectory dir w).2)
    (hmkdir : ∀ dir w, I w → I (os.mkdir dir w).2) (path : PathName) :
    Program.Keeps I (createDirectory os path) :=
  createDirectory_triple hdir (fun dir w _ => hmkdir dir w) (hmkdir path) fun _ h => h

theorem createParentDirectory_keeps {filePath : PathName}
    (hdir : ∀ dir w, I w → I (os.isDirectory dir w).2)
    (hmkdir : ∀ dir w, InFront dir filePath → I w → I (os.mkdir dir w).2) :
    Program.Keeps I (createParentDirectory os filePath) := by
  refine .ite (.throw _) ?_
  split
  · exact .pure _
  · exact .pure _
  · next parentPath _ hparent =>
    obtain ⟨hsplit, -⟩ := splitLastSlash_eq hparent
    have hlast : InFront parentPath filePath :=
      ⟨_, hsplit, List.cons_ne_nil _ _, .inr rfl⟩
    have habove : ∀ dir w, InFront dir parentPath ∨
        (dir = parentPath ∧ (os.mkdir dir w).1 ≠ .made) → I w → I (os.mkdir dir w).2 := by
      rintro dir w (hfront | ⟨rfl, -⟩) h
      · exact hmkdir dir w (hfront.trans hsplit) h
      · exact hmkdir dir w hlast h
    exact createDirectory_triple hdir habove (fun w => hmkdir parentPath w hlast) fun _ h => h

theorem tryNewFileNameCount_keeps (haccess : ∀ path w, I w → I (os.access path w).2)
    (dir base ext : PathName) (fuel : Nat) :
    ∀ counter, Program.Keeps I (tryNewFileNameCount os dir base ext fuel counter) := by
  induction fuel with
  | zero =>
    intro counter
    exact .throw _
  | succ fuel ih =>
    intro counter
    refine .ite (.throw _) (.bind (.call (haccess _)) fun there => ?_)
    exact .ite (ih _) (.pure _)

theorem generateNewFilename_keeps (haccess : ∀ path w, I w → I (os.access path w).2)
    (path : PathName) : Program.Keeps I (generateNewFilename os path) :=
  tryNewFileNameCount_keeps haccess _ _ _ _ _

theorem validateSymlinkTarget_triple (hrealpath : ∀ path w, I w → I (os.realpath path w).2)
    (targetPath entryName outDir : PathName) :
    Triple I (validateSymlinkTarget os targetPath entryName outDir) (fun _ => I)
      (fun _ _ => False) := by
  refine .ite (.pure fun _ h => h) (.bind (Q := fun _ => I) (.call (hrealpath outDir))
    fun resolved => ?_)
  cases resolved with
  | error errno => exact .pure fun _ h => h
  | ok resolvedBaseDir =>
    refine .ite (.pure fun _ h => h) ?_
    split
    · exact .pure fun _ h => h
    · exact .ite (.pure fun _ h => h) (.pure fun _ h => h)

theorem validateSymlinkTarget_keeps (hrealpath : ∀ path w, I w → I (os.realpath path w).2)
    (targetPath entryName outDir : PathName) :
    Program.Keeps I (validateSymlinkTarget os targetPath entryName outDir) :=
  (validateSymlinkTarget_triple hrealpath targetPath entryName outDir).weaken (fun _ h => h)
    (fun _ _ h => h) fun _ _ h => h.elim

end

end FileApi.Compress
