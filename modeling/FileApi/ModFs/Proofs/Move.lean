import FileApi.ModFs.Move

/-!
# What a move leaves behind

When a `DoMove` does all or nothing. A rename does, unless the two names are hard links of one file.
A copy with the removal of the source behind it takes the target away first, and brings nothing
back.
-/

namespace FileApi.ModFs.Move

open Entries

variable {limit : Nat} {d d' : MoveDisk} {src dest q : List UInt8} {inode : Nat}
  {bytes : List UInt8}

/-- After a success the source is gone and the target has its bytes; after an error both names are
what they were, and lead to the same bytes. -/
def AllOrNothing (limit : Nat) (d d' : MoveDisk) (src dest : List UInt8) :
    Except Errno Unit → Prop
  | .ok () => d'.names src = none ∧ d'.read limit dest = d.read limit src
  | .error _ =>
      d'.names src = d.names src ∧ d'.names dest = d.names dest ∧
        d'.read limit src = d.read limit src ∧ d'.read limit dest = d.read limit dest

section Conditions

variable (f : MoveFailures) (limit : Nat) (d : MoveDisk) (src dest : List UInt8)

/-- Nothing was removed in front of the copy. -/
def CopySafe : Prop :=
  (d.overwrite limit src dest []).isOk = false ∨
    match f.copy with
    | some ⟨_, none⟩ => True
    | some ⟨_, some written⟩ =>
        d.read limit dest = (d.read limit src).map fun bytes => bytes.take written
    | none =>
        f.unlinkSrc = none ∨
          (f.unlinkDest = none ∧ d.names dest = none) ∨
            f.unlinkDest ≠ none ∧ d.read limit dest = d.read limit src

/-- The rename failed between two devices. -/
def CrossSafe : Prop :=
  f.stat ≠ none ∨
    (found limit d f.exists_ dest = true ∧
      match f.remove with
      | some errno => errno ≠ .enoent
      | none => f.copy = none ∧ f.unlinkSrc = none) ∨
    (found limit d f.exists_ dest = false ∧ CopySafe f limit d src dest)

/-- The move is refused in front of the rename, or the rename does not meet two hard links of one
file and fails otherwise than between devices, or what follows it is safe. -/
def MoveSafe (mode : Option Int) : Prop :=
  ∀ m, validMoveArg f limit d src dest mode = some m →
    (orFail f.accessSrc (stat limit d src)).isOk = true →
    (m = modeThrowErr → orFail f.accessDest (stat limit d dest) = .error .enoent) →
      match f.rename with
      | none => d.names dest ≠ d.names src
      | some .exdev => CrossSafe f limit d src dest
      | some _ => True

end Conditions

/-! ## Reading -/

theorem read_of_there (h : follow d.names limit src = .there q (.file inode)) :
    d.read limit src = d.contents[inode]? := by
  rw [Disk.read, h]

theorem read_of_missing (h : follow d.names limit src = .missing q) : d.read limit src = none := by
  rw [Disk.read, h]

theorem read_source (limit : Nat) (hsrc : d.names src = some (.file inode)) :
    ∃ bytes, d.contents[inode]? = some bytes ∧ d.read limit src = some bytes := by
  have hlt := d.valid src inode hsrc
  refine ⟨d.contents[inode], List.getElem?_eq_getElem hlt, ?_⟩
  rw [read_of_there (follow_entry hsrc nofun), List.getElem?_eq_getElem hlt]

theorem read_create (hfollow : follow d.names limit src = .there src (.file inode))
    (hq : d.names q = none) (hne : src ≠ q) :
    (d.create q bytes).read limit src = d.read limit src := by
  have hlt := d.valid src inode (follow_there hfollow).1
  have hkeep : follow (d.create q bytes).names limit src = .there src (.file inode) :=
    follow_update (fun target h => nomatch hq.symm.trans h) hne hfollow
  rw [read_of_there hkeep, read_of_there hfollow]
  exact List.getElem?_append_left hlt

/-! ## The copy -/

/-- What a copy has done when the target has these bytes. -/
structure Overwritten (limit : Nat) (d d' : MoveDisk) (src dest bytes : List UInt8) : Prop where
  allowed : (d.overwrite limit src dest []).isOk = true
  source : d'.names src = d.names src
  kept : d.names dest ≠ none → d'.names dest = d.names dest
  made : d.names dest = none → d'.names dest = some (.file d.contents.length)
  readSrc : d'.read limit src = d.read limit src
  readDest : d'.read limit dest = some bytes
  readErased : (d'.erase src).read limit dest = some bytes

theorem overwritten_create (hsrc : d.names src = some (.file inode))
    (hfollow : follow d.names limit dest = .missing q) :
    Overwritten limit d (d.create q bytes) src dest bytes := by
  have hq := follow_missing hfollow
  have hsrcq : src ≠ q := by
    rintro rfl
    rw [hq] at hsrc
    cases hsrc
  have hthere : follow (d.create q bytes).names limit dest =
      .there q (.file d.contents.length) := follow_put nofun hfollow
  have hnew : (d.contents ++ [bytes])[d.contents.length]? = some bytes := by simp
  have hnames : (d.create q bytes).names src = d.names src := Function.update_of_ne hsrcq _ _
  refine ⟨?_, hnames, fun hsome => ?_, fun hnone => ?_,
    read_create (follow_entry hsrc nofun) hq hsrcq, ?_, ?_⟩
  · rw [Disk.overwrite, follow_entry hsrc nofun, hfollow]
    rfl
  · have hdestq : dest ≠ q := by
      rintro rfl
      exact hsome hq
    exact Function.update_of_ne hdestq _ _
  · rw [follow_none hnone] at hfollow
    cases hfollow
    exact Function.update_self _ _ _
  · rw [read_of_there hthere]
    exact hnew
  · have herased : follow ((d.create q bytes).erase src).names limit dest =
        .there q (.file d.contents.length) :=
      follow_update (fun target h => nomatch (hnames.trans hsrc).symm.trans h) hsrcq.symm hthere
    rw [read_of_there herased]
    exact hnew

theorem overwritten_write {other : Nat} (hsrc : d.names src = some (.file inode))
    (hfollow : follow d.names limit dest = .there q (.file other)) (hother : inode ≠ other) :
    Overwritten limit d (d.write other bytes) src dest bytes := by
  have hlt := d.valid q other (follow_there hfollow).1
  have hq : src ≠ q := by
    rintro rfl
    rw [(follow_there hfollow).1] at hsrc
    cases hsrc
    exact hother rfl
  have hnew : (d.contents.set other bytes)[other]? = some bytes := by
    rw [List.getElem?_set_self hlt]
  refine ⟨?_, rfl, fun _ => rfl, fun hnone => ?_, ?_, ?_, ?_⟩
  · rw [Disk.overwrite, follow_entry hsrc nofun, hfollow]
    dsimp only
    rw [if_neg hother]
    rfl
  · rw [follow_none hnone] at hfollow
    cases hfollow
  · have hself : follow d.names limit src = .there src (.file inode) := follow_entry hsrc nofun
    have hself' : follow (d.write other bytes).names limit src = .there src (.file inode) := hself
    rw [read_of_there hself, read_of_there hself']
    exact List.getElem?_set_ne hother.symm
  · have hthere : follow (d.write other bytes).names limit dest = .there q (.file other) := hfollow
    rw [read_of_there hthere]
    exact hnew
  · have herased : follow ((d.write other bytes).erase src).names limit dest =
        .there q (.file other) :=
      follow_update (fun target h => nomatch hsrc.symm.trans h) hq.symm hfollow
    rw [read_of_there herased]
    exact hnew

theorem overwrite_ok (hsrc : d.names src = some (.file inode))
    (h : (d.overwrite limit src dest []).isOk = true) (bytes : List UInt8) :
    ∃ copied, d.overwrite limit src dest bytes = .ok copied ∧
      Overwritten limit d copied src dest bytes := by
  have hself : follow d.names limit src = .there src (.file inode) := follow_entry hsrc nofun
  unfold Disk.overwrite at h ⊢
  rw [hself] at h ⊢
  cases hfollow : follow d.names limit dest with
  | missing name => exact ⟨_, rfl, overwritten_create hsrc hfollow⟩
  | nowhere =>
    rw [hfollow] at h
    cases h
  | there name entry =>
    rw [hfollow] at h
    cases entry with
    | link target => cases h
    | directory => cases h
    | special => cases h
    | file other =>
      dsimp only at h ⊢
      split
      · next heq =>
        rw [if_pos heq] at h
        cases h
      · next hother => exact ⟨_, rfl, overwritten_write hsrc hfollow hother⟩

theorem overwrite_error (h : (d.overwrite limit src dest []).isOk = false) (bytes : List UInt8) :
    ∃ errno, d.overwrite limit src dest bytes = .error errno := by
  unfold Disk.overwrite at h ⊢
  split
  · split
    · exact ⟨_, rfl⟩
    · next hs hd hother =>
      rw [hs, hd] at h
      dsimp only at h
      rw [if_neg hother] at h
      cases h
  · next hs hd =>
    rw [hs, hd] at h
    cases h
  all_goals exact ⟨_, rfl⟩

/-! ## Copy and removal -/

variable {f : MoveFailures}

/-- How the copy and the removal of the source turn out. -/
inductive CopyEnd (f : MoveFailures) (limit : Nat) (d : MoveDisk) (src dest bytes : List UInt8) :
    Except Errno Unit × MoveDisk → Prop
  | refused (errno : Errno) (h : (d.overwrite limit src dest []).isOk = false) :
      CopyEnd f limit d src dest bytes (.error errno, d)
  | untouched (errno : Errno) (h : f.copy = some ⟨errno, none⟩) :
      CopyEnd f limit d src dest bytes (.error errno, d)
  | partly (errno : Errno) (written : Nat) (d' : MoveDisk) (h : f.copy = some ⟨errno, some written⟩)
      (hcopied : Overwritten limit d d' src dest (bytes.take written)) :
      CopyEnd f limit d src dest bytes (.error errno, d')
  | moved (d' : MoveDisk) (h : f.copy = none) (hsrc : f.unlinkSrc = none)
      (hcopied : Overwritten limit d d' src dest bytes) :
      CopyEnd f limit d src dest bytes (.ok (), d'.erase src)
  | undone (errno : Errno) (d' : MoveDisk) (h : f.copy = none) (hsrc : f.unlinkSrc = some errno)
      (hdest : f.unlinkDest = none) (hcopied : Overwritten limit d d' src dest bytes) :
      CopyEnd f limit d src dest bytes (.error errno, d'.erase dest)
  | both (errno errno' : Errno) (d' : MoveDisk) (h : f.copy = none)
      (hsrc : f.unlinkSrc = some errno) (hdest : f.unlinkDest = some errno')
      (hcopied : Overwritten limit d d' src dest bytes) :
      CopyEnd f limit d src dest bytes (.error errno', d')

theorem copyFile_refused (h : (d.overwrite limit src dest []).isOk = false) :
    ∃ errno, copyFile limit d f.copy src dest = (.error errno, d) := by
  obtain ⟨errno, herror⟩ := overwrite_error h ((d.read limit src).getD [])
  exact ⟨errno, by rw [copyFile, herror]⟩

theorem unlink_of_entry {name : List UInt8} {entry : Entry (List UInt8)}
    (h : d.names name = some entry) (hdir : entry ≠ .directory) :
    d.unlink name = .ok (d.erase name) := by
  rw [Disk.unlink, h]
  cases entry with
  | directory => exact absurd rfl hdir
  | file inode => rfl
  | link target => rfl
  | special => rfl

theorem copyAndUnlink_end (hsrc : d.names src = some (.file inode))
    (hdest : d.names dest ≠ some .directory) (hread : d.read limit src = some bytes) :
    CopyEnd f limit d src dest bytes (copyAndUnlink f limit d src dest) := by
  cases hok : (d.overwrite limit src dest []).isOk with
  | false =>
    obtain ⟨errno, herror⟩ := copyFile_refused (f := f) hok
    rw [copyAndUnlink, herror]
    exact .refused errno hok
  | true =>
    obtain ⟨copied, hcopy, hcopied⟩ := overwrite_ok hsrc hok bytes
    have hgetD : (d.read limit src).getD [] = bytes := by rw [hread, Option.getD_some]
    cases hf : f.copy with
    | some failure =>
      obtain ⟨errno, written⟩ := failure
      cases written with
      | none =>
        rw [copyAndUnlink, copyFile, hgetD, hcopy, hf]
        exact .untouched errno hf
      | some written =>
        obtain ⟨part, hpart, hpartly⟩ := overwrite_ok hsrc hok (bytes.take written)
        rw [copyAndUnlink, copyFile, hgetD, hcopy, hf]
        dsimp only
        rw [hpart]
        exact .partly errno written part hf hpartly
    | none =>
      rw [copyAndUnlink, copyFile, hgetD, hcopy, hf]
      dsimp only
      have hnames : copied.names src = some (.file inode) := hcopied.source.trans hsrc
      rw [unlink_of_entry hnames nofun]
      cases hus : f.unlinkSrc with
      | none => exact .moved copied hf hus hcopied
      | some errno =>
        obtain ⟨entry, hentry, hnotdir⟩ : ∃ entry, copied.names dest = some entry ∧
            entry ≠ .directory := by
          cases hd : d.names dest with
          | none => exact ⟨_, hcopied.made hd, nofun⟩
          | some entry =>
            refine ⟨entry, (hcopied.kept (by rw [hd]; nofun)).trans hd, ?_⟩
            rintro rfl
            exact hdest hd
        rw [orFail_some]
        dsimp only
        rw [unlink_of_entry hentry hnotdir]
        cases hud : f.unlinkDest with
        | none => exact .undone errno copied hf hus hud hcopied
        | some errno' => exact .both errno errno' copied hf hus hud hcopied

/-! ## All or nothing -/

theorem Overwritten.unchanged_iff {old : List UInt8} (h : Overwritten limit d d' src dest old)
    (errno : Errno) :
    AllOrNothing limit d d' src dest (.error errno) ↔ d.read limit dest = some old := by
  constructor
  · rintro ⟨-, -, -, hdest⟩
    rw [← hdest]
    exact h.readDest
  · intro hold
    have hentry : d.names dest ≠ none := by
      intro hnone
      rw [read_of_missing (follow_none hnone)] at hold
      cases hold
    exact ⟨h.source, h.kept hentry, h.readSrc, h.readDest.trans hold.symm⟩

theorem allOrNothing_same (errno : Errno) : AllOrNothing limit d d src dest (.error errno) :=
  ⟨rfl, rfl, rfl, rfl⟩

theorem Overwritten.moved (h : Overwritten limit d d' src dest bytes)
    (hread : d.read limit src = some bytes) :
    AllOrNothing limit d (d'.erase src) src dest (.ok ()) :=
  ⟨Function.update_self _ _ _, h.readErased.trans hread.symm⟩

theorem Overwritten.undone_iff (h : Overwritten limit d d' src dest bytes)
    (hsrc : d.names src = some (.file inode)) (hne : src ≠ dest) (errno : Errno) :
    AllOrNothing limit d (d'.erase dest) src dest (.error errno) ↔ d.names dest = none := by
  have hgone : (d'.erase dest).names dest = none := Function.update_self _ _ _
  have hnames : (d'.erase dest).names src = d.names src :=
    (Function.update_of_ne hne _ _).trans h.source
  constructor
  · rintro ⟨-, hdest, -, -⟩
    rw [← hdest]
    exact hgone
  · intro hnone
    have hself : follow (d'.erase dest).names limit src = .there src (.file inode) :=
      follow_entry (hnames.trans hsrc) nofun
    have hself' : follow d'.names limit src = .there src (.file inode) :=
      follow_entry (h.source.trans hsrc) nofun
    refine ⟨hnames, hgone.trans hnone.symm, ?_, ?_⟩
    · rw [read_of_there hself, ← h.readSrc, read_of_there hself']
      rfl
    · rw [read_of_missing (follow_none hgone), read_of_missing (follow_none hnone)]

theorem copyAndUnlink_allOrNothing_iff (hsrc : d.names src = some (.file inode)) (hne : src ≠ dest)
    (hdest : d.names dest ≠ some .directory) :
    AllOrNothing limit d (copyAndUnlink f limit d src dest).2 src dest
      (copyAndUnlink f limit d src dest).1 ↔ CopySafe f limit d src dest := by
  obtain ⟨bytes, -, hread⟩ := read_source limit hsrc
  have hend : CopyEnd f limit d src dest bytes (copyAndUnlink f limit d src dest) :=
    copyAndUnlink_end hsrc hdest hread
  generalize copyAndUnlink f limit d src dest = result at hend ⊢
  unfold CopySafe
  simp only [hread, Option.map_some]
  cases hend with
  | refused errno h => exact iff_of_true (allOrNothing_same errno) (.inl h)
  | untouched errno h => exact iff_of_true (allOrNothing_same errno) (.inr (by rw [h]; trivial))
  | partly errno written d' h hcopied =>
    rw [hcopied.unchanged_iff, h, hcopied.allowed]
    simp
  | moved d' h hus hcopied =>
    exact iff_of_true (hcopied.moved hread) (.inr (by rw [h]; exact .inl hus))
  | undone errno d' h hus hud hcopied =>
    rw [hcopied.undone_iff hsrc hne, h, hus, hud, hcopied.allowed]
    simp
  | both errno errno' d' h hus hud hcopied =>
    rw [hcopied.unchanged_iff, h, hus, hud, hcopied.allowed]
    simp

/-- Where the target was taken away in front of it. -/
theorem erased_allOrNothing_iff (hsrc : d.names src = some (.file inode)) (hne : src ≠ dest)
    {entry : Entry (List UInt8)} (hdest : d.names dest = some entry) :
    AllOrNothing limit d (copyAndUnlink f limit (d.erase dest) src dest).2 src dest
      (copyAndUnlink f limit (d.erase dest) src dest).1 ↔ f.copy = none ∧ f.unlinkSrc = none := by
  obtain ⟨bytes, -, hread⟩ := read_source limit hsrc
  have hnames : (d.erase dest).names src = some (.file inode) :=
    (Function.update_of_ne hne _ _).trans hsrc
  have hgone : (d.erase dest).names dest = none := Function.update_self _ _ _
  have hread' : (d.erase dest).read limit src = some bytes := by
    have hself : follow d.names limit src = .there src (.file inode) := follow_entry hsrc nofun
    have hself' : follow (d.erase dest).names limit src = .there src (.file inode) :=
      follow_entry hnames nofun
    rw [← hread, read_of_there hself, read_of_there hself']
    rfl
  have hnew : ∀ {d' : MoveDisk} {old : List UInt8},
      Overwritten limit (d.erase dest) d' src dest old → d'.names dest ≠ d.names dest := by
    intro d' old hcopied heq
    rw [hcopied.made hgone] at heq
    exact absurd (d.valid dest _ heq.symm) (Nat.lt_irrefl _)
  have hend : CopyEnd f limit (d.erase dest) src dest bytes
      (copyAndUnlink f limit (d.erase dest) src dest) :=
    copyAndUnlink_end hnames (by rw [hgone]; nofun) hread'
  generalize copyAndUnlink f limit (d.erase dest) src dest = result at hend ⊢
  cases hend with
  | refused errno h =>
    rw [Disk.overwrite, follow_entry hnames nofun, follow_none hgone] at h
    cases h
  | untouched errno h =>
    refine iff_of_false (fun hall => ?_) (by rw [h]; nofun)
    rw [hall.2.1] at hgone
    exact nomatch hdest.symm.trans hgone
  | partly errno written d' h hcopied =>
    exact iff_of_false (fun hall => hnew hcopied hall.2.1) (by rw [h]; nofun)
  | moved d' h hus hcopied =>
    refine iff_of_true ⟨Function.update_self _ _ _, ?_⟩ ⟨h, hus⟩
    exact hcopied.readErased.trans hread.symm
  | undone errno d' h hus hud hcopied =>
    refine iff_of_false (fun hall => ?_) (by rw [hus]; nofun)
    have hnone : (d'.erase dest).names dest = none := Function.update_self _ _ _
    exact nomatch hdest.symm.trans (hall.2.1.symm.trans hnone)
  | both errno errno' d' h hus hud hcopied =>
    exact iff_of_false (fun hall => hnew hcopied hall.2.1) (by rw [hus]; nofun)

theorem copyAndDeleteFile_allOrNothing_iff (hsrc : d.names src = some (.file inode))
    (hne : src ≠ dest) (hdest : d.names dest ≠ some .directory) :
    AllOrNothing limit d (copyAndDeleteFile f limit d src dest).2 src dest
      (copyAndDeleteFile f limit d src dest).1 ↔ CrossSafe f limit d src dest := by
  have hstat : stat limit d src = .ok (.file inode) := by
    rw [stat, follow_entry hsrc nofun]
  unfold copyAndDeleteFile CrossSafe
  rw [hstat]
  cases hs : f.stat with
  | some errno => exact iff_of_true (allOrNothing_same errno) (.inl nofun)
  | none =>
    rw [orFail_none]
    dsimp only
    cases hfound : found limit d f.exists_ dest with
    | false =>
      rw [if_neg Bool.false_ne_true, copyAndUnlink_allOrNothing_iff hsrc hne hdest]
      simp
    | true =>
      rw [if_pos rfl]
      have hentry : d.names dest ≠ none := by
        intro hnone
        unfold found stat at hfound
        rw [follow_none hnone] at hfound
        cases hf : f.exists_ <;> rw [hf] at hfound <;> cases hfound
      obtain ⟨entry, hentry⟩ := Option.ne_none_iff_exists'.mp hentry
      cases hr : f.remove with
      | some errno =>
        by_cases hcleared : errno = .enoent
        · -- the target is gone, and the source is still there
          rw [hcleared]
          refine iff_of_false (fun hall => ?_) (by simp)
          have hkept : (d.erase dest).names src = some (.file inode) :=
            (Function.update_of_ne hne _ _).trans hsrc
          exact nomatch hkept.symm.trans hall.1
        · have hremove : remove d (some errno) dest = (.error errno, d) := by
            unfold remove
            split
            · next h => exact absurd (Option.some.inj h) hcleared
            · next h => rw [Option.some.inj h]
            · next h => cases h
          rw [hremove]
          exact iff_of_true (allOrNothing_same errno) (.inr (.inl ⟨rfl, hcleared⟩))
      | none =>
        have hremove : remove d none dest = (.ok true, d.erase dest) := by
          unfold remove
          rw [hentry]
          dsimp only
          rw [unlink_of_entry hentry (fun h => hdest (h ▸ hentry))]
        rw [hremove]
        dsimp only
        rw [erased_allOrNothing_iff hsrc hne hentry]
        simp

theorem renameFile_allOrNothing_iff (hsrc : d.names src = some (.file inode)) (hne : src ≠ dest)
    (hdest : d.names dest ≠ some .directory) :
    AllOrNothing limit d (renameFile f limit d src dest).2 src dest
      (renameFile f limit d src dest).1 ↔
      match f.rename with
      | none => d.names dest ≠ d.names src
      | some .exdev => CrossSafe f limit d src dest
      | some _ => True := by
  unfold renameFile
  cases hr : f.rename with
  | some errno =>
    rw [orFail_some]
    cases errno with
    | exdev => exact copyAndDeleteFile_allOrNothing_iff hsrc hne hdest
    | _ => exact iff_of_true (allOrNothing_same _) trivial
  | none =>
    rw [orFail_none]
    dsimp only
    by_cases hsame : d.names dest = d.names src
    · have hrename : d.rename src dest = .ok d := by
        rw [Disk.rename, hsame, hsrc]
        dsimp only
        rw [if_pos rfl]
      rw [hrename]
      refine iff_of_false (fun hall => ?_) (fun h => h hsame)
      exact nomatch hsrc.symm.trans hall.1
    · have hrename : d.rename src dest = .ok (d.move src dest) := by
        rw [Disk.rename, hsrc]
        cases hd : d.names dest with
        | none => rfl
        | some entry =>
          cases entry with
          | directory => exact absurd hd hdest
          | link target => rfl
          | special => rfl
          | file other =>
            dsimp only
            rw [if_neg]
            rintro rfl
            exact hsame (hd.trans hsrc.symm)
      rw [hrename]
      refine iff_of_true ⟨Function.update_self _ _ _, ?_⟩ hsame
      have hmoved : (d.move src dest).names dest = some (.file inode) := by
        show Function.update (Function.update d.names dest (d.names src)) src none dest = _
        rw [Function.update_of_ne hne.symm, Function.update_self, hsrc]
      have hself : follow d.names limit src = .there src (.file inode) := follow_entry hsrc nofun
      have hself' : follow (d.move src dest).names limit dest = .there dest (.file inode) :=
        follow_entry hmoved nofun
      rw [read_of_there hself, read_of_there hself']
      rfl

/-- For a source that is a regular file and a target that is another entry and no directory, a
`DoMove` is all or nothing exactly if its calls fail as the condition says. -/
theorem doMove_allOrNothing_iff (f : MoveFailures) (mode : Option Int)
    (hsrc : d.names src = some (.file inode)) (hne : src ≠ dest)
    (hdest : d.names dest ≠ some .directory) :
    AllOrNothing limit d (doMove f limit d src dest mode).2 src dest
      (doMove f limit d src dest mode).1 ↔ MoveSafe f limit d src dest mode := by
  unfold doMove MoveSafe
  cases hvalid : validMoveArg f limit d src dest mode with
  | none => exact iff_of_true (allOrNothing_same _) nofun
  | some m =>
    dsimp only
    unfold moveFile
    cases hsa : orFail f.accessSrc (stat limit d src) with
    | error errno =>
      refine iff_of_true (allOrNothing_same _) ?_
      rintro m' - ⟨⟩
    | ok entry =>
      dsimp only
      by_cases hm : m = modeThrowErr
      · rw [if_pos hm]
        cases hda : orFail f.accessDest (stat limit d dest) with
        | ok entry =>
          refine iff_of_true (allOrNothing_same _) ?_
          rintro m' ⟨⟩ - hthrow
          exact nomatch hthrow hm
        | error errno =>
          cases errno with
          | enoent =>
            dsimp only
            rw [renameFile_allOrNothing_iff hsrc hne hdest]
            constructor
            · rintro h m' ⟨⟩ - -
              exact h
            · exact fun h => h m rfl rfl fun _ => rfl
          | _ =>
            refine iff_of_true (allOrNothing_same _) ?_
            rintro m' ⟨⟩ - hthrow
            exact nomatch hthrow hm
      · rw [if_neg hm, renameFile_allOrNothing_iff hsrc hne hdest]
        constructor
        · rintro h m' ⟨⟩ - -
          exact h
        · exact fun h => h m rfl rfl fun hthrow => absurd hthrow hm

/-! ### Two files -/

/-- `a` with `hi` and `b` with `old`. -/
def twoFiles : MoveDisk where
  names name := if name = [97] then some (.file 0) else if name = [98] then some (.file 1) else none
  contents := [[104, 105], [111, 108, 100]]
  valid name inode h := by
    split at h
    · cases h
      decide
    · split at h
      · cases h
        decide
      · cases h

/-- A move to another device. -/
theorem doMove_allOrNothing_twoFiles :
    AllOrNothing 0 twoFiles (doMove { rename := some .exdev } 0 twoFiles [97] [98] none).2 [97] [98]
        (doMove { rename := some .exdev } 0 twoFiles [97] [98] none).1 ∧
      (doMove { rename := some .exdev } 0 twoFiles [97] [98] none).1 = .ok () :=
  ⟨(doMove_allOrNothing_iff { rename := some .exdev } none rfl (by decide) (by decide)).mpr
    fun _ _ _ _ => .inr (.inl ⟨rfl, rfl, rfl⟩), rfl⟩

/-- A move to another device whose copy fails: the target is gone. One whose target is gone when it
is to be removed: a success, with the source where it was. -/
theorem doMove_not_allOrNothing :
    ¬ AllOrNothing 0 twoFiles
        (doMove { rename := some .exdev, copy := some ⟨.eio, none⟩ } 0 twoFiles [97] [98] none).2
        [97] [98]
        (doMove { rename := some .exdev, copy := some ⟨.eio, none⟩ } 0 twoFiles [97] [98] none).1 ∧
      (doMove { rename := some .exdev, remove := some .enoent } 0 twoFiles [97] [98] none).1 =
          .ok () ∧
        ¬ AllOrNothing 0 twoFiles
          (doMove { rename := some .exdev, remove := some .enoent } 0 twoFiles [97] [98] none).2
          [97] [98] (.ok ()) := by
  refine ⟨?_, rfl, ?_⟩
  · rintro ⟨-, hdest, -, -⟩
    cases hdest
  · rintro ⟨hsrc, -⟩
    cases hsrc

end FileApi.ModFs.Move
