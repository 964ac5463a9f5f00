import FileApi.ModFs.CopyFile

/-!
# What `copyFile` does to its source

Where one of the files is given by a descriptor, nothing compares the two. The target is emptied
first, and with it the source if it is the same file.
-/

namespace FileApi.ModFs.CopyFile

open Compress

variable {t t' : InodeTable} {i j : Nat} {bytes : List UInt8} {path : PathName} {src dest : FileInfo}
  {ends : CopyFileEnds}

/-! ## Files -/

namespace InodeTable

theorem lookup_lt (h : t.lookup path = some i) : i < t.data.length := by
  unfold lookup at h
  exact of_decide_eq_true (Option.filter_eq_some_iff.mp h).2

theorem content_set_self (h : j < t.data.length) : (t.set j bytes).content j = bytes := by
  unfold set content
  rw [List.getElem?_set_self h, Option.getD_some]

theorem content_set_of_ne (h : i ≠ j) : (t.set j bytes).content i = t.content i := by
  unfold set content
  rw [List.getElem?_set_ne h.symm]

theorem length_set : (t.set j bytes).data.length = t.data.length := List.length_set

theorem content_create_self : (t.create path bytes).content t.data.length = bytes := by
  unfold create content
  rw [List.getElem?_concat_length, Option.getD_some]

theorem content_create_of_lt (h : i < t.data.length) :
    (t.create path bytes).content i = t.content i := by
  unfold create content
  rw [List.getElem?_append_left h]

theorem lookup_create : (t.create path bytes).lookup path = some t.data.length := by
  unfold lookup create
  dsimp only
  rw [Function.update_self, Option.filter_some, List.length_append]
  exact if_pos (decide_eq_true (Nat.lt_succ_self _))

/-- The file that an operand is. -/
def inodeOf (t : InodeTable) : FileInfo → Option Nat
  | .path path => t.lookup path
  | .fd file => if file.inode < t.data.length then some file.inode else none

theorem inodeOf_fd {file : OpenFile} :
    t.inodeOf (.fd file) = some i ↔ file.inode < t.data.length ∧ file.inode = i := by
  by_cases hlt : file.inode < t.data.length
  · rw [inodeOf, if_pos hlt]
    exact ⟨fun h => ⟨hlt, Option.some.inj h⟩, fun h => congrArg some h.2⟩
  · rw [inodeOf, if_neg hlt]
    exact ⟨nofun, fun h => absurd h.1 hlt⟩

theorem inodeOf_lt (h : t.inodeOf src = some i) : i < t.data.length := by
  cases src with
  | path path => exact lookup_lt h
  | fd file =>
    obtain ⟨hlt, rfl⟩ := inodeOf_fd.mp h
    exact hlt

theorem inodeOf_congr (hnames : t'.names = t.names) (hlength : t'.data.length = t.data.length) :
    t'.inodeOf src = t.inodeOf src := by
  cases src with
  | path path =>
    unfold inodeOf lookup
    rw [hnames, hlength]
  | fd file =>
    unfold inodeOf
    rw [hlength]

theorem inodeOf_set : (t.set j bytes).inodeOf src = t.inodeOf src := inodeOf_congr rfl length_set

end InodeTable

open InodeTable

/-- The source is as it was, and what is copied with success is the source. -/
structure Sound (t : InodeTable) (src dest : FileInfo) (result : Int × InodeTable) : Prop where
  source : ∀ i, t.inodeOf src = some i → result.2.content i = t.content i
  copied : result.1 = 0 → ∃ i j, t.inodeOf src = some i ∧ result.2.inodeOf dest = some j ∧
    result.2.content j = t.content i

theorem sound_of_error {e : Int} (he : e ≠ 0) : Sound t src dest (e, t) :=
  ⟨fun _ _ => rfl, fun h => absurd h he⟩

/-! ## Two paths -/

theorem isAllPath_sound (srcPath destPath : PathName) :
    Sound t (.path srcPath) (.path destPath) (isAllPath t srcPath destPath ends) := by
  unfold isAllPath filesystemCopyFile
  cases hsrc : t.lookup srcPath with
  | none => exact sound_of_error (by decide)
  | some inode =>
    have hlt := lookup_lt hsrc
    cases hdest : t.lookup destPath with
    | none =>
      cases ends.copyFile with
      | fails e => exact sound_of_error e.2
      | works =>
        refine ⟨fun i hi => ?_, fun _ => ⟨inode, _, hsrc, lookup_create, content_create_self⟩⟩
        exact content_create_of_lt (lookup_lt hi)
      | breaks e left =>
        exact ⟨fun i hi => content_create_of_lt (lookup_lt hi), fun h => absurd h e.2⟩
    | some destInode =>
      cases ends.copyFile with
      | fails e => exact sound_of_error e.2
      | works =>
        dsimp only
        split
        · exact sound_of_error (by decide)
        · next hne =>
          refine ⟨fun i hi => ?_, fun _ => ⟨inode, destInode, hsrc, ?_, ?_⟩⟩
          · obtain rfl : inode = i := Option.some.inj (hsrc.symm.trans hi)
            exact content_set_of_ne (Ne.symm hne)
          · exact inodeOf_set.trans hdest
          · exact content_set_self (lookup_lt hdest)
      | breaks e left =>
        dsimp only
        split
        · exact sound_of_error (by decide)
        · next hne =>
          refine ⟨fun i hi => ?_, fun h => absurd h e.2⟩
          obtain rfl : inode = i := Option.some.inj (hsrc.symm.trans hi)
          exact content_set_of_ne (Ne.symm hne)

/-! ## The loop of `sendfile` -/

section Loop

variable {sends : Nat → SendfileEnd} {file : OpenFile} {turn offset size : Nat}

theorem length_write : (t.write file bytes).data.length = t.data.length := length_set

theorem content_write_of_ne (h : i ≠ file.inode) : (t.write file bytes).content i = t.content i :=
  content_set_of_ne h

theorem content_write_self (hvalid : file.inode < t.data.length)
    (hpos : file.pos = (t.content file.inode).length) :
    (t.write file bytes).content file.inode = t.content file.inode ++ bytes := by
  unfold InodeTable.write
  rw [content_set_self hvalid]
  exact congrArg ByteFile.data (ByteFile.write_atEnd (f := ⟨t.content file.inode, file.pos⟩) hpos bytes)

/-- What the loop may do: the source is left alone, and it is sent when nothing remains. -/
structure SendsTo (t : InodeTable) (i j : Nat) (result : Except Int Nat × InodeTable) : Prop where
  source : result.2.content i = t.content i
  names : result.2.names = t.names
  length : result.2.data.length = t.data.length
  error : ∀ ret, result.1 = .error ret → ret ≠ 0
  sent : result.1 = .ok 0 → result.2.content j = t.content i

theorem sendFileLoop_sendsTo (hne : i ≠ file.inode) (hvalid : file.inode < t.data.length)
    (hsize : offset + size = (t.content i).length)
    (hsent : t.content file.inode = (t.content i).take offset) (hpos : file.pos = offset) :
    SendsTo t i file.inode (sendFileLoop sends i turn offset size file t) := by
  fun_induction sendFileLoop sends i turn offset size file t with
  | case1 turn offset dest t =>
    refine ⟨rfl, rfl, rfl, nofun, fun _ => ?_⟩
    rw [hsent]
    exact List.take_of_length_le (Nat.le_of_eq hsize.symm)
  | case2 turn offset size dest t hsize0 ret hret =>
    refine ⟨rfl, rfl, rfl, ?_, nofun⟩
    rintro _ ⟨⟩
    exact Int.ne_of_lt ret.2
  | case3 turn offset size dest t hsize0 most hmost bytes t' ret hlt =>
    refine ⟨content_write_of_ne hne, rfl, length_write, ?_, nofun⟩
    rintro _ ⟨⟩
    decide
  | case4 turn offset size dest t hsize0 most hmost bytes t' ret hlt hret =>
    refine ⟨content_write_of_ne hne, rfl, length_write, nofun, fun hok => ?_⟩
    exact absurd (Except.ok.inj hok) hsize0
  | case5 turn offset size dest t hsize0 most hmost bytes t' ret hlt hret ih =>
    have hsource : t'.content i = t.content i := content_write_of_ne hne
    have hle : ret ≤ size := Nat.le_of_not_lt hlt
    have hdest : dest.pos = (t.content dest.inode).length := by
      rw [hsent, hpos, List.length_take]
      omega
    have hwritten : t'.content dest.inode = (t.content i).take (offset + ret) := by
      rw [content_write_self hvalid hdest, hsent, List.take_add]
      congr 1
      exact List.prefix_iff_eq_take.mp (List.take_prefix _ _)
    have hrest := ih hne (hvalid.trans_eq length_write.symm) (by rw [hsource]; omega)
      (by rw [hsource]; exact hwritten) (by rw [← hpos])
    refine ⟨hrest.source.trans hsource, hrest.names, hrest.length.trans length_write, hrest.error, ?_⟩
    intro hok
    rw [hrest.sent hok, hsource]

theorem sendFileLoop_empty (hvalid : i < t.data.length) (hempty : t.content i = []) :
    (sendFileLoop sends i turn offset size ⟨i, 0⟩ t).2.content i = [] := by
  have hwritten (most : Nat) : (t.write ⟨i, 0⟩
      (((t.content i).drop offset).take (min most (min maxSize size)))).content i = [] := by
    have hpos : (⟨i, 0⟩ : OpenFile).pos = (t.content i).length := by rw [hempty]; rfl
    rw [content_write_self hvalid hpos, hempty, List.drop_nil,
      List.take_nil]
    rfl
  fun_cases sendFileLoop sends i turn offset size ⟨i, 0⟩ t with
  | case1 => exact hempty
  | case2 => exact hempty
  | case3 hsize0 most => exact hwritten most
  | case4 hsize0 most => exact hwritten most
  | case5 hsize0 most hmost bytes t' ret hlt hret =>
    have hnil : bytes = [] := by
      show ((t.content i).drop offset).take _ = []
      rw [hempty, List.drop_nil, List.take_nil]
    exact absurd (congrArg List.length hnil) hret

end Loop

/-! ## The operands -/

/-- The source can be opened and looked at. -/
def Opens (ends : CopyFileEnds) (src : FileInfo) : Prop :=
  ends.fstat = none ∧
    match src with
    | .path _ => ends.openSrc = none ∧ ends.guardSrc = true
    | .fd _ => True

/-- The target can be emptied. -/
def Truncates (ends : CopyFileEnds) : FileInfo → Prop
  | .path _ => ends.openDest = none
  | .fd _ => ends.ftruncate = none

theorem fstatSize_cases (ends : CopyFileEnds) (t : InodeTable) (i : Nat) :
    (∃ e ≠ 0, fstatSize ends t i = .error e ∧ ¬ (ends.fstat = none ∧ i < t.data.length)) ∨
    ends.fstat = none ∧ i < t.data.length ∧ fstatSize ends t i = .ok (t.content i).length := by
  unfold fstatSize
  cases ends.fstat with
  | some e => exact .inl ⟨e, e.2, rfl, fun h => nomatch h.1⟩
  | none =>
    by_cases hlt : i < t.data.length
    · exact .inr ⟨rfl, hlt, if_neg (Nat.not_le.mpr hlt)⟩
    · exact .inl ⟨ebadfCode, by decide, if_pos (Nat.le_of_not_lt hlt), fun h => hlt h.2⟩

theorem openSrc_cases (ends : CopyFileEnds) (t : InodeTable) (src dest : FileInfo) :
    (∃ e ≠ 0, openFile ends t src dest = (e, t) ∧
      ¬ (Opens ends src ∧ ∃ i, t.inodeOf src = some i)) ∨
    ∃ i, t.inodeOf src = some i ∧ Opens ends src ∧ openSrc ends t src = .ok i ∧
      fstatSize ends t i = .ok (t.content i).length := by
  unfold openFile Opens
  cases src with
  | fd file =>
    rcases fstatSize_cases ends t file.inode with ⟨e, he, hfstat, hnot⟩ | ⟨hends, hlt, hfstat⟩
    · refine .inl ⟨e, he, ?_, ?_⟩
      · rw [openSrc]
        dsimp only
        rw [hfstat]
      · rintro ⟨⟨hends, -⟩, i, hi⟩
        exact hnot ⟨hends, (inodeOf_fd.mp hi).1⟩
    · exact .inr ⟨file.inode, inodeOf_fd.mpr ⟨hlt, rfl⟩, ⟨hends, trivial⟩, rfl, hfstat⟩
  | path path =>
    unfold openSrc InodeTable.inodeOf
    dsimp only
    cases ends.openSrc with
    | some ret => exact .inl ⟨ret, ret.2, rfl, fun h => nomatch h.1.2.1⟩
    | none =>
      cases hlookup : t.lookup path with
      | none => exact .inl ⟨-enoentCode, by decide, rfl, fun ⟨_, _, h⟩ => nomatch h⟩
      | some i =>
        cases hguard : ends.guardSrc with
        | false => exact .inl ⟨enomemCode, by decide, rfl, fun h => nomatch h.1.2.2⟩
        | true =>
          rcases fstatSize_cases ends t i with ⟨e, he, hfstat, hnot⟩ | ⟨hends, hlt, hfstat⟩
          · refine .inl ⟨e, he, ?_, fun h => hnot ⟨h.1.1, lookup_lt hlookup⟩⟩
            dsimp only
            rw [if_pos rfl]
            dsimp only
            rw [hfstat]
          · exact .inr ⟨i, rfl, ⟨hends, rfl, rfl⟩, rfl, hfstat⟩

/-- What is done to a target that is emptied. -/
structure Truncated (t : InodeTable) (dest : FileInfo) (j : Nat) (t' : InodeTable) : Prop where
  valid : j < t'.data.length
  leads : t'.inodeOf dest = some j
  empty : t'.content j = []
  others : ∀ i < t.data.length, i ≠ j → t'.content i = t.content i
  same : ∀ i < t.data.length, i = j ↔ t.inodeOf dest = some i

theorem truncated_set (h : t.inodeOf dest = some j) : Truncated t dest j (t.set j []) where
  valid := by
    rw [length_set]
    exact inodeOf_lt h
  leads := inodeOf_set.trans h
  empty := content_set_self (inodeOf_lt h)
  others i _ hne := content_set_of_ne hne
  same i _ := by
    rw [h, Option.some_inj]
    exact eq_comm

theorem truncated_create (h : t.lookup path = none) :
    Truncated t (.path path) t.data.length (t.create path []) where
  valid := by
    rw [InodeTable.create, List.length_append]
    exact Nat.lt_succ_self _
  leads := lookup_create
  empty := content_create_self
  others i hlt _ := content_create_of_lt hlt
  same i hlt := iff_of_false (Nat.ne_of_lt hlt) (by rw [InodeTable.inodeOf, h]; nofun)

theorem openDest_cases (ends : CopyFileEnds) (t : InodeTable) (dest : FileInfo) :
    (∃ e ≠ 0, openDest ends t dest = (.error e, t) ∧
      ¬ (Truncates ends dest ∧ ∃ i, t.inodeOf dest = some i)) ∨
    Truncates ends dest ∧ ∃ j t', Truncated t dest j t' ∧
      ((∃ e ≠ 0, openDest ends t dest = (.error e, t')) ∨
        openDest ends t dest = (.ok ⟨j, 0⟩, t')) := by
  cases dest with
  | path path =>
    unfold openDest Truncates
    cases ends.openDest with
    | some ret => exact .inl ⟨ret, ret.2, rfl, fun h => nomatch h.1⟩
    | none =>
      refine .inr ⟨rfl, (openTruncated t path).1, (openTruncated t path).2, ?_, ?_⟩
      · unfold openTruncated
        cases hlookup : t.lookup path with
        | none => exact truncated_create hlookup
        | some i => exact truncated_set hlookup
      · cases ends.guardDest with
        | false => exact .inl ⟨enomemCode, by decide, rfl⟩
        | true => exact .inr rfl
  | fd file =>
    unfold openDest Truncates
    cases ends.ftruncate with
    | some ret => exact .inl ⟨ret, ret.2, rfl, fun h => nomatch h.1⟩
    | none =>
      by_cases hlt : file.inode < t.data.length
      · refine .inr ⟨rfl, file.inode, t.set file.inode [],
          truncated_set (inodeOf_fd.mpr ⟨hlt, rfl⟩), ?_⟩
        dsimp only
        rw [if_neg (Nat.not_le.mpr hlt)]
        cases ends.lseek with
        | some e => exact .inl ⟨e, e.2, rfl⟩
        | none => exact .inr rfl
      · refine .inl ⟨-ebadfCode, by decide, if_pos (Nat.le_of_not_lt hlt), ?_⟩
        rintro ⟨-, i, hi⟩
        exact hlt (inodeOf_fd.mp hi).1

/-! ## The whole call -/

/-- The source is emptied: it is not empty, and the target is the same file. -/
def Empties (t : InodeTable) (ends : CopyFileEnds) (src dest : FileInfo) : Prop :=
  Opens ends src ∧ Truncates ends dest ∧
    ∃ i, t.inodeOf src = some i ∧ t.inodeOf dest = some i ∧ t.content i ≠ []

theorem sendFileCore_sound (hsrc : t.inodeOf src = some i) (htruncated : Truncated t dest j t')
    (hne : i ≠ j) :
    Sound t src dest (sendFileCore ends i ⟨j, 0⟩ (t.content i).length t') := by
  have hsource : t'.content i = t.content i := htruncated.others i (inodeOf_lt hsrc) hne
  have hsends : SendsTo t' i j
      (sendFileLoop ends.sends i 0 0 (t.content i).length ⟨j, 0⟩ t') := by
    refine @sendFileLoop_sendsTo t' i ends.sends ⟨j, 0⟩ 0 0 _ hne htruncated.valid ?_
      htruncated.empty rfl
    rw [hsource, Nat.zero_add]
  have hkept : ∀ i', t.inodeOf src = some i' → i' = i := fun i' hi' =>
    Option.some.inj (hi'.symm.trans hsrc)
  unfold sendFileCore
  cases ends.sendRequest with
  | false =>
    refine ⟨fun i' hi' => ?_, fun h => nomatch h⟩
    rw [hkept i' hi']
    exact hsource
  | true =>
    rw [if_neg (by decide)]
    generalize sendFileLoop ends.sends i 0 0 (t.content i).length ⟨j, 0⟩ t' = result at hsends
    obtain ⟨ret | size, t''⟩ := result
    · refine ⟨fun i' hi' => ?_, fun h => absurd h (hsends.error ret rfl)⟩
      rw [hkept i' hi']
      exact hsends.source.trans hsource
    · refine ⟨fun i' hi' => ?_, fun h => ⟨i, j, hsrc, ?_, ?_⟩⟩
      · rw [hkept i' hi']
        exact hsends.source.trans hsource
      · exact (inodeOf_congr hsends.names hsends.length).trans htruncated.leads
      · dsimp only at h
        split at h
        · cases h
        · next hsize =>
          obtain rfl : size = 0 := not_not.mp hsize
          exact (hsends.sent rfl).trans hsource

theorem sendFileCore_empty {size : Nat} (hvalid : i < t.data.length) (hempty : t.content i = []) :
    (sendFileCore ends i ⟨i, 0⟩ size t).2.content i = [] := by
  have hloop := @sendFileLoop_empty t i ends.sends 0 0 size hvalid hempty
  unfold sendFileCore
  split
  · exact hempty
  · generalize sendFileLoop ends.sends i 0 0 size ⟨i, 0⟩ t = result at hloop
    obtain ⟨ret | size, t'⟩ := result
    · exact hloop
    · exact hloop

theorem Truncated.source (h : Truncated t dest j t') (hsrc : t.inodeOf src = some i)
    (hkeep : i ≠ j ∨ t.content i = []) : ∀ i', t.inodeOf src = some i' → t'.content i' = t.content i' := by
  intro i' hi'
  obtain rfl : i = i' := Option.some.inj (hsrc.symm.trans hi')
  by_cases heq : i = j
  · rw [hkeep.resolve_left (not_not.mpr heq), heq, h.empty]
  · exact h.others i (inodeOf_lt hsrc) heq

theorem openFile_sound_iff :
    Sound t src dest (openFile ends t src dest) ↔ ¬ Empties t ends src dest := by
  rcases openSrc_cases ends t src dest with ⟨e, he, heq, hnot⟩ | ⟨i, hi, hopens, hopen, hfstat⟩
  · rw [heq]
    exact iff_of_true (sound_of_error he) fun h => hnot ⟨h.1, _, h.2.2.choose_spec.1⟩
  rw [openFile, hopen]
  dsimp only
  rw [hfstat]
  dsimp only
  rcases openDest_cases ends t dest with
    ⟨e, he, heq, hnot⟩ | ⟨htruncates, j, t', htruncated, hdest⟩
  · rw [heq]
    exact iff_of_true (sound_of_error he) fun h => hnot ⟨h.2.1, _, h.2.2.choose_spec.2.1⟩
  have hempties : Empties t ends src dest ↔ i = j ∧ t.content i ≠ [] := by
    rw [htruncated.same i (inodeOf_lt hi)]
    constructor
    · rintro ⟨-, -, i', hi', hsame, hcontent⟩
      obtain rfl : i = i' := Option.some.inj (hi.symm.trans hi')
      exact ⟨hsame, hcontent⟩
    · rintro ⟨hsame, hcontent⟩
      exact ⟨hopens, htruncates, i, hi, hsame, hcontent⟩
  have hkeep : ¬ Empties t ends src dest → i ≠ j ∨ t.content i = [] := by
    rw [hempties]
    tauto
  have hdamaged {result : Int × InodeTable} (hresult : result.2.content i = [])
      (hsound : Sound t src dest result) : ¬ Empties t ends src dest := by
    rw [hempties]
    rintro ⟨-, hcontent⟩
    exact hcontent ((hsound.source i hi).symm.trans hresult)
  rcases hdest with ⟨e, he, heq⟩ | heq
  · rw [heq]
    constructor
    · intro hsound hempt
      obtain ⟨rfl, -⟩ := hempties.mp hempt
      exact hdamaged htruncated.empty hsound hempt
    · intro hnot
      exact ⟨htruncated.source hi (hkeep hnot), fun h => absurd h he⟩
  · rw [heq]
    dsimp only
    by_cases hcontent : t.content i = []
    · rw [if_pos (List.length_eq_zero_iff.mpr hcontent)]
      refine iff_of_true ⟨htruncated.source hi (.inr hcontent), fun _ => ?_⟩
        fun h => (hempties.mp h).2 hcontent
      exact ⟨i, j, hi, htruncated.leads, htruncated.empty.trans hcontent.symm⟩
    · rw [if_neg fun hzero => hcontent (List.length_eq_zero_iff.mp hzero)]
      by_cases hsame : i = j
      · subst hsame
        refine iff_of_false (fun hsound => ?_) (not_not.mpr (hempties.mpr ⟨rfl, hcontent⟩))
        exact hdamaged (sendFileCore_empty htruncated.valid htruncated.empty) hsound
          (hempties.mpr ⟨rfl, hcontent⟩)
      · exact iff_of_true (sendFileCore_sound hi htruncated hsame) fun h => hsame (hempties.mp h).1

/-- Two paths, which are compared. -/
def BothPaths : FileInfo → FileInfo → Prop
  | .path _, .path _ => True
  | _, _ => False

/-- The copy leaves its source alone, and is the source when it succeeds, exactly when it does not
empty the source by a descriptor. -/
theorem doCopyFile_sound_iff (t : InodeTable) (ends : CopyFileEnds) (src dest : FileInfo)
    (mode : Option Int32) :
    Sound t src dest (doCopyFile ends t src dest mode) ↔
      mode.getD 0 ≠ 0 ∨ BothPaths src dest ∨ ¬ Empties t ends src dest := by
  unfold doCopyFile
  by_cases hmode : mode.getD 0 ≠ 0
  · rw [if_pos hmode]
    exact iff_of_true (sound_of_error (by decide)) (.inl hmode)
  · rw [if_neg hmode, or_iff_right hmode]
    cases src with
    | path srcPath =>
      cases dest with
      | path destPath => exact iff_of_true (isAllPath_sound srcPath destPath) (.inl trivial)
      | fd file => exact openFile_sound_iff.trans (or_iff_right id).symm
    | fd srcFile => exact openFile_sound_iff.trans (or_iff_right id).symm

/-- A file is copied by its path to a descriptor that is open on it. -/
theorem doCopyFile_not_sound :
    ¬ ∀ (t : InodeTable) (ends : CopyFileEnds) (src dest : FileInfo) (mode : Option Int32),
      Sound t src dest (doCopyFile ends t src dest mode) := by
  intro h
  have hsound := h ⟨fun _ => some 0, [[1, 2, 3]]⟩ {} (.path [slash, 102]) (.fd ⟨0, 2⟩) none
  unfold doCopyFile at hsound
  rw [if_neg (by decide)] at hsound
  exact openFile_sound_iff.mp hsound ⟨⟨rfl, rfl, rfl⟩, rfl, 0, by decide, by decide, by decide⟩

end FileApi.ModFs.CopyFile
