import FileApi.ModFs.ListFile
import FileApi.Misc.Except
import Mathlib.Data.Bool.Count
import Mathlib.Data.List.Nodup

/-!
# What a recursive listing gives

Without a limit, all the regular files that satisfy the filter. A limit counts whatever satisfies
the filter and is no directory, a directory's own entries in front of those of its directories, and
the walk then drops what is no regular file.
-/

namespace FileApi.ModFs.ListFile

open Compress

/-! ## Limits -/

section Limits

variable {α : Type}

/-- What a limit leaves of a list. -/
def cut (left : Option Nat) (l : List α) : List α :=
  match left with
  | none => l
  | some k => l.take k

/-- What a limit takes off a list. -/
def cutOff (left : Option Nat) (l : List α) : List α :=
  match left with
  | none => []
  | some k => l.drop k

/-- What is left of a limit behind so many. -/
def leftAfter (left : Option Nat) (used : Nat) : Option Nat := left.map (· - used)

@[simp] theorem cut_nil (left : Option Nat) : cut left ([] : List α) = [] := by
  cases left <;> simp [cut]

@[simp] theorem cut_zero (l : List α) : cut (some 0) l = [] := rfl

@[simp] theorem leftAfter_zero (left : Option Nat) : leftAfter left 0 = left := by
  cases left <;> rfl

theorem leftAfter_add (left : Option Nat) (a b : Nat) :
    leftAfter (leftAfter left a) b = leftAfter left (a + b) := by
  cases left with
  | none => rfl
  | some k => exact congrArg some (Nat.sub_sub k a b)

theorem cut_append (left : Option Nat) (a b : List α) :
    cut left (a ++ b) = cut left a ++ cut (leftAfter left a.length) b := by
  cases left with
  | none => rfl
  | some k => exact List.take_append

theorem cut_cons {left : Option Nat} (h : left ≠ some 0) (x : α) (l : List α) :
    cut left (x :: l) = x :: cut (leftAfter left 1) l := by
  match left, h with
  | none, _ => rfl
  | some (k + 1), _ => rfl

theorem count_take_eq_min_iff (marks : List Bool) {k n : Nat} (h : k ≤ n) :
    (marks.take k).count true = min n (marks.count true) ↔
      (k = n ∧ false ∉ marks.take k) ∨ (true ∉ marks.drop k ∧ marks.count true ≤ n) := by
  have hsplit : (marks.take k).count true + (marks.drop k).count true = marks.count true := by
    rw [← List.count_append, List.take_append_drop]
  have hlength : (marks.take k).count true + (marks.take k).count false = (marks.take k).length := by
    rw [Nat.add_comm]
    exact List.count_false_add_count_true _
  have hk : (marks.take k).length = min k marks.length := List.length_take
  have hle : marks.count true ≤ marks.length := List.count_le_length
  rw [← List.count_eq_zero, ← List.count_eq_zero]
  constructor
  · intro heq
    by_cases hn : marks.count true ≤ n
    · exact .inr ⟨by omega, hn⟩
    · exact .inl ⟨by omega, by omega⟩
  · rintro (⟨rfl, hfalse⟩ | ⟨htrue, hn⟩)
    · omega
    · omega

end Limits

/-! ## The filter and the limit -/

section Walk

variable (args : OptionArgs)

/-- What the limit leaves at `countNum`. -/
def left (countNum : Nat) : Option Nat :=
  if args.listNum = 0 then none else some (args.listNum.toInt.toNat - countNum)

/-- What the limit counts an entry as: whether it is a regular file, if it satisfies the filter and
is no directory. -/
def direntMark (path : PathName) (d : Dirent × Option FileInfo) : Option Bool :=
  if isDots d.1.name ∨ d.1.type = .directory then none
  else if args.result path d.1 d.2 then some (d.1.type = .regular)
  else none

def ownMarks (path : PathName) (entries : Listing) : List Bool :=
  entries.dirents.filterMap (direntMark args path)

def innerMarks : Listing → PathName → List Bool
  | .nil, _ => []
  | .file _ _ rest, path => innerMarks rest path
  | .other _ _ rest, path => innerMarks rest path
  | .directory name _ entries rest, path =>
      (if isDots name then []
        else ownMarks args (path ++ slash :: name) entries ++
          innerMarks entries (path ++ slash :: name)) ++
        innerMarks rest path

/-- What the limit counts, in the order it does. -/
def counted (entries : Listing) (path : PathName) : List Bool :=
  ownMarks args path entries ++ innerMarks args entries path

/-- The regular files that satisfy the filter, in the order of the walk. -/
def allFiles : Listing → PathName → List PathName
  | .nil, _ => []
  | .file name info rest, path =>
      if isDots name = false ∧ args.result path ⟨name, .regular⟩ info then
        (path ++ slash :: name) :: allFiles rest path
      else allFiles rest path
  | .other _ _ rest, path => allFiles rest path
  | .directory name _ entries rest, path =>
      (if isDots name then [] else allFiles entries (path ++ slash :: name)) ++ allFiles rest path

/-- The entries that `scandir` lets through, by what the limit leaves: only matching files, and all
the directories as long as something is left. -/
inductive Matched (path : PathName) (remaining : Option Nat) : Listing → List Bool → Prop
  | nil : Matched path remaining .nil []
  | file (name : PathName) (info : Option FileInfo) (rest : Listing) (matched : Bool)
      (marks : List Bool)
      (hfile : matched = true →
        isDots name = false ∧ args.result path ⟨name, .regular⟩ info = true)
      (hrest : Matched path remaining rest marks) :
      Matched path remaining (.file name info rest) (matched :: marks)
  | other (name : PathName) (info : Option FileInfo) (rest : Listing) (matched : Bool)
      (marks : List Bool) (hrest : Matched path remaining rest marks) :
      Matched path remaining (.other name info rest) (matched :: marks)
  | directory (name : PathName) (info : Option FileInfo) (entries rest : Listing) (matched : Bool)
      (marks : List Bool) (hdots : matched = true → isDots name = false)
      (hopen : isDots name = false → remaining ≠ some 0 → matched = true)
      (hrest : Matched path remaining rest marks) :
      Matched path remaining (.directory name info entries rest) (matched :: marks)

/-- How many regular files are let through. -/
def matchedFiles : Listing → List Bool → Nat
  | .nil, _ => 0
  | .file _ _ rest, marks => matchedFiles rest marks.tail + if marks.headD false then 1 else 0
  | .other _ _ rest, marks => matchedFiles rest marks.tail
  | .directory _ _ _ rest, marks => matchedFiles rest marks.tail

variable {args} {fails : PathName → Option Errno} {path : PathName} {remaining : Option Nat}
  {l : Listing} {marks : List Bool} {found : List PathName} {countNum countNum' : Nat}

theorem ne_zero_of_leftAfter {used : Nat} (h : leftAfter remaining used ≠ some 0) :
    remaining ≠ some 0 := by
  rintro rfl
  exact h (congrArg some (Nat.zero_sub used))

theorem Matched.mono (h : Matched args path remaining l marks) (used : Nat) :
    Matched args path (leftAfter remaining used) l marks := by
  induction h with
  | nil => exact .nil
  | file name info rest matched marks hfile _ ih => exact .file _ _ _ _ _ hfile ih
  | other name info rest matched marks _ ih => exact .other _ _ _ _ _ ih
  | directory name info entries rest matched marks hdots hopen _ ih =>
    exact .directory _ _ _ _ _ _ hdots (fun hname h => hopen hname (ne_zero_of_leftAfter h)) ih

theorem open_iff_left :
    (countNum : Int) < args.listNum.toInt ∨ args.listNum = 0 ↔ left args countNum ≠ some 0 := by
  unfold left
  split
  · next h => exact iff_of_true (.inr h) nofun
  · next h =>
    rw [or_iff_left h, ne_eq, Option.some_inj]
    omega

theorem left_succ : left args (countNum + 1) = leftAfter (left args countNum) 1 := by
  unfold left
  split
  · rfl
  · exact congrArg some (Nat.sub_sub _ _ _).symm

theorem filterFunc_entry (args : OptionArgs) (path : PathName) (countNum : Nat)
    {filename : Dirent} (info : Option FileInfo) (htype : filename.type ≠ .directory) :
    (left args countNum ≠ some 0 ∧ isDots filename.name = false ∧
        args.result path filename info = true ∧
        filterFunc args path countNum filename info = (true, countNum + 1)) ∨
      ((left args countNum = some 0 ∨ isDots filename.name = true ∨
          args.result path filename info = false) ∧
        filterFunc args path countNum filename info = (false, countNum)) := by
  unfold filterFunc
  cases hdots : isDots filename.name with
  | true => exact .inr ⟨.inr (.inl rfl), if_pos rfl⟩
  | false =>
    rw [if_neg Bool.false_ne_true]
    by_cases hleft : left args countNum = some 0
    · exact .inr ⟨.inl hleft, if_neg fun h => open_iff_left.mp h hleft⟩
    · rw [if_pos (open_iff_left.mpr hleft), if_neg fun h => htype h.1]
      cases hresult : args.result path filename info with
      | true => exact .inl ⟨hleft, rfl, rfl, if_pos rfl⟩
      | false => exact .inr ⟨.inr (.inr rfl), if_neg Bool.false_ne_true⟩

theorem filterFunc_directory (hrec : args.recursion = true) (name : PathName)
    (info : Option FileInfo) :
    filterFunc args path countNum ⟨name, .directory⟩ info =
      (decide (isDots name = false ∧ left args countNum ≠ some 0), countNum) := by
  unfold filterFunc
  cases hdots : isDots name with
  | true => simp
  | false =>
    simp only [open_iff_left, hrec]
    by_cases hleft : left args countNum = some 0 <;> simp [hleft]

theorem direntMark_directory (name : PathName) (info : Option FileInfo) :
    direntMark args path (⟨name, .directory⟩, info) = none := if_pos (.inr rfl)

theorem filterAll_cons {filename : Dirent} {info : Option FileInfo}
    {rest : List (Dirent × Option FileInfo)} {matched : Bool}
    (h : filterFunc args path countNum filename info = (matched, countNum')) :
    filterAll args path ((filename, info) :: rest) countNum =
      (matched :: (filterAll args path rest countNum').1, (filterAll args path rest countNum').2) := by
  rw [filterAll, h]

/-- What one `scandir` lets through, and what the limit leaves behind it. -/
structure Scanned (args : OptionArgs) (path : PathName) (l : Listing) (countNum : Nat)
    (result : List Bool × Nat) : Prop where
  matched : Matched args path (left args result.2) l result.1
  files : matchedFiles l result.1 = (cut (left args countNum) (ownMarks args path l)).count true
  used : left args result.2 = leftAfter (left args countNum) (ownMarks args path l).length

theorem ownMarks_cons (path : PathName) (d : Dirent × Option FileInfo)
    (entries : List (Dirent × Option FileInfo)) :
    (d :: entries).filterMap (direntMark args path) =
      (direntMark args path d).toList ++ entries.filterMap (direntMark args path) := by
  cases h : direntMark args path d with
  | none => exact List.filterMap_cons_none h
  | some mark => exact List.filterMap_cons_some h

theorem scanned_entry (args : OptionArgs) (path : PathName) (countNum : Nat) (filename : Dirent)
    (info : Option FileInfo) (rest : Listing) (htype : filename.type ≠ .directory) :
    ∃ matched n, filterFunc args path countNum filename info = (matched, n) ∧
      (matched = true → isDots filename.name = false ∧ args.result path filename info = true) ∧
      (cut (left args countNum)
          ((direntMark args path (filename, info)).toList ++ ownMarks args path rest)).count true =
        (cut (left args n) (ownMarks args path rest)).count true +
          (if matched = true ∧ filename.type = .regular then 1 else 0) ∧
      leftAfter (left args n) (ownMarks args path rest).length =
        leftAfter (left args countNum)
          ((direntMark args path (filename, info)).toList ++ ownMarks args path rest).length := by
  rcases filterFunc_entry args path countNum info htype with ⟨hleft, hdots, hresult, hfilter⟩ | ⟨hno, hfilter⟩
  · have hmark : direntMark args path (filename, info) =
        some (decide (filename.type = .regular)) := by
      simp [direntMark, hdots, htype, hresult]
    refine ⟨true, countNum + 1, hfilter, fun _ => ⟨hdots, hresult⟩, ?_, ?_⟩
    · rw [hmark, Option.toList_some, List.singleton_append, cut_cons hleft, left_succ,
        List.count_cons]
      simp
    · rw [hmark, left_succ, leftAfter_add, Option.toList_some, List.singleton_append,
        List.length_cons, Nat.add_comm 1]
  · have hmark : left args countNum = some 0 ∨ direntMark args path (filename, info) = none := by
      rcases hno with hleft | hdots | hresult
      · exact .inl hleft
      · exact .inr (by simp [direntMark, hdots])
      · exact .inr (by simp [direntMark, hresult])
    refine ⟨false, countNum, hfilter, nofun, ?_, ?_⟩
    · rcases hmark with hleft | hmark
      · rw [hleft]
        simp
      · rw [hmark]
        simp
    · rcases hmark with hleft | hmark
      · rw [hleft]
        simp [leftAfter]
      · rw [hmark]
        rfl

theorem filterAll_scanned (path : PathName) (hrec : args.recursion = true) (l : Listing)
    (countNum : Nat) :
    Scanned args path l countNum (filterAll args path l.dirents countNum) := by
  induction l generalizing countNum with
  | nil => exact ⟨.nil, by simp [Listing.dirents, matchedFiles, ownMarks],
      (leftAfter_zero _).symm⟩
  | file name info rest ih =>
    obtain ⟨matched, n, hfilter, hfile, hcount, hused⟩ :=
      scanned_entry args path countNum ⟨name, .regular⟩ info rest nofun
    obtain ⟨hmatched, hfiles, hleft⟩ := ih n
    rw [Listing.dirents, filterAll_cons hfilter]
    refine ⟨.file _ _ _ _ _ hfile hmatched, ?_, ?_⟩
    · rw [ownMarks, Listing.dirents, ownMarks_cons]
      refine Eq.trans ?_ hcount.symm
      rw [matchedFiles]
      simp [hfiles]
    · rw [ownMarks, Listing.dirents, ownMarks_cons]
      exact hleft.trans hused
  | other name info rest ih =>
    obtain ⟨matched, n, hfilter, -, hcount, hused⟩ :=
      scanned_entry args path countNum ⟨name, .other⟩ info rest nofun
    obtain ⟨hmatched, hfiles, hleft⟩ := ih n
    rw [Listing.dirents, filterAll_cons hfilter]
    refine ⟨.other _ _ _ _ _ hmatched, ?_, ?_⟩
    · rw [ownMarks, Listing.dirents, ownMarks_cons]
      refine Eq.trans ?_ hcount.symm
      rw [matchedFiles]
      simp [hfiles]
    · rw [ownMarks, Listing.dirents, ownMarks_cons]
      exact hleft.trans hused
  | directory name info entries rest _ ih =>
    obtain ⟨hmatched, hfiles, hleft⟩ := ih countNum
    rw [Listing.dirents, filterAll_cons (filterFunc_directory hrec name info)]
    have hown : ownMarks args path (.directory name info entries rest) =
        ownMarks args path rest := by
      rw [ownMarks, Listing.dirents, ownMarks_cons, direntMark_directory]
      rfl
    refine ⟨.directory _ _ _ _ _ _ (fun h => (of_decide_eq_true h).1) (fun hname h => ?_) hmatched,
      ?_, ?_⟩
    · rw [hleft] at h
      exact decide_eq_true ⟨hname, ne_zero_of_leftAfter h⟩
    · rw [hown]
      exact hfiles
    · rw [hown]
      exact hleft

/-! ## The walk -/

variable {entries : Listing}

theorem scandir_ok {result : List Bool × Nat}
    (h : scandir args fails path entries countNum = .ok result) :
    result = filterAll args path entries.dirents countNum := by
  unfold scandir at h
  cases hf : fails path with
  | none =>
    rw [hf] at h
    exact (Except.ok.inj h).symm
  | some errno =>
    rw [hf] at h
    cases h

/-- What a walk over entries finds, when the limit left so much. -/
structure Walked (args : OptionArgs) (path : PathName) (l : Listing) (countNum files : Nat)
    (marks : List Bool) (result : List PathName × Nat) : Prop where
  found : result.1.Sublist (allFiles args l path)
  length : result.1.length = files + (cut (left args countNum) marks).count true
  used : left args result.2 = leftAfter (left args countNum) marks.length

theorem recursiveLoop_walked (hrec : args.recursion = true) {result : List PathName × Nat}
    (hmatched : Matched args path (left args countNum) l marks)
    (h : recursiveLoop args fails l path marks countNum = .ok result) :
    Walked args path l countNum (matchedFiles l marks) (innerMarks args l path) result := by
  induction l generalizing path marks countNum result with
  | nil =>
    cases h
    exact ⟨List.nil_sublist _, by simp [matchedFiles, innerMarks], (leftAfter_zero _).symm⟩
  | file name info rest ih =>
    cases hmatched with
    | file _ _ _ matched marks hfile hrest =>
      obtain ⟨⟨dirents, n⟩, hloop, hresult⟩ := bind_eq_ok.mp h
      obtain ⟨hfound, hlength, hused⟩ := ih hrest hloop
      cases matched with
      | true =>
        cases hresult
        refine ⟨?_, ?_, hused⟩
        · rw [allFiles, if_pos (hfile rfl)]
          exact hfound.cons_cons _
        · have hlength : dirents.length = _ := hlength
          show ((path ++ slash :: name) :: dirents).length = _
          rw [List.length_cons, hlength, matchedFiles, innerMarks]
          simp only [List.tail_cons, List.headD_cons, if_true]
          omega
      | false =>
        cases hresult
        refine ⟨?_, hlength, hused⟩
        show dirents.Sublist _
        rw [allFiles]
        split
        · exact hfound.cons _
        · exact hfound
  | other name info rest ih =>
    cases hmatched with
    | other _ _ _ matched marks hrest =>
      obtain ⟨hfound, hlength, hused⟩ := ih hrest h
      exact ⟨hfound, hlength, hused⟩
  | directory name info entries rest ihe ih =>
    cases hmatched with
    | directory _ _ _ _ matched marks hdots hopen hrest =>
      cases matched with
      | true =>
        obtain ⟨⟨inner, n₁⟩, hscan, h⟩ := bind_eq_ok.mp h
        obtain ⟨⟨below, n₂⟩, hbelow, h⟩ := bind_eq_ok.mp h
        obtain ⟨⟨dirents, n₃⟩, hloop, hresult⟩ := bind_eq_ok.mp h
        cases hresult
        have hscanned := filterAll_scanned (path ++ slash :: name) hrec entries countNum
        rw [← scandir_ok hscan] at hscanned
        obtain ⟨hfound, hlength, hused⟩ := ihe hscanned.matched hbelow
        have hrest₂ : Matched args path (left args n₂) rest marks := by
          rw [hused, hscanned.used]
          exact (hrest.mono _).mono _
        obtain ⟨hfound', hlength', hused'⟩ := ih hrest₂ hloop
        simp only [hused, hscanned.used, leftAfter_add] at hlength' hused'
        have hname := hdots rfl
        refine ⟨?_, ?_, ?_⟩
        · rw [allFiles, if_neg (by simp [hname])]
          exact hfound.append hfound'
        · rw [List.length_append, hlength, hlength', hscanned.files, hscanned.used]
          simp only [matchedFiles, innerMarks, hname, Bool.false_eq_true, if_false, cut_append,
            List.count_append, List.length_append, List.tail_cons]
          omega
        · rw [hused']
          simp only [innerMarks, hname, Bool.false_eq_true, if_false, List.length_append]
      | false =>
        obtain ⟨hfound, hlength, hused⟩ := ih hrest h
        cases hname : isDots name with
        | true =>
          refine ⟨?_, ?_, ?_⟩
          · rw [allFiles, hname]
            exact hfound
          · rw [innerMarks, hname]
            exact hlength
          · rw [innerMarks, hname]
            exact hused
        | false =>
          have hleft : left args countNum = some 0 := by
            by_contra hleft
            cases hopen hname hleft
          rw [hleft] at hlength hused
          refine ⟨?_, ?_, ?_⟩
          · rw [allFiles]
            exact hfound.trans (List.sublist_append_right _ _)
          · rw [hleft]
            exact hlength
          · rw [hused, hleft]
            simp [leftAfter]

theorem recursiveLoop_isOk (args : OptionArgs) (hfails : ∀ dir, fails dir = none) (l : Listing) (path : PathName)
    (marks : List Bool) (countNum : Nat) :
    ∃ result, recursiveLoop args fails l path marks countNum = .ok result := by
  induction l generalizing path marks countNum with
  | nil => exact ⟨_, rfl⟩
  | file name info rest ih =>
    obtain ⟨result, h⟩ := ih path marks.tail countNum
    rw [recursiveLoop, h]
    exact ⟨_, rfl⟩
  | other name info rest ih => exact ih path marks.tail countNum
  | directory name info entries rest ihe ih =>
    rw [recursiveLoop]
    split
    · obtain ⟨below, hbelow⟩ := ihe (path ++ slash :: name)
        (filterAll args (path ++ slash :: name) entries.dirents countNum).1
        (filterAll args (path ++ slash :: name) entries.dirents countNum).2
      obtain ⟨result, hloop⟩ := ih path marks.tail below.2
      rw [scandir, hfails, orFail_none]
      simp only [ok_bind, hbelow, hloop]
      exact ⟨_, rfl⟩
    · exact ih path marks.tail countNum

/-- As many of what the limit counts are regular files as there are files to find. -/
theorem length_allFiles (args : OptionArgs) (l : Listing) (path : PathName) :
    (allFiles args l path).length = (counted args l path).count true := by
  induction l generalizing path with
  | nil => rfl
  | file name info rest ih =>
    have h := ih path
    rw [counted, List.count_append] at h ⊢
    rw [ownMarks, Listing.dirents, ownMarks_cons, List.count_append]
    rw [allFiles, innerMarks]
    split
    · next hresult =>
      rw [List.length_cons, h]
      simp [direntMark, hresult.1, hresult.2, ownMarks]
      omega
    · next hresult =>
      have hmark : direntMark args path (⟨name, .regular⟩, info) = none := by
        cases hname : isDots name with
        | true => simp [direntMark, hname]
        | false => simpa [direntMark, hname] using hresult
      rw [hmark, h]
      simp [ownMarks]
  | other name info rest ih =>
    have h := ih path
    have hmark : (direntMark args path (⟨name, .other⟩, info)).toList.count true = 0 := by
      unfold direntMark
      split
      · rfl
      · split <;> rfl
    rw [counted, List.count_append] at h ⊢
    rw [ownMarks, Listing.dirents, ownMarks_cons, List.count_append, hmark, Nat.zero_add]
    exact h
  | directory name info entries rest ihe ih =>
    have h := ih path
    have he := ihe (path ++ slash :: name)
    rw [counted, List.count_append] at h he ⊢
    rw [ownMarks, Listing.dirents, ownMarks_cons, direntMark_directory, Option.toList_none,
      List.nil_append, allFiles, innerMarks, List.length_append, h, List.count_append, ownMarks]
    split
    · simp
    · rw [he, List.count_append]
      omega

/-! ## Files and their paths -/

/-- A regular file that satisfies the filter, by the names on the way to it. -/
inductive Selected (args : OptionArgs) : PathName → Listing → List PathName → Prop
  | here (path name : PathName) (info : Option FileInfo) (rest : Listing)
      (hname : isDots name = false)
      (hresult : args.result path ⟨name, .regular⟩ info = true) :
      Selected args path (.file name info rest) [name]
  | inside (path name : PathName) (info : Option FileInfo) (entries rest : Listing)
      (place : List PathName) (hname : isDots name = false)
      (h : Selected args (path ++ slash :: name) entries place) :
      Selected args path (.directory name info entries rest) (name :: place)
  | afterFile (path name : PathName) (info : Option FileInfo) (rest : Listing)
      (place : List PathName) (h : Selected args path rest place) :
      Selected args path (.file name info rest) place
  | afterOther (path name : PathName) (info : Option FileInfo) (rest : Listing)
      (place : List PathName) (h : Selected args path rest place) :
      Selected args path (.other name info rest) place
  | afterDirectory (path name : PathName) (info : Option FileInfo) (entries rest : Listing)
      (place : List PathName) (h : Selected args path rest place) :
      Selected args path (.directory name info entries rest) place

/-- A path below a directory. -/
def joined (place : List PathName) : PathName := place.flatMap (slash :: ·)

theorem joined_cons (name : PathName) (place : List PathName) :
    joined (name :: place) = slash :: name ++ joined place := List.flatMap_cons

theorem mem_allFiles {file : PathName} :
    file ∈ allFiles args l path ↔ ∃ place, Selected args path l place ∧ file = path ++ joined place := by
  induction l generalizing path with
  | nil => exact iff_of_false List.not_mem_nil nofun
  | file name info rest ih =>
    have hrest := @ih path
    rw [allFiles]
    constructor
    · intro hmem
      split at hmem
      · next hresult =>
        rcases List.mem_cons.mp hmem with rfl | hmem
        · exact ⟨[name], .here _ _ _ _ hresult.1 hresult.2, by simp [joined]⟩
        · obtain ⟨place, h, rfl⟩ := hrest.mp hmem
          exact ⟨place, .afterFile _ _ _ _ _ h, rfl⟩
      · obtain ⟨place, h, rfl⟩ := hrest.mp hmem
        exact ⟨place, .afterFile _ _ _ _ _ h, rfl⟩
    · rintro ⟨place, h, rfl⟩
      cases h with
      | here _ _ _ _ hname hresult =>
        rw [if_pos ⟨hname, hresult⟩]
        simp [joined]
      | afterFile _ _ _ _ _ h =>
        have hmem := hrest.mpr ⟨place, h, rfl⟩
        split
        · exact List.mem_cons_of_mem _ hmem
        · exact hmem
  | other name info rest ih =>
    have hrest := @ih path
    rw [allFiles, hrest]
    constructor
    · rintro ⟨place, h, rfl⟩
      exact ⟨place, .afterOther _ _ _ _ _ h, rfl⟩
    · rintro ⟨place, h, rfl⟩
      cases h with
      | afterOther _ _ _ _ _ h => exact ⟨place, h, rfl⟩
  | directory name info entries rest ihe ih =>
    have hrest := @ih path
    have hentries := @ihe (path ++ slash :: name)
    rw [allFiles, List.mem_append, hrest]
    constructor
    · rintro (hmem | ⟨place, h, rfl⟩)
      · cases hname : isDots name with
        | true =>
          rw [hname] at hmem
          cases hmem
        | false =>
          rw [hname, if_neg Bool.false_ne_true, hentries] at hmem
          obtain ⟨place, h, rfl⟩ := hmem
          exact ⟨name :: place, .inside _ _ _ _ _ _ hname h, by simp [joined_cons]⟩
      · exact ⟨place, .afterDirectory _ _ _ _ _ _ h, rfl⟩
    · rintro ⟨place, h, rfl⟩
      cases h with
      | inside _ _ _ _ _ place hname h =>
        rw [hname, if_neg Bool.false_ne_true, hentries]
        exact .inl ⟨place, h, by simp [joined_cons]⟩
      | afterDirectory _ _ _ _ _ _ h => exact .inr ⟨place, h, rfl⟩

variable {name : PathName}

theorem names_cons_iff {d : Dirent × Option FileInfo} {entries : List (Dirent × Option FileInfo)} :
    name ∈ (d :: entries).map (fun d => d.1.name) ↔
      name = d.1.name ∨ name ∈ entries.map fun d => d.1.name := by
  rw [List.map_cons, List.mem_cons]

theorem Selected.head {place : List PathName} (h : Selected args path l place) :
    ∃ name rest, place = name :: rest ∧ name ∈ l.names := by
  induction h with
  | here path name info rest => exact ⟨name, [], rfl, List.mem_cons_self⟩
  | inside path name info entries rest place => exact ⟨name, place, rfl, List.mem_cons_self⟩
  | afterFile path name info rest place _ ih =>
    obtain ⟨first, more, rfl, hmem⟩ := ih
    exact ⟨first, more, rfl, List.mem_cons_of_mem _ hmem⟩
  | afterOther path name info rest place _ ih =>
    obtain ⟨first, more, rfl, hmem⟩ := ih
    exact ⟨first, more, rfl, List.mem_cons_of_mem _ hmem⟩
  | afterDirectory path name info entries rest place _ ih =>
    obtain ⟨first, more, rfl, hmem⟩ := ih
    exact ⟨first, more, rfl, List.mem_cons_of_mem _ hmem⟩

theorem Listing.WellFormed.no_slash (h : l.WellFormed) (hmem : name ∈ l.names) :
    slash ∉ name := by
  induction l with
  | nil => cases hmem
  | file first info rest ih =>
    rcases names_cons_iff.mp hmem with rfl | hmem
    · exact h.1
    · exact ih h.2.2.2 hmem
  | other first info rest ih =>
    rcases names_cons_iff.mp hmem with rfl | hmem
    · exact h.1
    · exact ih h.2.2.2 hmem
  | directory first info entries rest _ ih =>
    rcases names_cons_iff.mp hmem with rfl | hmem
    · exact h.1
    · exact ih h.2.2.2 hmem

theorem takeWhile_joined (h : slash ∉ name) (place : List PathName) :
    (name ++ joined place).takeWhile (· ≠ slash) = name := by
  have hall : ∀ b ∈ name, decide (b ≠ slash) = true := by
    intro b hb
    simpa using fun heq : b = slash => h (heq ▸ hb)
  rw [List.takeWhile_append_of_pos hall]
  cases place with
  | nil => simp [joined]
  | cons first rest => simp [joined_cons]

theorem ne_of_head (path : PathName) {name first : PathName} (place : List PathName)
    {rest : List PathName} (hname : slash ∉ name)
    (hfirst : slash ∉ first) (hne : name ≠ first) :
    path ++ joined (name :: place) ≠ path ++ joined (first :: rest) := by
  intro heq
  rw [joined_cons, joined_cons] at heq
  have heq : name ++ joined place = first ++ joined rest :=
    List.cons_inj_right _ |>.mp (List.append_cancel_left heq)
  have h := congrArg (List.takeWhile (· ≠ slash)) heq
  rw [takeWhile_joined hname, takeWhile_joined hfirst] at h
  exact hne h

theorem nodup_allFiles (h : l.WellFormed) (path : PathName) : (allFiles args l path).Nodup := by
  induction l generalizing path with
  | nil => exact List.nodup_nil
  | file name info rest ih =>
    obtain ⟨hslash, -, hnew, hrest⟩ := h
    rw [allFiles]
    split
    · refine List.nodup_cons.mpr ⟨fun hmem => ?_, ih hrest path⟩
      obtain ⟨place, hplace, heq⟩ := mem_allFiles.mp hmem
      obtain ⟨first, more, rfl, hfirst⟩ := hplace.head
      have hne : name ≠ first := fun h => hnew (h ▸ hfirst)
      refine ne_of_head path [] hslash (hrest.no_slash hfirst) hne
        (Eq.trans ?_ heq)
      simp [joined]
    · exact ih hrest path
  | other name info rest ih => exact ih h.2.2.2 path
  | directory name info entries rest ihe ih =>
    obtain ⟨hslash, hnew, hentries, hrest⟩ := h
    rw [allFiles]
    refine List.nodup_append.mpr ⟨?_, ih hrest path, ?_⟩
    · split
      · exact List.nodup_nil
      · exact ihe hentries _
    · rintro file hfile other hother rfl
      split at hfile
      · cases hfile
      · obtain ⟨place, -, heq⟩ := mem_allFiles.mp hfile
        obtain ⟨place', hplace', heq'⟩ := mem_allFiles.mp hother
        obtain ⟨first, more, rfl, hfirst⟩ := hplace'.head
        have hne : name ≠ first := fun h => hnew (h ▸ hfirst)
        refine ne_of_head path place hslash (hrest.no_slash hfirst) hne
          (Eq.trans ?_ (heq.symm.trans heq'))
        simp [joined_cons]

theorem allFiles_congr (args : OptionArgs) (listNum : Int32) (l : Listing) (path : PathName) :
    allFiles { args with listNum } l path = allFiles args l path := by
  induction l generalizing path with
  | nil => rfl
  | file name info rest ih => rw [allFiles, allFiles, ih]
  | other name info rest ih => exact ih path
  | directory name info entries rest ihe ih => rw [allFiles, allFiles, ihe, ih]

theorem listEntries_ok (hrec : args.recursion = true)
    (h : listEntries args fails path entries = .ok found) :
    ∃ files : List PathName, found = files.map (fun name => name.drop path.length) ∧
      files.Sublist (allFiles args entries path) ∧
      files.length = (cut (left args 0) (counted args entries path)).count true := by
  rw [listEntries, if_pos hrec] at h
  obtain ⟨⟨files, n⟩, hfiles, hfound⟩ := bind_eq_ok.mp h
  obtain ⟨⟨marks, n'⟩, hscan, hloop⟩ := bind_eq_ok.mp hfiles
  have hscanned := filterAll_scanned path hrec entries 0
  rw [← scandir_ok hscan] at hscanned
  obtain ⟨hsub, hlength, -⟩ := recursiveLoop_walked hrec hscanned.matched hloop
  refine ⟨files, (Except.ok.inj hfound).symm, hsub, ?_⟩
  rw [hlength, hscanned.files, hscanned.used, counted, cut_append, List.count_append]

theorem listEntries_isOk (hrec : args.recursion = true) (hfails : ∀ dir, fails dir = none)
    (path : PathName) (entries : Listing) :
    ∃ found, listEntries args fails path entries = .ok found := by
  obtain ⟨result, h⟩ := recursiveLoop_isOk args hfails entries path
    (filterAll args path entries.dirents 0).1 (filterAll args path entries.dirents 0).2
  rw [listEntries, if_pos hrec, recursiveFunc, scandir, hfails, orFail_none]
  simp only [ok_bind, h]
  exact ⟨_, rfl⟩

theorem listEntries_unlimited (hrec : args.recursion = true) (hlimit : args.listNum = 0)
    (h : listEntries args fails path entries = .ok found) :
    found = (allFiles args entries path).map fun name => name.drop path.length := by
  obtain ⟨files, rfl, hsub, hlength⟩ := listEntries_ok hrec h
  have hleft : left args 0 = none := if_pos hlimit
  rw [hleft, cut, ← length_allFiles] at hlength
  rw [hsub.eq_of_length hlength]

theorem mem_map_allFiles :
    name ∈ (allFiles args entries path).map (fun name => name.drop path.length) ↔
      ∃ place, Selected args path entries place ∧ name = joined place := by
  rw [List.mem_map]
  constructor
  · rintro ⟨file, hmem, rfl⟩
    obtain ⟨place, hplace, rfl⟩ := mem_allFiles.mp hmem
    exact ⟨place, hplace, List.drop_left⟩
  · rintro ⟨place, hplace, rfl⟩
    exact ⟨path ++ joined place, mem_allFiles.mpr ⟨place, hplace, rfl⟩, List.drop_left⟩

theorem nodup_map_allFiles (h : entries.WellFormed) :
    ((allFiles args entries path).map fun name => name.drop path.length).Nodup := by
  refine List.Nodup.map_on (fun file hfile other hother heq => ?_) (nodup_allFiles h path)
  obtain ⟨place, -, rfl⟩ := mem_allFiles.mp hfile
  obtain ⟨place', -, rfl⟩ := mem_allFiles.mp hother
  rw [List.drop_left, List.drop_left] at heq
  rw [heq]

end Walk

/-! ## Exact listings -/

variable {fnmatch : PathName → PathName → Bool} {fails : PathName → Option Errno} {path : PathName}
  {request : Request} {args : OptionArgs} {found : List PathName}

/-- A listing holds each of the files once by its path, or it is a part of the listing of all of
them that is as long as the limit allows. -/
structure ListsExactly (fnmatch : PathName → PathName → Bool) (path : PathName) (root : Directory)
    (request : Request) (args : OptionArgs) (found : List PathName) : Prop where
  all : request.listNum = 0 → found.Nodup ∧
    ∀ name, name ∈ found ↔ ∃ place, Selected args path root.entries place ∧ name = joined place
  limited : 0 < request.listNum → ∃ all,
    request.unlimited.run fnmatch (fun _ => none) path root = .ok all ∧ found.Sublist all ∧
      found.length = min request.listNum.toNat all.length

/-- The limit is an `int` and all that it counts are regular files, or it takes no regular file
off. -/
def LimitMeetsFiles (path : PathName) (root : Directory) (request : Request) (args : OptionArgs) :
    Prop :=
  request.listNum = 0 ∨
    (request.listNum < 2 ^ 31 ∧
      false ∉ (counted args root.entries path).take request.listNum.toNat) ∨
    (((allFiles args root.entries path).length : Int) ≤ request.listNum ∧
      true ∉ cutOff (left args 0) (counted args root.entries path))

theorem validListNum_eq_some {listNum : Option Int64} {n : Int32}
    (h : validListNum listNum = some n) :
    0 ≤ (listNum.getD 0).toInt ∧ n.toInt = (listNum.getD 0).toInt.bmod (2 ^ 32) := by
  cases listNum with
  | none =>
    cases h
    decide
  | some listNum =>
    rw [validListNum] at h
    split at h
    · cases h
    · next hneg =>
      cases h
      rw [Int64.lt_iff_toInt_lt] at hneg
      exact ⟨not_lt.mp hneg, Int64.toInt_toInt32 listNum⟩

theorem args_listNum (h : request.args fnmatch path = some args) :
    0 ≤ request.listNum ∧ args.listNum.toInt = request.listNum.bmod (2 ^ 32) ∧
      request.unlimited.args fnmatch path = some { args with listNum := 0 } := by
  cases request with
  | listFile opt =>
    cases opt with
    | none =>
      cases h
      exact ⟨Int.le_refl 0, rfl, rfl⟩
    | some op =>
      obtain ⟨n, hn, h⟩ := Option.bind_eq_some_iff.mp h
      obtain ⟨filter, hfilter, hargs⟩ := Option.bind_eq_some_iff.mp h
      cases hargs
      obtain ⟨hpos, hbmod⟩ := validListNum_eq_some hn
      refine ⟨hpos, hbmod, ?_⟩
      simp only [Request.unlimited, Option.map_some, Request.args, validOptionParam]
      exact Option.bind_eq_some_iff.mpr ⟨0, rfl, Option.bind_eq_some_iff.mpr ⟨filter, hfilter, rfl⟩⟩
  | listFileExt options =>
    cases options with
    | none =>
      cases h
      exact ⟨by decide, by decide, rfl⟩
    | some op =>
      obtain ⟨n, hn, hargs⟩ := Option.bind_eq_some_iff.mp h
      cases hargs
      obtain ⟨hpos, hbmod⟩ := validListNum_eq_some hn
      exact ⟨hpos, hbmod, rfl⟩
  | cjListFile options =>
    rw [Request.args, validCOptions] at h
    split at h
    · cases h
    · next hneg =>
      obtain ⟨filter, hfilter, hargs⟩ := Option.map_eq_some_iff.mp h
      cases hargs
      rw [Int32.lt_iff_toInt_lt] at hneg
      refine ⟨not_lt.mp hneg, (Int32.toInt_bmod_size options.listNum).symm, ?_⟩
      rw [Request.unlimited, Request.args, validCOptions, if_neg (show ¬ (0 : Int32) < 0 by decide), hfilter]
      rfl

theorem run_eq (h : request.args fnmatch path = some args) (fails : PathName → Option Errno)
    (root : Directory) :
    request.run fnmatch fails path root = listEntries args fails path root.entries := by
  rw [Request.run, h]

/-- How many files the limit lets through is as many as it should exactly if it meets files. -/
theorem count_cut_iff {n : Int} {listNum : Int32} (hpos : 0 < n)
    (hlistNum : listNum.toInt = n.bmod (2 ^ 32)) (marks : List Bool) (hargs : args.listNum = listNum) :
    (cut (left args 0) marks).count true = min n.toNat (marks.count true) ↔
      (n < 2 ^ 31 ∧ false ∉ marks.take n.toNat) ∨
        ((marks.count true : Int) ≤ n ∧ true ∉ cutOff (left args 0) marks) := by
  have hsmall : n < 2 ^ 31 → listNum.toInt = n := by
    intro h
    rw [hlistNum]
    exact Int.bmod_eq_of_le (by omega) (by omega)
  have hlt := listNum.toInt_lt
  unfold left
  rw [hargs]
  by_cases hzero : listNum = 0
  · have hbig : ¬ n < 2 ^ 31 := by
      intro h
      have := hsmall h
      rw [hzero, Int32.toInt_zero] at this
      omega
    rw [if_pos hzero]
    simp only [cut, cutOff, List.not_mem_nil, not_false_eq_true, and_true, hbig, false_and,
      false_or]
    omega
  · rw [if_neg hzero]
    have hk : listNum.toInt.toNat - 0 = n.toNat ↔ n < 2 ^ 31 := by
      constructor
      · intro h
        omega
      · intro h
        rw [hsmall h, Nat.sub_zero]
    have hle : listNum.toInt.toNat - 0 ≤ n.toNat := by
      by_cases h : n < 2 ^ 31
      · exact (hk.mpr h).le
      · omega
    rw [cut, cutOff, count_take_eq_min_iff marks hle]
    constructor
    · rintro (⟨heq, hfalse⟩ | ⟨htrue, hn⟩)
      · exact .inl ⟨hk.mp heq, heq ▸ hfalse⟩
      · exact .inr ⟨by omega, htrue⟩
    · rintro (⟨h, hfalse⟩ | ⟨hn, htrue⟩)
      · exact .inl ⟨hk.mpr h, (hk.mpr h).symm ▸ hfalse⟩
      · exact .inr ⟨htrue, by omega⟩

/-- A recursive listing comes to an end where no `scandir` fails, and what it returns is exact
just when its limit meets files. -/
theorem run_listsExactly_iff (root : Directory) (hargs : request.args fnmatch path = some args)
    (hrec : args.recursion = true) :
    ((∀ dir, fails dir = none) → ∃ found, request.run fnmatch fails path root = .ok found) ∧
      ∀ found, request.run fnmatch fails path root = .ok found →
        (ListsExactly fnmatch path root request args found ↔
          LimitMeetsFiles path root request args) := by
  obtain ⟨hnonneg, hlistNum, hunlimited⟩ := args_listNum hargs
  rw [run_eq hargs]
  refine ⟨fun hfails => listEntries_isOk hrec hfails path root.entries, fun found hfound => ?_⟩
  rcases hnonneg.eq_or_lt with hzero | hpos
  · have hall : args.listNum = 0 := by
      rw [← hzero] at hlistNum
      exact Int32.toInt_inj.mp (hlistNum.trans (by decide))
    have hlist := listEntries_unlimited hrec hall hfound
    refine iff_of_true ⟨fun _ => ?_, fun hpos => ?_⟩ (.inl hzero.symm)
    · rw [hlist]
      exact ⟨nodup_map_allFiles root.valid, fun name => mem_map_allFiles⟩
    · omega
  · have hrun := run_eq hunlimited (fun _ => none) root
    have hunlimitedRec : ({ args with listNum := 0 } : OptionArgs).recursion = true := hrec
    obtain ⟨all, hall⟩ := listEntries_isOk hunlimitedRec (fun _ => rfl) path root.entries
    have hlist := listEntries_unlimited hunlimitedRec rfl hall
    rw [allFiles_congr] at hlist
    obtain ⟨files, hfiles, hsub, hlength⟩ := listEntries_ok hrec hfound
    have hfoundLength : found.length = (cut (left args 0) (counted args root.entries path)).count
        true := by
      rw [hfiles, List.length_map, hlength]
    have hallLength : all.length = (counted args root.entries path).count true := by
      rw [hlist, List.length_map, length_allFiles]
    have hcount := count_cut_iff hpos hlistNum (counted args root.entries path) rfl
    rw [← length_allFiles] at hcount
    constructor
    · intro h
      obtain ⟨all', hall', -, hmin⟩ := h.limited hpos
      rw [hrun, hall] at hall'
      cases hall'
      refine .inr (hcount.mp ?_)
      rw [← hfoundLength, hmin, hallLength, length_allFiles]
    · intro h
      refine ⟨fun hzero => absurd hzero hpos.ne', fun _ => ⟨all, hrun.trans hall, ?_, ?_⟩⟩
      · rw [hfiles, hlist]
        exact hsub.map _
      · rw [hfoundLength, hallLength, ← length_allFiles]
        exact hcount.mpr (h.resolve_left hpos.ne')

/-! ### A pipe and a file -/

/-- A named pipe `a` and a file `b`, in this order. -/
def pipeAndFile : Directory where
  entries := .other [97] none (.file [98] none .nil)
  valid := by
    refine ⟨by decide, by decide, by decide, by decide, by decide, by decide, trivial⟩

/-- A recursive listing of one file. -/
def oneFile : Request := .listFile (some { recursion := true, listNum := some 1 })

/-- All the files of the directory are found. -/
theorem run_listsExactly_pipeAndFile :
    ListsExactly (fun _ _ => false) [47] pipeAndFile oneFile.unlimited
      ⟨fun _ => filterResult (fun _ _ => false) {}, 0, true⟩ [[47, 98]] :=
  ((@run_listsExactly_iff _ (fun _ => none) _ _ _ pipeAndFile rfl rfl).2 [[47, 98]]
    (by decide)).mpr (.inl (by decide))

/-- With a limit of one, the pipe takes the place of the file. -/
theorem oneFile_not_listsExactly :
    ∃ found, oneFile.run (fun _ _ => false) (fun _ => none) [47] pipeAndFile = .ok found ∧
      ¬ ListsExactly (fun _ _ => false) [47] pipeAndFile oneFile
        ⟨fun _ => filterResult (fun _ _ => false) {}, 1, true⟩ found := by
  refine ⟨[], by decide, fun h => ?_⟩
  obtain ⟨all, hall, -, hlength⟩ := h.limited (by decide)
  have hfiles : oneFile.unlimited.run (fun _ _ => false) (fun _ => none) [47] pipeAndFile =
      .ok [[47, 98]] := by decide
  rw [hfiles] at hall
  cases hall
  revert hlength
  decide

end FileApi.ModFs.ListFile
