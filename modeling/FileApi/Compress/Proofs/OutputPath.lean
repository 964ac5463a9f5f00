import FileApi.Compress.Posix
import FileApi.Compress.Proofs.NormalizePath
import FileApi.Compress.Proofs.PathCalls

/-!
# The steps of output paths

What the paths that are handed to the system have to do with the output directory, step by step:
`archive_utils.c:343-371`, `440-548` and `zip_reader.c:721-736`.
-/

namespace FileApi.Compress

open Program FileTree StackPath

/-! ## Steps -/

theorem routeOf_append_slash (a b : PathName) :
    (routeOf (a ++ slash :: b)).steps = (routeOf a).steps ++ (routeOf b).steps := by
  rw [routeOf, List.splitOn_append_cons_self, List.map_append]
  rfl

theorem routeOf_part {part : PathName} (h : slash ∉ part) : (routeOf part).steps = [stepOf part] := by
  rw [routeOf, List.splitOn_eq_singleton h]
  rfl

theorem stepOf_eq_up {part : PathName} : stepOf part = .up ↔ part = dotdot := by
  rw [stepOf]
  split
  · next hsays =>
    refine ⟨nofun, ?_⟩
    rintro rfl
    rcases hsays with h | h
    · cases h
    · cases h
  · split
    · next heq => exact ⟨fun _ => heq, fun _ => rfl⟩
    · next hne => exact ⟨nofun, fun heq => absurd heq hne⟩

variable {path : PathName}

theorem up_mem_routeOf :
    .up ∈ (routeOf path).steps ↔ dotdot ∈ path.splitOn slash := by
  rw [routeOf, List.mem_map]
  constructor
  · rintro ⟨part, hmem, hup⟩
    rwa [stepOf_eq_up.mp hup] at hmem
  · exact fun h => ⟨dotdot, h, stepOf_eq_up.mpr rfl⟩

theorem names_routeOf (h : .up ∉ (routeOf path).steps) :
    names (routeOf path).steps = components slash dot path := by
  rw [up_mem_routeOf] at h
  rw [routeOf, components]
  dsimp only
  generalize path.splitOn slash = parts at h ⊢
  induction parts with
  | nil => rfl
  | cons part parts ih =>
    obtain ⟨hpart, hparts⟩ := not_or.mp fun h' => h (List.mem_cons.mpr h')
    by_cases hsays : part = [] ∨ part = [dot]
    · have hstep : stepOf part = .here := if_pos hsays
      rw [List.map_cons, hstep, List.filter_cons_of_neg]
      · exact ih hparts
      · simpa using fun hne => hsays.resolve_left hne
    · have hstep : stepOf part = .down part := by
        rw [stepOf, if_neg hsays, if_neg (Ne.symm hpart)]
      rw [List.map_cons, hstep, List.filter_cons_of_pos]
      · exact congrArg (part :: ·) (ih hparts)
      · simpa using not_or.mp hsays

theorem InFront.names {dir path : PathName} (h : InFront dir path) :
    names (routeOf dir).steps <+: names (routeOf path).steps ∧
      (.up ∉ (routeOf path).steps → .up ∉ (routeOf dir).steps) := by
  obtain ⟨rest, rfl, -, hslash⟩ := h
  have hsplit : ∃ more, (routeOf (dir ++ rest)).steps = (routeOf dir).steps ++ more ∨
      ∃ front, (routeOf (dir ++ rest)).steps = front ++ more ∧
        (routeOf dir).steps = front ++ [.here] := by
    rcases hslash with hlast | hfirst
    · obtain ⟨front, rfl⟩ := List.getLast?_eq_some_iff.mp hlast
      refine ⟨(routeOf rest).steps, .inr ⟨(routeOf front).steps, ?_, ?_⟩⟩
      · rw [List.append_assoc, List.singleton_append]
        exact routeOf_append_slash front rest
      · rw [routeOf_append_slash front [], routeOf_part List.not_mem_nil]
        rfl
    · obtain ⟨more, rfl⟩ : ∃ more, rest = slash :: more := by
        cases rest with
        | nil => cases hfirst
        | cons b more =>
          cases hfirst
          exact ⟨more, rfl⟩
      exact ⟨(routeOf more).steps, .inl (routeOf_append_slash dir more)⟩
  obtain ⟨more, hwhole | ⟨front, hwhole, hdir⟩⟩ := hsplit
  · rw [hwhole, names_append]
    exact ⟨List.prefix_append _ _, fun hup hin => hup (List.mem_append_left _ hin)⟩
  · have hnames : FileTree.names (front ++ [Step.here]) = FileTree.names front := by
      rw [names_append]
      exact List.append_nil _
    rw [hwhole, hdir, hnames, names_append]
    refine ⟨List.prefix_append _ _, fun hup hin => hup (List.mem_append_left _ ?_)⟩
    · exact (List.mem_append.mp hin).resolve_right (by simp)

theorem InFront.rooted {dir path : PathName} (h : InFront dir path) (hroot : path.head? = some slash)
    (hne : dir ≠ []) : dir.head? = some slash := by
  obtain ⟨rest, rfl, -⟩ := h
  rwa [List.head?_append_of_ne_nil _ hne] at hroot

/-! ## Names of files -/

theorem takeWhile_append_slash (a b : PathName) :
    (a ++ slash :: b).takeWhile (· ≠ slash) = a.takeWhile (· ≠ slash) := by
  induction a with
  | nil => exact part_slash b
  | cons c a ih =>
    by_cases hc : c = slash
    · rw [hc]
      exact (part_slash _).trans (part_slash a).symm
    · exact (part_cons hc _).trans ((congrArg (c :: ·) ih).trans (part_cons hc a).symm)

theorem getFileName_append_slash (a b : PathName) :
    getFileName (a ++ slash :: b) = getFileName b := by
  rw [getFileName_eq, getFileName_eq, List.reverse_append, List.reverse_cons, List.append_assoc,
    List.singleton_append, takeWhile_append_slash]

theorem getFileName_slash (b : PathName) : getFileName (slash :: b) = getFileName b :=
  getFileName_append_slash [] b

theorem getFileName_nil : getFileName [] = [] := rfl

theorem getFileName_of_not_mem (h : slash ∉ path) : getFileName path = path := by
  rw [getFileName_eq, List.takeWhile_eq_self_iff.mpr, List.reverse_reverse]
  intro b hb
  exact decide_eq_true fun heq => h (heq ▸ List.mem_reverse.mp hb)

theorem getFileName_split (h : slash ∈ path) :
    ∃ parentPath, (splitLastSlash path).1 = some parentPath ∧
      path = parentPath ++ slash :: getFileName path := by
  have hsome : ∃ parentPath, (splitLastSlash path).1 = some parentPath := by
    rw [splitLastSlash, if_pos h]
    exact ⟨_, rfl⟩
  obtain ⟨parentPath, hparent⟩ := hsome
  exact ⟨parentPath, hparent, (splitLastSlash_eq hparent).1⟩

theorem names_getFileName (path : PathName) :
    names (routeOf (getFileName path)).steps <:+ names (routeOf path).steps := by
  by_cases h : slash ∈ path
  · obtain ⟨parentPath, -, hpath⟩ := getFileName_split h
    have hsteps := routeOf_append_slash parentPath (getFileName path)
    rw [← hpath] at hsteps
    rw [hsteps, names_append]
    exact List.suffix_append _ _
  · simp [getFileName_of_not_mem h]

/-- What a turn makes of the last part of what is put out and read. -/
theorem normalizeStep_fileName {st : NormalizeState} {b : UInt8} {rest : PathName}
    (hst : st.Inv path) (hsource : st.source = b :: rest) :
    getFileName ((normalizeStep st b rest).output.reverse ++ (normalizeStep st b rest).source) =
        getFileName (st.output.reverse ++ b :: rest) ∨
      getFileName ((normalizeStep st b rest).output.reverse ++ (normalizeStep st b rest).source) =
        [] := by
  have hcase := normalizeStep_cases hsource hst.start
  have hcopied : (b :: st.output).reverse ++ rest = st.output.reverse ++ b :: rest := by simp
  generalize normalizeStep st b rest = next at hcase ⊢
  cases hcase with
  | inside => exact .inl (congrArg getFileName hcopied)
  | begins => exact .inl (congrArg getFileName hcopied)
  | doubled more hb hrest =>
    subst hb hrest
    left
    rw [getFileName_append_slash, getFileName_append_slash, getFileName_slash]
  | single more hcheck hempty =>
    left
    have hbefore : getFileName (st.output.reverse ++ b :: rest) = getFileName more := by
      by_cases hb : b = slash
      · rw [if_pos hb] at hcheck
        rw [hb, getFileName_append_slash, hcheck]
        exact getFileName_append_slash [dot] more
      · rw [if_neg hb] at hcheck
        rw [hempty hb, hcheck]
        exact getFileName_append_slash [dot] more
    rw [hbefore]
    dsimp only
    rw [skipFirst]
    split
    · next hout =>
      rw [hout.2]
      rfl
    · exact getFileName_append_slash _ more
  | last hb hrest hout =>
    right
    dsimp only
    rw [List.append_nil, List.reverse_cons, getFileName_append_slash, getFileName_nil]
  | double more hcheck hend hempty =>
    rcases hend.cases with rfl | ⟨tail, rfl⟩
    · -- the path ends with the two dots
      right
      have hskip : ∀ output, skipFirst [] output = [] := fun output => if_neg fun h => h.1 rfl
      rcases output_cases st.output with hpart | ⟨c, front, hc, hout⟩
      · rw [pathHandleDotDotSearchBack_part hpart]
        dsimp only
        rw [if_neg fun h => Bool.false_ne_true h.1, hskip]
        rfl
      · rw [hout, pathHandleDotDotSearchBack_slash hc]
        dsimp only
        rw [hskip, if_pos ⟨rfl, rfl⟩, List.append_nil, List.reverse_cons, getFileName_append_slash,
          getFileName_nil]
    · left
      have hbefore : getFileName (st.output.reverse ++ b :: rest) = getFileName tail := by
        by_cases hb : b = slash
        · rw [if_pos hb] at hcheck
          rw [hb, getFileName_append_slash, hcheck]
          exact getFileName_append_slash dotdot tail
        · rw [if_neg hb] at hcheck
          rw [hempty hb, hcheck]
          exact getFileName_append_slash dotdot tail
      rw [hbefore]
      generalize pathHandleDotDotSearchBack st.output = searched
      dsimp only
      by_cases hout : searched.1 = []
      · have hskip : skipFirst (slash :: tail) searched.1 = tail :=
          if_pos ⟨List.cons_ne_nil _ _, hout⟩
        rw [hskip, hout]
        split
        · exact getFileName_slash tail
        · rfl
      · have hskip : skipFirst (slash :: tail) searched.1 = slash :: tail := skipFirst_of_ne hout
        rw [hskip, if_neg fun h => List.cons_ne_nil _ _ h.2]
        exact getFileName_append_slash _ tail

theorem normalizeLoop_fileName (turns : Nat) : ∀ {st : NormalizeState},
    st.Inv path →
    getFileName ((normalizeLoop turns st).output.reverse ++ (normalizeLoop turns st).source) =
        getFileName (st.output.reverse ++ st.source) ∨
      getFileName ((normalizeLoop turns st).output.reverse ++ (normalizeLoop turns st).source) =
        [] := by
  induction turns with
  | zero => exact fun _ => .inl rfl
  | succ turns ih =>
    intro st hst
    rw [normalizeLoop]
    split
    · exact .inl rfl
    · next b rest hsource =>
      rw [hsource]
      rcases ih (normalizeStep_inv hst hsource) with hsame | hnil
      · rw [hsame]
        exact normalizeStep_fileName hst hsource
      · exact .inr hnil

theorem normalizePath_fileName {path output : PathName} (h : normalizePath path = some output) :
    getFileName output = getFileName path ∨ getFileName output = [] := by
  rw [normalizePath] at h
  split at h
  · cases h
  · cases h
    have hlast := normalizeLoop_fileName path.length (startState_inv path)
    rwa [normalizeLoop_source path.length (startState_inv path) (Nat.le_refl _),
      List.append_nil] at hlast

/-! ## Parts that are empty -/

/-- No part between two slashes is empty. -/
def NoDouble (out : PathName) : Prop := [] ∉ (out.splitOn slash).tail.dropLast

theorem noDouble_split {front part : PathName} (hpart : slash ∉ part) :
    NoDouble (front ++ slash :: part) ↔ [] ∉ (front.splitOn slash).tail := by
  rw [NoDouble, List.splitOn_append_cons_self, List.splitOn_eq_singleton hpart,
    List.tail_append_of_ne_nil (List.splitOn_ne_nil slash front), List.dropLast_concat]

theorem noDouble_of_not_mem {out : PathName} (h : slash ∉ out) : NoDouble out := by
  rw [NoDouble, List.splitOn_eq_singleton h]
  exact List.not_mem_nil

theorem normalizeStep_noDouble {st : NormalizeState} {b : UInt8} {rest : PathName}
    (hst : st.Inv path) (hsource : st.source = b :: rest) (h : NoDouble st.output.reverse) :
    NoDouble (normalizeStep st b rest).output.reverse := by
  -- where a slash is read, the parts that were put out are complete
  have hcomplete : b = slash → [] ∉ (st.output.reverse.splitOn slash).tail := by
    intro hb
    by_cases hout : st.output = []
    · rw [hout]
      exact List.not_mem_nil
    · have hclean := hst.clean hout
      rw [hsource, hb] at hclean
      exact hclean.of_slash.2.2
  have hcase := normalizeStep_cases hsource hst.start
  generalize normalizeStep st b rest = next at hcase ⊢
  cases hcase with
  | inside hb hout =>
    rcases output_cases st.output with hpart | ⟨c, front, hc, heq⟩
    · refine noDouble_of_not_mem fun hin => ?_
      rcases List.mem_cons.mp (List.mem_reverse.mp hin) with heq | hin
      · exact hb heq.symm
      · exact hpart hin
    · dsimp only
      rw [heq, List.reverse_append, List.reverse_cons, List.append_assoc,
        List.singleton_append, noDouble_split (by rwa [List.mem_reverse])] at h
      rw [heq, ← List.cons_append, List.reverse_append, List.reverse_cons, List.append_assoc,
        List.singleton_append, noDouble_split]
      · exact h
      · rw [List.mem_reverse, List.mem_cons, not_or]
        exact ⟨Ne.symm hb, hc⟩
  | begins check hcheck hempty hhead hdouble hdot =>
    dsimp only
    rw [List.reverse_cons]
    by_cases hb : b = slash
    · rw [hb, noDouble_split List.not_mem_nil]
      exact hcomplete hb
    · rw [hempty hb]
      exact noDouble_of_not_mem (by simpa using Ne.symm hb)
  | doubled more hb hrest => exact h
  | single more hcheck hempty => exact h
  | last hb hrest hout =>
    dsimp only
    rw [List.reverse_cons, noDouble_split List.not_mem_nil]
    exact hcomplete hb
  | double more hcheck hend hempty =>
    rcases output_cases st.output with hpart | ⟨c, front, hc, heq⟩
    · rw [pathHandleDotDotSearchBack_part hpart]
      dsimp only
      rw [if_neg fun h => Bool.false_ne_true h.1]
      exact noDouble_of_not_mem List.not_mem_nil
    · rw [heq, List.reverse_append, List.reverse_cons, List.append_assoc,
        List.singleton_append, noDouble_split (by rwa [List.mem_reverse])] at h
      rw [heq, pathHandleDotDotSearchBack_slash hc]
      dsimp only
      split
      · rw [List.reverse_cons, noDouble_split List.not_mem_nil]
        exact h
      · exact fun hin => h (List.dropLast_subset _ hin)

theorem normalizeLoop_noDouble (turns : Nat) : ∀ {st : NormalizeState},
    st.Inv path → NoDouble st.output.reverse →
      NoDouble (normalizeLoop turns st).output.reverse := by
  induction turns with
  | zero => exact fun _ h => h
  | succ turns ih =>
    intro st hst h
    rw [normalizeLoop]
    split
    · exact h
    · next b rest hsource =>
      exact ih (normalizeStep_inv hst hsource) (normalizeStep_noDouble hst hsource h)

theorem normalizePath_noDouble {path output : PathName} (h : normalizePath path = some output) :
    NoDouble output := by
  rw [normalizePath] at h
  split at h
  · cases h
  · cases h
    exact normalizeLoop_noDouble path.length (startState_inv path)
      (noDouble_of_not_mem List.not_mem_nil)

/-! ## Below the output directory -/

/-- The parts between two slashes are names. -/
def Neat (path : PathName) : Prop :=
  ∀ part ∈ (path.splitOn slash).tail.dropLast, stepOf part = .down part

theorem neat_split {front part : PathName} (hpart : slash ∉ part) :
    Neat (front ++ slash :: part) ↔
      ∀ part ∈ (front.splitOn slash).tail, stepOf part = .down part := by
  rw [Neat, List.splitOn_append_cons_self, List.splitOn_eq_singleton hpart,
    List.tail_append_of_ne_nil (List.splitOn_ne_nil slash front), List.dropLast_concat]

theorem normalizePath_neat {path output : PathName} (h : normalizePath path = some output) :
    Neat output := by
  intro part hmem
  have hnormal := normalizePath_normalized h
  have hparts : part ∈ (output.splitOn slash).dropLast := by
    rw [← List.tail_dropLast] at hmem
    exact List.mem_of_mem_tail hmem
  rw [stepOf, if_neg, if_neg]
  · rintro rfl
    exact hnormal.double (List.dropLast_subset _ hparts)
  · rintro (rfl | hdot)
    · exact normalizePath_noDouble h hmem
    · exact hnormal.front part hparts hdot

/-- The path of an output: it goes down by the names of the directory and further. -/
structure Under (root : List PathName) (path : PathName) : Prop where
  rooted : path.head? = some slash
  up : .up ∉ (routeOf path).steps
  names : root.reverse <+: names (routeOf path).steps
  neat : Neat path

theorem getOutputFilePath_normalized {fileName outDir outPath : PathName}
    (h : getOutputFilePath fileName outDir = .ok outPath) :
    ∃ name, normalizePath fileName = some name ∧
      normalizePath (outDir ++ slash :: name) = some outPath := by
  rw [getOutputFilePath] at h
  split at h
  · cases h
  · next name hname =>
    dsimp only at h
    split at h
    · cases h
    · split at h
      · cases h
      · next path hpath =>
        split at h
        · cases h
        · cases h
          exact ⟨name, hname, hpath⟩

/-- The path that comes of the name of an entry; where it is the directory itself, it ends with a
part that is no name. -/
theorem getOutputFilePath_under {fileName outDir outPath : PathName} {root : List PathName}
    (hdir : Resolved outDir) (hroot : names (routeOf outDir).steps = root.reverse)
    (h : getOutputFilePath fileName outDir = .ok outPath) :
    Under root outPath ∧ (names (routeOf outPath).steps = root.reverse →
      names (routeOf (getFileName outPath)).steps = []) := by
  have hbelow := getOutputFilePath_below hdir h
  obtain ⟨name, hname, hpath⟩ := getOutputFilePath_normalized h
  have hup : .up ∉ (routeOf outPath).steps := fun hin => hbelow.double (up_mem_routeOf.mp hin)
  have hdirUp : .up ∉ (routeOf outDir).steps := fun hin => hdir.double (up_mem_routeOf.mp hin)
  have hunder : Under root outPath := by
    refine ⟨hbelow.root, hup, ?_, ?_⟩
    · rw [← hroot, names_routeOf hdirUp, names_routeOf hup]
      exact hbelow.parts
    · exact normalizePath_neat hpath
  refine ⟨hunder, fun hnames => ?_⟩
  rcases normalizePath_fileName hpath with hlast | hnil
  · rw [getFileName_append_slash] at hlast
    have hresolves := (normalizePath_normalized hpath).resolves
    have hdouble : dotdot ∉ (outDir ++ slash :: name).splitOn slash := by
      rw [List.splitOn_append_cons_self, List.mem_append]
      exact not_or.mpr ⟨hdir.double, (normalizePath_normalized hname).double⟩
    have hnameUp : .up ∉ (routeOf name).steps := fun hin =>
      (normalizePath_normalized hname).double (up_mem_routeOf.mp hin)
    rw [resolve_of_not_mem hdouble, components_append_sep, ← names_routeOf hup,
      ← names_routeOf hdirUp, ← names_routeOf hnameUp, hnames, hroot] at hresolves
    have hempty : names (routeOf name).steps = [] := List.self_eq_append_right.mp hresolves
    have hsuffix := names_getFileName name
    rw [hempty] at hsuffix
    rw [hlast]
    exact List.suffix_nil.mp hsuffix
  · rw [hnil]
    rfl

/-! ## New names -/

/-- The path of an output is not the directory itself. -/
structure Inside (root : List PathName) (path : PathName) : Prop extends Under root path where
  ne : root.reverse ≠ FileTree.names (routeOf path).steps

theorem names_part {part : PathName} (h : slash ∉ part) :
    names (routeOf part).steps = [] ∨ names (routeOf part).steps = [part] := by
  rw [routeOf_part h, stepOf]
  split
  · exact .inl rfl
  · split
    · exact .inl rfl
    · exact .inr rfl

theorem toList_loop_mem (bs : ByteArray) (i : Nat) (r : List UInt8) :
    ∀ b ∈ ByteArray.toList.loop bs i r, b ∈ r ∨ b ∈ bs.data.toList := by
  fun_induction ByteArray.toList.loop bs i r with
  | case1 i r hi ih =>
    intro b hb
    rcases ih b hb with h | h
    · rcases List.mem_cons.mp h with rfl | h
      · right
        have hget : bs.get! i = bs.data[i] := getElem!_pos bs.data i hi
        rw [hget]
        exact Array.getElem_mem_toList hi
      · exact .inl h
    · exact .inr h
  | case2 i r hi =>
    intro b hb
    exact .inl (List.mem_reverse.mp hb)

theorem slash_not_mem_number (n : Nat) : slash ∉ (toString n).toUTF8.toList := by
  intro hmem
  have hdata := (toList_loop_mem _ 0 [] _ hmem).resolve_left List.not_mem_nil
  rw [String.toUTF8, Nat.toString_eq_ofList_toDigits, String.toByteArray_ofList, List.utf8Encode,
    List.toList_data_toByteArray] at hdata
  obtain ⟨c, hc, hbyte⟩ := List.mem_flatMap.mp hdata
  have hdigit := Nat.isDigit_of_mem_toDigits (by decide) (by decide) hc
  rw [Char.isDigit_iff_toNat] at hdigit
  have hzero : (48 : Nat) ≤ c.val.toNat := hdigit.1
  have hnine : c.val.toNat ≤ 57 := hdigit.2
  rw [String.utf8EncodeChar] at hbyte
  rw [if_pos (by omega), List.mem_singleton] at hbyte
  have hvalue := congrArg UInt8.toNat hbyte
  rw [UInt8.toNat_ofNat_of_lt' (by show c.val.toNat < 256; omega)] at hvalue
  have hslash : slash.toNat = 47 := rfl
  omega

section

variable {W H : Type} {os : Os W H} {root : List PathName} {outPath path : PathName} {w w' : W}

/-- The name that is tried with a counter. -/
def numberedName (base ext : PathName) (counter : Nat) : PathName :=
  base ++ [0x20, 0x28] ++ (toString counter).toUTF8.toList ++ [0x29] ++ ext

theorem tryNewFileNameCount_ok {dir base ext : PathName} (hdir : dir.head? = some slash)
    (turns : Nat) : ∀ counter w, tryNewFileNameCount os dir base ext turns counter w = .ok path w' →
      ∃ counter, path = dir ++ numberedName base ext counter := by
  have hkept : (if dir.take 2 = [dot, slash] then dir.drop 2 else dir) = dir := by
    rw [if_neg]
    intro htake
    cases dir with
    | nil => cases htake
    | cons b dir =>
      cases hdir
      exact dot_ne_slash (List.cons.inj htake).1.symm
  induction turns with
  | zero =>
    intro counter w h
    cases h
  | succ turns ih =>
    intro counter w h
    rw [tryNewFileNameCount, hkept] at h
    split at h
    · cases h
    · obtain ⟨there, v, hcall, h⟩ := Program.bind_eq_ok.mp h
      cases hcall
      split at h
      · exact ih _ _ h
      · obtain ⟨rfl, -⟩ := Program.pure_eq_ok.mp h
        exact ⟨counter, by simp only [numberedName, List.append_assoc]⟩

theorem slash_not_mem_numberedName {base ext : PathName} (hbase : slash ∉ base)
    (hext : slash ∉ ext) (counter : Nat) : slash ∉ numberedName base ext counter := by
  have hnumber := slash_not_mem_number counter
  simp only [numberedName, List.mem_append, not_or]
  exact ⟨⟨⟨⟨hbase, by decide⟩, hnumber⟩, by decide⟩, hext⟩

theorem names_numberedName {base ext : PathName} (hbase : slash ∉ base) (hext : slash ∉ ext)
    (counter : Nat) :
    (routeOf (numberedName base ext counter)).steps = [.down (numberedName base ext counter)] := by
  have hslash := slash_not_mem_numberedName hbase hext counter
  have hblank : (0x20 : UInt8) ∈ numberedName base ext counter := by
    simp [numberedName]
  rw [routeOf_part hslash, stepOf, if_neg, if_neg]
  · intro heq
    rw [heq] at hblank
    revert hblank
    decide
  · rintro (heq | heq)
    · rw [heq] at hblank
      cases hblank
    · rw [heq] at hblank
      revert hblank
      decide

/-- A new name is in the directory of the old one. -/
theorem generateNewFilename_inside (hunder : Under root outPath)
    (hlast : names (routeOf outPath).steps = root.reverse →
      names (routeOf (getFileName outPath)).steps = [])
    (h : generateNewFilename os outPath w = .ok path w') : Inside root path := by
  have hslash : slash ∈ outPath := List.mem_of_mem_head? hunder.rooted
  obtain ⟨parentPath, hparent, hpath⟩ := getFileName_split hslash
  have hsplit : splitLastSlash outPath = (some parentPath, getFileName outPath) :=
    Prod.ext hparent rfl
  have hname := slash_not_mem_getFileName outPath
  generalize getFileName outPath = name at hsplit hname hlast hpath
  rw [generateNewFilename, hsplit] at h
  have hparts : slash ∉ (if dot ∈ name then
      ((name.reverse.dropWhile (· ≠ dot)).reverse.dropLast,
        name.drop ((name.reverse.dropWhile (· ≠ dot)).reverse.length - 1)) else (name, [])).1 ∧
      slash ∉ (if dot ∈ name then
      ((name.reverse.dropWhile (· ≠ dot)).reverse.dropLast,
        name.drop ((name.reverse.dropWhile (· ≠ dot)).reverse.length - 1)) else (name, [])).2 := by
    split
    · refine ⟨fun hin => hname ?_, fun hin => hname (List.mem_of_mem_drop hin)⟩
      exact List.mem_reverse.mp ((List.dropWhile_sublist _).subset
        (List.mem_reverse.mp (List.dropLast_subset _ hin)))
    · exact ⟨hname, List.not_mem_nil⟩
  dsimp only at h hparts
  generalize (if dot ∈ name then _ else _ : PathName × PathName) = parts at h hparts
  have hroot : (parentPath ++ [slash]).head? = some slash := by
    have hhead := hunder.rooted
    rw [hpath, ← List.singleton_append, ← List.append_assoc, List.head?_append_of_ne_nil] at hhead
    · exact hhead
    · simp
  obtain ⟨counter, rfl⟩ := tryNewFileNameCount_ok hroot _ _ _ h
  have hsteps : (routeOf (parentPath ++ [slash] ++ numberedName parts.1 parts.2 counter)).steps =
      (routeOf parentPath).steps ++ [.down (numberedName parts.1 parts.2 counter)] := by
    rw [List.append_assoc, List.singleton_append, routeOf_append_slash,
      names_numberedName hparts.1 hparts.2]
  have hold : (routeOf outPath).steps = (routeOf parentPath).steps ++ (routeOf name).steps := by
    rw [hpath, routeOf_append_slash]
  have hfront : root.reverse <+: names (routeOf parentPath).steps := by
    have hnames := hunder.names
    rw [hold, names_append] at hnames hlast
    rcases names_part hname with hnil | hone
    · rwa [hnil, List.append_nil] at hnames
    · rw [hone] at hnames hlast
      refine (List.prefix_concat_iff.mp hnames).resolve_left fun heq => ?_
      cases hlast heq.symm
  have hup := hunder.up
  rw [hold, List.mem_append, not_or] at hup
  have hneat := hunder.neat
  rw [hpath, neat_split hname] at hneat
  refine ⟨⟨?_, ?_, ?_, ?_⟩, fun heq => ?_⟩
  · rwa [List.head?_append_of_ne_nil]
    simp
  · rw [hsteps, List.mem_append, not_or]
    exact ⟨hup.1, by simp⟩
  · rw [hsteps, names_append]
    exact hfront.trans (List.prefix_append _ _)
  · rw [List.append_assoc, List.singleton_append,
      neat_split (slash_not_mem_numberedName hparts.1 hparts.2 counter)]
    exact hneat
  · rw [hsteps, names_append] at heq
    have hle := hfront.length_le
    rw [heq, List.length_append] at hle
    exact absurd hle (by simp [names])

end

end FileApi.Compress
