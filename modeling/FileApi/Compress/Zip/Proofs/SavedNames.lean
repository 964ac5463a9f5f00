import FileApi.Misc.StackPath
import FileApi.Misc.Walk
import FileApi.Compress.Zip.Proofs.AddedFiles

/-!
# The names of the entries

What `GetprefixOfInput` (`zip_writer.c:901-934`) cuts off the paths below an input. The walk makes a
path below the input of the input with a slash at its end and of the names behind it, so a saved
name is what is left of the input's last component, followed by these names.
-/

namespace FileApi.Compress.Zip.Out

open Program Zlib

/-! ## Slashes -/

def dotdot : PathName := [dot, dot]

/-- The path with a slash at its end. -/
def slashed (path : PathName) : PathName :=
  if path.getLast? = some slash then path else path ++ [slash]

theorem slashed_eq_append (path : PathName) : ∃ front, slashed path = front ++ [slash] := by
  rw [slashed]
  split
  · next hlast =>
    obtain ⟨front, rfl⟩ := List.getLast?_eq_some_iff.mp hlast
    exact ⟨front, rfl⟩
  · exact ⟨path, rfl⟩

@[simp] theorem slashed_append_slash (path : PathName) :
    slashed (path ++ [slash]) = path ++ [slash] := by
  rw [slashed, if_pos List.getLast?_concat]

theorem slashed_slashed (path : PathName) : slashed (slashed path) = slashed path := by
  obtain ⟨front, hfront⟩ := slashed_eq_append path
  rw [hfront, slashed_append_slash]

theorem slashed_of_getLast {path : PathName} (h : path.getLast? ≠ some slash) :
    slashed path = path ++ [slash] := if_neg h

theorem prefix_slashed (path : PathName) : path <+: slashed path := by
  rw [slashed]
  split
  · exact List.prefix_refl path
  · exact List.prefix_append path _

theorem slashed_length (path : PathName) : path.length ≤ (slashed path).length :=
  (prefix_slashed path).length_le

theorem slashed_append_inj {dir dir' name name' : PathName} (hname : slash ∉ name)
    (hname' : slash ∉ name') (h : slashed dir ++ name = slashed dir' ++ name') :
    slashed dir = slashed dir' ∧ name = name' := by
  obtain ⟨front, hfront⟩ := slashed_eq_append dir
  obtain ⟨front', hfront'⟩ := slashed_eq_append dir'
  rw [hfront, hfront', List.append_assoc, List.append_assoc] at h
  obtain ⟨rfl, rfl⟩ := StackPath.append_sep_inj hname hname' h
  exact ⟨by rw [hfront, hfront'], rfl⟩

/-! ## The last component of the input -/

/-- The last component of a path, which may be followed by one slash. -/
def lastPart (path : PathName) : PathName :=
  let path := if path.getLast? = some slash then path.dropLast else path
  (path.reverse.takeWhile (· ≠ slash)).reverse

/-- The last component of an input is a name, or the input is `..` itself. -/
def Spelled (infile : PathName) : Prop :=
  infile = dotdot ∨ (lastPart infile ≠ [] ∧ lastPart infile ≠ dotdot)

instance (infile : PathName) : Decidable (Spelled infile) :=
  inferInstanceAs (Decidable (_ ∨ _))

/-- An input is a prefix that is empty or ends in a slash, and a last component that may be followed
by a slash. -/
structure InputSplit (infile front name : PathName) : Prop where
  atSlash : front = [] ∨ front.getLast? = some slash
  slash_not_mem : slash ∉ name
  spelling : (name ≠ [] ∧ infile = front ++ name) ∨ infile = front ++ name ++ [slash]

theorem prefix_split (path : PathName) :
    ∃ name, slash ∉ name ∧ path = (path.reverse.dropWhile (· ≠ slash)).reverse ++ name ∧
      ((path.reverse.dropWhile (· ≠ slash)).reverse = [] ∨
        (path.reverse.dropWhile (· ≠ slash)).reverse.getLast? = some slash) := by
  refine ⟨(path.reverse.takeWhile (· ≠ slash)).reverse, ?_, ?_, ?_⟩
  · intro hmem
    have := List.mem_takeWhile_imp (List.mem_reverse.mp hmem)
    simp at this
  · rw [← List.reverse_append, List.takeWhile_append_dropWhile, List.reverse_reverse]
  · cases hrest : path.reverse.dropWhile (· ≠ slash) with
    | nil => exact .inl rfl
    | cons b rest =>
      right
      have hb := List.head_dropWhile_not (p := (· ≠ slash)) (l := path.reverse)
        (by rw [hrest]; exact List.cons_ne_nil _ _)
      simp only [hrest, List.head_cons] at hb
      have hslash : b = slash := by simpa using hb
      rw [List.getLast?_reverse, List.head?_cons, hslash]

theorem InputSplit.slashed {infile front name : PathName} (h : InputSplit infile front name) :
    slashed infile = front ++ name ++ [slash] := by
  rcases h.spelling with ⟨hne, rfl⟩ | rfl
  · refine slashed_of_getLast fun hlast => ?_
    rw [List.getLast?_append_of_ne_nil _ hne] at hlast
    exact h.slash_not_mem (List.mem_of_getLast? hlast)
  · exact slashed_append_slash _

theorem InputSplit.lastPart {infile front name : PathName} (h : InputSplit infile front name) :
    lastPart infile = name := by
  have hfront : front.reverse.takeWhile (· ≠ slash) = [] := by
    rcases h.atSlash with rfl | hlast
    · rfl
    · obtain ⟨rest, rfl⟩ := List.getLast?_eq_some_iff.mp hlast
      rw [List.reverse_append, List.reverse_singleton, List.singleton_append,
        List.takeWhile_cons_of_neg (by simp)]
  have hname : ∀ b ∈ name.reverse, decide (b ≠ slash) = true := by
    intro b hmem
    refine decide_eq_true fun heq => ?_
    subst heq
    exact h.slash_not_mem (List.mem_reverse.mp hmem)
  have htake : ((front ++ name).reverse.takeWhile (· ≠ slash)).reverse = name := by
    rw [List.reverse_append, List.takeWhile_append_of_pos hname, hfront, List.append_nil,
      List.reverse_reverse]
  rw [Out.lastPart]
  rcases h.spelling with ⟨hne, rfl⟩ | rfl
  · rw [if_neg]
    · exact htake
    · intro hlast
      rw [List.getLast?_append_of_ne_nil _ hne] at hlast
      exact h.slash_not_mem (List.mem_of_getLast? hlast)
  · rw [if_pos List.getLast?_concat, List.dropLast_concat]
    exact htake

theorem InputSplit.of_concat {front name : PathName} (last : UInt8)
    (hfront : front = [] ∨ front.getLast? = some slash) (hname : slash ∉ name) :
    ∃ name', InputSplit (front ++ name ++ [last]) front name' := by
  by_cases hlast : last = slash
  · subst hlast
    exact ⟨name, hfront, hname, .inr rfl⟩
  · refine ⟨name ++ [last], hfront, ?_, .inl ⟨by simp, List.append_assoc _ _ _⟩⟩
    rw [List.mem_append, List.mem_singleton]
    exact not_or.mpr ⟨hname, Ne.symm hlast⟩

/-- What `GetprefixOfInput` cuts off: the current directory and the one above it as a whole, and
otherwise what is in front of the last component. -/
theorem getprefixOfInput_split {infile : PathName} (hne : infile ≠ [])
    (hshort : infile.length < ZIP_FILE_NAME_LEN_MAX) :
    ((infile = [dot] ∨ infile = dotdot) ∧ getprefixOfInput infile = infile ++ [slash]) ∨
    ((infile ≠ [dot] ∧ infile ≠ dotdot) ∧
      ∃ name, InputSplit infile (getprefixOfInput infile) name) := by
  obtain ⟨init, last, rfl⟩ := (List.eq_nil_or_concat' infile).resolve_left hne
  obtain ⟨mid, hmid, hinit, hfront⟩ := prefix_split init
  obtain ⟨name, hsplit⟩ := InputSplit.of_concat last hfront hmid
  rw [← hinit] at hsplit
  have hlong : ¬ ZIP_FILE_NAME_LEN_MAX < (init ++ [last]).length := Nat.not_lt.mpr hshort.le
  rw [getprefixOfInput, List.dropLast_concat]
  by_cases hempty : (init.reverse.dropWhile (· ≠ slash)).reverse = []
  · rw [hempty] at hsplit ⊢
    rw [if_pos (.inr rfl)]
    by_cases hdot : init ++ [last] = [dot]
    · rw [if_pos hdot, hdot]
      exact .inl ⟨.inl rfl, rfl⟩
    · by_cases hdotdot : init ++ [last] = [dot, dot]
      · rw [if_neg hdot, if_pos hdotdot, hdotdot]
        exact .inl ⟨.inr rfl, rfl⟩
      · rw [if_neg hdot, if_neg hdotdot]
        exact .inr ⟨⟨hdot, hdotdot⟩, name, hsplit⟩
  · rw [if_neg (not_or.mpr ⟨hlong, hempty⟩), if_neg]
    · refine .inr ⟨⟨fun hdot => ?_, fun hdotdot => ?_⟩, name, hsplit⟩
      · have hnil : init = [] := (List.append_eq_singleton_iff.mp hdot).elim (·.1) (by simp)
        subst hnil
        exact hempty rfl
      · have hone : init = [dot] := (List.append_inj' (show init ++ [last] = [dot] ++ [dot] from
          hdotdot) rfl).1
        subst hone
        exact hempty rfl
    · have hlength : init.length + 1 < ZIP_FILE_NAME_LEN_MAX := by
        rw [List.length_append] at hshort
        exact hshort
      have hle : (init.reverse.dropWhile (· ≠ slash)).reverse.length ≤ init.length := by
        rw [List.length_reverse]
        exact (List.dropWhile_suffix _).length_le.trans List.length_reverse.le
      omega

/-! ## The paths below an input -/

/-- A name `TraversalDir` takes from a directory. -/
structure Named (name : PathName) : Prop where
  ne_nil : name ≠ []
  slash_not_mem : slash ∉ name
  noNul : 0 ∉ name
  ne_dotdot : name ≠ dotdot

/-- What `readdir` gives: different names, without slashes and terminators. -/
structure SourceOs.Lists {W H : Type} (os : SourceOs W H) : Prop where
  nodup : ∀ path w names, (os.readdir path w).1 = some names → names.Nodup
  ne_nil : ∀ path w names, (os.readdir path w).1 = some names → [] ∉ names
  plain : ∀ path w names, (os.readdir path w).1 = some names →
    ∀ name ∈ names, slash ∉ name ∧ 0 ∉ name

/-- The path is in the directory. -/
def Inside (dir path : PathName) : Prop := ∃ name, Named name ∧ path = slashed dir ++ name

theorem pathAppendSlash_ok {path path' : PathName} (h : pathAppendSlash path = .ok path') :
    path' = slashed path := by
  rw [pathAppendSlash] at h
  by_cases hlong : ZIP_FILE_NAME_LEN_MAX ≤ path.length + 2
  · rw [if_pos hlong] at h
    cases h
  · rw [if_neg hlong] at h
    exact (Except.ok.inj h).symm

theorem childPath_ok {dir name child : PathName} (hdir : dir ≠ [])
    (h : childPath dir name = .ok child) : child = slashed dir ++ name := by
  obtain ⟨full, hfull, h⟩ := FileApi.bind_eq_ok.mp h
  rw [pathCombine, if_pos rfl] at hfull
  split at hfull
  · cases hfull
  · cases hfull
    rw [pathCombine, if_neg hdir] at h
    obtain ⟨appended, happend, h⟩ := FileApi.bind_eq_ok.mp h
    rw [← pathAppendSlash_ok happend]
    split at h
    · cases h
    · cases h
      rfl

theorem ChildrenAt.inside {W H : Type} {os : SourceOs W H} (hlists : SourceOs.Lists os)
    {dir : PathName} (hdir : dir ≠ []) {children : List PathName} {w : W}
    (h : ChildrenAt os dir children w) :
    children.Nodup ∧ ∀ child ∈ children, Inside dir child := by
  rw [ChildrenAt] at h
  cases hread : (os.readdir dir w).1 with
  | none =>
    rw [hread] at h
    subst h
    exact ⟨List.nodup_nil, List.forall_mem_nil _⟩
  | some names =>
    rw [hread] at h
    change List.Forall₂ _ (names.filter goesDown) children at h
    have hchildren : children = (names.filter goesDown).map (slashed dir ++ ·) := by
      generalize names.filter goesDown = taken at h
      induction h with
      | nil => rfl
      | cons hchild _ ih => rw [childPath_ok hdir hchild, ih, List.map_cons]
    subst hchildren
    refine ⟨((hlists.nodup dir w names hread).filter _).map (List.append_right_injective _), ?_⟩
    intro child hmem
    obtain ⟨name, hname, rfl⟩ := List.mem_map.mp hmem
    obtain ⟨hname, hgoes⟩ := List.mem_filter.mp hname
    obtain ⟨hslash, hnul⟩ := hlists.plain dir w names hread name hname
    refine ⟨name, ⟨fun hnil => ?_, hslash, hnul, (of_decide_eq_true hgoes).2⟩, rfl⟩
    subst hnil
    exact hlists.ne_nil dir w names hread hname

/-- Names behind each other. -/
structure Relative (rel : PathName) : Prop where
  ne_nil : rel ≠ []
  head : rel.head? ≠ some slash
  last : rel.getLast? ≠ some slash
  noNul : 0 ∉ rel
  ne_dotdot : dotdot ∉ rel.splitOn slash

theorem Named.relative {name : PathName} (h : Named name) : Relative name where
  ne_nil := h.ne_nil
  head hhead := h.slash_not_mem (List.mem_of_head? hhead)
  last hlast := h.slash_not_mem (List.mem_of_getLast? hlast)
  noNul := h.noNul
  ne_dotdot := by
    rw [List.splitOn_eq_singleton h.slash_not_mem, List.mem_singleton]
    exact h.ne_dotdot.symm

theorem Relative.append {rel more : PathName} (h : Relative rel) (hmore : Relative more) :
    Relative (rel ++ slash :: more) where
  ne_nil := by simp
  head hhead := by
    rw [List.head?_append_of_ne_nil _ h.ne_nil] at hhead
    exact h.head hhead
  last hlast := by
    rw [List.getLast?_append_of_ne_nil _ (List.cons_ne_nil _ _),
      List.getLast?_cons_of_ne_nil hmore.ne_nil] at hlast
    exact hmore.last hlast
  noNul := by
    rw [List.mem_append, List.mem_cons, not_or, not_or]
    exact ⟨h.noNul, by decide, hmore.noNul⟩
  ne_dotdot := by
    rw [List.splitOn_append_cons_self, List.mem_append, not_or]
    exact ⟨h.ne_dotdot, hmore.ne_dotdot⟩

/-- A path the walk of an input comes to. -/
def Node (infile path : PathName) : Prop :=
  path = infile ∨ ∃ rel, Relative rel ∧ path = slashed infile ++ rel

theorem Node.ne_nil {infile path : PathName} (hne : infile ≠ []) (h : Node infile path) :
    path ≠ [] := by
  rcases h with rfl | ⟨rel, hrel, rfl⟩
  · exact hne
  · exact List.append_ne_nil_of_right_ne_nil _ hrel.ne_nil

theorem slashed_below {infile rel : PathName} (h : Relative rel) :
    slashed (slashed infile ++ rel) = slashed infile ++ (rel ++ [slash]) := by
  rw [← List.append_assoc]
  refine slashed_of_getLast ?_
  rw [List.getLast?_append_of_ne_nil _ h.ne_nil]
  exact h.last

theorem Node.child {infile dir path : PathName} (h : Node infile dir) (hpath : Inside dir path) :
    Node infile path := by
  obtain ⟨name, hname, rfl⟩ := hpath
  rcases h with rfl | ⟨rel, hrel, rfl⟩
  · exact .inr ⟨name, hname.relative, rfl⟩
  · refine .inr ⟨rel ++ slash :: name, hrel.append hname.relative, ?_⟩
    rw [slashed_below hrel, List.append_assoc, List.append_assoc]
    rfl

theorem Node.eq_of_slashed {infile path path' : PathName} (h : Node infile path)
    (h' : Node infile path') (heq : slashed path = slashed path') : path = path' := by
  rcases h with rfl | ⟨rel, hrel, rfl⟩
  · rcases h' with rfl | ⟨rel', hrel', rfl⟩
    · rfl
    · have hlength := congrArg List.length heq
      rw [slashed_below hrel', List.length_append, List.length_append, List.length_singleton]
        at hlength
      omega
  · rcases h' with rfl | ⟨rel', hrel', rfl⟩
    · have hlength := congrArg List.length heq
      rw [slashed_below hrel, List.length_append, List.length_append, List.length_singleton]
        at hlength
      omega
    · rw [slashed_below hrel, slashed_below hrel', ← List.append_assoc, ← List.append_assoc] at heq
      exact (List.append_inj' heq rfl).1

theorem Inside.unique {infile dir dir' path : PathName} (hdir : Node infile dir)
    (hdir' : Node infile dir') (h : Inside dir path) (h' : Inside dir' path) : dir = dir' := by
  obtain ⟨name, hname, hpath⟩ := h
  obtain ⟨name', hname', hpath'⟩ := h'
  have heq := slashed_append_inj hname.slash_not_mem hname'.slash_not_mem (hpath.symm.trans hpath')
  exact hdir.eq_of_slashed hdir' heq.1

theorem Inside.ne_root {infile dir : PathName} (hdir : Node infile dir) : ¬ Inside dir infile := by
  rintro ⟨name, hname, heq⟩
  have hlength := congrArg List.length heq
  have hpos := List.length_pos_of_ne_nil hname.ne_nil
  have hslashed : infile.length ≤ (slashed dir).length := by
    rcases hdir with rfl | ⟨rel, hrel, rfl⟩
    · exact slashed_length dir
    · have hinfile := slashed_length infile
      rw [slashed_below hrel, List.length_append]
      omega
  rw [List.length_append] at hlength
  omega

/-! ## The saved names -/

/-- A name as the archive should have it. -/
structure CleanName (name : PathName) : Prop where
  ne_nil : name ≠ []
  relative : name.head? ≠ some slash
  ne_dotdot : dotdot ∉ name.splitOn slash

instance (name : PathName) : Decidable (CleanName name) :=
  decidable_of_iff (name ≠ [] ∧ name.head? ≠ some slash ∧ dotdot ∉ name.splitOn slash)
    ⟨fun h => ⟨h.1, h.2.1, h.2.2⟩, fun h => ⟨h.ne_nil, h.relative, h.ne_dotdot⟩⟩

/-- The name under which a path is saved when `front` is cut off: a directory has a slash behind
it. -/
structure Saved (front path name : PathName) : Prop where
  inside : front <+: path
  name : front ++ name = path ∨ front ++ name = slashed path

theorem Saved.file {front path : PathName} (h : front <+: path) :
    Saved front path (path.drop front.length) :=
  ⟨h, .inl (List.prefix_iff_eq_append.mp h)⟩

theorem Saved.directory {front path : PathName} (h : front <+: path) :
    Saved front path (directoryName front path) :=
  ⟨h, .inr (List.prefix_iff_eq_append.mp (h.trans (prefix_slashed path)))⟩

theorem Saved.slashed {front path name : PathName} (h : Saved front path name) :
    slashed (front ++ name) = slashed path := by
  rcases h.name with heq | heq
  · rw [heq]
  · rw [heq, slashed_slashed]

theorem Relative.clean {rel name : PathName} (h : Relative rel)
    (hname : name = rel ∨ name = rel ++ [slash]) : CleanName name := by
  rcases hname with rfl | rfl
  · exact ⟨h.ne_nil, h.head, h.ne_dotdot⟩
  · refine ⟨by simp, ?_, ?_⟩
    · rw [List.head?_append_of_ne_nil _ h.ne_nil]
      exact h.head
    · rw [List.splitOn_append_cons_self, List.mem_append, not_or]
      exact ⟨h.ne_dotdot, by decide⟩

theorem slashed_noNul {path : PathName} (h : 0 ∉ path) : 0 ∉ slashed path := by
  rw [Out.slashed]
  split
  · exact h
  · rw [List.mem_append, not_or]
    exact ⟨h, by decide⟩

theorem Node.noNul {infile path : PathName} (hnul : 0 ∉ infile) (h : Node infile path) :
    0 ∉ path := by
  rcases h with rfl | ⟨rel, hrel, rfl⟩
  · exact hnul
  · rw [List.mem_append, not_or]
    exact ⟨slashed_noNul hnul, hrel.noNul⟩

theorem Saved.noNul {front path name : PathName} (hnul : 0 ∉ path) (h : Saved front path name) :
    0 ∉ name := by
  intro hmem
  have hall : 0 ∈ front ++ name := List.mem_append_right _ hmem
  rcases h.name with heq | heq
  · exact hnul (heq ▸ hall)
  · exact slashed_noNul hnul (heq ▸ hall)

theorem Saved.root {infile front part name : PathName} (hsplit : InputSplit infile front part)
    (h : Saved front infile name) : name = part ∨ name = part ++ [slash] := by
  have hwith : front ++ name = front ++ part ++ [slash] → name = part ++ [slash] := by
    rw [List.append_assoc]
    exact List.append_cancel_left
  rcases h.name with heq | heq
  · rcases hsplit.spelling with ⟨-, hinfile⟩ | hinfile
    · exact .inl (List.append_cancel_left (heq.trans hinfile))
    · exact .inr (hwith (heq.trans hinfile))
  · exact .inr (hwith (heq.trans hsplit.slashed))

theorem Saved.below {infile front stem rel name : PathName}
    (hslashed : Out.slashed infile = front ++ stem) (hrel : Relative rel)
    (h : Saved front (Out.slashed infile ++ rel) name) :
    name = stem ++ rel ∨ name = stem ++ rel ++ [slash] := by
  rcases h.name with heq | heq
  · rw [hslashed, List.append_assoc] at heq
    exact .inl (List.append_cancel_left heq)
  · rw [slashed_below hrel, hslashed, List.append_assoc, ← List.append_assoc stem] at heq
    exact .inr (List.append_cancel_left heq)

/-- A path that is there: it is short enough for the calls, which find it. -/
structure SourceOs.Exists {W H : Type} (os : SourceOs W H) (path : PathName) : Prop where
  ne_nil : path ≠ []
  noNul : 0 ∉ path
  short : path.length < ZIP_FILE_NAME_LEN_MAX
  access : ∀ w, (os.access path w).1 = true

/-- If the input is spelled with a last component, every path below it is saved under a clean
name. -/
theorem Saved.clean {infile path name : PathName} (hne : infile ≠ []) (hnul : 0 ∉ infile)
    (hshort : infile.length < ZIP_FILE_NAME_LEN_MAX) (hspelled : Spelled infile)
    (hnode : Node infile path) (h : Saved (getprefixOfInput infile) path name) :
    CleanName name := by
  rcases getprefixOfInput_split hne hshort with ⟨hdots, hfront⟩ | ⟨⟨-, hdotdot⟩, part, hsplit⟩
  · have hslashed : Out.slashed infile = getprefixOfInput infile ++ [] := by
      rw [hfront, List.append_nil]
      rcases hdots with rfl | rfl
      · rfl
      · rfl
    rcases hnode with rfl | ⟨rel, hrel, rfl⟩
    · have hlength := h.inside.length_le
      rw [hfront, List.length_append, List.length_singleton] at hlength
      omega
    · exact hrel.clean (h.below hslashed hrel)
  · obtain ⟨hpart, hne'⟩ := hspelled.resolve_left hdotdot
    rw [hsplit.lastPart] at hpart hne'
    have hpartNul : 0 ∉ part := by
      intro hmem
      refine hnul ?_
      rcases hsplit.spelling with ⟨-, hinfile⟩ | hinfile
      · rw [hinfile]
        exact List.mem_append_right _ hmem
      · rw [hinfile]
        exact List.mem_append_left _ (List.mem_append_right _ hmem)
    have hnamed : Named part := ⟨hpart, hsplit.slash_not_mem, hpartNul, hne'⟩
    rcases hnode with rfl | ⟨rel, hrel, rfl⟩
    · exact hnamed.relative.clean (h.root hsplit)
    · refine (hnamed.relative.append hrel).clean ?_
      have hbelow := h.below (hsplit.slashed.trans (List.append_assoc _ _ _)) hrel
      rw [List.append_assoc] at hbelow
      exact hbelow

theorem Saved.not_clean {infile name : PathName} (hne : infile ≠ [])
    (hshort : infile.length < ZIP_FILE_NAME_LEN_MAX) (hspelled : ¬ Spelled infile)
    (h : Saved (getprefixOfInput infile) infile name) : ¬ CleanName name := by
  obtain ⟨hdotdot, hlast⟩ := not_or.mp hspelled
  rcases getprefixOfInput_split hne hshort with ⟨hdots, hfront⟩ | ⟨-, part, hsplit⟩
  · have hlength := h.inside.length_le
    rw [hfront, List.length_append, List.length_singleton] at hlength
    omega
  · rw [hsplit.lastPart, not_and_or, not_not, not_not] at hlast
    rcases hlast with rfl | rfl
    · rcases h.root hsplit with rfl | rfl
      · decide
      · decide
    · rcases h.root hsplit with rfl | rfl
      · decide
      · decide

/-! ## The walk -/

/-- The walk of an input, with the names that were saved. -/
structure Walked (infile : PathName) (visited queue names : List PathName) : Prop where
  walk : Walk Inside infile visited queue
  nodes : ∀ path ∈ visited ++ queue, Node infile path
  saved : ∀ name ∈ names, ∃ path ∈ visited, Saved (getprefixOfInput infile) path name
  nodup : names.Nodup

theorem Walked.start (infile : PathName) : Walked infile [] [infile] [] where
  walk := .start
  nodes _ hmem := .inl (List.mem_singleton.mp hmem)
  saved := nofun
  nodup := List.nodup_nil

section

variable {infile path : PathName} {visited queue names children : List PathName}

theorem Walked.node (h : Walked infile visited (path :: queue) names) : Node infile path :=
  h.nodes path (List.mem_append_right _ List.mem_cons_self)

theorem Walked.name_not_mem (h : Walked infile visited (path :: queue) names) {name : PathName}
    (hname : Saved (getprefixOfInput infile) path name) : name ∉ names := by
  intro hmem
  obtain ⟨other, hother, hsaved⟩ := h.saved name hmem
  have heq : slashed path = slashed other := hname.slashed.symm.trans hsaved.slashed
  have hpath := h.node.eq_of_slashed (h.nodes other (List.mem_append_left _ hother)) heq
  subst hpath
  exact h.walk.not_mem hother

theorem Walked.step (h : Walked infile visited (path :: queue) names) (hnodup : children.Nodup)
    (hchildren : ∀ child ∈ children, Inside path child) {more : List PathName}
    (hmore : more.length ≤ 1)
    (hsaved : ∀ name ∈ more, Saved (getprefixOfInput infile) path name) :
    Walked infile (visited ++ [path]) (queue ++ children) (names ++ more) where
  walk := h.walk.step hnodup hchildren (fun hmem => Inside.ne_root h.node (hchildren infile hmem))
    fun parent hparent child hmem hinside => hinside.unique
      (h.nodes parent (List.mem_append_left _ hparent)) h.node (hchildren child hmem)
  nodes other hmem := by
    have hsplit : visited ++ [path] ++ (queue ++ children) =
        visited ++ path :: queue ++ children := by
      simp only [List.append_assoc, List.cons_append, List.nil_append]
    rw [hsplit] at hmem
    rcases List.mem_append.mp hmem with hold | hchild
    · exact h.nodes other hold
    · exact h.node.child (hchildren other hchild)
  saved name hmem := by
    rcases List.mem_append.mp hmem with hold | hnew
    · obtain ⟨other, hother, hname⟩ := h.saved name hold
      exact ⟨other, List.mem_append_left _ hother, hname⟩
    · exact ⟨path, List.mem_append_right _ (List.mem_singleton.mpr rfl), hsaved name hnew⟩
  nodup := by
    rw [List.nodup_append]
    refine ⟨h.nodup, ?_, ?_⟩
    · match more with
      | [] => exact List.nodup_nil
      | [name] => exact List.nodup_singleton name
    · rintro name hold _ hnew rfl
      exact h.name_not_mem (hsaved name hnew) hold

variable {B : Type}

/-- The entries that were added have these names. -/
def AddsNames (writer writer' : ArchiveWriter B) (names : List PathName) : Prop :=
  ∃ added, writer'.entries = writer.entries ++ added ∧
    added.map (·.filename.bytes) = names.map cstr

theorem AddsNames.nil (writer : ArchiveWriter B) : AddsNames writer writer [] :=
  ⟨[], (List.append_nil _).symm, rfl⟩

theorem AddsNames.append {writer mid writer' : ArchiveWriter B} {more : List PathName}
    (h : AddsNames writer mid names) (h' : AddsNames mid writer' more) :
    AddsNames writer writer' (names ++ more) := by
  obtain ⟨added, hentries, hnames⟩ := h
  obtain ⟨added', hentries', hnames'⟩ := h'
  refine ⟨added ++ added', ?_, ?_⟩
  · rw [hentries', hentries, List.append_assoc]
  · rw [List.map_append, List.map_append, hnames, hnames']

variable [StreamOps B] {W H : Type} {D : Decoder} {Z : Deflate D} {os : SourceOs W H} {fuel : Nat}
  {archive : WriteMethod}

omit [StreamOps B] in
theorem AddsEntry.addsNames {writer writer' : ArchiveWriter B} {name : PathName}
    (h : AddsEntry writer writer' name) : AddsNames writer writer' [name] := by
  obtain ⟨e, hentries, hname⟩ := h.entries
  exact ⟨[e], hentries, congrArg (fun n => [n]) hname⟩

omit [StreamOps B] in
/-- A step of the walk saves at most one name; it does save one of a path that is there, if that is
not the current directory or the one above. -/
theorem NodeStep.saves (hlists : SourceOs.Lists os) (hpath : path ≠ []) {front : PathName}
    {writer writer' : ArchiveWriter B} {w : W}
    (h : NodeStep os front path w writer writer' children) :
    children.Nodup ∧ (∀ child ∈ children, Inside path child) ∧
      ∃ more, AddsNames writer writer' more ∧ more.length ≤ 1 ∧
        (∀ name ∈ more, Saved front path name) ∧
        (isValidFolderEnd path = true → (∀ w, (os.access path w).1 = true) → more ≠ []) := by
  cases h with
  | directory isDir valid inside adds found =>
    obtain ⟨hnodup, hinside⟩ := found.inside hlists hpath
    refine ⟨hnodup, hinside, [directoryName front path], adds.addsNames, le_rfl, ?_, ?_⟩
    · intro name hmem
      rw [List.mem_singleton.mp hmem]
      exact .directory inside
    · exact fun _ _ => List.cons_ne_nil _ _
  | dots isDir valid same found =>
    obtain ⟨hnodup, hinside⟩ := found.inside hlists hpath
    subst same
    refine ⟨hnodup, hinside, [], .nil writer', Nat.zero_le 1, nofun, fun hvalid => ?_⟩
    rw [valid] at hvalid
    cases hvalid
  | file notDir inside adds =>
    refine ⟨List.nodup_nil, nofun, [path.drop front.length], adds.addsNames, le_rfl, ?_, ?_⟩
    · intro name hmem
      rw [List.mem_singleton.mp hmem]
      exact .file inside
    · exact fun _ _ => List.cons_ne_nil _ _
  | @gone mid notDir same gone =>
    subst same
    refine ⟨List.nodup_nil, nofun, [], .nil writer', Nat.zero_le 1, nofun, fun _ hthere => ?_⟩
    rw [hthere mid] at gone
    cases gone

/-- At the end of the walk every name that was saved is that of a path below the input, and what
was queued and is there has its name. -/
theorem zipWriterAddQueue_walked (hlists : SourceOs.Lists os) (hne : infile ≠ []) (turns : Nat) :
    ∀ {visited queue names : List PathName} {writer writer' : ArchiveWriter B} {w w' : W},
      Walked infile visited queue names →
      zipWriterAddQueue Z os fuel archive (getprefixOfInput infile) turns writer queue w =
        .ok writer' w' →
      ∃ last more, AddsNames writer writer' more ∧ Walked infile last [] (names ++ more) ∧
        ∀ path ∈ queue, isValidFolderEnd path = true → (∀ w, (os.access path w).1 = true) →
          ∃ name ∈ more, Saved (getprefixOfInput infile) path name := by
  induction turns with
  | zero =>
    intro visited queue names writer writer' w w' hwalked h
    cases queue with
    | nil =>
      rw [← (Program.pure_eq_ok.mp h).1]
      exact ⟨visited, [], .nil writer, by rwa [List.append_nil], nofun⟩
    | cons path queue => cases h
  | succ turns ih =>
    intro visited queue names writer writer' w w' hwalked h
    cases queue with
    | nil =>
      rw [← (Program.pure_eq_ok.mp h).1]
      exact ⟨visited, [], .nil writer, by rwa [List.append_nil], nofun⟩
    | cons path queue =>
      obtain ⟨⟨mid, queued⟩, next, hnode, h⟩ := Program.bind_eq_ok.mp h
      obtain ⟨children, rfl, hstep⟩ := zipWriterAddNode_step hnode
      obtain ⟨hnodup, hinside, more, hadds, hone, hsaved, hthere⟩ :=
        hstep.saves hlists (hwalked.node.ne_nil hne)
      obtain ⟨last, rest, hrest, hlast, hqueued⟩ :=
        ih (hwalked.step hnodup hinside hone hsaved) h
      refine ⟨last, more ++ rest, hadds.append hrest, ?_, ?_⟩
      · rw [← List.append_assoc]
        exact hlast
      · intro other hmem hvalid haccess
        rcases List.mem_cons.mp hmem with rfl | hmem
        · obtain ⟨name, hname⟩ := List.exists_mem_of_ne_nil _ (hthere hvalid haccess)
          exact ⟨name, List.mem_append_left _ hname, hsaved name hname⟩
        · obtain ⟨name, hname, hother⟩ :=
            hqueued other (List.mem_append_left _ hmem) hvalid haccess
          exact ⟨name, List.mem_append_right _ hname, hother⟩

/-- The names are clean, and no two of them are the same. -/
def CleanNames (names : List PathName) : Prop := (∀ name ∈ names, CleanName name) ∧ names.Nodup

instance (names : List PathName) : Decidable (CleanNames names) :=
  inferInstanceAs (Decidable (_ ∧ _))

/-- Adding an input that is there gives its entries clean names exactly if the last component of
the input is a name, or the input is the directory above. -/
theorem zipWriterAddOnePath_names (hlists : SourceOs.Lists os) (hexists : SourceOs.Exists os infile)
    {writer writer' : ArchiveWriter B} {w w' : W}
    (h : zipWriterAddOnePath Z os fuel archive writer infile w = .ok writer' w') :
    ∃ added, writer'.entries = writer.entries ++ added ∧
      (CleanNames (added.map (·.filename.bytes)) ↔ Spelled infile) := by
  obtain ⟨last, names, ⟨added, hentries, hnames⟩, hwalked, hroot⟩ :=
    zipWriterAddQueue_walked hlists hexists.ne_nil fuel (.start infile) h
  rw [List.nil_append] at hwalked
  have hnode : ∀ path ∈ last, Node infile path := fun path hmem =>
    hwalked.nodes path (List.mem_append_left _ hmem)
  have hsame : names.map cstr = names := by
    rw [List.map_congr_left (g := id) fun name hmem => ?_, List.map_id]
    obtain ⟨path, hpath, hsaved⟩ := hwalked.saved name hmem
    exact cstr_of_noNul (hsaved.noNul ((hnode path hpath).noNul hexists.noNul))
  refine ⟨added, hentries, ?_⟩
  rw [hnames, hsame]
  constructor
  · intro hclean
    by_contra hspelled
    have hvalid : isValidFolderEnd infile = true := by
      refine decide_eq_true ⟨hexists.ne_nil, fun hdot => ?_, fun hdotdot => hspelled (.inl hdotdot)⟩
      subst hdot
      exact hspelled (by decide)
    obtain ⟨name, hmem, hsaved⟩ :=
      hroot infile (List.mem_singleton.mpr rfl) hvalid hexists.access
    exact hsaved.not_clean hexists.ne_nil hexists.short hspelled (hclean.1 name hmem)
  · intro hspelled
    refine ⟨fun name hmem => ?_, hwalked.nodup⟩
    obtain ⟨path, hpath, hsaved⟩ := hwalked.saved name hmem
    exact hsaved.clean hexists.ne_nil hexists.noNul hexists.short hspelled (hnode path hpath)

end

/-! ### A tree of three levels -/

/-- The names from the current directory on, with every `..` taken back. -/
def resolved (path : PathName) : List PathName :=
  (path.splitOn slash).foldl (fun names name =>
    if name = [] ∨ name = [dot] then names
    else if name = dotdot then names.dropLast
    else names ++ [name]) []

/-- The current directory has the directory `d`, that one `e`, and there is the file `f`. -/
def nestedDirectory : SourceOs Unit Unit where
  stat path w :=
    (if resolved path <+: [[0x64], [0x65]] then some ⟨true, 0⟩
      else if resolved path = [[0x64], [0x65], [0x66]] then some ⟨false, 0⟩ else none, w)
  lstat _ w := (none, w)
  readlink _ w := (none, w)
  access _ w := (true, w)
  readdir path w := (some (([[0x64], [0x65], [0x66]].drop (resolved path).length).take 1), w)
  realpath path w := (.ok path, w)
  fopen _ w := (.ok (), w)
  fread _ _ w := (.ok [], w)
  fclose _ w := (true, w)
  currentDosDateTime w := (0, w)
  cancels w := (false, w)

theorem nestedDirectory_lists : SourceOs.Lists nestedDirectory := by
  have hsub : ∀ path w names, (nestedDirectory.readdir path w).1 = some names →
      names.Sublist [[0x64], [0x65], [0x66]] := by
    rintro path w names ⟨⟩
    exact (List.take_sublist _ _).trans (List.drop_sublist _ _)
  have hplain : ∀ name ∈ [[0x64], [0x65], [0x66]], name ≠ [] ∧ slash ∉ name ∧ 0 ∉ name := by
    decide
  exact ⟨fun path w names h => (hsub path w names h).nodup (by decide),
    fun path w names h hnil => (hplain [] ((hsub path w names h).subset hnil)).1 rfl,
    fun path w names h name hmem => (hplain name ((hsub path w names h).subset hmem)).2⟩

theorem nestedDirectory_added (infile : PathName) (names : List PathName)
    (h : (result (zipWriterAddOnePath lettersDeflate nestedDirectory 9 ⟨0, 6⟩
      { base := ByteFile.mk [] 0 } infile) ()).map
        (fun r => r.1.entries.map (·.filename.bytes)) = some names) :
    ∃ writer, zipWriterAddOnePath lettersDeflate nestedDirectory 9 ⟨0, 6⟩
      { base := ByteFile.mk [] 0 } infile () = .ok writer () ∧
      writer.entries.map (·.filename.bytes) = names := by
  obtain ⟨⟨writer, w⟩, hresult, hnames⟩ := Option.map_eq_some_iff.mp h
  exact ⟨writer, result_eq_some.mp hresult, hnames⟩

/-- Spelled `.//d/`, the directory `d` and what is in it have clean names. -/
theorem zipWriterAddOnePath_names_nestedDirectory :
    ∃ writer, zipWriterAddOnePath lettersDeflate nestedDirectory 9 ⟨0, 6⟩
      { base := ByteFile.mk [] 0 } [dot, slash, slash, 0x64, slash] () = .ok writer () ∧
      writer.entries.length = 3 ∧ CleanNames (writer.entries.map (·.filename.bytes)) := by
  obtain ⟨writer, hrun, hnames⟩ := nestedDirectory_added [dot, slash, slash, 0x64, slash]
    [[0x64, slash], [0x64, slash, 0x65, slash], [0x64, slash, 0x65, slash, 0x66]] (by decide +kernel)
  obtain ⟨added, hentries, hiff⟩ := zipWriterAddOnePath_names nestedDirectory_lists
    ⟨by decide, by decide, by decide, fun _ => rfl⟩ hrun
  refine ⟨writer, hrun, by simpa using congrArg List.length hnames, ?_⟩
  rw [hentries]
  exact hiff.mpr (by decide)

/-- As `d/..`, the current directory has the name `../`, and all that is in it begins with it. -/
theorem zipWriterAddOnePath_not_clean :
    SourceOs.Lists nestedDirectory ∧ SourceOs.Exists nestedDirectory [0x64, slash, dot, dot] ∧
      ∃ writer, zipWriterAddOnePath lettersDeflate nestedDirectory 9 ⟨0, 6⟩
        { base := ByteFile.mk [] 0 } [0x64, slash, dot, dot] () = .ok writer () ∧
        ¬ CleanNames (writer.entries.map (·.filename.bytes)) := by
  obtain ⟨writer, hrun, hnames⟩ := nestedDirectory_added [0x64, slash, dot, dot]
    [dotdot ++ [slash], dotdot ++ [slash, 0x64, slash], dotdot ++ [slash, 0x64, slash, 0x65, slash],
      dotdot ++ [slash, 0x64, slash, 0x65, slash, 0x66]] (by decide +kernel)
  refine ⟨nestedDirectory_lists, ⟨by decide, by decide, by decide, fun _ => rfl⟩, writer, hrun, ?_⟩
  rw [hnames]
  decide

end FileApi.Compress.Zip.Out
