import FileApi.Misc.StackPath
import FileApi.ModFile.Uri
import FileApi.ModFs.Proofs.RealPath
import Mathlib.Algebra.Group.Nat.Even

/-!
# Uris and directories

A path leads up some levels from where it starts and down some names from there. `UriToAbsolute` does
to a stack what the path says, but with nothing on the stack a double dot is pushed as if it were a
name, and the next one takes it away. `CheckUri` does not look at double dots.
-/

namespace FileApi.ModFile

open Compress StackPath Zip
open ModFs.Copy (AllPlain render)

/-! ## Parts -/

theorem uriSplitLoop_eq (temp path : PathName) :
    uriSplitLoop temp (path ++ [slash]) = (path.splitOn slash).modifyHead (temp.reverse ++ ·) := by
  induction path generalizing temp with
  | nil =>
    rw [List.nil_append, uriSplitLoop, if_pos rfl, uriSplitLoop, List.splitOn_nil]
    simp
  | cons b path ih =>
    rw [List.cons_append, uriSplitLoop, List.splitOn_cons_eq_if_modifyHead]
    by_cases hb : b = slash
    · rw [if_pos hb, ih, if_pos (by simpa using hb)]
      obtain ⟨first, rest, hparts⟩ := List.exists_cons_of_ne_nil (List.splitOn_ne_nil slash path)
      rw [hparts]
      simp
    · rw [if_neg hb, ih, if_neg (by simpa using hb)]
      obtain ⟨first, rest, hparts⟩ := List.exists_cons_of_ne_nil (List.splitOn_ne_nil slash path)
      rw [hparts]
      simp

theorem uriSplit_eq (path : PathName) : uriSplit path = path.splitOn slash := by
  rw [uriSplit, uriSplitLoop_eq]
  obtain ⟨first, rest, hparts⟩ := List.exists_cons_of_ne_nil (List.splitOn_ne_nil slash path)
  rw [hparts]
  rfl

theorem slash_not_mem_uriSplit {path part : PathName} (h : part ∈ uriSplit path) : slash ∉ part := by
  rw [uriSplit_eq] at h
  exact ModFs.not_mem_of_mem_splitOn h

/-! ## The stack -/

/-- What a double dot does to the stack. -/
def uriUp (uriResult : List PathName) : List PathName :=
  if uriResult = [] then [[dot, dot]] else uriResult.tail

theorem iterate_uriUp_nil (n : Nat) : uriUp^[n] [] = if Even n then [] else [[dot, dot]] := by
  induction n with
  | zero => rfl
  | succ n ih =>
    rw [Function.iterate_succ_apply', ih]
    by_cases heven : Even n
    · rw [if_pos heven, if_neg (by simpa [Nat.even_add_one] using heven)]
      rfl
    · rw [if_neg heven, if_pos (by simpa [Nat.even_add_one] using heven)]
      rfl

theorem iterate_uriUp {stack : List PathName} {n : Nat} (h : n ≤ stack.length) :
    uriUp^[n] stack = stack.drop n := by
  induction n with
  | zero => rfl
  | succ n ih =>
    have hne : stack.drop n ≠ [] := by
      rw [Ne, List.drop_eq_nil_iff]
      omega
    rw [Function.iterate_succ_apply', ih (by omega), uriUp, if_neg hne, List.tail_drop]

theorem iterate_uriUp_above {stack : List PathName} {n : Nat} (h : stack.length ≤ n) :
    uriUp^[n] stack = if Even (n - stack.length) then [] else [[dot, dot]] := by
  obtain ⟨m, rfl⟩ := Nat.exists_eq_add_of_le' h
  rw [Function.iterate_add_apply, iterate_uriUp le_rfl, List.drop_length, iterate_uriUp_nil,
    Nat.add_sub_cancel]

theorem foldl_uriPush (parts stack : List PathName) :
    parts.foldl uriPush stack =
      (climb dot parts).names ++ uriUp^[(climb dot parts).levels] stack := by
  have hhere : ∀ (s : List PathName) (c : PathName), c = [] ∨ c = [dot] → uriPush s c = s :=
    fun s c h => if_pos h.symm
  have hup : ∀ s : List PathName, uriPush s [dot, dot] = uriUp s := by
    intro s
    rw [uriPush, if_neg (by decide), uriUp]
    by_cases hs : s = []
    · rw [if_neg (fun h => h.2 hs), if_pos hs, hs]
    · rw [if_pos ⟨rfl, hs⟩, if_neg hs]
  have hdown : ∀ (s : List PathName) (c : PathName), ¬ (c = [] ∨ c = [dot]) → c ≠ [dot, dot] →
      uriPush s c = c :: s := by
    intro s c hc hdots
    rw [uriPush, if_neg (fun h => hc h.symm), if_neg (fun h => hdots h.1)]
  exact foldl_climb hhere hup (fun c s => rfl) hdown parts stack

theorem foldl_uriPush_components (path : PathName) (stack : List PathName) :
    (uriSplit path).foldl uriPush stack = (components slash dot path).foldl uriPush stack := by
  rw [uriSplit_eq, components]
  generalize path.splitOn slash = parts
  induction parts generalizing stack with
  | nil => rfl
  | cons part parts ih =>
    rw [List.foldl_cons, ih]
    by_cases hpart : part = [] ∨ part = [dot]
    · have hhere : uriPush stack part = stack := if_pos hpart.symm
      rw [List.filter_cons_of_neg (by simpa using fun hne => hpart.resolve_left hne), hhere]
    · rw [List.filter_cons_of_pos (by simpa using not_or.mp hpart), List.foldl_cons]

theorem foldl_uriPush_plain {names : List PathName} (h : AllPlain names) (stack : List PathName) :
    names.foldl uriPush stack = names.reverse ++ stack := by
  induction names generalizing stack with
  | nil => rfl
  | cons name names ih =>
    obtain ⟨hne, hdot, hdots, -⟩ := h name List.mem_cons_self
    have hpush : uriPush stack name = name :: stack := by
      rw [uriPush, if_neg (not_or.mpr ⟨hdot, hne⟩), if_neg (fun h => hdots h.1)]
    rw [List.foldl_cons, hpush, ih fun n hn => h n (List.mem_cons_of_mem _ hn), List.reverse_cons,
      List.append_assoc]
    rfl

theorem uriPop_eq (stack : List PathName) (path : PathName) :
    uriPop stack path = stack.reverse.flatMap (slash :: ·) ++ path := by
  induction stack generalizing path with
  | nil => rfl
  | cons top rest ih =>
    rw [uriPop, ih, List.reverse_cons, List.flatMap_append]
    simp

/-! ## `UriToAbsolute` -/

/-- The names that are left of a path, and a double dot in front of them if it climbs above the root
an odd number of times. -/
def uriParts (path : PathName) : List PathName :=
  let r := climb dot (uriSplit path)
  (if Even r.levels then [] else [[dot, dot]]) ++ r.names.reverse

theorem plain_climb {parts : List PathName} (h : ∀ part ∈ parts, slash ∉ part) :
    AllPlain (climb dot parts).names := by
  intro name hname
  obtain ⟨hmem, hne, hdot, hdots⟩ := mem_climb_names hname
  exact ⟨hne, hdot, hdots, h name hmem⟩

theorem foldl_uriSplit (path : PathName) :
    (uriSplit path).foldl uriPush [] = (uriParts path).reverse := by
  have hodd : ∀ n : Nat, uriUp^[n] [] = (if Even n then [] else [[dot, dot]]).reverse := by
    intro n
    rw [iterate_uriUp_nil]
    split <;> rfl
  rw [foldl_uriPush, hodd, uriParts, List.reverse_append, List.reverse_reverse]

theorem uriToAbsolute_eq (path : PathName) :
    uriToAbsolute path = (uriParts path).flatMap (slash :: ·) := by
  rw [uriToAbsolute, uriPop_eq, foldl_uriSplit, List.reverse_reverse, List.append_nil]

theorem components_uriToAbsolute (path : PathName) :
    components slash dot (uriToAbsolute path) = uriParts path := by
  have hplain : AllPlain (climb dot (uriSplit path)).names :=
    plain_climb fun part => slash_not_mem_uriSplit
  rw [uriToAbsolute_eq, components_flatMap]
  intro part hpart
  rcases List.mem_append.mp hpart with hdots | hname
  · split at hdots
    · cases hdots
    · rw [List.mem_singleton.mp hdots]
      decide
  · obtain ⟨hne, hdot, -, hslash⟩ := hplain part (List.mem_reverse.mp hname)
    exact ⟨hslash, hne, hdot⟩

theorem uriToAbsolute_idem (path : PathName) :
    uriToAbsolute (uriToAbsolute path) = uriToAbsolute path := by
  have hnames : AllPlain (climb dot (uriSplit path)).names.reverse := fun name hname =>
    plain_climb (fun part => slash_not_mem_uriSplit) name (List.mem_reverse.mp hname)
  have hstack : (uriParts path).foldl uriPush [] = (uriParts path).reverse := by
    rw [uriParts, List.foldl_append, foldl_uriPush_plain hnames, List.reverse_append]
    split <;> rfl
  rw [uriToAbsolute, foldl_uriPush_components, components_uriToAbsolute, hstack, uriPop_eq,
    List.reverse_reverse, List.append_nil, ← uriToAbsolute_eq]

theorem dotdot_mem_uriParts (path : PathName) :
    [dot, dot] ∈ uriParts path ↔ ¬ Even (climb dot (uriSplit path)).levels := by
  have hnames : [dot, dot] ∉ (climb dot (uriSplit path)).names.reverse := by
    intro h
    exact (mem_climb_names (List.mem_reverse.mp h)).2.2.2 rfl
  rw [uriParts, List.mem_append, or_iff_left hnames]
  by_cases heven : Even (climb dot (uriSplit path)).levels
  · rw [if_pos heven]
    exact iff_of_false List.not_mem_nil (not_not_intro heven)
  · rw [if_neg heven]
    exact iff_of_true (List.mem_singleton_self _) heven

/-- The path has the components that are left of it, from the root on, none of them a double dot,
and is left as it is when it is taken again. -/
structure Clamped (path : PathName) : Prop where
  resolves : components slash dot (uriToAbsolute path) = resolve slash dot path
  dotdot : [dot, dot] ∉ components slash dot (uriToAbsolute path)
  again : uriToAbsolute (uriToAbsolute path) = uriToAbsolute path

theorem clamped_iff (path : PathName) :
    Clamped path ↔ Even (climb dot (uriSplit path)).levels := by
  constructor
  · intro h
    have hdots := h.dotdot
    rw [components_uriToAbsolute, dotdot_mem_uriParts] at hdots
    exact not_not.mp hdots
  · intro heven
    refine ⟨?_, ?_, uriToAbsolute_idem path⟩
    · rw [components_uriToAbsolute, uriParts, resolve_eq_climb, ← uriSplit_eq]
      exact congrArg (· ++ _) (if_pos heven)
    · rw [components_uriToAbsolute, dotdot_mem_uriParts]
      exact not_not_intro heven

/-! ## `CheckUri` -/

/-- The parts of a uri behind the one that names the directory. -/
def uriSegments (uri : PathName) : List PathName := (uriSplit uri).drop 3

theorem checkUri_eq_some {ability : Option (Option AbilityContext)} {uri path : PathName}
    (h : checkUri ability uri = some path) :
    ∃ context dir, ability = some (some context) ∧ uriDir context uri = some dir ∧
      path = (uriSegments uri).foldl (fun path part => path ++ [slash] ++ part) dir := by
  unfold checkUri at h
  split at h
  · cases h
  · split at h
    · cases h
    · split at h
      · next context =>
        obtain ⟨dir, hdir, rfl⟩ := Option.map_eq_some_iff.mp h
        exact ⟨context, dir, rfl, hdir, rfl⟩
      · cases h

theorem uriSplit_foldl {segments : List PathName} (h : ∀ part ∈ segments, slash ∉ part)
    (dir : PathName) :
    uriSplit (segments.foldl (fun path part => path ++ [slash] ++ part) dir) =
      uriSplit dir ++ segments := by
  induction segments generalizing dir with
  | nil => rw [List.foldl_nil, List.append_nil]
  | cons part segments ih =>
    have hone : uriSplit (dir ++ [slash] ++ part) = uriSplit dir ++ [part] := by
      rw [uriSplit_eq, uriSplit_eq, List.append_assoc, List.singleton_append,
        List.splitOn_append_cons_self, List.splitOn_eq_singleton (h part List.mem_cons_self)]
    rw [List.foldl_cons, ih (fun p hp => h p (List.mem_cons_of_mem _ hp)), hone, List.append_assoc]
    rfl

theorem components_render {names : List PathName} (h : AllPlain names) :
    components slash dot (render names) = names := by
  by_cases hnil : names = []
  · subst hnil
    decide
  · rw [ModFs.Copy.render_of_ne hnil]
    exact components_flatMap fun name hname =>
      ⟨(h name hname).2.2.2, (h name hname).1, (h name hname).2.1⟩

/-- In the directory of these names, or below it. -/
def Inside (names : List PathName) (path : PathName) : Prop :=
  names <+: components slash dot (uriToAbsolute path)

/-- What the segments climb above the directory they name again, and above the root they climb an
even number of times. -/
def Returns (names segments : List PathName) : Prop :=
  names.reverse.take (climb dot segments).levels <:+ (climb dot segments).names ∧
    (names ≠ [] → names.length < (climb dot segments).levels →
      Even ((climb dot segments).levels - names.length))

instance (names segments : List PathName) : Decidable (Returns names segments) :=
  inferInstanceAs (Decidable (_ ∧ _))

theorem uriParts_of_dir {names segments : List PathName} {dir : PathName} (h : AllPlain names)
    (hdir : dir = render names) (hsegments : ∀ part ∈ segments, slash ∉ part) :
    (uriParts (segments.foldl (fun path part => path ++ [slash] ++ part) dir)).reverse =
      (climb dot segments).names ++ uriUp^[(climb dot segments).levels] names.reverse := by
  have hstack : (uriSplit dir).foldl uriPush [] = names.reverse := by
    rw [foldl_uriPush_components, hdir, components_render h, foldl_uriPush_plain h, List.append_nil]
  rw [← foldl_uriSplit, uriSplit_foldl hsegments, List.foldl_append, hstack, foldl_uriPush]

theorem suffix_append_cancel {a b c : List PathName} : a ++ c <:+ b ++ c ↔ a <:+ b := by
  constructor
  · rintro ⟨front, hfront⟩
    rw [← List.append_assoc] at hfront
    exact ⟨front, List.append_cancel_right hfront⟩
  · rintro ⟨front, rfl⟩
    exact ⟨front, (List.append_assoc _ _ _).symm⟩

theorem returns_iff {names segments : List PathName} (h : AllPlain names) :
    names.reverse <:+ (climb dot segments).names ++
        uriUp^[(climb dot segments).levels] names.reverse ↔ Returns names segments := by
  rw [Returns]
  generalize climb dot segments = r
  by_cases hlevels : r.levels ≤ names.length
  · rw [iterate_uriUp (by rwa [List.length_reverse]),
      and_iff_left fun _ habove => absurd hlevels (Nat.not_le.mpr habove)]
    nth_rewrite 1 [← List.take_append_drop r.levels names.reverse]
    exact suffix_append_cancel
  · rw [iterate_uriUp_above (by rw [List.length_reverse]; omega), List.length_reverse,
      List.take_of_length_le (by rw [List.length_reverse]; omega)]
    by_cases heven : Even (r.levels - names.length)
    · rw [if_pos heven, List.append_nil, and_iff_left fun _ _ => heven]
    · rw [if_neg heven]
      by_cases hnil : names = []
      · subst hnil
        exact iff_of_true List.nil_suffix ⟨List.nil_suffix, fun hne => absurd rfl hne⟩
      · refine iff_of_false (fun hsuffix => ?_) fun hreturns =>
          heven (hreturns.2 hnil (Nat.not_le.mp hlevels))
        -- the double dot at the bottom is no name of the directory
        obtain ⟨name, rest, rfl⟩ := List.exists_cons_of_ne_nil hnil
        obtain ⟨front, hfront⟩ := hsuffix
        rw [List.reverse_cons, ← List.append_assoc] at hfront
        have hlast := (List.append_inj' hfront rfl).2
        exact (h name List.mem_cons_self).2.2.1 (List.cons.inj hlast).1

/-- The path of a uri that is accepted is in the directory it names exactly if its segments return
to it. -/
theorem checkUri_inside {ability : Option (Option AbilityContext)} {context : AbilityContext}
    {uri path dir : PathName} {names : List PathName} (hability : ability = some (some context))
    (hpath : checkUri ability uri = some path) (hdir : uriDir context uri = some dir)
    (hnames : AllPlain names) (hrender : dir = render names) :
    Inside names path ↔ Returns names (uriSegments uri) := by
  obtain ⟨context', dir', hability', hdir', rfl⟩ := checkUri_eq_some hpath
  cases hability.symm.trans hability'
  cases hdir.symm.trans hdir'
  have hsegments : ∀ part ∈ uriSegments uri, slash ∉ part := fun part hpart =>
    slash_not_mem_uriSplit (List.mem_of_mem_drop hpart)
  rw [Inside, components_uriToAbsolute, ← returns_iff hnames, ← List.reverse_suffix,
    uriParts_of_dir hnames hrender hsegments]

/-- A uri leads into the directory it names exactly if its segments return there, and `UriToAbsolute`
clamps a path at the root exactly if it climbs above the root an even number of times. -/
theorem uris_stay (ability : Option (Option AbilityContext)) :
    (∀ (context : AbilityContext) (uri path dir : PathName) (names : List PathName),
      ability = some (some context) → checkUri ability uri = some path →
      uriDir context uri = some dir → AllPlain names → dir = render names →
        (Inside names path ↔ Returns names (uriSegments uri))) ∧
      ∀ path : PathName, Clamped path ↔ Even (climb dot (uriSplit path)).levels := by
  refine ⟨?_, clamped_iff⟩
  intro context uri path dir names hability hpath hdir hnames hrender
  exact checkUri_inside hability hpath hdir hnames hrender

/-- An application with its files in `/a/f` and its cache in `/a/c`. -/
def demoContext : AbilityContext := ⟨ascii "/a/f", ascii "/a/c"⟩

/-- `internal://app/../x` leads to `/a/x`, and the path `/../x` keeps its double dot. -/
theorem uri_leaves :
    (∃ path, checkUri (some (some demoContext)) (ascii "internal://app/../x") = some path ∧
        uriToAbsolute path = ascii "/a/x" ∧ ¬ Inside [ascii "a", ascii "f"] path) ∧
      uriToAbsolute (ascii "/../x") = ascii "/../x" ∧ ¬ Clamped (ascii "/../x") := by
  refine ⟨⟨ascii "/a/f/../x", by decide, by decide, ?_⟩, by decide, ?_⟩
  · rw [Inside, components_uriToAbsolute]
    decide
  · rw [clamped_iff]
    decide

/-- `internal://app/../f/x` leads to `/a/f/x`. -/
theorem uris_stay_demo :
    Inside [ascii "a", ascii "f"] (ascii "/a/f/../f/x") ∧ Clamped (ascii "/x/../y") :=
  ⟨((uris_stay (some (some demoContext))).1 demoContext (ascii "internal://app/../f/x") _ _ _ rfl
      (by decide) (by decide) (by decide) rfl).mpr (by decide),
    ((uris_stay none).2 _).mpr (by decide)⟩

end FileApi.ModFile
