import FileApi.Compress.ArchiveUtils
import FileApi.Misc.StackPath
import Mathlib.Data.List.TakeWhile

/-!
# `NormalizePath` resolves a path

At every turn of the loop the output with the rest of the source behind it is a path that resolves
to what the whole path resolves to, and the output has no component that says nothing, except at
its ends.
-/

namespace FileApi.Compress

open StackPath

/-- `..`. -/
abbrev dotdot : PathName := [dot, dot]

/-- The bytes up to the next slash, and those from it on. -/
def part (src : PathName) : PathName := src.takeWhile (· ≠ slash)
def behind (src : PathName) : PathName := src.dropWhile (· ≠ slash)

@[simp] theorem part_nil : part [] = [] := rfl
@[simp] theorem behind_nil : behind [] = [] := rfl

@[simp] theorem part_slash (src : PathName) : part (slash :: src) = [] := by
  rw [part, List.takeWhile_cons_of_neg]
  simp

@[simp] theorem behind_slash (src : PathName) : behind (slash :: src) = slash :: src := by
  rw [behind, List.dropWhile_cons_of_neg]
  simp

variable {b : UInt8}

theorem part_cons (h : b ≠ slash) (src : PathName) : part (b :: src) = b :: part src := by
  rw [part, List.takeWhile_cons_of_pos (by simpa using h), part]

theorem behind_cons (h : b ≠ slash) (src : PathName) :
    behind (b :: src) = behind src := by
  rw [behind, List.dropWhile_cons_of_pos (by simpa using h), behind]

theorem slash_not_mem_part (src : PathName) : slash ∉ part src := by
  intro h
  simpa using List.mem_takeWhile_imp h

theorem dot_ne_slash : dot ≠ slash := by decide

variable {src : PathName}

theorem part_eq_nil (h : part src = []) (hhead : src.head? ≠ some slash) :
    src = [] := by
  cases src with
  | nil => rfl
  | cons b src =>
    have hb : b ≠ slash := fun heq => hhead (by rw [heq]; rfl)
    rw [part_cons hb] at h
    cases h

/-- Nothing, or a slash: where a component ends. -/
def AtEnd (src : PathName) : Prop := src = [] ∨ src.head? = some slash

instance (src : PathName) : Decidable (AtEnd src) := inferInstanceAs (Decidable (_ ∨ _))

theorem AtEnd.cases (h : AtEnd src) : src = [] ∨ ∃ rest, src = slash :: rest := by
  rcases h with rfl | hhead
  · exact .inl rfl
  · cases src with
    | nil => exact .inl rfl
    | cons b rest =>
      cases hhead
      exact .inr ⟨rest, rfl⟩

theorem not_atEnd_cons (hb : b ≠ slash) (src : PathName) : ¬ AtEnd (b :: src) := by
  rintro (h | h)
  · cases h
  · exact hb (Option.some.inj h)

theorem part_of_atEnd (h : AtEnd src) : part src = [] := by
  rcases h.cases with rfl | ⟨rest, rfl⟩
  · rfl
  · exact part_slash rest

theorem atEnd_of_part_eq_nil (h : part src = []) : AtEnd src := by
  by_cases hhead : src.head? = some slash
  · exact .inr hhead
  · exact .inl (part_eq_nil h hhead)

theorem part_eq_dot (h : part src = [dot]) : ∃ more, src = dot :: more ∧ AtEnd more := by
  cases src with
  | nil => cases h
  | cons b src =>
    by_cases hb : b = slash
    · rw [hb, part_slash] at h
      cases h
    · rw [part_cons hb] at h
      obtain ⟨rfl, hnil⟩ := List.cons.inj h
      exact ⟨src, rfl, atEnd_of_part_eq_nil hnil⟩

theorem part_eq_dotdot (h : part src = dotdot) :
    ∃ more, src = dot :: dot :: more ∧ AtEnd more := by
  cases src with
  | nil => cases h
  | cons b src =>
    by_cases hb : b = slash
    · rw [hb, part_slash] at h
      cases h
    · rw [part_cons hb] at h
      obtain ⟨rfl, hdot⟩ := List.cons.inj h
      obtain ⟨more, rfl, hend⟩ := part_eq_dot hdot
      exact ⟨more, rfl, hend⟩

/-! ## What a turn does -/

/-- The ways a turn can go, with what the branch has seen. -/
inductive StepCase (st : NormalizeState) (b : UInt8) (rest : PathName) : NormalizeState → Prop
  /-- A byte in the middle of a component. -/
  | inside : b ≠ slash → st.output ≠ [] → StepCase st b rest ⟨false, rest, b :: st.output⟩
  /-- The first byte of a component, or the slash in front of it. -/
  | begins (check : PathName) : check = (if b = slash then rest else b :: rest) →
      (b ≠ slash → st.output = []) → check.head? ≠ some slash → part check ≠ dotdot →
      (part check = [dot] → check = [dot]) → StepCase st b rest ⟨false, rest, b :: st.output⟩
  /-- A slash in front of a slash. -/
  | doubled (more : PathName) : b = slash → rest = slash :: more →
      StepCase st b rest ⟨false, rest, st.output⟩
  /-- A dot in front of a slash. -/
  | single (more : PathName) : (if b = slash then rest else b :: rest) = dot :: slash :: more →
      (b ≠ slash → st.output = []) →
      StepCase st b rest ⟨false, skipFirst (slash :: more) st.output, st.output⟩
  /-- A slash and a dot at the end. -/
  | last : b = slash → rest = [dot] → st.output ≠ [] →
      StepCase st b rest ⟨false, [], slash :: st.output⟩
  /-- Two dots. -/
  | double (more : PathName) : (if b = slash then rest else b :: rest) = dot :: dot :: more →
      AtEnd more → (b ≠ slash → st.output = []) →
      StepCase st b rest
        ⟨false, skipFirst more (pathHandleDotDotSearchBack st.output).1,
          if (pathHandleDotDotSearchBack st.output).2 = true ∧
              skipFirst more (pathHandleDotDotSearchBack st.output).1 = [] then
            slash :: (pathHandleDotDotSearchBack st.output).1
          else (pathHandleDotDotSearchBack st.output).1⟩

variable {st : NormalizeState}

/-- `NormalizePathDot` at the beginning of a component. -/
theorem normalizePathDot_cases {rest check : PathName} (hsource : st.source = b :: rest)
    (hcheck : check = if b = slash then rest else b :: rest) (hbegins : b ≠ slash → st.output = [])
    (hhead : check.head? ≠ some slash) :
    StepCase st b rest ((normalizePathDot st check).getD ⟨false, rest, b :: st.output⟩) := by
  have hcopied : part check ≠ dotdot → (part check = [dot] → check = [dot]) →
      StepCase st b rest ⟨false, rest, b :: st.output⟩ :=
    fun hdouble hsingle => .begins check hcheck hbegins hhead hdouble hsingle
  rw [normalizePathDot.eq_def]
  cases check with
  | nil => exact hcopied (by decide) nofun
  | cons c check =>
    dsimp only
    by_cases hc : c = dot
    · subst hc
      rw [if_neg (fun h => h rfl)]
      cases check with
      | nil =>
        -- a dot at the very end
        rw [pathHandleDot.eq_def]
        dsimp only
        by_cases hout : st.atStart = false ∧ st.output ≠ []
        · have hb : b = slash := by
            by_contra hne
            exact hout.2 (hbegins hne)
          subst hb
          rw [if_pos hout, hsource, List.headD_cons]
          exact .last rfl hcheck.symm hout.2
        · rw [if_neg hout]
          exact hcopied (by decide) fun _ => rfl
      | cons d check =>
        rw [pathHandleDot.eq_def]
        dsimp only
        by_cases hd : d = slash
        · subst hd
          rw [if_pos rfl]
          exact .single check hcheck.symm hbegins
        · rw [if_neg hd]
          dsimp only
          by_cases hdot : d = dot
          · subst hdot
            rw [if_neg (fun h => h rfl), pathHandleDotDot]
            split
            · next hend => exact .double check hcheck.symm hend hbegins
            · next hend =>
              refine hcopied (fun hpart => hend ?_) fun hpart => ?_
              · obtain ⟨more, hmore, hatEnd⟩ := part_eq_dotdot hpart
                cases hmore
                exact hatEnd
              · obtain ⟨more, hmore, hatEnd⟩ := part_eq_dot hpart
                cases hmore
                exact absurd hatEnd (not_atEnd_cons dot_ne_slash check)
          · rw [if_pos hdot]
            refine hcopied (fun hpart => hdot ?_) fun hpart => ?_
            · obtain ⟨more, hmore, -⟩ := part_eq_dotdot hpart
              cases hmore
              rfl
            · obtain ⟨more, hmore, hatEnd⟩ := part_eq_dot hpart
              cases hmore
              rcases hatEnd.cases with hnil | ⟨rest', hslash⟩
              · cases hnil
              · cases hslash
                exact absurd rfl hd
    · rw [if_pos hc]
      refine hcopied (fun hpart => hc ?_) fun hpart => absurd ?_ hc
      · obtain ⟨more, hmore, -⟩ := part_eq_dotdot hpart
        cases hmore
        rfl
      · obtain ⟨more, hmore, -⟩ := part_eq_dot hpart
        cases hmore
        rfl

variable {rest : PathName}

theorem normalizeStep_cases (hsource : st.source = b :: rest)
    (hstart : st.atStart = true → st.output = []) :
    StepCase st b rest (normalizeStep st b rest) := by
  rw [normalizeStep, hsource]
  by_cases hbegins : st.atStart = true ∨ st.output = [] ∨ b = slash
  · rw [if_pos hbegins]
    have hempty : b ≠ slash → st.output = [] := fun hb =>
      hbegins.elim hstart fun h => h.resolve_right hb
    by_cases hhead : (if b = slash then rest else b :: rest).head? = some slash
    · rw [if_pos hhead]
      by_cases hb : b = slash
      · rw [if_pos hb] at hhead
        cases rest with
        | nil => cases hhead
        | cons c rest =>
          cases hhead
          exact .doubled rest hb rfl
      · rw [if_neg hb] at hhead
        exact absurd (Option.some.inj hhead) hb
    · rw [if_neg hhead]
      exact normalizePathDot_cases hsource rfl hempty hhead
  · rw [if_neg hbegins]
    rw [not_or, not_or] at hbegins
    exact .inside hbegins.2.2 hbegins.2.1

theorem pathHandleDotDotSearchBack_slash {c : PathName} (h : slash ∉ c) (front : PathName) :
    pathHandleDotDotSearchBack (c ++ slash :: front) = (front, true) := by
  induction c with
  | nil =>
    cases front with
    | nil => rfl
    | cons b front =>
      rw [List.nil_append, pathHandleDotDotSearchBack, if_pos rfl]
      exact List.cons_ne_nil b front
  | cons b c ih =>
    obtain ⟨hb, hc⟩ := not_or.mp fun h' => h (List.mem_cons.mpr h')
    rw [List.cons_append, pathHandleDotDotSearchBack, if_neg (Ne.symm hb), ih hc]
    exact List.append_ne_nil_of_right_ne_nil c (List.cons_ne_nil slash front)

theorem pathHandleDotDotSearchBack_part {c : PathName} (h : slash ∉ c) :
    pathHandleDotDotSearchBack c = ([], false) := by
  induction c with
  | nil => rfl
  | cons b c ih =>
    obtain ⟨hb, hc⟩ := not_or.mp fun h' => h (List.mem_cons.mpr h')
    cases c with
    | nil =>
      rw [pathHandleDotDotSearchBack, decide_eq_false (Ne.symm hb)]
    | cons d c =>
      rw [pathHandleDotDotSearchBack, if_neg (Ne.symm hb), ih hc]
      exact List.cons_ne_nil d c

theorem output_cases (output : PathName) : slash ∉ output ∨
    ∃ c front, slash ∉ c ∧ output = c ++ slash :: front := by
  by_cases h : slash ∈ output
  · obtain ⟨c, front, heq, hc⟩ := List.eq_append_cons_of_mem h
    exact .inr ⟨c, front, hc, heq⟩
  · exact .inl h

/-! ## The invariant -/

/-- What is put out, up to the end of the component that is being read: no component pops, one that
is a dot or empty stands at an end. -/
structure Clean (out src : PathName) : Prop where
  double : dotdot ∉ (out ++ part src).splitOn slash
  front : ∀ c ∈ ((out ++ part src).splitOn slash).dropLast, c ≠ [dot]
  single : behind src ≠ [] → [dot] ∉ (out ++ part src).splitOn slash
  nonempty : behind src ≠ [] → [] ∉ ((out ++ part src).splitOn slash).tail

structure NormalizeState.Inv (path : PathName) (st : NormalizeState) : Prop where
  start : st.atStart = true → st.output = []
  resolves : onto slash dot [] (st.output.reverse ++ st.source) = onto slash dot [] path
  clean : st.output ≠ [] → Clean st.output.reverse st.source

theorem splitOn_slash_part (out src : PathName) :
    (out ++ slash :: part src).splitOn slash = out.splitOn slash ++ [part src] := by
  rw [List.splitOn_append_cons_self, List.splitOn_eq_singleton (slash_not_mem_part src)]

theorem Clean.of_slash {out src : PathName} (h : Clean out (slash :: src)) :
    dotdot ∉ out.splitOn slash ∧ [dot] ∉ out.splitOn slash ∧ [] ∉ (out.splitOn slash).tail := by
  have hbehind : behind (slash :: src) ≠ [] := by
    rw [behind_slash]
    exact List.cons_ne_nil slash src
  have hdouble := h.double
  have hsingle := h.single hbehind
  have hnonempty := h.nonempty hbehind
  rw [part_slash, List.append_nil] at hdouble hsingle hnonempty
  exact ⟨hdouble, hsingle, hnonempty⟩

theorem Clean.of_output {out src : PathName} (hpart : part src = [])
    (hdouble : dotdot ∉ out.splitOn slash) (hsingle : [dot] ∉ out.splitOn slash)
    (hnonempty : [] ∉ (out.splitOn slash).tail) : Clean out src := by
  have happend : out ++ part src = out := by rw [hpart, List.append_nil]
  constructor
  · rwa [happend]
  · rw [happend]
    exact fun c hc heq => hsingle (heq ▸ List.dropLast_subset _ hc)
  · rw [happend]
    exact fun _ => hsingle
  · rw [happend]
    exact fun _ => hnonempty

theorem Clean.of_append {out src : PathName} (hdouble : dotdot ∉ out.splitOn slash)
    (hsingle : [dot] ∉ out.splitOn slash) (hnonempty : [] ∉ (out.splitOn slash).tail)
    (hpart : part src ≠ dotdot) (hdot : behind src ≠ [] → part src ≠ [dot])
    (hempty : behind src ≠ [] → part src ≠ []) : Clean (out ++ [slash]) src := by
  have hsplit : (out ++ [slash] ++ part src).splitOn slash = out.splitOn slash ++ [part src] := by
    rw [List.append_assoc]
    exact splitOn_slash_part out src
  have htail : (out.splitOn slash ++ [part src]).tail = (out.splitOn slash).tail ++ [part src] :=
    List.tail_append_of_ne_nil (List.splitOn_ne_nil slash out)
  constructor
  · rw [hsplit, List.mem_append, List.mem_singleton]
    exact not_or.mpr ⟨hdouble, Ne.symm hpart⟩
  · rw [hsplit, List.dropLast_concat]
    exact fun c hc heq => hsingle (heq ▸ hc)
  · rw [hsplit, List.mem_append, List.mem_singleton]
    exact fun hmore => not_or.mpr ⟨hsingle, Ne.symm (hdot hmore)⟩
  · rw [hsplit, htail, List.mem_append, List.mem_singleton]
    exact fun hmore => not_or.mpr ⟨hnonempty, Ne.symm (hempty hmore)⟩

theorem behind_part_nil (hhead : src.head? ≠ some slash) (hmore : behind src ≠ []) :
    part src ≠ [] := by
  intro hpart
  rw [part_eq_nil hpart hhead] at hmore
  exact hmore rfl

theorem behind_part_dot (hdot : part src = [dot] → src = [dot]) (hmore : behind src ≠ []) :
    part src ≠ [dot] := by
  intro hpart
  rw [hdot hpart] at hmore
  exact hmore (by decide)

/-! ### The two dots -/

theorem onto_skipFirst {stack : List PathName} {more output : PathName} (hend : AtEnd more) :
    onto slash dot stack (skipFirst more output) = onto slash dot stack more := by
  rw [skipFirst]
  rcases hend.cases with rfl | ⟨rest, rfl⟩
  · rw [if_neg (fun h => h.1 rfl)]
  · split
    · rw [List.tail_cons, onto_sep_cons]
    · rfl

theorem skipFirst_of_ne {more output : PathName} (hout : output ≠ []) :
    skipFirst more output = more := if_neg fun h => hout h.2

/-- What is left of the output, with the rest of the source behind it, resolves to the stack without
its top. -/
theorem onto_searchBack {output more : PathName} (hend : AtEnd more)
    (hclean : output ≠ [] → dotdot ∉ output.reverse.splitOn slash ∧
      [dot] ∉ output.reverse.splitOn slash ∧ [] ∉ (output.reverse.splitOn slash).tail) :
    onto slash dot [] ((if (pathHandleDotDotSearchBack output).2 = true ∧
        skipFirst more (pathHandleDotDotSearchBack output).1 = [] then
        slash :: (pathHandleDotDotSearchBack output).1
      else (pathHandleDotDotSearchBack output).1).reverse ++
        skipFirst more (pathHandleDotDotSearchBack output).1) =
      onto slash dot (onto slash dot [] output.reverse).tail more := by
  rcases output_cases output with hpart | ⟨c, front, hc, rfl⟩
  · -- one component, or none
    rw [pathHandleDotDotSearchBack_part hpart, if_neg (fun h => Bool.false_ne_true h.1),
      List.reverse_nil, List.nil_append, onto_skipFirst hend]
    have htail : (onto slash dot [] output.reverse).tail = [] := by
      rw [onto_part (by rwa [List.mem_reverse]), push]
      split
      · rfl
      · split
        · rfl
        · rfl
    rw [htail]
  · obtain ⟨hdouble, hsingle, hnonempty⟩ := hclean (by simp)
    have hreverse : (c ++ slash :: front).reverse = front.reverse ++ slash :: c.reverse := by simp
    have hc' : slash ∉ c.reverse := by rwa [List.mem_reverse]
    have hsplit : (c ++ slash :: front).reverse.splitOn slash =
        front.reverse.splitOn slash ++ [c.reverse] := by
      rw [hreverse, List.splitOn_append_cons_self, List.splitOn_eq_singleton hc']
    rw [hsplit] at hdouble hsingle hnonempty
    rw [List.tail_append_of_ne_nil (List.splitOn_ne_nil slash front.reverse)] at hnonempty
    simp only [List.mem_append, List.mem_singleton, not_or] at hdouble hsingle hnonempty
    have htop : (onto slash dot [] (c ++ slash :: front).reverse).tail =
        onto slash dot [] front.reverse := by
      rw [hreverse, onto_append_sep, onto_part hc', push_of_ne (Ne.symm hnonempty.2)
        (Ne.symm hsingle.2) (Ne.symm hdouble.2), List.tail_cons]
    rw [htop, pathHandleDotDotSearchBack_slash hc]
    dsimp only
    split
    · next hnil =>
      -- the slash stays, at the end of the path
      have hmore : onto slash dot (onto slash dot [] front.reverse) more =
          onto slash dot [] front.reverse := by
        have hskip : onto slash dot (onto slash dot [] front.reverse) (skipFirst more front) =
            onto slash dot (onto slash dot [] front.reverse) more := onto_skipFirst hend
        rw [← hskip, hnil.2, onto_nil]
      rw [hnil.2, List.append_nil, List.reverse_cons, onto_append_sep, onto_nil, hmore]
    · next hnot =>
      rcases hend.cases with rfl | ⟨rest, rfl⟩
      · exact absurd ⟨rfl, by rw [skipFirst, if_neg (fun h => h.1 rfl)]⟩ hnot
      · by_cases hfront : front = []
        · rw [hfront, List.reverse_nil, List.nil_append, onto_skipFirst hend, onto_nil]
        · rw [skipFirst_of_ne hfront, onto_append_sep, onto_sep_cons]

theorem Clean.searchBack {output src more : PathName} (hend : AtEnd more)
    (hclean : Clean output.reverse (slash :: src))
    (hne : (if (pathHandleDotDotSearchBack output).2 = true ∧
        skipFirst more (pathHandleDotDotSearchBack output).1 = [] then
        slash :: (pathHandleDotDotSearchBack output).1
      else (pathHandleDotDotSearchBack output).1) ≠ []) :
    Clean (if (pathHandleDotDotSearchBack output).2 = true ∧
        skipFirst more (pathHandleDotDotSearchBack output).1 = [] then
        slash :: (pathHandleDotDotSearchBack output).1
      else (pathHandleDotDotSearchBack output).1).reverse
      (skipFirst more (pathHandleDotDotSearchBack output).1) := by
  obtain ⟨hdouble, hsingle, hnonempty⟩ := hclean.of_slash
  rcases output_cases output with hpart | ⟨c, front, hc, rfl⟩
  · rw [pathHandleDotDotSearchBack_part hpart] at hne
    exact absurd (if_neg fun h => Bool.false_ne_true h.1) hne
  · have hc' : slash ∉ c.reverse := by rwa [List.mem_reverse]
    have hsplit : (c ++ slash :: front).reverse.splitOn slash =
        front.reverse.splitOn slash ++ [c.reverse] := by
      rw [show (c ++ slash :: front).reverse = front.reverse ++ slash :: c.reverse by simp,
        List.splitOn_append_cons_self, List.splitOn_eq_singleton hc']
    rw [hsplit] at hdouble hsingle hnonempty
    rw [List.tail_append_of_ne_nil (List.splitOn_ne_nil slash front.reverse)] at hnonempty
    simp only [List.mem_append, not_or] at hdouble hsingle hnonempty
    rw [pathHandleDotDotSearchBack_slash hc] at hne ⊢
    dsimp only at hne ⊢
    split
    · next hnil =>
      rw [hnil.2, List.reverse_cons]
      exact .of_append hdouble.1 hsingle.1 hnonempty.1 (by decide) (fun h => absurd rfl h)
        fun h => absurd rfl h
    · next hnot =>
      rw [if_neg hnot] at hne
      rw [skipFirst_of_ne hne]
      exact .of_output (part_of_atEnd hend) hdouble.1 hsingle.1 hnonempty.1

variable {path : PathName}

/-- A turn keeps the invariant. -/
theorem normalizeStep_inv (hst : st.Inv path) (hsource : st.source = b :: rest) :
    (normalizeStep st b rest).Inv path := by
  have hresolves := hst.resolves
  have hclean := hst.clean
  rw [hsource] at hresolves hclean
  have hcopied : (b :: st.output).reverse ++ rest = st.output.reverse ++ b :: rest := by simp
  -- the slash in front of a component, for an output that is not empty
  have hslash : st.output ≠ [] → (b ≠ slash → st.output = []) → b = slash := fun hout hempty => by
    by_contra hne
    exact hout (hempty hne)
  generalize hnext : normalizeStep st b rest = next
  have hcase := normalizeStep_cases hsource hst.start
  rw [hnext] at hcase
  cases hcase with
  | inside hb hout =>
    refine ⟨nofun, ?_, fun _ => ?_⟩
    · dsimp only
      rw [hcopied]
      exact hresolves
    · have hbefore := hclean hout
      have hpart : st.output.reverse ++ part (b :: rest) = (b :: st.output).reverse ++ part rest := by
        rw [part_cons hb]
        simp
      have hbehind := behind_cons hb rest
      exact ⟨hpart ▸ hbefore.double, hpart ▸ hbefore.front,
        fun h => hpart ▸ hbefore.single (hbehind ▸ h),
        fun h => hpart ▸ hbefore.nonempty (hbehind ▸ h)⟩
  | begins check hcheck hempty hhead hdouble hdot =>
    refine ⟨nofun, ?_, fun _ => ?_⟩
    · dsimp only
      rw [hcopied]
      exact hresolves
    · by_cases hb : b = slash
      · subst hb
        rw [if_pos rfl] at hcheck
        subst hcheck
        dsimp only
        rw [List.reverse_cons]
        have hout : dotdot ∉ st.output.reverse.splitOn slash ∧
            [dot] ∉ st.output.reverse.splitOn slash ∧
            [] ∉ (st.output.reverse.splitOn slash).tail := by
          by_cases hout : st.output = []
          · rw [hout]
            decide
          · exact (hclean hout).of_slash
        exact .of_append hout.1 hout.2.1 hout.2.2 hdouble (behind_part_dot hdot)
          (behind_part_nil hhead)
      · rw [if_neg hb] at hcheck
        subst hcheck
        dsimp only
        rw [hempty hb]
        have hsingleton : ([b].reverse ++ part rest).splitOn slash = [part (b :: rest)] := by
          rw [part_cons hb, List.splitOn_eq_singleton]
          · rfl
          · have hmem := slash_not_mem_part (b :: rest)
            rwa [part_cons hb] at hmem
        have hbehind := behind_cons hb rest
        constructor
        · rw [hsingleton, List.mem_singleton]
          exact Ne.symm hdouble
        · rw [hsingleton]
          exact nofun
        · rw [hsingleton, List.mem_singleton]
          intro hmore
          rw [← hbehind] at hmore
          exact Ne.symm (behind_part_dot hdot hmore)
        · rw [hsingleton]
          exact fun _ => List.not_mem_nil
  | doubled more hb hrest =>
    subst hb hrest
    refine ⟨nofun, ?_, fun hout => ?_⟩
    · rw [onto_append_sep, onto_sep_cons] at hresolves
      dsimp only
      rw [onto_append_sep]
      exact hresolves
    · obtain ⟨hdouble, hsingle, hnonempty⟩ := (hclean hout).of_slash
      exact .of_output (part_slash more) hdouble hsingle hnonempty
  | single more hcheck hempty =>
    have hend : AtEnd (slash :: more) := .inr rfl
    have hdot : ∀ stack, onto slash dot stack (dot :: slash :: more) = onto slash dot stack more := by
      intro stack
      have hsep : onto slash dot stack ([dot] ++ slash :: more) =
          onto slash dot (push dot stack [dot]) more := onto_part_sep (by decide)
      rwa [push_dot] at hsep
    refine ⟨nofun, ?_, fun hout => ?_⟩
    · dsimp only
      by_cases hout : st.output = []
      · rw [hout, List.reverse_nil, List.nil_append, onto_skipFirst hend, onto_sep_cons]
        rw [hout, List.reverse_nil, List.nil_append] at hresolves
        rw [← hresolves]
        by_cases hb : b = slash
        · rw [if_pos hb] at hcheck
          rw [hb, hcheck, onto_sep_cons, hdot]
        · rw [if_neg hb] at hcheck
          rw [hcheck, hdot]
      · have hb := hslash hout hempty
        rw [if_pos hb] at hcheck
        rw [hb, hcheck, onto_append_sep, hdot] at hresolves
        rw [skipFirst_of_ne hout, onto_append_sep, hresolves]
    · dsimp only at hout ⊢
      have hb := hslash hout hempty
      subst hb
      obtain ⟨hdouble, hsingle, hnonempty⟩ := (hclean hout).of_slash
      rw [skipFirst_of_ne hout]
      exact .of_output (part_slash more) hdouble hsingle hnonempty
  | last hb hrest hout =>
    subst hb hrest
    obtain ⟨hdouble, hsingle, hnonempty⟩ := (hclean hout).of_slash
    refine ⟨nofun, ?_, fun _ => ?_⟩
    · dsimp only
      rw [onto_append_sep, onto_part (by decide), push_dot] at hresolves
      rw [List.append_nil, List.reverse_cons, onto_append_sep, onto_nil]
      exact hresolves
    · dsimp only
      rw [List.reverse_cons]
      exact .of_append hdouble hsingle hnonempty (by decide) (fun h => absurd rfl h)
        fun h => absurd rfl h
  | double more hcheck hend hempty =>
    have hpop : ∀ stack, onto slash dot stack (dot :: dot :: more) =
        onto slash dot stack.tail more := by
      intro stack
      rcases hend.cases with rfl | ⟨tail, rfl⟩
      · exact (onto_part (by decide)).trans push_dotdot |>.trans onto_nil.symm
      · have hsep : onto slash dot stack (dotdot ++ slash :: tail) =
            onto slash dot (push dot stack dotdot) tail := onto_part_sep (by decide)
        have hpush : push dot stack dotdot = stack.tail := push_dotdot
        rw [onto_sep_cons, ← hpush]
        exact hsep
    refine ⟨nofun, ?_, fun hne => ?_⟩
    · dsimp only
      rw [onto_searchBack hend fun hout => ?_, ← hresolves]
      · by_cases hb : b = slash
        · rw [if_pos hb] at hcheck
          rw [hb, hcheck, onto_append_sep, hpop]
        · rw [if_neg hb] at hcheck
          rw [hcheck, hempty hb, List.reverse_nil, List.nil_append, onto_nil, hpop]
      · have hb := hslash hout hempty
        subst hb
        exact (hclean hout).of_slash
    · by_cases hout : st.output = []
      · dsimp only at hne
        rw [hout, pathHandleDotDotSearchBack_part List.not_mem_nil,
          if_neg (fun h => Bool.false_ne_true h.1)] at hne
        exact absurd rfl hne
      · have hb := hslash hout hempty
        subst hb
        exact (hclean hout).searchBack hend hne

/-! ## The loop -/

theorem skipFirst_length (source output : PathName) :
    (skipFirst source output).length ≤ source.length := by
  rw [skipFirst]
  split
  · rw [List.length_tail]
    exact Nat.sub_le _ _
  · exact Nat.le_refl _

theorem pathHandleDotDotSearchBack_length {output : PathName} (h : output ≠ []) :
    (pathHandleDotDotSearchBack output).1.length < output.length := by
  rcases output_cases output with hpart | ⟨c, front, hc, rfl⟩
  · rw [pathHandleDotDotSearchBack_part hpart]
    exact List.length_pos_iff.mpr h
  · rw [pathHandleDotDotSearchBack_slash hc, List.length_append, List.length_cons]
    dsimp only
    omega

/-- A turn takes a byte of the source at least, and puts out no more than it takes. -/
theorem normalizeStep_length (hsource : st.source = b :: rest)
    (hstart : st.atStart = true → st.output = []) :
    (normalizeStep st b rest).source.length ≤ rest.length ∧
      (normalizeStep st b rest).output.length + (normalizeStep st b rest).source.length ≤
        st.output.length + (rest.length + 1) := by
  have hcheckLength : (if b = slash then rest else b :: rest).length ≤ rest.length + 1 := by
    split
    · exact Nat.le_succ _
    · exact Nat.le_refl _
  have hcase := normalizeStep_cases hsource hstart
  generalize normalizeStep st b rest = next at hcase
  cases hcase with
  | inside | begins =>
    refine ⟨Nat.le_refl _, ?_⟩
    dsimp only
    rw [List.length_cons]
    omega
  | doubled =>
    refine ⟨Nat.le_refl _, ?_⟩
    dsimp only
    omega
  | single more hcheck _ =>
    have hskip := skipFirst_length (slash :: more) st.output
    rw [hcheck, List.length_cons] at hcheckLength
    exact ⟨by dsimp only; omega, by dsimp only; omega⟩
  | last _ hrest _ =>
    refine ⟨Nat.zero_le _, ?_⟩
    dsimp only
    rw [hrest, List.length_cons, List.length_nil]
    omega
  | double more hcheck _ _ =>
    have hskip := skipFirst_length more (pathHandleDotDotSearchBack st.output).1
    rw [hcheck, List.length_cons, List.length_cons] at hcheckLength
    refine ⟨by dsimp only; omega, ?_⟩
    dsimp only
    by_cases hout : st.output = []
    · rw [hout, pathHandleDotDotSearchBack_part List.not_mem_nil] at hskip ⊢
      rw [if_neg (fun h => Bool.false_ne_true h.1), List.length_nil]
      dsimp only at hskip ⊢
      omega
    · have hback := pathHandleDotDotSearchBack_length hout
      split
      · rw [List.length_cons]
        omega
      · omega

theorem normalizeLoop_inv (turns : Nat) : ∀ {st : NormalizeState}, st.Inv path →
    (normalizeLoop turns st).Inv path ∧
      (normalizeLoop turns st).output.length + (normalizeLoop turns st).source.length ≤
        st.output.length + st.source.length := by
  induction turns with
  | zero => exact fun hst => ⟨hst, Nat.le_refl _⟩
  | succ turns ih =>
    intro st hst
    rw [normalizeLoop]
    split
    · exact ⟨hst, Nat.le_refl _⟩
    · next b rest hsource =>
      have hlength := (normalizeStep_length hsource hst.start).2
      obtain ⟨hinv, hle⟩ := ih (normalizeStep_inv hst hsource)
      refine ⟨hinv, ?_⟩
      rw [hsource, List.length_cons]
      omega

theorem normalizeLoop_source (turns : Nat) : ∀ {st : NormalizeState}, st.Inv path →
    st.source.length ≤ turns → (normalizeLoop turns st).source = [] := by
  induction turns with
  | zero => exact fun _ hle => List.length_eq_zero_iff.mp (Nat.le_zero.mp hle)
  | succ turns ih =>
    intro st hst hle
    rw [normalizeLoop]
    split
    · next hnil => exact hnil
    · next b rest hsource =>
      rw [hsource, List.length_cons] at hle
      have hlength := (normalizeStep_length hsource hst.start).1
      exact ih (normalizeStep_inv hst hsource) (by omega)

theorem maxOutputChange_ge (st : NormalizeState) (b : UInt8) (rest : PathName) :
    -1 ≤ maxOutputChange st b rest := by
  have hsearched : (0 : Int) ≤ if st.output = [] then (0 : Int)
      else (st.output.length : Int) - 1 - ((pathHandleDotDotSearchBack st.output).1.length : Int) := by
    split
    · exact Int.le_refl 0
    · next hout =>
      have hback := pathHandleDotDotSearchBack_length hout
      omega
  rw [maxOutputChange]
  generalize (if b = slash then rest else st.source) = check
  split
  · split
    · decide
    · split
      · decide
      · split
        · omega
        · split
          · decide
          · decide
  · decide

theorem normalizeLoopMax_eq (turns : Nat) : ∀ {st : NormalizeState}
    {maxOutputLen : Int}, st.Inv path → (st.source.length : Int) + 1 ≤ maxOutputLen →
    normalizeLoopMax turns st maxOutputLen = normalizeLoop turns st := by
  induction turns with
  | zero => exact fun _ _ => rfl
  | succ turns ih =>
    intro st maxOutputLen hst hmax
    rw [normalizeLoopMax, normalizeLoop]
    split
    · rfl
    · next b rest hsource =>
      rw [hsource, List.length_cons] at hmax
      have hlength := (normalizeStep_length hsource hst.start).1
      have hchange := maxOutputChange_ge st b rest
      rw [if_pos (by omega)]
      exact ih (normalizeStep_inv hst hsource) (by omega)

theorem startState_inv (path : PathName) : NormalizeState.Inv path ⟨true, path, []⟩ :=
  ⟨fun _ => rfl, rfl, fun h => absurd rfl h⟩

/-- What is put out for a path. -/
structure Normalized (path output : PathName) : Prop where
  resolves : components slash dot output = resolve slash dot path
  double : dotdot ∉ output.splitOn slash
  front : ∀ c ∈ (output.splitOn slash).dropLast, c ≠ [dot]

theorem normalizePath_normalized {path output : PathName} (h : normalizePath path = some output) :
    Normalized path output := by
  rw [normalizePath] at h
  split at h
  · cases h
  · cases h
    obtain ⟨hinv, -⟩ := normalizeLoop_inv path.length (startState_inv path)
    have hsource : (normalizeLoop path.length ⟨true, path, []⟩).source = [] :=
      normalizeLoop_source path.length (startState_inv path) (Nat.le_refl _)
    obtain ⟨-, hresolves, hclean⟩ := hinv
    generalize normalizeLoop path.length ⟨true, path, []⟩ = last at hresolves hclean hsource
    rw [hsource, List.append_nil] at hresolves
    rw [hsource] at hclean
    have hparts : dotdot ∉ last.output.reverse.splitOn slash ∧
        ∀ c ∈ (last.output.reverse.splitOn slash).dropLast, c ≠ [dot] := by
      by_cases hout : last.output = []
      · rw [hout]
        exact ⟨by decide, nofun⟩
      · have hlast := hclean hout
        have happend : last.output.reverse ++ part [] = last.output.reverse := List.append_nil _
        exact ⟨happend ▸ hlast.double, happend ▸ hlast.front⟩
    refine ⟨?_, hparts.1, hparts.2⟩
    rw [← resolve_of_not_mem hparts.1, resolve, resolve, hresolves]

/-! ## `GetOutputFilePath` -/

/-- No component behind a slash pops, and none but the last is a dot. -/
def Plain (src : PathName) : Prop :=
  ∀ front rest, src = front ++ slash :: rest → part rest ≠ dotdot ∧ (part rest = [dot] → rest = [dot])

theorem Plain.behind {front rest : PathName} (h : Plain (front ++ rest)) : Plain rest :=
  fun front' rest' heq => h (front ++ front') rest' (by rw [heq, List.append_assoc])

theorem part_cases (src : PathName) : src = part src ∨ ∃ more, src = part src ++ slash :: more := by
  induction src with
  | nil => exact .inl rfl
  | cons b src ih =>
    by_cases hb : b = slash
    · rw [hb, part_slash]
      exact .inr ⟨src, rfl⟩
    · rw [part_cons hb]
      rcases ih with heq | ⟨more, heq⟩
      · exact .inl (congrArg (b :: ·) heq)
      · exact .inr ⟨more, congrArg (b :: ·) heq⟩

theorem plain_of_splitOn (hdouble : dotdot ∉ src.splitOn slash)
    (hfront : ∀ c ∈ (src.splitOn slash).dropLast, c ≠ [dot]) : Plain src := by
  intro front rest heq
  have hsplit : src.splitOn slash = front.splitOn slash ++ rest.splitOn slash := by
    rw [heq, List.splitOn_append_cons_self]
  rw [hsplit] at hdouble hfront
  rcases part_cases rest with hlast | ⟨more, hmore⟩
  · have hparts : rest.splitOn slash = [part rest] := by
      have h := List.splitOn_eq_singleton (slash_not_mem_part rest)
      rw [← hlast] at h
      rw [h, ← hlast]
    rw [hparts] at hdouble
    refine ⟨fun hpart => hdouble ?_, fun hpart => hlast.trans hpart⟩
    rw [hpart]
    exact List.mem_append_right _ List.mem_cons_self
  · have hparts : rest.splitOn slash = part rest :: more.splitOn slash := by
      have h := List.splitOn_append_cons_self_of_not_mem (slash_not_mem_part rest) more
      rwa [← hmore] at h
    rw [hparts] at hdouble hfront
    refine ⟨fun hpart => hdouble ?_, fun hpart => absurd hpart (hfront _ ?_)⟩
    · rw [hpart]
      exact List.mem_append_right _ List.mem_cons_self
    · rw [List.dropLast_append_of_ne_nil (List.cons_ne_nil _ _),
        List.dropLast_cons_of_ne_nil (List.splitOn_ne_nil slash more)]
      exact List.mem_append_right _ List.mem_cons_self

/-- A slash is the first that is put out, and until then the source begins with one. -/
structure NormalizeState.Rooted (st : NormalizeState) : Prop where
  source : st.output = [] → ∃ rest, st.source = slash :: rest
  output : st.output ≠ [] → st.output.getLast? = some slash
  plain : Plain st.source

theorem normalizeStep_rooted (hst : st.Rooted) (hsource : st.source = b :: rest)
    (hstart : st.atStart = true → st.output = []) :
    (normalizeStep st b rest).Rooted := by
  have hplain := hst.plain
  rw [hsource] at hplain
  have happend : Plain ([b] ++ rest) := hplain
  have hrest : Plain rest := happend.behind
  have hempty : st.output = [] → b = slash := by
    intro hout
    obtain ⟨rest', hslash⟩ := hst.source hout
    rw [hsource] at hslash
    exact (List.cons.inj hslash).1
  have hlast : ∀ c : UInt8, (st.output = [] → c = slash) →
      (c :: st.output).getLast? = some slash := by
    intro c hc
    by_cases hout : st.output = []
    · rw [hout, hc hout]
      rfl
    · rw [List.getLast?_cons, hst.output hout]
      rfl
  have hcase := normalizeStep_cases hsource hstart
  generalize normalizeStep st b rest = next at hcase
  cases hcase with
  | inside _ hout => exact ⟨nofun, fun _ => hlast b fun h => absurd h hout, hrest⟩
  | begins _ _ _ _ _ _ => exact ⟨nofun, fun _ => hlast b hempty, hrest⟩
  | doubled more hb hmore => exact ⟨fun _ => ⟨more, hmore⟩, hst.output, hrest⟩
  | single more hcheck hbegins =>
    have hb : b = slash := by
      by_contra hne
      exact hne (hempty (hbegins hne))
    rw [if_pos hb] at hcheck
    have hdot := (hplain [] rest (by rw [hb]; rfl)).2
    rw [hcheck] at hdot
    rw [part_cons dot_ne_slash, part_slash] at hdot
    exact absurd (hdot rfl) (by simp)
  | last hb _ hout =>
    refine ⟨nofun, fun _ => hlast slash fun _ => rfl, fun front rest heq => ?_⟩
    exact absurd heq.symm (by simp)
  | double more hcheck hend hbegins =>
    have hb : b = slash := by
      by_contra hne
      exact hne (hempty (hbegins hne))
    rw [if_pos hb] at hcheck
    refine absurd ?_ (hplain [] rest (by rw [hb]; rfl)).1
    rw [hcheck, part_cons dot_ne_slash, part_cons dot_ne_slash, part_of_atEnd hend]

theorem normalizeLoop_rooted (turns : Nat) : ∀ {st : NormalizeState},
    st.Inv path → st.Rooted → (normalizeLoop turns st).Rooted := by
  induction turns with
  | zero => exact fun _ h => h
  | succ turns ih =>
    intro st hst hrooted
    rw [normalizeLoop]
    split
    · exact hrooted
    · next b rest hsource =>
      exact ih (normalizeStep_inv hst hsource) (normalizeStep_rooted hrooted hsource hst.start)

theorem normalizePath_rooted {path output : PathName} (hroot : path.head? = some slash)
    (hplain : Plain path) (h : normalizePath path = some output) : output.head? = some slash := by
  cases path with
  | nil => cases hroot
  | cons b rest =>
    cases hroot
    rw [normalizePath, if_neg (List.cons_ne_nil slash rest)] at h
    cases h
    have hinit : NormalizeState.Rooted ⟨true, slash :: rest, []⟩ :=
      ⟨fun _ => ⟨rest, rfl⟩, fun hne => absurd rfl hne, hplain⟩
    have hlast := normalizeLoop_rooted (slash :: rest).length (startState_inv _) hinit
    have hsource : (normalizeLoop (slash :: rest).length ⟨true, slash :: rest, []⟩).source = [] :=
      normalizeLoop_source _ (startState_inv _) (Nat.le_refl _)
    rw [List.head?_reverse]
    refine hlast.output fun hout => ?_
    obtain ⟨rest', hslash⟩ := hlast.source hout
    rw [hsource] at hslash
    cases hslash

/-- A directory as `realpath` gives it: from the root, without dots. -/
structure Resolved (dir : PathName) : Prop where
  root : dir.head? = some slash
  double : dotdot ∉ dir.splitOn slash
  single : [dot] ∉ dir.splitOn slash

/-- A path is a directory, or lexically below it. -/
structure Below (dir path : PathName) : Prop where
  root : path.head? = some slash
  double : dotdot ∉ path.splitOn slash
  parts : components slash dot dir <+: components slash dot path

theorem getOutputFilePath_below {fileName outDir outPath : PathName} (hdir : Resolved outDir)
    (h : getOutputFilePath fileName outDir = .ok outPath) : Below outDir outPath := by
  rw [getOutputFilePath] at h
  split at h
  · cases h
  · next name hname =>
    have hnormal := normalizePath_normalized hname
    dsimp only at h
    split at h
    · cases h
    · split at h
      · cases h
      · next path hpath =>
        split at h
        · cases h
        · cases h
          have hdouble : dotdot ∉ (outDir ++ slash :: name).splitOn slash := by
            rw [List.splitOn_append_cons_self, List.mem_append]
            exact not_or.mpr ⟨hdir.double, hnormal.double⟩
          have hfront : ∀ c ∈ ((outDir ++ slash :: name).splitOn slash).dropLast, c ≠ [dot] := by
            rw [List.splitOn_append_cons_self,
              List.dropLast_append_of_ne_nil (List.splitOn_ne_nil slash name)]
            intro c hc
            rcases List.mem_append.mp hc with hc | hc
            · exact fun heq => hdir.single (heq ▸ hc)
            · exact hnormal.front c hc
          have hroot : (outDir ++ slash :: name).head? = some slash := by
            rw [List.head?_append, hdir.root]
            rfl
          have hcomplete := normalizePath_normalized hpath
          refine ⟨normalizePath_rooted hroot (plain_of_splitOn hdouble hfront) hpath,
            hcomplete.double, ?_⟩
          rw [hcomplete.resolves, resolve_of_not_mem hdouble, components_append_sep]
          exact List.prefix_append _ _

/-! ## The whole of it -/

/-- A path is resolved: what it says is what the stack says, nothing in it pops, no turn of the
loop has put out more than fits, and `maxOutputLen` does not end the loop; and what comes of an
entry name in a directory is the directory or below it. -/
theorem normalizePath_resolves :
    (∀ path output, normalizePath path = some output →
      components slash dot output = resolve slash dot path ∧ dotdot ∉ output.splitOn slash) ∧
    (∀ path, normalizePath path = none ↔ path = []) ∧
    (∀ path turns, (normalizeLoop turns ⟨true, path, []⟩).output.length ≤ path.length) ∧
    (∀ path, normalizeLoopMax path.length ⟨true, path, []⟩ (path.length + 1) =
      normalizeLoop path.length ⟨true, path, []⟩) ∧
    ∀ fileName outDir outPath, Resolved outDir →
      getOutputFilePath fileName outDir = .ok outPath → Below outDir outPath := by
  refine ⟨fun path output h => ?_, fun path => ?_, fun path turns => ?_, fun path => ?_,
    fun _ _ _ => getOutputFilePath_below⟩
  · exact ⟨(normalizePath_normalized h).resolves, (normalizePath_normalized h).double⟩
  · rw [normalizePath]
    split
    · next hnil => exact ⟨fun _ => hnil, fun _ => rfl⟩
    · next hne => exact ⟨nofun, fun h => absurd h hne⟩
  · have hlength := (normalizeLoop_inv turns (startState_inv path)).2
    exact Nat.le_trans (Nat.le_add_right _ _) (Nat.le_trans hlength (Nat.le_of_eq (Nat.zero_add _)))
  · exact normalizeLoopMax_eq path.length (startState_inv path) (Int.le_refl _)

/-- The name `a/.././../b` in the directory `/d` comes to `/d/b`. -/
theorem normalizePath_resolves_pops :
    ∃ outPath, getOutputFilePath [0x61, 0x2f, 0x2e, 0x2e, 0x2f, 0x2e, 0x2f, 0x2e, 0x2e, 0x2f, 0x62]
        [0x2f, 0x64] = .ok outPath ∧
      outPath = [0x2f, 0x64, 0x2f, 0x62] ∧ Below [0x2f, 0x64] outPath := by
  have hrun : getOutputFilePath
      [0x61, 0x2f, 0x2e, 0x2e, 0x2f, 0x2e, 0x2f, 0x2e, 0x2e, 0x2f, 0x62] [0x2f, 0x64] =
        .ok [0x2f, 0x64, 0x2f, 0x62] := by decide +kernel
  have hdir : Resolved [0x2f, 0x64] := ⟨rfl, by decide +kernel, by decide +kernel⟩
  exact ⟨_, hrun, rfl, normalizePath_resolves.2.2.2.2 _ _ _ hdir hrun⟩

end FileApi.Compress
