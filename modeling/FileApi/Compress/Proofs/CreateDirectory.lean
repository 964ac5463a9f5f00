import FileApi.Compress.Directories
import FileApi.Compress.Proofs.OutputPath
import FileApi.Compress.Proofs.PathCalls

/-!
# What `CreateDirectory` delivers

Whatever fails, a call that returns well has made what was missing in front of the last name, so
what is at its end is known: the directory, unless something else has its name, or the path is one
byte and was never tried.
-/

namespace FileApi.Compress

open FileTree Program Zip

variable {cwd : List PathName} {limit : Nat} {fs fs' : Directories cwd} {path : PathName}
  {place : List PathName}

/-! ## The last name -/

/-- The last part between slashes that is not empty. -/
def lastPart (path : PathName) : Option PathName :=
  (path.splitOn slash).reverse.find? (· ≠ [])

theorem map_stepOf_stays {parts : List PathName} (h : ∀ part ∈ parts, part = []) :
    stays (parts.map stepOf) = true := by
  induction parts with
  | nil => rfl
  | cons part parts ih =>
    rw [List.map_cons, h part List.mem_cons_self]
    exact ih fun other hother => h other (List.mem_cons_of_mem _ hother)

theorem lastPart_eq_some {part : PathName} (h : lastPart path = some part) :
    part ≠ [] ∧ ∃ front back, path.splitOn slash = front ++ part :: back ∧
      ∀ other ∈ back, other = [] := by
  obtain ⟨hne, before, after, hsplit, hbefore⟩ := List.find?_eq_some_iff_append.mp h
  refine ⟨by simpa using hne, after.reverse, before.reverse, ?_, fun other hother => ?_⟩
  · rw [← List.reverse_reverse (path.splitOn slash), hsplit]
    simp
  · simpa using hbefore other (List.mem_reverse.mp hother)

theorem lastPart_append (a b : PathName) :
    lastPart (a ++ slash :: b) = (lastPart b).or (lastPart a) := by
  rw [lastPart, List.splitOn_append_cons_self, List.reverse_append, List.find?_append]
  rfl

theorem lastPart_slash (a : PathName) : lastPart (a ++ [slash]) = lastPart a := by
  rw [lastPart_append]
  rfl

theorem stays_of_lastPart (h : lastPart path = none) : stays (routeOf path).steps = true := by
  rw [lastPart, List.find?_eq_none] at h
  refine map_stepOf_stays fun part hpart => ?_
  simpa using h part (List.mem_reverse.mpr hpart)

theorem steps_of_lastPart {part : PathName} (h : lastPart path = some part)
    (hname : part ≠ [dot] ∧ part ≠ [dot, dot]) :
    ∃ front back, stays back = true ∧ (routeOf path).steps = front ++ .down part :: back := by
  obtain ⟨hne, front, back, hsplit, hback⟩ := lastPart_eq_some h
  refine ⟨front.map stepOf, back.map stepOf, map_stepOf_stays hback, ?_⟩
  have hstep : stepOf part = .down part := by
    rw [stepOf, if_neg (not_or.mpr ⟨hne, hname.1⟩), if_neg hname.2]
  rw [routeOf, hsplit, List.map_append, List.map_cons, hstep]

theorem namesEntry_iff : namesEntry path = true ↔
    ∃ part, lastPart path = some part ∧ part ≠ [dot] ∧ part ≠ [dot, dot] := by
  rw [namesEntry, ← lastPart]
  cases lastPart path with
  | none => simp
  | some part => simp

/-! ## Trees with a directory more -/

namespace Directories

theorem isDirectory_iff : fs.isDirectory limit path = true ↔ path ≠ [] ∧
    ∃ place, lookupAt fs.node cwd limit path = .there place ∧ fs.node place = some .directory := by
  rw [isDirectory, Bool.and_eq_true, decide_eq_true_iff]
  refine and_congr_right fun _ => ?_
  split
  · next place hwalk =>
    rw [decide_eq_true_iff]
    refine ⟨fun h => ⟨place, hwalk, h⟩, ?_⟩
    rintro ⟨other, heq, h⟩
    cases hwalk.symm.trans heq
    exact h
  · next hnot =>
    refine iff_of_false Bool.false_ne_true ?_
    rintro ⟨place, hwalk, -⟩
    exact hnot place hwalk

theorem start_directory (fs : Directories cwd) (route : Route PathName) :
    fs.node (route.start cwd) = some .directory := by
  unfold Route.start
  split
  · exact fs.root
  · exact fs.cwd_directory

theorem entry_eq_some (h : fs.entry limit path = some place) :
    namesEntry path = true ∧ entryAt fs.node cwd limit path = some place := by
  unfold entry at h
  split at h
  · next hnames => exact ⟨hnames, h⟩
  · cases h

theorem ne_nil_of_entry (h : fs.entry limit path = some place) : path ≠ [] := by
  rintro rfl
  exact absurd (entry_eq_some h).1 (by decide)

theorem node_ne_none (h : fs.isDirectory limit path = true) (hentry : fs.entry limit path = some place) :
    fs.node place ≠ none := by
  intro hnone
  obtain ⟨-, p, hwalk, -⟩ := isDirectory_iff.mp h
  have hmissing := walk_of_entry fs.root (entry_eq_some hentry).2 hnone
  rw [lookupAt, hmissing] at hwalk
  cases hwalk

theorem make_eq (hentry : fs.entry limit path = some place) (hnone : fs.node place = none) :
    (fs.make limit path).node = Function.update fs.node place (some .directory) := by
  unfold make
  split
  · next h => rw [hentry] at h; cases h
  · next other h =>
    obtain rfl : other = place := Option.some.inj (h.symm.trans hentry)
    rw [if_pos hnone]
    rfl

theorem make_of_node (h : ∀ place, fs.entry limit path = some place → fs.node place ≠ none) :
    fs.make limit path = fs := by
  unfold make
  split
  · rfl
  · next place hentry => exact if_neg (h place hentry)

theorem make_of_isDirectory (h : fs.isDirectory limit path = true) : fs.make limit path = fs :=
  make_of_node fun _ hentry => node_ne_none h hentry

theorem make_of_taken (h : fs.taken limit path = true) : fs.make limit path = fs := by
  refine make_of_node fun place hentry => ?_
  unfold taken at h
  rw [if_pos (entry_eq_some hentry).1, hentry] at h
  exact Option.isSome_iff_ne_none.mp h

theorem make_leads (hentry : fs.entry limit path = some place) (hnone : fs.node place = none) :
    lookupAt (fs.make limit path).node cwd limit path = .there place ∧
      (fs.make limit path).node place = some .directory := by
  have hnode : (fs.make limit path).node place = some .directory := by
    rw [make_eq hentry hnone, Function.update_self]
  refine ⟨walk_of_entry_directory (fs.make limit path).root ?_ hnode, hnode⟩
  refine entry_keeps fs.root (fun q node hq _ => ?_) (entry_eq_some hentry).2
  rw [make_eq hentry hnone, Function.update_of_ne]
  · exact hq
  · rintro rfl
    rw [hnone] at hq
    cases hq

theorem make_isDirectory (hentry : fs.entry limit path = some place) (hnone : fs.node place = none) :
    (fs.make limit path).isDirectory limit path = true :=
  isDirectory_iff.mpr ⟨ne_nil_of_entry hentry, place, make_leads hentry hnone⟩

/-- What is in front of a name that can be looked up is a directory, or has the same name. -/
theorem front_of_entry {f rest : PathName}
    (hentry : fs.entry limit (f ++ slash :: rest) = some place) :
    fs.isDirectory limit (f ++ [slash]) = true ∨ fs.entry limit (f ++ [slash]) = some place := by
  have hstart : (routeOf (f ++ [slash])).start cwd = (routeOf (f ++ slash :: rest)).start cwd := by
    cases f with
    | nil => rfl
    | cons b f => rfl
  obtain ⟨hnames, hentry⟩ := entry_eq_some hentry
  obtain ⟨part, hpart, hname⟩ := namesEntry_iff.mp hnames
  rw [lastPart_append] at hpart
  have hsteps : (routeOf (f ++ [slash])).steps = (routeOf f).steps ++ [.here] :=
    routeOf_append_slash f []
  cases hrest : lastPart rest with
  | some other =>
    -- the name is behind the slash, and the walk to it goes through the front
    rw [hrest] at hpart
    obtain rfl : other = part := Option.some.inj hpart
    obtain ⟨front, back, hback, hrestSteps⟩ := steps_of_lastPart hrest hname
    obtain ⟨front', name, parent, hlast, hwalk, hdir, rfl⟩ := FileTree.entry_eq_some hentry
    rw [routeOf_append_slash, hrestSteps, ← List.append_assoc, splitLastName_append _ _ hback]
      at hlast
    cases hlast
    have hparent := tree_of_isDirectory fs.root hdir
    have hmid : ∃ mid, walk fs.node true limit ((routeOf (f ++ [slash])).start cwd)
        (routeOf f).steps = .there mid ∧ fs.node mid = some .directory := by
      rw [← hstart] at hwalk
      by_cases hfront : front = []
      · rw [hfront, List.append_nil] at hwalk
        exact ⟨parent, hwalk, hparent⟩
      · obtain ⟨mid, -, hmid, hnode, -⟩ :=
          walk_append_there fs.root fs.rooted (fs.start_directory _) hfront hwalk
        exact ⟨mid, hmid, hnode⟩
    obtain ⟨mid, hmid, hnode⟩ := hmid
    refine .inl (isDirectory_iff.mpr ⟨by simp, mid, ?_, hnode⟩)
    rw [lookupAt, hsteps]
    exact walk_append hmid hnode fun again => rfl
  | none =>
    -- the front has the name itself
    rw [hrest] at hpart
    obtain ⟨front, back, hback, hfSteps⟩ := steps_of_lastPart hpart hname
    have hpart' : lastPart (f ++ [slash]) = some part := (lastPart_slash f).trans hpart
    have hnames' := namesEntry_iff.mpr ⟨part, hpart', hname⟩
    refine .inr ?_
    rw [Directories.entry, if_pos hnames', entryAt, hsteps, hstart, hfSteps]
    rw [entryAt, routeOf_append_slash, hfSteps] at hentry
    rw [FileTree.entry] at hentry ⊢
    rw [List.append_assoc, List.cons_append] at hentry ⊢
    rw [splitLastName_append _ _ (stays_append hback (stays_of_lastPart hrest))] at hentry
    rw [splitLastName_append _ _ (stays_append hback rfl)]
    exact hentry

end Directories

/-! ## The parts in front -/

theorem frontsOf_name {name : PathName} (hname : slash ∉ name) (p : PathName) :
    ∀ temp, frontsOf temp (name ++ p) = frontsOf (temp ++ name) p := by
  induction name with
  | nil => simp
  | cons b name ih =>
    intro temp
    obtain ⟨hb, hrest⟩ := not_or.mp fun h => hname (List.mem_cons.mpr h)
    rw [List.cons_append, frontsOf, if_neg fun h => hb h.1.symm, ih hrest, List.append_assoc,
      List.singleton_append]

theorem prefix_of_mem_frontsOf (p : PathName) :
    ∀ temp, ∀ front ∈ frontsOf temp p, temp <+: front := by
  induction p with
  | nil => nofun
  | cons b p ih =>
    intro temp front hfront
    have hnext := List.prefix_append temp [b]
    rw [frontsOf] at hfront
    split at hfront
    · rcases List.mem_cons.mp hfront with rfl | hfront
      · exact hnext
      · exact hnext.trans (ih _ front hfront)
    · exact hnext.trans (ih _ front hfront)

namespace Directories

/-- What `mkdir` cannot get to: no directory, and no name in one. -/
structure Stuck (fs : Directories cwd) (limit : Nat) (front : PathName) : Prop where
  isDirectory : fs.isDirectory limit front = false
  entry : fs.entry limit front = none

theorem Stuck.entry_eq_none {f rest : PathName} (h : fs.Stuck limit (f ++ [slash])) :
    fs.entry limit (f ++ [slash] ++ rest) = none := by
  cases hentry : fs.entry limit (f ++ [slash] ++ rest) with
  | none => rfl
  | some place =>
    rw [List.append_assoc, List.singleton_append] at hentry
    rcases front_of_entry hentry with hdir | hsame
    · rw [h.isDirectory] at hdir
      cases hdir
    · rw [h.entry] at hsame
      cases hsame

theorem Stuck.foldl_make {f : PathName} (h : fs.Stuck limit (f ++ [slash])) {fronts : List PathName}
    (hfronts : ∀ front ∈ fronts, f ++ [slash] <+: front) :
    fronts.foldl (fun fs front => fs.make limit front) fs = fs := by
  induction fronts with
  | nil => rfl
  | cons front fronts ih =>
    obtain ⟨rest, hrest⟩ := hfronts front List.mem_cons_self
    have hmake : fs.make limit front = fs := make_of_node fun place hentry => by
      rw [← hrest, h.entry_eq_none] at hentry
      cases hentry
    rw [List.foldl_cons, hmake]
    exact ih fun other hother => hfronts other (List.mem_cons_of_mem _ hother)

end Directories

/-! ## The loop -/

/-- What a turn of the loop leaves that does not fail. -/
inductive Tried (fs : Directories cwd) (limit : Nat) (dir : PathName) : Directories cwd → Prop
  | short (h : dir.length ≤ 1) : Tried fs limit dir fs
  | isDirectory (h : fs.isDirectory limit dir = true) : Tried fs limit dir fs
  | taken (h : fs.taken limit dir = true) : Tried fs limit dir fs
  | made (place : List PathName) (hlong : 1 < dir.length)
      (hentry : fs.entry limit dir = some place) (hnone : fs.node place = none) : Tried fs limit dir (fs.make limit dir)

theorem Tried.eq_make {f : PathName} (h : Tried fs limit (f ++ [slash]) fs') :
    fs' = fs.make limit (f ++ [slash]) := by
  cases h with
  | short hlength =>
    obtain rfl : f = [] := by
      rw [List.length_append, List.length_singleton] at hlength
      exact List.length_eq_zero_iff.mp (by omega)
    exact (Directories.make_of_node fun place hentry =>
      absurd (Directories.entry_eq_some hentry).1 (by decide)).symm
  | isDirectory hdir => exact (Directories.make_of_isDirectory hdir).symm
  | taken htaken => exact (Directories.make_of_taken htaken).symm
  | made place hlong hentry hnone => rfl

variable {W H : Type} {os : Os W H}

/-- The turn for one directory, with what comes behind it. -/
def tryDirectory (os : Os W H) (dir : PathName) (behind : Run W Unit) : Run W Unit :=
  if 1 < dir.length then do
    if ¬ (← call (os.isDirectory dir)) then
      match ← call (os.mkdir dir) with
      | .made => behind
      | .exists => behind
      | .nameTooLong => throw (.error .nameTooLongError); behind
      | .fails => throw (.error .paramError); behind
    else behind
  else behind

theorem createDirectoryLoop_succ (fuel : Nat) (temp p : PathName) (hp : p ≠ []) :
    createDirectoryLoop os (fuel + 1) temp p =
      let name := p.takeWhile (· ≠ slash)
      let rest := p.dropWhile (· ≠ slash)
      if ZIP_FILE_NAME_LEN_MAX - 1 < temp.length + name.length then
        throw (.error .nameTooLongError)
      else if rest ≠ [] ∧ ZIP_FILE_NAME_LEN_MAX - 1 ≤ (temp ++ name).length then
        throw (.error .nameTooLongError)
      else
        let next := if rest = [] then (temp ++ name, rest) else (temp ++ name ++ [slash], rest.tail)
        tryDirectory os next.1 (createDirectoryLoop os fuel next.1 next.2) := by
  rw [createDirectoryLoop, if_neg hp]
  dsimp only
  rw [throw_bind, throw_bind]
  rfl

/-- A directory that is tried and cannot be made. -/
structure Refused (os : Os W H) (dir : PathName) (w : W) : Prop where
  long : 1 < dir.length
  isDirectory : (os.isDirectory dir w).1 = false
  mkdir : (os.mkdir dir (os.isDirectory dir w).2).1 = .nameTooLong ∨
    (os.mkdir dir (os.isDirectory dir w).2).1 = .fails

theorem tryDirectory_triple (laws : MakesDirectories os cwd limit) {dir : PathName}
    {behind : Run W Unit} {R : Unit → W → Prop} {E : Stop → W → Prop}
    (hbehind : Triple (fun w => Tried fs limit dir (laws.fs w)) behind R E)
    (hrefused : ∀ w, laws.fs w = fs → Refused os dir w → ∀ err w', E (.error err) w') :
    Triple (fun w => laws.fs w = fs) (tryDirectory os dir behind) R E := by
  have hlater : ∀ {w fs'}, laws.fs w = fs' → Tried fs limit dir fs' →
      Triple (· = w) behind R E := fun hw htried =>
    hbehind.weaken (fun w' heq => by rw [heq, hw]; exact htried) (fun _ _ h => h) fun _ _ h => h
  have hstop : ∀ {w w'} (err : ArchiveErr), laws.fs w = fs → Refused os dir w →
      Triple (· = w') (throw (.error err) >>= fun _ : Unit => behind) R E := fun err hw hno =>
    .bind (Q := fun _ _ => False) (.throw fun _ _ => hrefused _ hw hno _ _) fun _ _ h => h.elim
  intro w hw
  unfold tryDirectory
  by_cases hlong : 1 < dir.length
  · have hfs := (laws.isDirectory dir w).trans hw
    rw [if_pos hlong, bind_run, call_run]
    dsimp only
    cases hthere : (os.isDirectory dir w).1 with
    | true =>
      have hdir := laws.isDirectory_true dir w hthere
      rw [hw] at hdir
      exact hlater hfs (.isDirectory hdir) _ rfl
    | false =>
      rw [if_pos Bool.false_ne_true, bind_run, call_run]
      dsimp only
      cases hmkdir : (os.mkdir dir (os.isDirectory dir w).2).1 with
      | made =>
        obtain ⟨place, hentry, hnone, hmade⟩ := laws.mkdir_made dir _ hmkdir
        rw [hfs] at hentry hnone hmade
        exact hlater hmade (.made place hlong hentry hnone) _ rfl
      | «exists» =>
        have htaken := laws.mkdir_exists dir _ hmkdir
        have hfails := laws.mkdir_fails dir _ (by rw [hmkdir]; nofun)
        rw [hfs] at htaken hfails
        exact hlater hfails (.taken htaken) _ rfl
      | nameTooLong => exact hstop _ hw ⟨hlong, hthere, .inl hmkdir⟩ _ rfl
      | fails => exact hstop _ hw ⟨hlong, hthere, .inr hmkdir⟩ _ rfl
  · rw [if_neg hlong]
    exact hlater hw (.short (Nat.not_lt.mp hlong)) _ rfl

theorem nextDirectory_fronts (temp p : PathName) :
    let rest := p.dropWhile (· ≠ slash)
    let next := if rest = [] then (temp ++ p.takeWhile (· ≠ slash), rest)
      else (temp ++ p.takeWhile (· ≠ slash) ++ [slash], rest.tail)
    next.1 ++ next.2 = temp ++ p ∧ (next.2 = [] ∧ frontsOf temp p = [] ∨
      next.2 ≠ [] ∧ next.2.length < p.length ∧ frontsOf temp p = next.1 :: frontsOf next.1 next.2 ∧
        ∃ f, next.1 = f ++ [slash]) := by
  have happend := (nextDirectory_append temp p).1
  have hname := List.takeWhile_append_dropWhile (p := (· ≠ slash)) (l := p)
  have hnot : slash ∉ p.takeWhile (· ≠ slash) := fun h => by simpa using List.mem_takeWhile_imp h
  have hfronts := frontsOf_name hnot (p.dropWhile (· ≠ slash)) temp
  rw [hname] at hfronts
  refine ⟨happend, ?_⟩
  cases hrest : p.dropWhile (· ≠ slash) with
  | nil =>
    rw [hrest] at hfronts
    exact .inl ⟨rfl, hfronts⟩
  | cons b rest =>
    have hb : b = slash := by
      have hhead := List.head?_dropWhile_not (· ≠ slash) p
      rw [hrest] at hhead
      simpa using hhead
    rw [hrest, hb, frontsOf] at hfronts
    rw [if_neg (List.cons_ne_nil _ _), List.tail_cons]
    by_cases hend : rest = []
    · rw [if_neg (by simp [hend]), hend] at hfronts
      exact .inl ⟨hend, hfronts⟩
    · rw [if_pos ⟨rfl, hend⟩] at hfronts
      have hlength := congrArg List.length hname
      rw [hrest, List.length_append, List.length_cons] at hlength
      refine .inr ⟨hend, ?_, hfronts, _, rfl⟩
      dsimp only
      omega

/-- What is left to be tried leads to the tree `T`: the path in it, or a part in front and those
behind it. -/
def LeadsTo (limit : Nat) (T fs : Directories cwd) (dir behind : PathName) : Prop :=
  behind = [] ∧ fs = T ∨ (∃ f, dir = f ++ [slash]) ∧
    (frontsOf dir behind).foldl (fun fs front => fs.make limit front) (fs.make limit dir) = T

/-- The parts in front are made one after the other, and the path is tried in the tree they lead
to. -/
theorem createDirectoryLoop_tried (laws : MakesDirectories os cwd limit)
    (hlength : path.length < ZIP_FILE_NAME_LEN_MAX) {T : Directories cwd}
    {E : Stop → W → Prop}
    (hrefused : ∀ dir behind w, dir ++ behind = path → LeadsTo limit T (laws.fs w) dir behind →
      Refused os dir w → ∀ err w', E (.error err) w') (fuel : Nat) :
    ∀ temp p fs, temp ++ p = path → p ≠ [] → p.length ≤ fuel →
      (frontsOf temp p).foldl (fun fs front => fs.make limit front) fs = T →
      Triple (fun w => laws.fs w = fs) (createDirectoryLoop os fuel temp p)
        (fun _ w => Tried T limit path (laws.fs w)) E := by
  induction fuel with
  | zero =>
    intro temp p fs _ hp hfuel
    exact absurd (List.length_eq_zero_iff.mp (Nat.le_zero.mp hfuel)) hp
  | succ fuel ih =>
    intro temp p fs hpath hp hfuel hfold
    obtain ⟨happend, hnext⟩ := nextDirectory_fronts temp p
    rw [createDirectoryLoop_succ fuel temp p hp]
    dsimp only at happend hnext ⊢
    have htemp := congrArg List.length hpath
    have hname := congrArg List.length
      (List.takeWhile_append_dropWhile (p := (· ≠ slash)) (l := p))
    rw [List.length_append] at htemp hname
    have hmax : ZIP_FILE_NAME_LEN_MAX = 4096 := rfl
    have hfirst : ¬ ZIP_FILE_NAME_LEN_MAX - 1 <
        temp.length + (p.takeWhile (· ≠ slash)).length := by omega
    have hsecond : ¬ (p.dropWhile (· ≠ slash) ≠ [] ∧
        ZIP_FILE_NAME_LEN_MAX - 1 ≤ (temp ++ p.takeWhile (· ≠ slash)).length) := by
      rintro ⟨hrest, hle⟩
      have hpos := List.length_pos_iff.mpr hrest
      rw [List.length_append] at hle
      omega
    rw [if_neg hfirst, if_neg hsecond]
    generalize (if p.dropWhile (· ≠ slash) = [] then _ else _ : PathName × PathName) = next
      at happend hnext ⊢
    obtain ⟨dir, behind⟩ := next
    dsimp only at happend hnext ⊢
    rcases hnext with ⟨rfl, hnone⟩ | ⟨hbehind, hshorter, hfronts, f, rfl⟩
    · -- the path itself
      rw [List.append_nil, hpath] at happend
      rw [hnone, List.foldl_nil] at hfold
      subst happend hfold
      refine tryDirectory_triple laws ?_ fun w hw => hrefused _ _ w (List.append_nil _) (.inl ⟨rfl, hw⟩)
      rw [createDirectoryLoop_nil]
      exact .pure fun _ h => h
    · -- a part in front of it
      rw [hfronts, List.foldl_cons] at hfold
      refine tryDirectory_triple laws ?_ fun w hw =>
        hrefused _ _ w (happend.trans hpath) (.inr ⟨⟨f, rfl⟩, by rw [hw, hfold]⟩)
      refine (ih _ behind _ (happend.trans hpath) hbehind (by omega) hfold).weaken
        (fun w h => h.eq_make) (fun _ _ h => h) fun _ _ h => h

namespace Directories

theorem prepared_of_length (h : path.length ≤ 1) : fs.prepared limit path = fs := by
  cases path with
  | nil => rfl
  | cons b rest =>
    obtain rfl : rest = [] := List.length_eq_zero_iff.mp (by simpa using h)
    rw [prepared, frontsOf, if_neg (by simp)]
    rfl

theorem prepared_slash {rest : PathName} (h : rest ≠ []) :
    fs.prepared limit (slash :: rest) =
      (frontsOf [slash] rest).foldl (fun fs front => fs.make limit front) fs := by
  have hroot : fs.make limit [slash] = fs := make_of_node fun place hentry =>
    absurd (entry_eq_some hentry).1 (by decide)
  rw [prepared, frontsOf, if_pos ⟨rfl, h⟩, List.nil_append, List.foldl_cons, hroot]

end Directories

/-- A call that returns well has found the directory, or has tried the path in the tree with what
was missing in front. -/
theorem createDirectory_tried (laws : MakesDirectories os cwd limit)
    (hlength : path.length < ZIP_FILE_NAME_LEN_MAX) (hne : path ≠ []) {E : Stop → W → Prop}
    (hrefused : ∀ dir behind w, dir ++ behind = path →
      LeadsTo limit (fs.prepared limit path) (laws.fs w) dir behind →
      Refused os dir w → ∀ err w', E (.error err) w') :
    Triple (fun w => laws.fs w = fs) (createDirectory os path)
      (fun _ w => fs.isDirectory limit path = true ∧ laws.fs w = fs ∨
        Tried (fs.prepared limit path) limit path (laws.fs w)) E := by
  refine .bind (Q := fun there w => (there = true → fs.isDirectory limit path = true) ∧
    laws.fs w = fs) (.call fun w hw => ⟨fun hthere => ?_, (laws.isDirectory path w).trans hw⟩)
    fun there => ?_
  · rw [← hw]
    exact laws.isDirectory_true path w hthere
  · split
    · next hthere => exact .pure fun w h => .inl ⟨h.1 hthere, h.2⟩
    · obtain ⟨b, rest, rfl⟩ := List.exists_cons_of_ne_nil hne
      refine .assume fun _ => ?_
      dsimp only
      split
      · next hb =>
        subst hb
        by_cases hrest : rest = []
        · subst hrest
          rw [createDirectoryLoop_nil, Directories.prepared_of_length (by simp)]
          exact .pure fun w h => .inr (h ▸ .short (Nat.le_refl 1))
        · refine (createDirectoryLoop_tried laws hlength hrefused _ [slash] rest fs rfl hrest
            (Nat.le_succ _) (Directories.prepared_slash hrest).symm).weaken (fun _ h => h)
            (fun _ _ h => .inr h) fun _ _ h => h
      · exact (createDirectoryLoop_tried laws hlength hrefused _ [] (b :: rest) fs rfl
          (List.cons_ne_nil _ _) (Nat.le_refl _) rfl).weaken (fun _ h => h)
            (fun _ _ h => .inr h) fun _ _ h => h

/-! ## What is made -/

/-- What is there in the end and was not at first are directories, which parts of the path lead to
that start at its front. -/
def OnlyPrefixes (limit : Nat) (path : PathName) (fs fs' : Directories cwd) : Prop :=
  ∀ place, fs'.node place ≠ fs.node place → fs.node place = none ∧
    fs'.node place = some .directory ∧
    ∃ front, front <+: path ∧ lookupAt fs'.node cwd limit front = .there place

namespace Directories

theorem node_make {dir : PathName} {node : FileNode} {q : List PathName}
    (h : fs.node q = some node) : (fs.make limit dir).node q = some node := by
  unfold make
  split
  · exact h
  · next place hentry =>
    split
    · next hnone =>
      refine (Function.update_of_ne ?_ _ _).trans h
      rintro rfl
      rw [hnone] at h
      cases h
    · exact h

theorem isDirectory_mono (hlarger : ∀ q node, fs.node q = some node → fs'.node q = some node)
    (h : fs.isDirectory limit path = true) : fs'.isDirectory limit path = true := by
  obtain ⟨hne, place, hwalk, hnode⟩ := isDirectory_iff.mp h
  exact isDirectory_iff.mpr ⟨hne, place, walk_mono hlarger hwalk, hlarger _ _ hnode⟩

theorem node_prepared {q : List PathName} {node : FileNode} (h : fs.node q = some node) :
    (fs.prepared limit path).node q = some node := by
  unfold prepared
  generalize frontsOf [] path = fronts
  induction fronts generalizing fs with
  | nil => exact h
  | cons front fronts ih => exact ih (node_make h)

end Directories

theorem OnlyPrefixes.refl (limit : Nat) (path : PathName) (fs : Directories cwd) :
    OnlyPrefixes limit path fs fs := fun _ h => absurd rfl h

theorem OnlyPrefixes.make {dir : PathName} (h : OnlyPrefixes limit path fs fs')
    (hdir : dir <+: path) (hentry : fs'.entry limit dir = some place)
    (hnone : fs'.node place = none) : OnlyPrefixes limit path fs (fs'.make limit dir) := by
  have hmade := Directories.make_eq hentry hnone
  intro q hq
  by_cases heq : q = place
  · subst heq
    have hfirst : fs.node q = none := by
      by_contra hsome
      have hchanged := (h q (by rw [hnone]; exact fun heq => hsome heq.symm)).2.1
      rw [hnone] at hchanged
      cases hchanged
    obtain ⟨hleads, hnode⟩ := Directories.make_leads hentry hnone
    exact ⟨hfirst, hnode, dir, hdir, hleads⟩
  · rw [hmade, Function.update_of_ne heq] at hq ⊢
    obtain ⟨hfirst, hnode, front, hfront, hleads⟩ := h q hq
    refine ⟨hfirst, hnode, front, hfront, walk_mono (fun r node hr => ?_) hleads⟩
    rw [← hmade]
    exact Directories.node_make hr

theorem createDirectory_onlyPrefixes (laws : MakesDirectories os cwd limit) (path : PathName)
    (fs : Directories cwd) :
    Program.Keeps (fun w => OnlyPrefixes limit path fs (laws.fs w)) (createDirectory os path) := by
  have hmkdir : ∀ dir w, dir <+: path → OnlyPrefixes limit path fs (laws.fs w) →
      OnlyPrefixes limit path fs (laws.fs (os.mkdir dir w).2) := by
    intro dir w hdir h
    by_cases hmade : (os.mkdir dir w).1 = .made
    · obtain ⟨place, hentry, hnone, heq⟩ := laws.mkdir_made dir w hmade
      rw [heq]
      exact h.make hdir hentry hnone
    · rw [laws.mkdir_fails dir w hmade]
      exact h
  refine createDirectory_triple (fun dir w h => ?_) (fun dir w hdir h => hmkdir dir w ?_ h)
    (fun w h => hmkdir path w (List.prefix_refl _) h) fun _ h => h
  · rw [laws.isDirectory]
    exact h
  · rcases hdir with ⟨rest, rfl, -⟩ | ⟨rfl, -⟩
    · exact List.prefix_append _ _
    · exact List.prefix_refl _

/-! ## Exactly when it delivers -/

/-- A call that returns well has the path name a directory, and no call has made anything but what
was missing of the path. -/
structure Delivers (laws : MakesDirectories os cwd limit) (path : PathName) (w : W) : Prop where
  directory : ∀ w', createDirectory os path w = .ok () w' →
    (laws.fs w').isDirectory limit path = true
  others : OnlyPrefixes limit path (laws.fs w) (laws.fs (after (createDirectory os path) w))

/-- There is a path; if it is one byte it names a directory already; and nothing but a directory has
its name, once what is missing in front of it is there. -/
structure Deliverable (limit : Nat) (fs : Directories cwd) (path : PathName) : Prop where
  nonempty : path ≠ []
  single : path.length = 1 → fs.isDirectory limit path = true
  free : (fs.prepared limit path).taken limit path = true →
    (fs.prepared limit path).isDirectory limit path = true

theorem Deliverable.delivers (laws : MakesDirectories os cwd limit)
    (hlength : path.length < ZIP_FILE_NAME_LEN_MAX) {w : W}
    (h : Deliverable limit (laws.fs w) path) : Delivers laws path w := by
  have htried : Triple (fun w' => laws.fs w' = laws.fs w) (createDirectory os path) _
      fun _ _ => True :=
    createDirectory_tried laws hlength h.nonempty fun _ _ _ _ _ _ _ _ => trivial
  refine ⟨fun w' hrun => ?_,
    (createDirectory_onlyPrefixes laws path (laws.fs w)).after (.refl _ _ _)⟩
  rcases htried.of_ok rfl hrun with ⟨hdir, hfs⟩ | htried
  · rw [hfs]
    exact hdir
  · generalize laws.fs w' = fs' at htried ⊢
    cases htried with
    | short hshort =>
      rw [Directories.prepared_of_length hshort]
      have hpos := List.length_pos_iff.mpr h.nonempty
      exact h.single (by omega)
    | isDirectory hdir => exact hdir
    | taken htaken => exact h.free htaken
    | made place hlong hentry hnone => exact Directories.make_isDirectory hentry hnone

/-- A system on which nothing fails for a reason of its own. -/
def plainOs (cwd : List PathName) (limit : Nat) : Os (Directories cwd) Unit where
  isDirectory path fs := (fs.isDirectory limit path, fs)
  mkdir path fs :=
    if fs.taken limit path then (.exists, fs)
    else if (fs.entry limit path).isSome then (.made, fs.make limit path)
    else (.fails, fs)
  stat _ fs := (false, fs)
  access _ fs := (false, fs)
  isSymlink _ fs := (false, fs)
  remove _ fs := (false, fs)
  unlink _ fs := (false, fs)
  symlink _ _ fs := (false, fs)
  realpath _ fs := (.error .other, fs)
  fopen _ fs := (.error .other, fs)
  fwrite _ _ fs := (none, fs)
  fclose _ fs := (true, fs)
  cancels fs := (false, fs)

namespace Directories

theorem node_eq_none (hentry : fs.entry limit path = some place)
    (htaken : fs.taken limit path ≠ true) : fs.node place = none := by
  unfold taken at htaken
  rw [if_pos (entry_eq_some hentry).1, hentry] at htaken
  simpa using htaken

theorem entry_of_taken (htaken : fs.taken limit path = true)
    (hdir : fs.isDirectory limit path = false) :
    ∃ place node, fs.entry limit path = some place ∧ fs.node place = some node := by
  unfold taken at htaken
  split at htaken
  · cases hentry : fs.entry limit path with
    | none =>
      rw [hentry] at htaken
      cases htaken
    | some place =>
      rw [hentry] at htaken
      obtain ⟨node, hnode⟩ := Option.isSome_iff_exists.mp htaken
      exact ⟨place, node, rfl, hnode⟩
  · rw [hdir] at htaken
    cases htaken

end Directories

def plainLaws (cwd : List PathName) (limit : Nat) :
    MakesDirectories (plainOs cwd limit) cwd limit where
  fs := id
  isDirectory _ _ := rfl
  isDirectory_true _ _ h := h
  mkdir_made path fs h := by
    simp only [plainOs] at h ⊢
    split at h
    · cases h
    · next htaken =>
      split at h
      · next hsome =>
        obtain ⟨place, hentry⟩ := Option.isSome_iff_exists.mp hsome
        rw [if_neg htaken, if_pos hsome]
        exact ⟨place, hentry, Directories.node_eq_none hentry htaken, rfl⟩
      · cases h
  mkdir_fails path fs h := by
    simp only [plainOs] at h ⊢
    split
    · rfl
    · next htaken =>
      rw [if_neg htaken] at h
      split
      · next hsome => exact absurd (by rw [if_pos hsome]) h
      · rfl
  mkdir_exists path fs h := by
    simp only [plainOs] at h
    split at h
    · assumption
    · split at h <;> cases h

theorem not_refused (htaken : (fs.prepared limit path).taken limit path = true)
    (hdir : (fs.prepared limit path).isDirectory limit path = false) {dir behind : PathName}
    {w : Directories cwd} (hpath : dir ++ behind = path)
    (hleads : LeadsTo limit (fs.prepared limit path) w dir behind) :
    ¬ Refused (plainOs cwd limit) dir w := by
  rintro ⟨-, hno, hmkdir⟩
  have hnot : w.taken limit dir = false ∧ w.entry limit dir = none := by
    simp only [plainOs] at hmkdir
    split at hmkdir
    · simp at hmkdir
    · next htaken =>
      split at hmkdir
      · simp at hmkdir
      · next hnone => exact ⟨Bool.not_eq_true _ ▸ htaken, by simpa using hnone⟩
  rcases hleads with ⟨rfl, rfl⟩ | ⟨⟨f, rfl⟩, hfold⟩
  · rw [List.append_nil] at hpath
    rw [hpath, htaken] at hnot
    cases hnot.1
  · have hstuck : w.Stuck limit (f ++ [slash]) := ⟨hno, hnot.2⟩
    rw [Directories.make_of_node (by rw [hnot.2]; nofun),
      hstuck.foldl_make (prefix_of_mem_frontsOf behind _)] at hfold
    obtain ⟨place, node, hentry, -⟩ := Directories.entry_of_taken htaken hdir
    rw [← hfold, ← hpath, hstuck.entry_eq_none] at hentry
    cases hentry

theorem not_delivers (hlength : path.length < ZIP_FILE_NAME_LEN_MAX) (hne : path ≠ [])
    (htaken : (fs.prepared limit path).taken limit path = true)
    (hdir : (fs.prepared limit path).isDirectory limit path = false) :
    ¬ Delivers (plainLaws cwd limit) path fs := by
  intro h
  have htried : Triple (fun w => w = fs) (createDirectory (plainOs cwd limit) path) _
      fun _ _ => False :=
    createDirectory_tried (plainLaws cwd limit) hlength hne fun dir behind w hpath hleads hno _ _ =>
      not_refused htaken hdir hpath hleads hno
  obtain ⟨⟨⟩, fs', hrun, hend⟩ := htried.exists_ok rfl
  have hdirectory := h.directory fs' hrun
  have hsmaller : fs.isDirectory limit path = false := by
    by_contra hfirst
    have hthen : (fs.prepared limit path).isDirectory limit path = true :=
      Directories.isDirectory_mono (fun q node hq => Directories.node_prepared hq)
        (Bool.not_eq_false _ ▸ hfirst)
    rw [hdir] at hthen
    cases hthen
  change fs'.isDirectory limit path = true at hdirectory
  rcases hend with ⟨hfirst, -⟩ | hend
  · rw [hsmaller] at hfirst
    cases hfirst
  · change Tried (fs.prepared limit path) limit path fs' at hend
    cases hend with
    | made place hlong hentry hnone =>
      obtain ⟨other, node, hother, hnode⟩ := Directories.entry_of_taken htaken hdir
      cases hentry.symm.trans hother
      rw [hnone] at hnode
      cases hnode
    | _ =>
      rw [hdir] at hdirectory
      cases hdirectory

theorem not_delivers_single (hlength : path.length = 1)
    (hdir : fs.isDirectory limit path = false) : ¬ Delivers (plainLaws cwd limit) path fs := by
  intro h
  have hne : path ≠ [] := List.ne_nil_of_length_eq_add_one hlength
  have htried : Triple (fun w => w = fs) (createDirectory (plainOs cwd limit) path) _
      fun _ _ => False :=
    createDirectory_tried (plainLaws cwd limit) (by rw [hlength]; decide) hne
      fun dir behind w hpath _ hno _ _ => by
        have hlong := hno.long
        have hle := congrArg List.length hpath
        rw [List.length_append] at hle
        omega
  obtain ⟨⟨⟩, fs', hrun, hend⟩ := htried.exists_ok rfl
  have hdirectory := h.directory fs' hrun
  change fs'.isDirectory limit path = true at hdirectory
  rcases hend with ⟨hfirst, -⟩ | hend
  · rw [hdir] at hfirst
    cases hfirst
  · rw [Directories.prepared_of_length (by omega)] at hend
    change Tried fs limit path fs' at hend
    cases hend with
    | made place hlong hentry hnone => omega
    | _ =>
      rw [hdir] at hdirectory
      cases hdirectory

/-- Whatever fails, `CreateDirectory` delivers, exactly if nothing else has the name of the directory
and its path is not a single byte that names none. -/
theorem createDirectory_delivers_iff (limit : Nat) (fs : Directories cwd)
    (hlength : path.length < ZIP_FILE_NAME_LEN_MAX) :
    (∀ (W H : Type) (os : Os W H) (laws : MakesDirectories os cwd limit) (w : W),
      laws.fs w = fs → Delivers laws path w) ↔ Deliverable limit fs path := by
  constructor
  · intro h
    have hplain := h _ _ (plainOs cwd limit) (plainLaws cwd limit) fs rfl
    refine ⟨?_, fun hone => ?_, fun htaken => ?_⟩
    · rintro rfl
      exact absurd (hplain.directory fs rfl) Bool.false_ne_true
    · by_contra hdir
      exact not_delivers_single hone (Bool.not_eq_true _ ▸ hdir) hplain
    · by_contra hdir
      have hne : path ≠ [] := by
        rintro rfl
        exact absurd (hplain.directory fs rfl) Bool.false_ne_true
      exact not_delivers hlength hne htaken (Bool.not_eq_true _ ▸ hdir) hplain
  · rintro h W H os laws w rfl
    exact h.delivers laws hlength

/-- A root with nothing in it, and one with a file called `ab`. -/
def emptyRoot : Directories [] where
  node place := if place = [] then some .directory else none
  root := rfl
  rooted name dir h := absurd (if_neg (List.cons_ne_nil name dir)) h
  cwd_directory := rfl

def ab : PathName := [0x61, 0x62]

def fileInRoot : Directories [] where
  node place := if place = [] then some .directory else if place = [ab] then some (.file []) else none
  root := rfl
  rooted name dir h := by
    cases dir with
    | nil => rfl
    | cons first dir => simp at h
  cwd_directory := rfl

theorem emptyRoot_delivers : Delivers (plainLaws [] 40) ab emptyRoot :=
  (createDirectory_delivers_iff 40 emptyRoot (by decide)).mpr
    ⟨by decide, by decide, by decide⟩ _ _ _ _ _ rfl

/-- The directory `a` is not made, and the file is taken for the directory. -/
theorem createDirectory_not_delivers : ¬ Delivers (plainLaws [] 40) [0x61] emptyRoot ∧
    ¬ Delivers (plainLaws [] 40) ab fileInRoot :=
  ⟨not_delivers_single rfl (by decide),
    not_delivers (by decide) (by decide) (by decide) (by decide)⟩

end FileApi.Compress
