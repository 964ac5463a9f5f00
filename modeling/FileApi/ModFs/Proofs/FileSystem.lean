import FileApi.Misc.Program
import FileApi.Misc.StackPath
import FileApi.ModFs.FileSystem

/-!
# Paths and places

A path to a directory with a name behind it leads to the place of that name. A path is steady where
it leads to the same place whatever happens in a region, and then so are those behind it.
-/

namespace FileApi.ModFs

open Compress FileTree

variable {sys : System} {v v' : FileVolume} {path name : PathName} {place dir : List PathName}
  {node : FileNode}

/-! ## Steps -/

theorem stepOf_plain (h : PlainName name) : stepOf name = .down name := by
  obtain ⟨hempty, hdot, hdots, -⟩ := h
  rw [stepOf, if_neg (not_or.mpr ⟨hempty, hdot⟩), if_neg hdots]

theorem splitOn_child (path : PathName) (h : slash ∉ name) :
    (path ++ slash :: name).splitOn slash = path.splitOn slash ++ [name] := by
  rw [List.splitOn_append_cons_self, List.splitOn_eq_singleton h]

theorem routeOf_append (hpath : path ≠ []) (h : slash ∉ name) :
    routeOf (path ++ slash :: name) =
      ⟨(routeOf path).rooted, (routeOf path).steps ++ [stepOf name]⟩ := by
  obtain ⟨b, rest, rfl⟩ := List.exists_cons_of_ne_nil hpath
  rw [routeOf, routeOf, splitOn_child _ h, List.map_append, List.map_singleton]
  rfl

theorem routeOf_child (hpath : path ≠ []) (h : PlainName name) :
    routeOf (path ++ slash :: name) =
      ⟨(routeOf path).rooted, (routeOf path).steps ++ [Step.down name]⟩ := by
  rw [routeOf_append hpath h.2.2.2, stepOf_plain h]

theorem not_mem_of_mem_splitOn {part : PathName} (h : part ∈ path.splitOn slash) :
    slash ∉ part := by
  induction path generalizing part with
  | nil =>
    rw [List.splitOn_nil, List.mem_singleton] at h
    rw [h]
    exact List.not_mem_nil
  | cons b path ih =>
    obtain ⟨first, rest, hsplit⟩ :=
      List.exists_cons_of_ne_nil (List.splitOn_ne_nil slash path)
    rw [List.splitOn_cons_eq_if_modifyHead] at h
    rw [hsplit] at h ih
    split at h
    · rcases List.mem_cons.mp h with rfl | h
      · exact List.not_mem_nil
      · exact ih h
    · next hb =>
      rw [List.modifyHead_cons] at h
      rcases List.mem_cons.mp h with rfl | h
      · rintro hmem
        rcases List.mem_cons.mp hmem with heq | hmem
        · exact hb (by simp [heq])
        · exact ih List.mem_cons_self hmem
      · exact ih (List.mem_cons_of_mem _ h)

theorem plainName_of_down (h : .down name ∈ (routeOf path).steps) : PlainName name := by
  obtain ⟨part, hpart, hstep⟩ := List.mem_map.mp h
  unfold stepOf at hstep
  split at hstep
  · cases hstep
  · next hsays =>
    split at hstep
    · cases hstep
    · next hdots =>
      cases hstep
      obtain ⟨hempty, hdot⟩ := not_or.mp hsays
      exact ⟨hempty, hdot, hdots, not_mem_of_mem_splitOn hpart⟩

namespace System

theorem lookup_of_ne (h : path ≠ []) :
    sys.lookup v path = lookupAt v.tree sys.cwd sys.limit path := if_neg h

theorem ne_nil_of_lookup (h : sys.lookup v path = .there place) : path ≠ [] := by
  rintro rfl
  cases h

theorem entry_child (hpath : sys.lookup v path = .there place)
    (hdir : v.tree place = some .directory) (h : PlainName name) :
    sys.entry v (path ++ slash :: name) = some (name :: place) := by
  have hne := ne_nil_of_lookup hpath
  rw [lookup_of_ne hne] at hpath
  rw [entry, if_neg, entryAt, routeOf_child hne h]
  · refine entry_append_down hpath ?_
    cases place with
    | nil => rfl
    | cons first place => simp [FileTree.isDirectory, hdir]
  · rintro (hnil | hlast)
    · exact absurd hnil (by simp)
    · rw [splitOn_child path h.2.2.2, List.getLast?_concat] at hlast
      exact h.2.1 (Option.some.inj hlast)

theorem lookup_step {found : Found PathName} (hpath : sys.lookup v path = .there place)
    (hdir : v.tree place = some .directory) (h : slash ∉ name)
    (hname : ∀ again, walkWith v.tree again true place [stepOf name] = found) :
    sys.lookup v (path ++ slash :: name) = found := by
  have hne := ne_nil_of_lookup hpath
  rw [lookup_of_ne hne] at hpath
  rw [lookup_of_ne (by simp), lookupAt, routeOf_append hne h]
  exact walk_append hpath hdir hname

theorem lookup_child {found : Found PathName} (hpath : sys.lookup v path = .there place)
    (hdir : v.tree place = some .directory) (h : PlainName name)
    (hname : ∀ again, walkWith v.tree again true place [.down name] = found) :
    sys.lookup v (path ++ slash :: name) = found := by
  refine lookup_step hpath hdir h.2.2.2 fun again => ?_
  rw [stepOf_plain h]
  exact hname again

theorem lookup_slash (hpath : sys.lookup v path = .there place)
    (hdir : v.tree place = some .directory) :
    sys.lookup v (path ++ [slash]) = .there place :=
  lookup_step hpath hdir List.not_mem_nil fun _ => rfl

theorem lookup_child_there (hpath : sys.lookup v path = .there place)
    (hdir : v.tree place = some .directory) (h : PlainName name)
    (hnode : v.tree (name :: place) = some node) (hlink : ∀ target, node ≠ .link target) :
    sys.lookup v (path ++ slash :: name) = .there (name :: place) := by
  refine lookup_child hpath hdir h fun again => ?_
  rw [walkWith, hnode]
  cases node with
  | directory => rfl
  | file bytes => rfl
  | link target => exact absurd rfl (hlink target)

theorem lookup_child_missing (hpath : sys.lookup v path = .there place)
    (hdir : v.tree place = some .directory) (h : PlainName name)
    (hnode : v.tree (name :: place) = none) :
    sys.lookup v (path ++ slash :: name) = .missing (name :: place) := by
  refine lookup_child hpath hdir h fun again => ?_
  rw [walkWith, hnode]
  rfl

variable {bytes : List UInt8}

theorem found_child (hpath : sys.lookup v path = .there place)
    (hdir : v.tree place = some .directory) (h : PlainName name)
    (hlink : ∀ target, v.tree (name :: place) ≠ some (.link target)) :
    sys.found v (path ++ slash :: name) = v.tree (name :: place) := by
  rw [found]
  cases hnode : v.tree (name :: place) with
  | none => rw [lookup_child_missing hpath hdir h hnode]
  | some node =>
    rw [lookup_child_there hpath hdir h hnode fun target heq => hlink target (heq ▸ hnode)]
    exact hnode

theorem found_of_lookup (h : sys.lookup v path = .there place) :
    sys.found v path = v.tree place := by
  rw [found, h]

theorem exists_eq_ok {sys : System} {path : PathName} {there : Bool}
    (h : sys.exists_ v path = .ok there) : there = (sys.found v path).isSome := by
  unfold exists_ at h
  cases hfails : sys.fails .status path with
  | some errno =>
    rw [hfails] at h
    cases h
  | none =>
    rw [hfails] at h
    exact (Except.ok.inj h).symm

/-! ## Written files -/

/-- A file at a place holds bytes, and nothing else is changed. -/
def Written (v v' : FileVolume) (place : List PathName) (bytes : List UInt8) : Prop :=
  ∀ q, v'.tree q = if q = place then some (.file bytes) else v.tree q

/-- A place for a file. -/
structure FilePlace (v : FileVolume) (place : List PathName) : Prop where
  named : ∃ name dir, place = name :: dir ∧ PlainName name ∧ v.tree dir = some .directory
  free : v.tree place ≠ some .directory

theorem FilePlace.write (h : FilePlace v place) (bytes : List UInt8) :
    Written v (write v place bytes) place bytes := by
  obtain ⟨⟨name, dir, rfl, hname, hdir⟩, hfree⟩ := h
  exact fun q => Volume.tree_put hname hdir hfree

theorem filePlace_of_file (h : v.tree place = some (.file bytes)) :
    FilePlace v place := by
  cases place with
  | nil =>
    rw [Volume.tree_root] at h
    cases h
  | cons name dir =>
    have hthere : v.tree (name :: dir) ≠ none := by rw [h]; nofun
    refine ⟨⟨name, dir, rfl, v.sound.named name dir hthere, v.sound.rooted name dir hthere⟩, ?_⟩
    rw [h]
    nofun

theorem filePlace_of_write (h : System.write v place bytes ≠ v) :
    FilePlace v place := by
  cases place with
  | nil => exact absurd rfl h
  | cons name dir =>
    have hput : PlainName name ∧ v.tree dir = some .directory ∧
        v.tree (name :: dir) ≠ some .directory := by
      by_contra hno
      exact h (dif_neg hno)
    exact ⟨⟨name, dir, rfl, hput.1, hput.2.1⟩, hput.2.2⟩

theorem Written.content (h : Written v v' place bytes) :
    content v' place = bytes := by
  rw [System.content, h, if_pos rfl]

theorem Written.filePlace (h : Written v v' place bytes) :
    FilePlace v' place := filePlace_of_file (by rw [h, if_pos rfl])

theorem Written.lookup {bytes old : List UInt8} (h : Written v v' place bytes)
    (hold : v.tree place = some (.file old)) (path : PathName) :
    sys.lookup v' path = sys.lookup v path := by
  have hshape : ∀ q, (v'.tree q).map Node.shape = (v.tree q).map Node.shape := by
    intro q
    rw [h]
    split
    · next heq =>
      rw [heq, hold]
      rfl
    · rfl
  unfold System.lookup
  split
  · rfl
  · exact walk_of_shapes hshape _ _ _

theorem Written.trans {bytes bytes' : List UInt8} {v'' : FileVolume}
    (h : Written v v' place bytes) (h' : Written v' v'' place bytes') :
    Written v v'' place bytes' := by
  intro q
  rw [h']
  split
  · rfl
  · next hne => rw [h, if_neg hne]

theorem missing_of_lookup (h : sys.lookup v path = .missing place) : v.tree place = none := by
  unfold System.lookup at h
  split at h
  · cases h
  · exact walk_missing h

theorem openWrite_ok (h : sys.openWrite v path = (.ok place, v')) :
    Written v v' place (content v place) ∧ sys.lookup v' path = .there place ∧
      ((∃ bytes, v.tree place = some (.file bytes)) ∧ sys.lookup v path = .there place ∨
        v.tree place = none ∧ sys.lookup v path = .missing place) := by
  unfold openWrite at h
  split at h
  · cases h
  · split at h
    · next found hfound =>
      split at h
      · next bytes hfile =>
        cases h
        refine ⟨fun q => ?_, hfound, .inl ⟨⟨bytes, hfile⟩, hfound⟩⟩
        rw [System.content, hfile]
        split
        · next heq => rw [heq, hfile]
        · rfl
      · cases h
      · cases h
    · next missing hmissing =>
      split at h
      · next hthere =>
        cases h
        have hnone := missing_of_lookup hmissing
        have hplace : FilePlace v place := by
          have hchanged : System.write v place [] ≠ v := by
            intro hsame
            rw [hsame, hmissing] at hthere
            cases hthere
          exact filePlace_of_write hchanged
        refine ⟨?_, hthere, .inr ⟨hnone, hmissing⟩⟩
        rw [System.content, hnone]
        exact hplace.write []
      · cases h
    · cases h

theorem openWrite_error {errno : Errno} (h : sys.openWrite v path = (.error errno, v')) : v' = v := by
  unfold openWrite at h
  split at h
  · exact (Prod.mk.inj h).2.symm
  · split at h
    · split at h
      · cases h
      · exact (Prod.mk.inj h).2.symm
      · exact (Prod.mk.inj h).2.symm
    · split at h
      · cases h
      · exact (Prod.mk.inj h).2.symm
    · exact (Prod.mk.inj h).2.symm

/-! ## New directories -/

theorem mem_entries {entry : DirEntry} :
    entry ∈ entries v dir ↔
      ∃ node, v.tree (entry.name :: dir) = some node ∧ entry.type = typeOf node := by
  rw [entries, List.mem_filterMap]
  constructor
  · rintro ⟨name, -, h⟩
    obtain ⟨node, hnode, rfl⟩ := Option.map_eq_some_iff.mp h
    exact ⟨node, hnode, rfl⟩
  · rintro ⟨node, hnode, htype⟩
    refine ⟨entry.name, ?_, ?_⟩
    · rw [List.mem_insertionSort, Volume.mem_children, hnode]
      nofun
    · rw [hnode, Option.map_some, ← htype]

theorem nodup_entries (v : FileVolume) (dir : List PathName) :
    ((entries v dir).map (·.name)).Nodup := by
  have hnames : (entries v dir).map (·.name) = (v.children dir).insertionSort (· ≤ ·) := by
    rw [entries, List.map_filterMap]
    refine (List.filterMap_congr fun name hname => ?_).trans List.filterMap_some
    rw [List.mem_insertionSort, Volume.mem_children] at hname
    obtain ⟨node, hnode⟩ := Option.ne_none_iff_exists'.mp hname
    rw [hnode]
    rfl
  rw [hnames]
  exact (List.perm_insertionSort _ _).nodup_iff.mpr (Volume.nodup_children v dir)

theorem scandir_directory (hfails : sys.fails .scandir path = none)
    (hpath : sys.lookup v path = .there dir) (hdir : v.tree dir = some .directory) :
    sys.scandir v path = .ok (entries v dir) := by
  rw [scandir, hfails, hpath]
  dsimp only
  rw [if_pos hdir, orFail_none]

theorem scandir_eq_ok {path : PathName} {entries : List DirEntry}
    (h : sys.scandir v path = .ok entries) :
    ∃ place, sys.lookup v path = .there place ∧ v.tree place = some .directory ∧
      entries = System.entries v place := by
  unfold scandir at h
  cases hfails : sys.fails .scandir path with
  | some errno =>
    rw [hfails] at h
    cases h
  | none =>
    rw [hfails, orFail_none] at h
    split at h
    · next place hlookup =>
      split at h
      · next hdir =>
        cases h
        exact ⟨place, hlookup, hdir, rfl⟩
      · cases h
    · cases h

theorem listed_named {entry : DirEntry} (h : entry ∈ sys.listed v path) : PlainName entry.name := by
  unfold listed at h
  split at h
  · next entries hscandir =>
    obtain ⟨place, -, -, rfl⟩ := scandir_eq_ok hscandir
    obtain ⟨node, hnode, -⟩ := mem_entries.mp h
    refine v.sound.named entry.name place ?_
    show v.tree (entry.name :: place) ≠ none
    rw [hnode]
    nofun
  · cases h

/-! ## Calls that do not fail -/

/-- No call fails of itself. -/
def Works (sys : System) : Prop := ∀ call path, sys.fails call path = none

theorem Works.exists_eq (h : Works sys) (v : FileVolume) (path : PathName) :
    sys.exists_ v path = .ok (sys.found v path).isSome := by
  rw [exists_, h, orFail_none]

theorem Works.isDirectory_iff (h : Works sys) :
    sys.isDirectory v path = true ↔ sys.found v path = some .directory := by
  rw [isDirectory, h, orFail_none]
  cases sys.found v path with
  | none => exact iff_of_false nofun nofun
  | some node =>
    cases node with
    | directory => exact iff_of_true rfl rfl
    | file bytes => exact iff_of_false nofun nofun
    | link route => exact iff_of_false nofun nofun

theorem Works.listed_directory (h : Works sys) (hpath : sys.lookup v path = .there dir)
    (hdir : v.tree dir = some .directory) : sys.listed v path = entries v dir := by
  rw [listed, scandir_directory (h _ _) hpath hdir]

theorem Works.rename_eq {src dest : PathName} (h : Works sys) (hsrc : sys.entry v src = some place)
    (hdest : sys.entry v dest = some (name :: dir)) (hnode : v.tree place = some node)
    (hapart : ¬ place <:+ name :: dir ∧ ¬ name :: dir <:+ place)
    (hfree : v.tree (name :: dir) = none ∨
      node ≠ .directory ∧ ∃ bytes, v.tree (name :: dir) = some (.file bytes)) :
    sys.rename v src dest = (.ok (), v.moveTree place name dir) := by
  have hne : place ≠ name :: dir := fun heq => hapart.1 (heq ▸ List.suffix_rfl)
  rw [rename, h, hsrc, hdest]
  dsimp only
  rw [hnode]
  dsimp only
  unfold renameTo
  rw [if_neg hne, if_neg hapart.1, if_neg hapart.2]
  rcases hfree with hnone | ⟨hnode, bytes, hfile⟩
  · rw [hnone]
  · rw [hfile]
    cases node with
    | directory => exact absurd rfl hnode
    | file content => rfl
    | link route => rfl

theorem Works.remove_missing (h : Works sys) (hentry : sys.entry v path = some place)
    (hnone : v.tree place = none) : sys.remove v path = (.ok false, v) := by
  rw [remove, h, hentry]
  dsimp only
  rw [hnone]

theorem Works.remove_empty (h : Works sys) (hentry : sys.entry v path = some place)
    (hdir : v.tree place = some .directory) (hempty : ∀ name, v.tree (name :: place) = none) :
    sys.remove v path = (.ok true, v.removeTree place) := by
  rw [remove, h, hentry]
  dsimp only
  rw [hdir]
  dsimp only
  rw [if_pos (Volume.children_eq_nil_iff.mpr hempty)]

theorem Works.removeAll_eq (h : Works sys) (hentry : sys.entry v path = some place) :
    sys.removeAll v path = (.ok (), v.removeTree place) := by
  rw [removeAll, h, hentry]

end System

/-! ## Calls in programs -/

variable {α : Type}

theorem ask_ok {f : FileVolume → Except Errno α} {a : α} :
    ask f v = .ok a v' ↔ f v = .ok a ∧ v' = v := by
  unfold ask
  cases f v with
  | error errno => exact iff_of_false nofun nofun
  | ok b =>
    constructor
    · rintro ⟨⟩
      exact ⟨rfl, rfl⟩
    · rintro ⟨⟨⟩, rfl⟩
      rfl

theorem act_ok {f : FileVolume → Except Errno α × FileVolume} {a : α} :
    act f v = .ok a v' ↔ f v = (.ok a, v') := by
  unfold act
  obtain ⟨errno | b, mid⟩ := f v
  · exact iff_of_false nofun nofun
  · constructor
    · rintro ⟨⟩
      rfl
    · rintro ⟨⟩
      rfl

/-- A path to a place below a directory. -/
def pathBelow (path : PathName) : List PathName → PathName
  | [] => path
  | name :: rest => pathBelow path rest ++ slash :: name

theorem pathBelow_concat (path name : PathName) (rest : List PathName) :
    pathBelow path (rest ++ [name]) = pathBelow (path ++ slash :: name) rest := by
  induction rest with
  | nil => rfl
  | cons first rest ih => exact congrArg (· ++ slash :: first) ih

theorem length_le_pathBelow (path : PathName) (rest : List PathName) :
    path.length ≤ (pathBelow path rest).length := by
  induction rest with
  | nil => exact Nat.le_refl _
  | cons name rest ih =>
    rw [pathBelow, List.length_append]
    exact ih.trans (Nat.le_add_right _ _)

theorem pathBelow_inj {path : PathName} {a b : List PathName} (ha : ∀ name ∈ a, slash ∉ name)
    (hb : ∀ name ∈ b, slash ∉ name) (h : pathBelow path a = pathBelow path b) : a = b := by
  have hlonger : ∀ (name : PathName) (rest : List PathName),
      path ≠ pathBelow path (name :: rest) := by
    intro name rest heq
    have hlength := congrArg List.length heq
    rw [pathBelow, List.length_append, List.length_cons] at hlength
    have hle := length_le_pathBelow path rest
    omega
  induction a generalizing b with
  | nil =>
    cases b with
    | nil => rfl
    | cons name rest => exact absurd h (hlonger name rest)
  | cons first a ih =>
    cases b with
    | nil => exact absurd h.symm (hlonger first a)
    | cons second b =>
      obtain ⟨hfront, rfl⟩ := StackPath.append_sep_inj (ha first List.mem_cons_self)
        (hb second List.mem_cons_self) h
      rw [ih (fun name hmem => ha name (List.mem_cons_of_mem _ hmem))
        (fun name hmem => hb name (List.mem_cons_of_mem _ hmem)) hfront]

theorem plainName_of_tree {rest S : List PathName} (h : v.tree (rest ++ S) ≠ none) :
    ∀ name ∈ rest, PlainName name := by
  induction rest with
  | nil => nofun
  | cons first rest ih =>
    have hdir := v.sound.rooted first (rest ++ S) h
    have hrest := ih (by
      show v.tree (rest ++ S) ≠ none
      rw [show v.tree (rest ++ S) = _ from hdir]
      nofun)
    intro name hmem
    rcases List.mem_cons.mp hmem with rfl | hmem
    · exact v.sound.named name (rest ++ S) h
    · exact hrest name hmem

/-! ## Steady paths -/

/-- A path leads to a place whatever happens in a region. -/
def Steady (sys : System) (v : FileVolume) (region : List PathName → Prop) (path : PathName)
    (place : List PathName) : Prop :=
  ∀ v' : FileVolume, (∀ q, ¬ region q → v'.tree q = v.tree q) →
    sys.lookup v' path = .there place

variable {region region' : List PathName → Prop}

namespace Steady

theorem lookup (h : Steady sys v region path place) : sys.lookup v path = .there place :=
  h v fun _ _ => rfl

theorem after (h : Steady sys v region path place) (hsame : ∀ q, ¬ region q → v'.tree q = v.tree q) :
    Steady sys v' region path place :=
  fun v'' hv'' => h v'' fun q hq => (hv'' q hq).trans (hsame q hq)

theorem mono (h : Steady sys v region path place) (hsub : ∀ q, region' q → region q) :
    Steady sys v region' path place :=
  fun v' hv' => h v' fun q hq => hv' q fun hq' => hq (hsub q hq')

end Steady

/-! ## Names of places -/

/-- A path names a place, whether something is there or not. -/
structure Names (sys : System) (v : FileVolume) (path : PathName) (place : List PathName) : Prop where
  entry : sys.entry v path = some place
  missing : v.tree place = none → sys.lookup v path = .missing place
  there : ∀ node, v.tree place = some node → (∀ target, node ≠ .link target) →
    sys.lookup v path = .there place

theorem Names.found (h : Names sys v path place)
    (hlink : ∀ target, v.tree place ≠ some (.link target)) : sys.found v path = v.tree place := by
  cases hnode : v.tree place with
  | none => rw [System.found, h.missing hnode]
  | some node =>
    rw [System.found, h.there node hnode fun target heq => hlink target (heq ▸ hnode)]
    exact hnode

theorem names_child (hpath : sys.lookup v path = .there dir) (hdir : v.tree dir = some .directory)
    (hname : PlainName name) : Names sys v (path ++ slash :: name) (name :: dir) where
  entry := System.entry_child hpath hdir hname
  missing := System.lookup_child_missing hpath hdir hname
  there _ hnode hlink := System.lookup_child_there hpath hdir hname hnode hlink

/-- A path names a place whatever happens in a region. -/
def SteadyName (sys : System) (v : FileVolume) (region : List PathName → Prop) (path : PathName)
    (place : List PathName) : Prop :=
  ∀ v' : FileVolume, (∀ q, ¬ region q → v'.tree q = v.tree q) → Names sys v' path place

theorem Steady.childName (h : Steady sys v region path dir) (hregion : ¬ region dir)
    (hdir : v.tree dir = some .directory) (hname : PlainName name) :
    SteadyName sys v region (path ++ slash :: name) (name :: dir) :=
  fun v' hv' => names_child (h v' hv') ((hv' dir hregion).trans hdir) hname

namespace SteadyName

theorem names (h : SteadyName sys v region path place) : Names sys v path place :=
  h v fun _ _ => rfl

theorem after (h : SteadyName sys v region path place)
    (hsame : ∀ q, ¬ region q → v'.tree q = v.tree q) : SteadyName sys v' region path place :=
  fun v'' hv'' => h v'' fun q hq => (hv'' q hq).trans (hsame q hq)

theorem steady (h : SteadyName sys v region path place) (hsub : ∀ q, region' q → region q)
    (hplace : ¬ region' place) (hnode : v.tree place = some node)
    (hlink : ∀ target, node ≠ .link target) : Steady sys v region' path place :=
  fun v' hv' => (h v' fun q hq => hv' q fun hq' => hq (hsub q hq')).there node
    ((hv' place hplace).trans hnode) hlink

end SteadyName

theorem steady_of_directories (sys : System) (hroot : path.head? = some slash)
    (hup : .up ∉ (routeOf path).steps)
    (h : ∀ place, place <:+ (names (routeOf path).steps).reverse → place ≠ [] →
      ¬ region place ∧ v.tree place = some .directory) :
    Steady sys v region path (names (routeOf path).steps).reverse := by
  intro v' hv'
  have hne : path ≠ [] := by
    rintro rfl
    cases hroot
  have hstart : (routeOf path).start sys.cwd = [] := by
    rw [Route.start, routeOf, hroot]
    rfl
  rw [System.lookup_of_ne hne, lookupAt, hstart, walk_of_directories hup, List.append_nil]
  rw [List.append_nil]
  intro place hplace _ hplace0
  obtain ⟨hregion, hdir⟩ := h place hplace hplace0
  rw [hv' place hregion, hdir]

end FileApi.ModFs
