import FileApi.Compress.Proofs.FileSystem
import FileApi.Compress.Proofs.OutputPath
import FileApi.Misc.PlainTree

/-!
# Paths below a plain directory

`archive_utils.c:34-110`, `186-342` and `stream_file_posix.c:27-144`, with a tree behind the calls.
The path of an output that was not found names no file that is there, and whatever is made, removed
or opened on the way to it is below the directory.
-/

namespace FileApi.Compress

open Program FileTree Zip

/-! ## Places -/

/-- The place of the names of a path. -/
def placeOf (path : PathName) : List PathName := (names (routeOf path).steps).reverse

/-- A path from the root on that goes down to a directory, or through it. -/
structure Leads (root : List PathName) (path : PathName) : Prop where
  rooted : path.head? = some slash
  up : .up ∉ (routeOf path).steps
  names : root <:+ placeOf path ∨ placeOf path <:+ root

variable {root : List PathName} {dir outDir path parentPath : PathName}

theorem Under.suffix (h : Under root path) : root <:+ placeOf path := by
  rw [← List.reverse_reverse root]
  exact List.reverse_suffix.mpr h.names

theorem Under.leads (h : Under root path) : Leads root path := ⟨h.rooted, h.up, .inl h.suffix⟩

theorem Inside.beneath (h : Inside root path) : Beneath root (placeOf path) := by
  refine ⟨h.suffix, ?_⟩
  intro heq
  apply h.ne
  rw [← heq, placeOf, List.reverse_reverse]

theorem InFront.leads (hfront : InFront dir path) (h : Under root path) (hne : dir ≠ []) :
    Leads root dir := by
  obtain ⟨hnames, hup⟩ := hfront.names
  have hplace : placeOf dir <:+ placeOf path := List.reverse_suffix.mpr hnames
  exact ⟨hfront.rooted h.rooted hne, hup h.up, List.suffix_or_suffix_of_suffix h.suffix hplace⟩

theorem start_of_rooted (h : path.head? = some slash) (cwd : List PathName) :
    (routeOf path).start cwd = [] := by
  simp [Route.start, routeOf, h]

theorem steps_getFileName (h : slash ∈ path) :
    ∃ parentPath, (splitLastSlash path).1 = some parentPath ∧
      path = parentPath ++ slash :: getFileName path ∧
      (routeOf path).steps = (routeOf parentPath).steps ++ [stepOf (getFileName path)] := by
  obtain ⟨parentPath, hparent, hpath⟩ := getFileName_split h
  refine ⟨parentPath, hparent, hpath, ?_⟩
  conv_lhs => rw [hpath]
  rw [routeOf_append_slash, routeOf_part (slash_not_mem_getFileName path)]

theorem stepOf_cases (part : PathName) :
    stepOf part = .here ∨ stepOf part = .up ∨ stepOf part = .down part := by
  rw [stepOf]
  split
  · exact .inl rfl
  · split
    · exact .inr (.inl rfl)
    · exact .inr (.inr rfl)

/-! ## Directories that are removed -/

/-- What the parts of a path take, each with its slash. -/
def partsLength (parts : List PathName) : Nat := (parts.map fun part => part.length + 1).sum

theorem partsLength_splitOn (path : PathName) :
    partsLength (path.splitOn slash) = path.length + 1 := by
  induction path with
  | nil => rfl
  | cons b path ih =>
    rw [List.splitOn_cons_eq_if_modifyHead]
    split
    · rw [partsLength, List.map_cons, List.sum_cons, ← partsLength, ih, List.length_nil,
        List.length_cons]
      omega
    · cases hsplit : path.splitOn slash with
      | nil => exact absurd hsplit (List.splitOn_ne_nil slash path)
      | cons part parts =>
        rw [hsplit, partsLength, List.map_cons, List.sum_cons] at ih
        rw [List.modifyHead_cons, partsLength, List.map_cons, List.sum_cons, List.length_cons,
          List.length_cons]
        omega

theorem partsLength_names (parts : List PathName) :
    partsLength (names (parts.map stepOf)) ≤ partsLength parts := by
  induction parts with
  | nil => exact Nat.le_refl _
  | cons part parts ih =>
    have hcons : ∀ parts', partsLength (part :: parts') = part.length + 1 + partsLength parts' :=
      fun parts' => List.sum_cons
    rw [List.map_cons, hcons]
    rcases stepOf_cases part with h | h | h
    · rw [h, names]
      omega
    · rw [h, names]
      omega
    · rw [h, names, hcons]
      omega

theorem names_of_downs {parts : List PathName} (h : ∀ part ∈ parts, stepOf part = .down part) :
    names (parts.map stepOf) = parts := by
  induction parts with
  | nil => rfl
  | cons part parts ih =>
    rw [List.map_cons, h part List.mem_cons_self, names,
      ih fun part' hpart' => h part' (List.mem_cons_of_mem _ hpart')]

theorem parts_of_rooted (h : path.head? = some slash) :
    path.length = partsLength (path.splitOn slash).tail ∧
      names (routeOf path).steps = names ((path.splitOn slash).tail.map stepOf) := by
  obtain ⟨rest, rfl⟩ : ∃ rest, path = slash :: rest := by
    cases path with
    | nil => cases h
    | cons b rest =>
      cases h
      exact ⟨rest, rfl⟩
  have hsplit : (slash :: rest).splitOn slash = [] :: rest.splitOn slash :=
    List.splitOn_append_cons_self [] rest
  rw [routeOf, hsplit, List.tail_cons]
  exact ⟨(partsLength_splitOn rest).symm, rfl⟩

theorem length_of_names {above : PathName} (habove : above.head? = some slash)
    (hdir : outDir.head? = some slash)
    (hneat : ∀ part ∈ (above.splitOn slash).tail, stepOf part = .down part)
    (hnames : names (routeOf above).steps <+: names (routeOf outDir).steps) :
    above.length ≤ outDir.length := by
  obtain ⟨hlength, hparts⟩ := parts_of_rooted habove
  obtain ⟨hlength', hparts'⟩ := parts_of_rooted hdir
  have hnames' := partsLength_names (outDir.splitOn slash).tail
  rw [hparts, names_of_downs hneat] at hnames
  obtain ⟨rest, hrest⟩ := hnames
  rw [← hparts', ← hrest, partsLength, List.map_append, List.sum_append, ← partsLength] at hnames'
  omega

/-- A parent of a path, or the current directory. -/
def Parent (path parentPath : PathName) : Prop :=
  parentPath = [dot] ∨ parentPath ≠ [] ∧ ∃ behind, path = parentPath ++ slash :: behind

theorem getParentDirectory_parent {parentPath : PathName}
    (h : getParentDirectory path = some parentPath) : Parent path parentPath := by
  rw [getParentDirectory] at h
  split at h
  · cases h
  · split at h
    · cases h
      exact .inl rfl
    · next front hfront =>
      obtain ⟨hpath, -⟩ := splitLastSlash_eq hfront
      cases h
      split
      · exact .inl rfl
      · next hne => exact .inr ⟨hne, _, hpath⟩

theorem Parent.trans {above parentPath : PathName} (h : Parent path above)
    (hparent : Parent above parentPath) : Parent path parentPath := by
  rcases hparent with rfl | ⟨hne, behind, hbehind⟩
  · exact .inl rfl
  · rcases h with rfl | ⟨-, rest, hrest⟩
    · have hlength := congrArg List.length hbehind
      rw [List.length_append, List.length_cons, List.length_cons, List.length_nil] at hlength
      have hpos := List.length_pos_of_ne_nil hne
      omega
    · refine .inr ⟨hne, behind ++ slash :: rest, ?_⟩
      rw [hrest, hbehind, List.append_assoc]
      rfl

theorem Parent.beneath {above : PathName} (habove : Parent path above) (hinside : Inside root path)
    (hdir : Resolved outDir) (hroot : names (routeOf outDir).steps = root.reverse)
    (hlong : outDir.length < above.length) :
    Leads root above ∧ Beneath root (placeOf above) ∧ placeOf above <:+ placeOf path := by
  have hpos : 0 < outDir.length := List.length_pos_of_mem (List.mem_of_mem_head? hdir.root)
  rcases habove with rfl | ⟨hne, behind, hpath⟩
  · rw [List.length_singleton] at hlong
    omega
  · have hfront : InFront above path := ⟨_, hpath, List.cons_ne_nil _ _, .inr rfl⟩
    have hleads := hfront.leads hinside.toUnder hne
    have hneat : ∀ part ∈ (above.splitOn slash).tail, stepOf part = .down part := by
      intro part hpart
      apply hinside.neat part
      rw [hpath, List.splitOn_append_cons_self,
        List.tail_append_of_ne_nil (List.splitOn_ne_nil slash above),
        List.dropLast_append_of_ne_nil (List.splitOn_ne_nil slash behind)]
      exact List.mem_append_left _ hpart
    have hnot : ¬ placeOf above <:+ root := by
      intro hsuffix
      have hnames : names (routeOf above).steps <+: names (routeOf outDir).steps := by
        rw [hroot, ← List.reverse_reverse (names (routeOf above).steps)]
        exact List.reverse_prefix.mpr hsuffix
      have hle := length_of_names hleads.rooted hdir.root hneat hnames
      omega
    refine ⟨hleads, ⟨hleads.names.resolve_right hnot, ?_⟩, ?_⟩
    · rintro heq
      exact hnot (heq ▸ List.suffix_refl _)
    · exact List.reverse_suffix.mpr hfront.names.1

theorem getOutputFilePath_length {fileName outPath : PathName}
    (h : getOutputFilePath fileName outDir = .ok outPath) :
    outPath.length < ZIP_FILE_NAME_LEN_MAX := by
  rw [getOutputFilePath] at h
  split at h
  · cases h
  · dsimp only at h
    split at h
    · cases h
    · split at h
      · cases h
      · split at h
        · cases h
        · next hlength =>
          cases h
          exact Nat.lt_of_not_le hlength

/-! ## What paths find -/

variable {W H : Type} {os : Os W H} (posix : Posix os) {t : List PathName → Option FileNode}
  {w w' : W} {place : List PathName} {content : List UInt8}

namespace Posix

theorem plainly (h : PlainDirectory root (posix.tree w)) (hpath : Leads root path) :
    Plainly (posix.tree w) [] (routeOf path).steps :=
  h.plainly (posix.tree_rooted w) hpath.up hpath.names

theorem lookup_place (h : PlainDirectory root (posix.tree w)) (hpath : Leads root path)
    (hlookup : (lookupAt (posix.tree w) posix.cwd posix.limit path).place? = some place) :
    place = placeOf path := by
  rw [lookupAt, start_of_rooted hpath.rooted] at hlookup
  rw [(posix.plainly h hpath).walk_place hlookup, List.append_nil]
  rfl

theorem entry_place (h : PlainDirectory root (posix.tree w)) (hpath : Leads root path)
    (hentry : entryAt (posix.tree w) posix.cwd posix.limit path = some place) :
    place = placeOf path := by
  rw [entryAt, start_of_rooted hpath.rooted] at hentry
  rw [(posix.plainly h hpath).entry_place hentry, List.append_nil]
  rfl

theorem lookup_file (hroot : path.head? = some slash) (hup : .up ∉ (routeOf path).steps)
    (hname : stepOf (getFileName path) = .down (getFileName path))
    (hfile : posix.tree w (placeOf path) = some (.file content)) :
    lookupAt (posix.tree w) posix.cwd posix.limit path = .there (placeOf path) := by
  obtain ⟨parentPath, -, -, hsteps⟩ := steps_getFileName (List.mem_of_mem_head? hroot)
  rw [hname] at hsteps
  have hplace : placeOf path = getFileName path :: (names (routeOf parentPath).steps).reverse := by
    rw [placeOf, hsteps, names_append]
    exact List.reverse_concat
  rw [hsteps] at hup
  rw [hplace] at hfile ⊢
  rw [lookupAt, start_of_rooted hroot, hsteps]
  exact walk_to_file (posix.tree_rooted w) (fun hin => hup (List.mem_append_left _ hin)) hfile

theorem name_of_lookup (hroot : path.head? = some slash) (hup : .up ∉ (routeOf path).steps)
    (hlookup : lookupAt (posix.tree w) posix.cwd posix.limit path = .there place)
    (hfile : posix.tree w place = some (.file content)) :
    stepOf (getFileName path) = .down (getFileName path) := by
  obtain ⟨parentPath, -, -, hsteps⟩ := steps_getFileName (List.mem_of_mem_head? hroot)
  rw [lookupAt, start_of_rooted hroot, hsteps] at hlookup
  have hhere := walk_file_last (posix.tree_root w) (posix.tree_rooted w) hfile hlookup
  rcases stepOf_cases (getFileName path) with h | h | h
  · exact absurd h hhere
  · rw [hsteps, h] at hup
    simp at hup
  · exact h

end Posix

/-! ## What keeps the files -/

/-- What has changed is below the directory, and no file of it. -/
def Safe (posix : Posix os) (root : List PathName) (t : List PathName → Option FileNode) (w : W) :
    Prop := Contained root t (posix.tree w)

variable {posix}

namespace Safe

theorem same (h : Safe posix root t w) (hsame : posix.tree w' = posix.tree w) :
    Safe posix root t w' := by
  rw [Safe, hsame]
  exact h

theorem update (h : Safe posix root t w) (hbeneath : Beneath root place)
    (hnew : ∀ content, t place ≠ some (.file content)) {node : Option FileNode}
    (hlink : ∀ route, node ≠ some (.link route))
    (htree : posix.tree w' = Function.update (posix.tree w) place node) : Safe posix root t w' := by
  rw [Safe, htree]
  exact Contained.update h hbeneath hnew hlink

theorem new (h : Safe posix root t w) (hnot : ∀ content, posix.tree w place ≠ some (.file content))
    (content : List UInt8) : t place ≠ some (.file content) := by
  intro hfile
  exact hnot content (h.files place content hfile)

theorem beneath (h : Safe posix root t w) (hpath : Leads root path)
    (hnone : posix.tree w (placeOf path) = none) : Beneath root (placeOf path) := by
  have hdir := h.plain.directory
  have hne : placeOf path ≠ root := by
    intro heq
    rw [heq, hdir] at hnone
    cases hnone
  rcases hpath.names with hbelow | habove
  · exact ⟨hbelow, hne⟩
  · have hthere := directory_above (posix.tree_rooted w) (by simp [hdir]) habove hne
    rw [hthere] at hnone
    cases hnone

theorem mkdir (h : Safe posix root t w) (hpath : path = [] ∨ Leads root path) :
    Safe posix root t (os.mkdir path w).2 := by
  rcases posix.mkdir path w with hsame | ⟨p, hentry, hnone, htree⟩
  · exact h.same hsame
  · rcases hpath with rfl | hpath
    · cases hentry
    · obtain rfl := posix.entry_place h.plain hpath hentry
      have hnew : ∀ content, t (placeOf path) ≠ some (.file content) := h.new (by simp [hnone])
      exact h.update (h.beneath hpath hnone) hnew (by simp) htree

theorem remove (h : Safe posix root t w) (hpath : Leads root path)
    (hbeneath : Beneath root (placeOf path))
    (hnew : ∀ content, t (placeOf path) ≠ some (.file content)) :
    Safe posix root t (os.remove path w).2 := by
  rcases posix.remove path w with hsame | ⟨p, hentry, -, htree⟩
  · exact h.same hsame
  · obtain rfl := posix.entry_place h.plain hpath hentry
    exact h.update hbeneath hnew (by simp) htree

end Safe

theorem createDirectory_safe (hunder : Under root path) :
    Program.Keeps (Safe posix root t) (createDirectory os path) := by
  have hpath : path = [] ∨ Leads root path := .inr hunder.leads
  refine createDirectory_triple (fun dir w h => h.same (posix.isDirectory dir w)) ?_
    (fun w h => h.mkdir hpath) fun _ h => h
  intro dir w hdir h
  apply h.mkdir
  rcases hdir with hfront | ⟨rfl, -⟩
  · by_cases hne : dir = []
    · exact .inl hne
    · exact .inr (hfront.leads hunder hne)
  · exact hpath

theorem createParentDirectory_safe (hunder : Under root path) :
    Program.Keeps (Safe posix root t) (createParentDirectory os path) := by
  refine createParentDirectory_keeps (fun dir w h => h.same (posix.isDirectory dir w)) ?_
  intro dir w hfront h
  apply h.mkdir
  by_cases hne : dir = []
  · exact .inl hne
  · exact .inr (hfront.leads hunder hne)

/-! ## Where the output is opened -/

/-- If a path ends with a name, there was no file of that name. -/
def Unfound (t : List PathName → Option FileNode) (path : PathName) : Prop :=
  stepOf (getFileName path) = .down (getFileName path) →
    ∀ content, t (placeOf path) ≠ some (.file content)

theorem Safe.unfound (h : Safe posix root t w) (hunder : Under root path)
    (hnot : ∀ place, lookupAt (posix.tree w) posix.cwd posix.limit path ≠ .there place) :
    Unfound t path := by
  intro hname content hfile
  exact hnot _ (posix.lookup_file hunder.rooted hunder.up hname (h.files _ content hfile))

theorem clearedOutput_safe (hinside : Inside root path) (hunfound : Unfound t path)
    (h : Safe posix root t w) : Safe posix root t (clearedOutput os path w) := by
  have hunder := hinside.toUnder
  have hlooked := h.same (posix.access path w)
  rw [clearedOutput]
  split
  · next hthere =>
    apply hlooked.remove hunder.leads hinside.beneath
    intro content hfile
    obtain ⟨place, hlookup⟩ := posix.access_true path w hthere
    obtain rfl : place = placeOf path :=
      posix.lookup_place h.plain hunder.leads (by rw [hlookup]; rfl)
    have hname := posix.name_of_lookup hunder.rooted hunder.up hlookup (h.files _ content hfile)
    exact hunfound hname content hfile
  · exact hlooked

theorem placeOf_append (a b : PathName) : placeOf (a ++ slash :: b) = placeOf b ++ placeOf a := by
  rw [placeOf, routeOf_append_slash, names_append, List.reverse_append]
  rfl

theorem getParentDirectory_inside (hne : root ≠ []) (hinside : Inside root path)
    (h : getParentDirectory path = some parentPath) :
    path = parentPath ++ slash :: getFileName path ∧ parentPath ≠ [] := by
  obtain ⟨front, hfront, hpath⟩ := getFileName_split (List.mem_of_mem_head? hinside.rooted)
  have hnil : front ≠ [] := by
    rintro rfl
    obtain ⟨hsuffix, hplace⟩ := hinside.beneath
    rw [hpath, placeOf_append] at hsuffix hplace
    have hone : placeOf (getFileName path) ++ placeOf [] = [] ∨
        ∃ name, placeOf (getFileName path) ++ placeOf [] = [name] := by
      rcases names_part (slash_not_mem_getFileName path) with h | h
      · left
        rw [placeOf, h]
        rfl
      · right
        rw [placeOf, h]
        exact ⟨getFileName path, rfl⟩
    rcases hone with h | ⟨name, h⟩
    · rw [h] at hsuffix
      exact hne (List.suffix_nil.mp hsuffix)
    · rw [h] at hsuffix hplace
      rcases List.suffix_cons_iff.mp hsuffix with heq | hsuffix
      · exact hplace heq.symm
      · exact hne (List.suffix_nil.mp hsuffix)
  rw [getParentDirectory, hfront] at h
  split at h
  · cases h
  · dsimp only at h
    rw [if_neg hnil] at h
    cases h
    exact ⟨hpath, hnil⟩

/-- The file that is opened for a path was not there, nor one where its directories are. -/
structure Opened (posix : Posix os) (t : List PathName → Option FileNode) (path : PathName)
    (handle : H) : Prop where
  place : posix.place handle = placeOf path
  new : ∀ place content, place <:+ placeOf path → t place ≠ some (.file content)

theorem Safe.opened {handle : H} (h : Safe posix root t w) (hat : posix.place handle = placeOf path)
    (hthere : posix.tree w (placeOf path) ≠ none)
    (hnew : ∀ content, t (placeOf path) ≠ some (.file content)) : Opened posix t path handle := by
  refine ⟨hat, ?_⟩
  intro place content habove hfile
  by_cases heq : place = placeOf path
  · rw [heq] at hfile
    exact hnew content hfile
  · have hdir := directory_above (posix.tree_rooted w) hthere habove heq
    rw [h.files place content hfile] at hdir
    cases hdir

theorem resolved_leads {resolved : PathName} (hinside : Inside root path)
    (hpath : path = parentPath ++ slash :: getFileName path)
    (hresolved : Canonical resolved (placeOf parentPath)) :
    Leads root (resolved ++ slash :: getFileName path) ∧
      placeOf (resolved ++ slash :: getFileName path) = placeOf path := by
  have hplace : placeOf (resolved ++ slash :: getFileName path) = placeOf path := by
    have hfound : placeOf resolved = placeOf parentPath := by
      rw [placeOf, hresolved.names, List.reverse_reverse]
    rw [placeOf_append, hfound, ← placeOf_append, ← hpath]
  have hup : .up ∉ (routeOf (resolved ++ slash :: getFileName path)).steps := by
    have hname := hinside.up
    rw [hpath, routeOf_append_slash, List.mem_append, not_or] at hname
    rw [routeOf_append_slash, List.mem_append, not_or]
    exact ⟨fun hin => hresolved.double (up_mem_routeOf.mp hin), hname.2⟩
  refine ⟨⟨?_, hup, .inl ?_⟩, hplace⟩
  · rw [List.head?_append, hresolved.rooted]
    rfl
  · rw [hplace]
    exact hinside.suffix

theorem openOutput_safe (hne : root ≠ []) (hinside : Inside root path) (hunfound : Unfound t path) :
    Triple (Safe posix root t) (openOutput os path)
      (fun handle w => Opened posix t path handle ∧ Safe posix root t w)
      (fun _ => Safe posix root t) := by
  rw [openOutput]
  cases hparent : getParentDirectory path with
  | none => exact .throw fun _ h => h
  | some parentPath =>
    obtain ⟨hpath, hnil⟩ := getParentDirectory_inside hne hinside hparent
    have hfront : InFront parentPath path := ⟨_, hpath, List.cons_ne_nil _ _, .inr rfl⟩
    have hleads := hfront.leads hinside.toUnder hnil
    refine .bind (Q := fun result w => (∀ resolved, result = .ok resolved →
      Canonical resolved (placeOf parentPath)) ∧ Safe posix root t w) (.call ?_) fun result => ?_
    · intro w h
      refine ⟨?_, h.same (posix.realpath parentPath w)⟩
      intro resolved hresolved
      obtain ⟨place, hlookup, hcanonical⟩ := posix.realpath_ok parentPath w resolved hresolved
      have hplace := posix.lookup_place h.plain hleads (by rw [hlookup]; rfl)
      rwa [hplace] at hcanonical
    · cases result with
      | error errno => exact .throw fun _ h => h.2
      | ok resolved =>
        refine .assume fun hresolved => .ite (.throw fun _ h => h) ?_
        obtain ⟨hfull, hplace⟩ := resolved_leads hinside hpath (hresolved resolved rfl)
        refine .bind (Q := fun (result : Except Errno H) w => (∀ handle, result = .ok handle →
          Opened posix t path handle) ∧ Safe posix root t w) (.call ?_) fun result => ?_
        · intro w h
          have hlookup : ∀ place, (lookupAt (posix.tree w) posix.cwd posix.limit
              (resolved ++ slash :: getFileName path)).place? = some place →
              place = placeOf (resolved ++ slash :: getFileName path) :=
            fun _ => posix.lookup_place h.plain hfull
          cases hopened : (os.fopen (resolved ++ slash :: getFileName path) w).1 with
          | error errno => exact ⟨by simp, h.same (posix.fopen_fails _ w errno hopened)⟩
          | ok handle =>
            obtain ⟨hfound, htree⟩ := posix.fopen _ w handle hopened
            have hat : posix.place handle = placeOf path := by
              rcases hfound with ⟨hwalk, -⟩ | ⟨hwalk, -⟩
              · exact (hlookup _ (by rw [hwalk]; rfl)).trans hplace
              · exact (hlookup _ (by rw [hwalk]; rfl)).trans hplace
            have hnew : ∀ content, t (placeOf path) ≠ some (.file content) := by
              rcases hfound with ⟨hwalk, old, hfile⟩ | ⟨-, hnone⟩
              · have hname := posix.name_of_lookup hfull.rooted hfull.up hwalk hfile
                rw [getFileName_append_slash,
                  getFileName_of_not_mem (slash_not_mem_getFileName path)] at hname
                exact hunfound hname
              · rw [hat] at hnone
                exact h.new (by simp [hnone])
            rw [hat] at htree
            have hsafe := h.update hinside.beneath hnew (by simp) htree
            refine ⟨?_, hsafe⟩
            rintro _ ⟨⟩
            exact hsafe.opened hat (by simp [htree]) hnew
        · cases result with
          | error errno => exact .throw fun _ h => h.2
          | ok handle => exact .pure fun w h => ⟨h.1 handle rfl, h.2⟩

theorem fileStreamOpen_safe (hne : root ≠ []) (hinside : Inside root path)
    (hunfound : Unfound t path) :
    Triple (Safe posix root t) (fileStreamOpen os path)
      (fun handle w => Opened posix t path handle ∧ Safe posix root t w)
      (fun _ => Safe posix root t) := by
  intro w h
  rw [fileStreamOpen_eq]
  exact openOutput_safe hne hinside hunfound _ (clearedOutput_safe hinside hunfound h)

end FileApi.Compress
