import FileApi.Compress.Proofs.PlainPaths
import FileApi.Compress.TreeOs
import FileApi.Compress.Zip.Proofs.Save

/-!
# Extraction into a plain directory

`zip_reader.c:107-135`, `721-801`, `834-922`. The output directory and what is in it have no links,
and neither has the archive. Then whatever the archive says and whatever the system answers, nothing
outside of the directory changes, and no file that is there is overwritten or removed.
-/

namespace FileApi.Compress.Zip

open Program FileTree Zlib

section

variable {W H : Type} {D : Decoder} {I : Inflate D} {os : Os W H} {posix : Posix os}
  {t : List PathName → Option FileNode} {fuel : Nat} {reader : ZipReader} {entry : ZipReaderEntry}
  {root : List PathName} {outDir outPath path : PathName} {w : W}

/-! ## New names -/

theorem tryNewFileNameCount_free (dir base ext : PathName) (turns : Nat) : ∀ counter,
    Triple (Safe posix root t) (tryNewFileNameCount os dir base ext turns counter)
      (fun path w => (path.length < ZIP_FILE_NAME_LEN_MAX ∧ ∃ v, Safe posix root t v ∧
        (os.access path v).1 = false) ∧ Safe posix root t w) (fun _ => Safe posix root t) := by
  induction turns with
  | zero =>
    intro counter
    exact .throw fun _ h => h
  | succ turns ih =>
    intro counter
    rw [tryNewFileNameCount]
    generalize (if dir.take 2 = [dot, slash] then dir.drop 2 else dir) ++ base ++ [0x20, 0x28] ++
      (toString counter).toUTF8.toList ++ [0x29] ++ ext = path
    by_cases hlong : ZIP_FILE_NAME_LEN_MAX ≤ path.length
    · rw [if_pos hlong]
      exact .throw fun _ h => h
    · rw [if_neg hlong]
      refine .bind (Q := fun there w => (there = false → ∃ v, Safe posix root t v ∧
        (os.access path v).1 = false) ∧ Safe posix root t w) (.call ?_) fun there => ?_
      · intro w h
        exact ⟨fun hfree => ⟨w, h, hfree⟩, h.same (posix.access path w)⟩
      · refine .assume fun hfree => ?_
        cases there with
        | true => exact ih (counter + 1)
        | false => exact .pure fun w h => ⟨⟨Nat.lt_of_not_le hlong, hfree rfl⟩, h⟩

theorem generateNewFilename_free (path : PathName) :
    Triple (Safe posix root t) (generateNewFilename os path)
      (fun path w => (path.length < ZIP_FILE_NAME_LEN_MAX ∧ ∃ v, Safe posix root t v ∧
        (os.access path v).1 = false) ∧ Safe posix root t w) (fun _ => Safe posix root t) :=
  tryNewFileNameCount_free _ _ _ _ _

theorem generateNewFilename_safe (hunder : Under root outPath)
    (hlast : names (routeOf outPath).steps = root.reverse →
      names (routeOf (getFileName outPath)).steps = []) :
    Triple (Safe posix root t) (generateNewFilename os outPath)
      (fun path w => (Inside root path ∧ Unfound t path) ∧ Safe posix root t w)
      (fun _ => Safe posix root t) := by
  have hinside : ∀ w path w', generateNewFilename os outPath w = .ok path w' → Inside root path :=
    fun _ _ _ h => generateNewFilename_inside hunder hlast h
  refine ((generateNewFilename_free outPath).beside hinside).weaken (fun _ h => h) ?_ fun _ _ h => h
  rintro path w ⟨hinside, ⟨hlength, v, hv, hfree⟩, h⟩
  have hunder := hinside.toUnder
  refine ⟨⟨hinside, hv.unfound hunder ?_⟩, h⟩
  intro place hlookup
  have hne : path ≠ [] := List.ne_nil_of_mem (List.mem_of_mem_head? hunder.rooted)
  rw [posix.access_finds path v place hne hlength hlookup] at hfree
  cases hfree

theorem lookup_root (h : Safe posix root t w) (hunder : Under root path)
    (hnames : placeOf path = root) :
    lookupAt (posix.tree w) posix.cwd posix.limit path = .there root := by
  have hdir := h.plain.directory
  rw [lookupAt, start_of_rooted hunder.rooted]
  rw [walk_of_directories hunder.up, List.append_nil]
  · exact congrArg Found.there hnames
  · intro place hplace _ _
    rw [List.append_nil] at hplace
    have habove : place <:+ root := hnames ▸ hplace
    by_cases heq : place = root
    · rw [heq]
      exact hdir
    · exact directory_above (posix.tree_rooted w) (by simp [hdir]) habove heq

theorem zipReaderAutoRenamePath_safe (hunder : Under root outPath)
    (hlast : names (routeOf outPath).steps = root.reverse →
      names (routeOf (getFileName outPath)).steps = [])
    (hlength : outPath.length < ZIP_FILE_NAME_LEN_MAX) :
    Triple (Safe posix root t) (zipReaderAutoRenamePath os outPath)
      (fun path w => (Inside root path ∧ Unfound t path) ∧ Safe posix root t w)
      (fun _ => Safe posix root t) := by
  have hne : outPath ≠ [] := List.ne_nil_of_mem (List.mem_of_mem_head? hunder.rooted)
  refine .bind (Q := fun there w => (there = false → Inside root outPath ∧ Unfound t outPath) ∧
    Safe posix root t w) (.call ?_) fun there => .assume fun hfree => ?_
  · intro w h
    refine ⟨fun hfree => ?_, h.same (posix.stat outPath w)⟩
    have hnot : ∀ place, lookupAt (posix.tree w) posix.cwd posix.limit outPath ≠ .there place := by
      intro place hlookup
      rw [posix.stat_finds outPath w place hne hlength hlookup] at hfree
      cases hfree
    refine ⟨⟨hunder, fun heq => ?_⟩, h.unfound hunder hnot⟩
    apply hnot root
    apply lookup_root h hunder
    rw [placeOf, ← heq, List.reverse_reverse]
  · cases there with
    | true => exact generateNewFilename_safe hunder hlast
    | false => exact .pure fun w h => ⟨hfree rfl, h⟩

theorem closeEntryWith_safe {α : Type} (handle : H) (err : ArchiveErr) :
    Program.Keeps (Safe posix root t) (closeEntryWith os handle err : Run W α) :=
  .bind (.discard (.call fun w h => h.same (posix.fclose handle w))) fun _ => .throw _

/-! ## Files -/

section

variable {handle : H} (hopened : Opened posix t path handle) (hinside : Inside root path)

include hopened hinside

theorem zipReaderWriteData_safe (bytes : List UInt8) (st : OpenEntry I.State) :
    Program.Keeps (Safe posix root t) (zipReaderWriteData os handle bytes st) := by
  refine .bind (.call ?_) fun result => ?_
  · intro w h
    rcases posix.fwrite handle bytes w with hsame | ⟨old, new, -, htree⟩
    · exact h.same hsame
    · rw [hopened.place] at htree
      have hnew := fun content => hopened.new _ content (List.suffix_refl _)
      exact h.update hinside.beneath hnew (by simp) htree
  · cases result with
    | none => exact .pure _
    | some errno => exact closeEntryWith_safe _ _

variable (hdir : Resolved outDir) (hroot : names (routeOf outDir).steps = root.reverse)

include hdir hroot

theorem deleteParents_safe (turns : Nat) : ∀ above, Parent path above →
    Program.Keeps (Safe posix root t) (deleteParents os outDir turns above) := by
  induction turns with
  | zero =>
    intro above _
    exact .throw _
  | succ turns ih =>
    intro above habove
    rw [deleteParents]
    by_cases hlong : outDir.length < above.length
    · rw [if_pos hlong]
      obtain ⟨hleads, hbeneath, hsuffix⟩ := habove.beneath hinside hdir hroot hlong
      refine .bind (.call ?_) fun removed => .ite ?_ (.pure _)
      · intro w h
        exact h.remove hleads hbeneath fun content => hopened.new _ content hsuffix
      · cases hparent : getParentDirectory above with
        | none => exact .pure _
        | some parentPath => exact ih parentPath (habove.trans (getParentDirectory_parent hparent))
    · rw [if_neg hlong]
      exact .pure _

theorem deleteTempFileWithRootPath_safe :
    Program.Keeps (Safe posix root t) (deleteTempFileWithRootPath os outDir path) := by
  refine .bind (.call ?_) fun removed => .ite ?_ (.pure _)
  · intro w h
    have hnew := fun content => hopened.new _ content (List.suffix_refl _)
    exact h.remove hinside.toUnder.leads hinside.beneath hnew
  · cases hparent : getParentDirectory path with
    | none => exact .pure _
    | some parentPath =>
      exact deleteParents_safe hopened hinside hdir hroot _ _ (getParentDirectory_parent hparent)

theorem cancelEntry_safe {α : Type} :
    Program.Keeps (Safe posix root t) (cancelEntry os outDir path handle : Run W α) := by
  refine .bind (.discard (.call fun w h => h.same (posix.fclose handle w))) fun _ => ?_
  exact .bind (deleteTempFileWithRootPath_safe hopened hinside hdir hroot) fun _ => .throw _

theorem zipReaderSaveLoop_safe (turns : Nat) : ∀ st : OpenEntry I.State,
    Program.Keeps (Safe posix root t)
      (zipReaderSaveLoop os fuel entry outDir path handle turns st) := by
  have hcancels : ∀ w, Safe posix root t w → Safe posix root t (os.cancels w).2 :=
    fun w h => h.same (posix.cancels w)
  induction turns with
  | zero =>
    intro st
    exact .throw _
  | succ turns ih =>
    intro st
    refine .bind (liftFuel_keeps _) fun read => ?_
    cases read with
    | error err => exact closeEntryWith_safe _ _
    | ok read =>
      obtain ⟨bytes, read⟩ := read
      have hwrite := zipReaderWriteData_safe hopened hinside bytes read
      refine .bind (.ite hwrite (.pure _)) fun st' => .bind (.call hcancels) fun cancelled => ?_
      exact .ite (cancelEntry_safe hopened hinside hdir hroot) (.ite (ih st') (.pure _))

theorem zipReaderSaveFile_safe (st : OpenEntry I.State) :
    Program.Keeps (Safe posix root t)
      (zipReaderSaveFile os fuel entry outDir path handle st) := by
  have hcancels : ∀ w, Safe posix root t w → Safe posix root t (os.cancels w).2 :=
    fun w h => h.same (posix.cancels w)
  refine .bind (.call hcancels) fun cancelled =>
    .ite (cancelEntry_safe hopened hinside hdir hroot) ?_
  refine .bind (zipReaderSaveLoop_safe hopened hinside hdir hroot fuel st) fun st' => ?_
  refine .bind (.discard (.call hcancels)) fun _ => ?_
  refine .bind (.discard (.call fun w h => h.same (posix.fclose handle w))) fun _ => ?_
  exact .bind (liftStatus_keeps _) fun _ => .pure _

end

/-! ## Entries -/

theorem zipReaderExtractEntry_safe (hne : root ≠ []) (hdir : Resolved outDir)
    (hroot : names (routeOf outDir).steps = root.reverse) (hunder : Under root outPath)
    (hlast : names (routeOf outPath).steps = root.reverse →
      names (routeOf (getFileName outPath)).steps = [])
    (hlength : outPath.length < ZIP_FILE_NAME_LEN_MAX)
    (hlink : zipReaderEntryIsSymlink entry.centralDirHeader = false) :
    Program.Keeps (Safe posix root t)
      (zipReaderExtractEntry I os fuel reader entry outDir outPath) := by
  refine .ite (createDirectory_safe hunder) ?_
  refine Triple.bind (zipReaderAutoRenamePath_safe hunder hlast hlength) fun path =>
    .assume fun hpath => ?_
  obtain ⟨hinside, hunfound⟩ := hpath
  refine .bind (createParentDirectory_safe hinside.toUnder) fun _ => ?_
  refine .bind (Q := fun result w => (∀ handle, result.2 = some handle →
    Opened posix t path handle) ∧ result.2 ≠ none ∧ Safe posix root t w) ?_ fun result => ?_
  · refine .bind (liftStatus_keeps _) fun base => .bind (liftStatus_keeps _) fun stream => ?_
    rw [hlink, if_neg Bool.false_ne_true]
    refine .bind (fileStreamOpen_safe hne hinside hunfound) fun handle => .pure ?_
    rintro w ⟨hopened, h⟩
    refine ⟨?_, by simp, h⟩
    rintro _ ⟨⟩
    exact hopened
  · refine .assume fun hopened => .assume fun hsome => ?_
    obtain ⟨st, file⟩ := result
    cases file with
    | none => exact absurd rfl hsome
    | some handle =>
      exact .discard (zipReaderSaveFile_safe (hopened handle rfl) hinside hdir hroot st)

theorem zipReaderExtractOne_safe (hne : root ≠ []) (hdir : Resolved outDir)
    (hroot : names (routeOf outDir).steps = root.reverse)
    (hlink : zipReaderEntryIsSymlink entry.centralDirHeader = false) :
    Program.Keeps (Safe posix root t) (zipReaderExtractOne I os fuel reader outDir entry) := by
  refine Triple.bind liftStatus_triple fun outPath => .assume fun hpath => ?_
  obtain ⟨hunder, hlast⟩ := getOutputFilePath_under hdir hroot hpath
  exact zipReaderExtractEntry_safe hne hdir hroot hunder hlast (getOutputFilePath_length hpath) hlink

end

/-! ## Archives -/

section

variable {W : Type} {convert : List UInt8 → Option CString} {reader : ZipReader}
  {extractEntry : ZipReaderEntry → Run W Unit} {P : W → Prop}

/-- The entries that the walk through the central directory comes to, with their positions. -/
inductive Listed (convert : List UInt8 → Option CString) (reader : ZipReader) :
    UInt64 → ZipReaderEntry → Prop
  | first {entry : ZipReaderEntry}
      (h : zipReaderGoToCentralDirHeader convert reader reader.offsetOfCentralDir = .ok entry) :
      Listed convert reader reader.offsetOfCentralDir entry
  | next {pos : UInt64} {entry nextEntry : ZipReaderEntry} (hlisted : Listed convert reader pos entry)
      (h : zipReaderGoToCentralDirHeader convert reader
        (nextCentralDirHeaderPos pos entry.centralDirHeader) = .ok nextEntry) :
      Listed convert reader (nextCentralDirHeaderPos pos entry.centralDirHeader) nextEntry

theorem zipReaderExtractFrom_keeps
    (hentry : ∀ pos entry, Listed convert reader pos entry → Program.Keeps P (extractEntry entry))
    (announced : Nat) : ∀ pos entry, Listed convert reader pos entry →
      Program.Keeps P (zipReaderExtractFrom convert reader extractEntry announced pos entry) := by
  induction announced with
  | zero =>
    intro pos entry hlisted
    exact .bind (hentry pos entry hlisted) fun _ => .pure _
  | succ announced ih =>
    intro pos entry hlisted
    refine .bind (hentry pos entry hlisted) fun _ => ?_
    dsimp only
    split
    · exact .pure _
    · exact .throw _
    · next nextEntry hnext =>
      exact .bind (ih _ nextEntry (hlisted.next hnext)) fun rest => .pure _

theorem zipReaderExtractAllFiles_keeps
    (hentry : ∀ pos entry, Listed convert reader pos entry → Program.Keeps P (extractEntry entry)) :
    Program.Keeps P (zipReaderExtractAllFiles convert reader extractEntry) := by
  rw [zipReaderExtractAllFiles]
  split
  · exact .throw _
  · next announced _ =>
    refine Triple.bind liftStatus_triple fun entry => .assume fun hfirst => ?_
    exact zipReaderExtractFrom_keeps hentry announced _ entry (.first hfirst)

end

/-- An archive without links that is extracted into a directory without links, whatever the system
answers and however it ends: nothing outside of the directory has changed, every file that was
there is as it was, and there are no links. The same is so from every entry on, so what was
extracted before it stays too. -/
theorem zipReaderExtractAll_contained {W H : Type} {D : Decoder} (I : Inflate D) {os : Os W H}
    (posix : Posix os) (fuel : Nat) (convert : List UInt8 → Option CString) (reader : ZipReader)
    {outDir : PathName} (hdir : Resolved outDir) (hne : placeOf outDir ≠ [])
    (hlinks : ∀ pos entry, Listed convert reader pos entry →
      zipReaderEntryIsSymlink entry.centralDirHeader = false) :
    (∀ w, PlainDirectory (placeOf outDir) (posix.tree w) →
      Contained (placeOf outDir) (posix.tree w)
        (posix.tree (after (zipReaderExtractAll I os fuel convert reader outDir) w))) ∧
    ∀ announced pos entry w, Listed convert reader pos entry →
      PlainDirectory (placeOf outDir) (posix.tree w) → Contained (placeOf outDir) (posix.tree w)
        (posix.tree (after (zipReaderExtractFrom convert reader
          (zipReaderExtractOne I os fuel reader outDir) announced pos entry) w)) := by
  have hroot : names (routeOf outDir).steps = (placeOf outDir).reverse :=
    (List.reverse_reverse _).symm
  have hentry : ∀ t pos entry, Listed convert reader pos entry → Program.Keeps
      (Safe posix (placeOf outDir) t) (zipReaderExtractOne I os fuel reader outDir entry) :=
    fun t pos entry hlisted => zipReaderExtractOne_safe hne hdir hroot (hlinks pos entry hlisted)
  refine ⟨?_, ?_⟩
  · intro w hplain
    exact (zipReaderExtractAllFiles_keeps (hentry (posix.tree w))).after (Contained.refl hplain)
  · intro announced pos entry w hlisted hplain
    have hkeeps := zipReaderExtractFrom_keeps (hentry (posix.tree w)) announced pos entry hlisted
    exact hkeeps.after (Contained.refl hplain)

/-- The directory `/d` with a file `a`. -/
def oneFileTree : TreeState where
  node place :=
    if place = [] ∨ place = [[0x64]] then some .directory
    else if place = [[0x61], [0x64]] then some (.file [0x6f, 0x6c, 0x64])
    else none
  root := rfl
  rooted := by
    intro name dir hnode
    split at hnode
    · next heq =>
      simp only [List.cons_ne_nil, false_or] at heq
      cases heq
      rfl
    · split at hnode
      · next heq =>
        cases heq
        rfl
      · cases hnode rfl

theorem oneFileTree_plain : PlainDirectory [[0x64]] oneFileTree.node := by
  refine ⟨rfl, ?_⟩
  intro place route _ hlink
  rw [oneFileTree] at hlink
  dsimp only at hlink
  split at hlink
  · cases hlink
  · split at hlink <;> cases hlink

theorem storedAtEnd_listed :
    ∃ reader entry, zipReaderOpenFile (storedAtEnd [0x68, 0x65, 0x6c, 0x6c, 0x6f]) = .ok reader ∧
      zipReaderEntryIsSymlink entry.centralDirHeader = false ∧
      (∀ pos other, Listed (fun _ => none) reader pos other → other = entry) ∧
      (after (zipReaderExtractAll (Inflate.greedy noStreams) (treeOs 40) 3 (fun _ => none) reader
        [0x2f, 0x64]) oneFileTree).node [[0x61, 0x20, 0x28, 0x32, 0x29], [0x64]] =
          some (.file [0x68, 0x65, 0x6c, 0x6c, 0x6f]) := by
  have hrun : (do
      let reader ← (zipReaderOpenFile (storedAtEnd [0x68, 0x65, 0x6c, 0x6c, 0x6f])).toOption
      let entry ← (zipReaderGoToCentralDirHeader (fun _ => none) reader
        reader.offsetOfCentralDir).toOption
      let next := (zipReaderGoToCentralDirHeader (fun _ => none) reader
        (nextCentralDirHeaderPos reader.offsetOfCentralDir entry.centralDirHeader)).toOption
      let fs := after (zipReaderExtractAll (Inflate.greedy noStreams) (treeOs 40) 3 (fun _ => none)
        reader [0x2f, 0x64]) oneFileTree
      return (next.isNone, zipReaderEntryIsSymlink entry.centralDirHeader,
        fs.node [[0x61, 0x20, 0x28, 0x32, 0x29], [0x64]])) =
      some (true, false, some (.file [0x68, 0x65, 0x6c, 0x6c, 0x6f])) := by
    decide +kernel
  obtain ⟨reader, hreader, hrun⟩ := Option.bind_eq_some_iff.mp hrun
  obtain ⟨entry, hentry, hrun⟩ := Option.bind_eq_some_iff.mp hrun
  obtain ⟨hnext, hlast⟩ := Prod.mk.inj (Option.some.inj hrun)
  obtain ⟨hlink, hfile⟩ := Prod.mk.inj hlast
  refine ⟨reader, entry, toOption_eq_some.mp hreader, hlink, ?_, hfile⟩
  have honly : ∀ pos other, Listed (fun _ => none) reader pos other →
      pos = reader.offsetOfCentralDir ∧ other = entry := by
    intro pos other hlisted
    induction hlisted with
    | first h => exact ⟨rfl, Except.ok.inj (h.symm.trans (toOption_eq_some.mp hentry))⟩
    | next _ h ih =>
      obtain ⟨rfl, rfl⟩ := ih
      rw [h] at hnext
      cases hnext
  intro pos other hlisted
  exact (honly pos other hlisted).2

/-- The file `a` that is there stays, and the entry goes to a new name. -/
theorem zipReaderExtractAll_contained_oneFileTree :
    ∃ reader, zipReaderOpenFile (storedAtEnd [0x68, 0x65, 0x6c, 0x6c, 0x6f]) = .ok reader ∧
      let fs := after (zipReaderExtractAll (Inflate.greedy noStreams) (treeOs 40) 3 (fun _ => none)
        reader [0x2f, 0x64]) oneFileTree
      fs.node [[0x61], [0x64]] = some (.file [0x6f, 0x6c, 0x64]) ∧
        fs.node [[0x61, 0x20, 0x28, 0x32, 0x29], [0x64]] =
          some (.file [0x68, 0x65, 0x6c, 0x6c, 0x6f]) := by
  obtain ⟨reader, entry, hreader, hlink, honly, hfile⟩ := storedAtEnd_listed
  have hdir : Resolved [0x2f, 0x64] := ⟨rfl, by decide +kernel, by decide +kernel⟩
  have hplace : placeOf [0x2f, 0x64] = [[0x64]] := by decide +kernel
  have hlinks : ∀ pos other, Listed (fun _ => none) reader pos other →
      zipReaderEntryIsSymlink other.centralDirHeader = false := by
    intro pos other hlisted
    rw [honly pos other hlisted]
    exact hlink
  have hcontained := (zipReaderExtractAll_contained (Inflate.greedy noStreams) (treePosix 40) 3
    (fun _ => none) reader hdir (by simp [hplace]) hlinks).1 oneFileTree
    (hplace ▸ oneFileTree_plain)
  exact ⟨reader, hreader, hcontained.files [[0x61], [0x64]] _ rfl, hfile⟩

end FileApi.Compress.Zip
