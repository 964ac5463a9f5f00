import FileApi.ModFile.FileNExporter
import FileApi.ModFile.Proofs.FileSystem

/-!
# Links stay, and a move ends

No request makes a link, and as long as nothing fails none is taken away. So a path keeps leading to
the place it may lead to, a directory is at one level more than the one it is listed in, and at some
level its path is too long for any call.
-/

namespace FileApi.ModFile

open Compress FileTree Program Zip
open ModFs (DirEntry FileType FileVolume PlainName System)
open ModFs.System (MayLead Written)
open ModFs.Copy (AllPlain render)

variable {env : Env} {o v v' : FileVolume} {w w' : World} {path src dest : PathName}
  {place : List PathName}

/-! ## Calls -/

/-- The links are those that there were. -/
def SameLinks (o v : FileVolume) : Prop :=
  ∀ q target, v.tree q = some (.link target) ↔ o.tree q = some (.link target)

theorem SameLinks.refl (v : FileVolume) : SameLinks v v := fun _ _ => .rfl

theorem SameLinks.trans {v'' : FileVolume} (h : SameLinks o v') (h' : SameLinks v' v'') :
    SameLinks o v'' := fun q target => (h' q target).trans (h q target)

theorem SameLinks.change (h : SameLinks o v) {node : Option FileNode}
    (hold : ∀ target, v.tree place ≠ some (.link target))
    (hnew : ∀ target, node ≠ some (.link target))
    (htree : ∀ q, v'.tree q = if q = place then node else v.tree q) : SameLinks o v' := by
  intro q target
  rw [htree]
  split
  · next heq =>
    subst heq
    exact iff_of_false (hnew target) fun hlink => hold target ((h q target).mpr hlink)
  · exact h q target

theorem SameLinks.write (h : SameLinks o v) (hold : ∀ target, v.tree place ≠ some (.link target))
    (bytes : List UInt8) : SameLinks o (System.write v place bytes) := by
  by_cases hsame : System.write v place bytes = v
  · rwa [hsame]
  · exact h.change hold (fun target heq => by cases heq)
      ((ModFs.System.filePlace_of_write hsame).write bytes)

theorem SameLinks.grown (h : SameLinks o v) : Grown o.tree v.tree where
  link q target hlink := (h q target).mp hlink
  directory q target hdir hlink := nomatch hdir.symm.trans ((h q target).mpr hlink)

theorem SameLinks.mayLead (h : SameLinks o v) (hpath : (env.sys.lookup v path).place? = some place) :
    MayLead env.sys o path place := by
  refine (walk_grown h.grown (ModFs.System.lookup_place hpath).2).resolve_right ?_
  rintro ⟨target, hlink, hgone⟩
  exact hgone ((h place target).mpr hlink)

/-- The links of the world are those that there were. -/
def Links (o : FileVolume) (w : World) : Prop := SameLinks o w.volume

variable {E : Abort → World → Prop}

theorem Env.looks_links {α : Type} {call : FileCall} {g : Nat → FileVolume → Except Errno α} :
    Triple (Links o) (env.onPath call path fun time v => (g time v, v)) (fun _ => Links o) E :=
  onPath_triple (fun _ _ hw => hw) fun _ hw _ => hw

theorem getRealPath_links :
    Triple (Links o) (getRealPath env path) (fun _ => Links o) E := by
  rw [getRealPath, Env.realpath]
  exact Env.looks_links

theorem Env.stat_links :
    Triple (Links o) (env.stat path) (fun _ => Links o) E := by
  rw [stat]
  exact looks_links

theorem Env.openRead_links :
    Triple (Links o) (env.openRead path) (fun _ => Links o) E := by
  rw [openRead]
  exact looks_links

theorem Env.openWrite_links :
    Triple (Links o) (env.openWrite path) (fun _ => Links o) E := by
  refine onPath_triple (fun _ _ hw => hw) fun w hw _ => ?_
  cases hrun : env.sys.openWrite w.volume path with
  | mk result v' =>
    cases result with
    | ok place =>
      obtain ⟨hwritten, -, hplace⟩ := ModFs.System.openWrite_ok hrun
      refine hw.change (fun target hlink => ?_) (fun target heq => by cases heq) hwritten
      rcases hplace with ⟨⟨bytes, hfile⟩, -⟩ | ⟨hnone, -⟩
      · cases hfile.symm.trans hlink
      · cases hnone.symm.trans hlink
    | error errno =>
      cases ModFs.System.openWrite_error hrun
      exact hw

theorem Env.sendfile_links {out source : List PathName} {count : Int} :
    Triple (Links o) (env.sendfile out source count) (fun _ => Links o) E := by
  rw [sendfile, onFile]
  refine onPath_triple (fun _ _ hw => hw) fun w hw _ => ?_
  show SameLinks o _
  split
  · next bytes old _ hold =>
    exact SameLinks.write hw (fun target hlink => by cases hold.symm.trans hlink) _
  · exact hw

theorem Env.mkdir_links :
    Triple (Links o) (env.mkdir path) (fun _ => Links o) E := by
  refine onPath_triple (fun _ _ hw => hw) fun w hw _ => ?_
  cases hrun : env.sys.createDirectory w.volume path with
  | mk result v' =>
    have hvolume : SameLinks o v' := by
      rcases ModFs.System.createDirectory_cases hrun with ⟨rfl, -⟩ | ⟨e, -, -, hnone, htree⟩
      · exact hw
      · exact SameLinks.change hw (fun target => by rw [hnone]; nofun)
          (fun target heq => by cases heq) htree
    cases result with
    | ok made =>
      cases made with
      | true => exact hvolume
      | false => exact hvolume
    | error errno => exact hvolume

theorem Env.rmdir_links :
    Triple (Links o) (env.rmdir path) (fun _ => Links o) E := by
  refine onPath_triple (fun _ _ hw => hw) fun w hw _ => ?_
  show SameLinks o _
  split
  · next place hentry =>
    obtain ⟨name, dir, rfl, -, -⟩ := ModFs.System.entry_named hentry
    split
    · next hdir =>
      split
      · next hempty =>
        refine SameLinks.change hw (fun target hlink => ?_) (fun target heq => by cases heq)
          (ModFs.System.tree_remove_childless (List.cons_ne_nil _ _)
            (Volume.children_eq_nil_iff.mp hempty))
        cases hdir.symm.trans hlink
      · exact hw
    · exact hw
  · exact hw

theorem Env.remove_links
    (h : ∀ v e, SameLinks o v → env.sys.entry v path = some e → ∀ target, o.tree e ≠ some (.link target)) :
    Triple (Links o) (env.remove path) (fun _ => Links o) E := by
  refine onPath_triple (fun _ _ hw => hw) fun w hw _ => ?_
  cases hrun : env.sys.remove w.volume path with
  | mk result v' =>
    have hvolume : SameLinks o v' := by
      rcases ModFs.System.remove_cases hrun with ⟨rfl, -⟩ | ⟨e, -, hentry, -, htree⟩
      · exact hw
      · refine SameLinks.change hw (fun target hlink => ?_) (fun target heq => by cases heq) htree
        exact h w.volume e hw hentry target ((hw e target).mp hlink)
    cases result with
    | ok removed =>
      cases removed with
      | true => exact hvolume
      | false => exact hvolume
    | error errno => exact hvolume

/-! ## Functions -/

/-- Links stay if this is a success. -/
def LinksOn (o : FileVolume) (r : Int) (w : World) : Prop := r = SUCCESS → Links o w

theorem linksOn_pure (r : Int) :
    Triple (Links o) (pure r) (LinksOn o) E := Triple.pure fun _ hw _ => hw

theorem fileCopy_links (srcPath dstPath : PathName) :
    Triple (Links o) (fileCopy env srcPath dstPath) (LinksOn o) E := by
  unfold fileCopy
  refine Triple.bind getRealPath_links fun real => ?_
  cases real with
  | error errno => exact linksOn_pure _
  | ok src =>
    refine Triple.bind getRealPath_links fun first => ?_
    refine Triple.ite ?_ ?_
    · refine Triple.bind Env.openRead_links fun sfd => ?_
      refine Triple.bind Env.stat_links fun attrSrc => ?_
      cases attrSrc with
      | error errno => exact linksOn_pure _
      | ok attrSrc =>
        refine Triple.bind Env.openWrite_links fun ofd => ?_
        cases sfd with
        | error errno => exact linksOn_pure _
        | ok sfd =>
          cases ofd with
          | error errno => exact linksOn_pure _
          | ok ofd =>
            refine Triple.bind Env.sendfile_links fun sent => ?_
            cases sent with
            | ok sent => exact linksOn_pure _
            | error errno =>
              -- the file that was opened is removed, but this is no success
              refine Triple.bind (Q := fun _ _ => True) ?_ fun _ => ?_
              · exact Env.onPath_triple (fun _ _ _ => trivial) fun _ _ _ => trivial
              · exact Triple.pure fun _ _ hret => absurd hret (by decide)
    · refine Triple.bind getRealPath_links fun second => ?_
      cases second with
      | ok dest => exact linksOn_pure _
      | error errno => exact linksOn_pure _

/-! ## `DirMove` ends -/

theorem length_le_render (names : List PathName) : names.length ≤ (render names).length := by
  unfold render
  split
  · next hnil =>
    rw [hnil]
    exact Nat.zero_le _
  · rw [List.length_flatMap]
    have hsum : ∀ l : List PathName, l.length ≤ (l.map fun name => (slash :: name).length).sum := by
      intro l
      induction l with
      | nil => exact Nat.zero_le _
      | cons name l ih =>
        rw [List.map_cons, List.sum_cons, List.length_cons, List.length_cons]
        omega
    exact hsum names

theorem noLinks_of_lookup (hlinks : SameLinks o v) (h : env.sys.lookup v path = .there place) :
    ModFs.NoLinks o place ∧ AllPlain place.reverse := by
  obtain ⟨node, hnode, hlink⟩ := Env.lookup_node h
  refine ⟨?_, fun name hname => ?_⟩
  · rintro q ⟨rest, rfl⟩ target htarget
    have hv := (hlinks q target).mpr htarget
    by_cases hrest : rest = []
    · subst hrest
      cases hnode.symm.trans hv
      exact hlink target rfl
    · have hthere : v.tree (rest ++ q) ≠ none := by
        rw [hnode]
        nofun
      have hdir : v.tree q = some .directory := v.sound.above hrest hthere
      cases hdir.symm.trans hv
  · refine @ModFs.plainName_of_tree v place [] ?_ name (List.mem_reverse.mp hname)
    rw [List.append_nil, hnode]
    nofun

/-- Where the path behind `GetRealPath` may lead: where the path before it may lead. -/
structure SamePlace (env : Env) (o : FileVolume) (srcPath src : PathName) : Prop where
  mayLead : ∀ p, MayLead env.sys o src p → MayLead env.sys o srcPath p
  length : ∀ p, MayLead env.sys o src p → src = srcPath ∨ p.length ≤ src.length

theorem SamePlace.refl (path : PathName) : SamePlace env o path path := ⟨fun _ h => h, fun _ _ => .inl rfl⟩

theorem getRealPath_same :
    Triple (Links o) (getRealPath env path)
      (fun real w => SamePlace env o path (realOr real path) ∧ Links o w) E := by
  rw [getRealPath, Env.realpath]
  refine Env.onPath_triple (fun w errno hw => ⟨.refl path, hw⟩) fun w hw _ => ⟨?_, hw⟩
  dsimp only
  split
  · next place hplace =>
    split
    · obtain ⟨hnolinks, hplain⟩ := noLinks_of_lookup hw hplace
      have hrender : MayLead env.sys o (render place.reverse) place := by
        have hleads := @ModFs.mayLead_render env.sys o place.reverse hplain
          (by rwa [List.reverse_reverse])
        rwa [List.reverse_reverse] at hleads
      have hpath : MayLead env.sys o path place := hw.mayLead (by rw [hplace]; rfl)
      refine ⟨fun p hp => ?_, fun p hp => .inr ?_⟩
      · rwa [hp.unique hrender]
      · rw [hp.unique hrender, ← List.length_reverse]
        exact length_le_render _
    · exact .refl path
  · exact .refl path
  · exact .refl path

/-- What `readdir` gives of a directory: names in it, and what they were when it was opened. -/
structure Listed (env : Env) (o : FileVolume) (src : PathName) (place : List PathName)
    (entries : List DirEntry) : Prop where
  short : src.length < PATH_MAX
  nonempty : src ≠ []
  leads : MayLead env.sys o src place
  directory : ∀ target, o.tree place ≠ some (.link target)
  named : ∀ entp ∈ entries, PlainName entp.name
  typed : ∀ entp ∈ entries, entp.type ≠ .link →
    ∀ target, o.tree (entp.name :: place) ≠ some (.link target)

theorem opendir_listed :
    Triple (Links o) (env.opendir path)
      (fun result w => (∀ entries, result = .ok entries → ∃ place, Listed env o path place entries) ∧
        Links o w) E := by
  refine Env.onPath_triple (fun w errno hw => ⟨nofun, hw⟩) fun w hw hlength => ?_
  cases hscandir : env.sys.scandir w.volume path with
  | error errno => exact ⟨nofun, hw⟩
  | ok listed =>
    refine ⟨fun entries heq => ?_, hw⟩
    obtain ⟨place, hplace, hdir, rfl⟩ := ModFs.System.scandir_eq_ok hscandir
    cases heq
    have hmem : ∀ entp ∈ env.order (ModFs.System.entries w.volume place),
        ∃ node, w.volume.tree (entp.name :: place) = some node ∧ entp.type = ModFs.typeOf node :=
      fun entp hentp => ModFs.System.mem_entries.mp ((env.order_perm _).mem_iff.mp hentp)
    refine ⟨place, hlength, ModFs.System.ne_nil_of_lookup hplace, hw.mayLead (by rw [hplace]; rfl), ?_, ?_, ?_⟩
    · intro target hlink
      cases hdir.symm.trans ((hw place target).mpr hlink)
    · intro entp hentp
      obtain ⟨node, hnode, -⟩ := hmem entp hentp
      refine w.volume.sound.named entp.name place ?_
      show w.volume.tree (entp.name :: place) ≠ none
      rw [hnode]
      nofun
    · intro entp hentp htype target hlink
      obtain ⟨node, hnode, hnodeType⟩ := hmem entp hentp
      cases hnode.symm.trans ((hw _ target).mpr hlink)
      exact htype hnodeType

/-- So much fuel is more than there are levels left below where a path may lead. -/
def Shallow (env : Env) (o : FileVolume) (more fuel : Nat) (path : PathName) : Prop :=
  ∀ p, MayLead env.sys o path p → p.length ≤ path.length + more ∧ PATH_MAX + more < p.length + fuel

/-- `DirMove` with some fuel comes to an end. -/
def Ends (env : Env) (o : FileVolume) (more fuel : Nat) (again : PathName → PathName → Run Int) :
    Prop :=
  0 < fuel → ∀ srcPath dstPath, Shallow env o more fuel srcPath →
    Triple (Links o) (again srcPath dstPath) (LinksOn o) fun _ _ => False

theorem ite_success {r : Int} {x y : Run Int} (hx : Triple (Links o) x (LinksOn o) E)
    (hy : Triple (fun _ => True) y (LinksOn o) E) :
    Triple (LinksOn o r) (if r = SUCCESS then x else y) (LinksOn o) E := by
  by_cases hr : r = SUCCESS
  · rw [if_pos hr]
    exact hx.weaken (fun _ hw => hw hr) (fun _ _ h => h) fun _ _ h => h
  · rw [if_neg hr]
    exact hy.weaken (fun _ _ => trivial) (fun _ _ h => h) fun _ _ h => h

theorem failed_pure :
    Triple (fun _ => True) (pure FILE_IO_ERROR : Run Int) (LinksOn o) E :=
  Triple.pure fun _ _ hret => absurd hret (by decide)

section Entry

variable {entries : List DirEntry} {entp : DirEntry} {more fuel : Nat}
  {again : PathName → PathName → Run Int}

theorem Listed.shallow (h : Listed env o src place entries) (hentp : entp ∈ entries)
    (htype : entp.type ≠ .link) (hshallow : Shallow env o more (fuel + 1) src) :
    0 < fuel ∧ Shallow env o more fuel (src ++ [slash] ++ entp.name) := by
  obtain ⟨hlength, hdepth⟩ := hshallow place h.leads
  have hshort := h.short
  refine ⟨by omega, fun p hp => ?_⟩
  rw [List.append_assoc, List.singleton_append] at hp
  have hchild : MayLead env.sys o (src ++ slash :: entp.name) (entp.name :: place) :=
    h.leads.child h.nonempty h.directory (h.named entp hentp) (h.typed entp hentp htype)
  rw [hp.unique hchild]
  simp only [List.length_cons, List.length_append, List.length_nil]
  omega

theorem dirMoveEntry_links (hagain : Ends env o more fuel again)
    (h : Listed env o src place entries) (hentp : entp ∈ entries)
    (hshallow : Shallow env o more (fuel + 1) src) :
    Triple (Links o) (dirMoveEntry env again src dest entp) (LinksOn o) fun _ _ => False := by
  unfold dirMoveEntry
  cases htype : entp.type with
  | directory =>
    obtain ⟨hfuel, hchild⟩ := h.shallow hentp (by rw [htype]; nofun) hshallow
    refine Triple.bind (hagain hfuel _ _ hchild) fun r => ?_
    by_cases hr : r = SUCCESS
    · rw [if_pos hr]
      exact Triple.pure fun w hw hret => hw hr
    · rw [if_neg hr]
      exact Triple.pure fun w hw hret => absurd hret (by decide)
  | regular =>
    refine Triple.bind (fileCopy_links _ _) fun r => ite_success ?_ failed_pure
    refine Triple.bind (Env.remove_links fun v e hv hentry => ?_) fun _ => linksOn_pure _
    rw [List.append_assoc, List.singleton_append] at hentry
    obtain ⟨p, hplace, rfl⟩ := ModFs.System.entry_child_inv h.nonempty (h.named entp hentp) hentry
    have hleads : MayLead env.sys o src p := hv.mayLead (by rw [hplace]; rfl)
    rw [hleads.unique h.leads]
    exact h.typed entp hentp (by rw [htype]; nofun)
  | link => exact linksOn_pure _

theorem dirMoveEntries_links (hagain : Ends env o more fuel again)
    (h : Listed env o src place entries) (hshallow : Shallow env o more (fuel + 1) src)
    {rest : List DirEntry} (hrest : ∀ entp ∈ rest, entp ∈ entries) :
    Triple (Links o) (dirMoveEntries env again src dest rest) (LinksOn o) fun _ _ => False := by
  induction rest with
  | nil => exact Triple.bind Env.rmdir_links fun _ => linksOn_pure _
  | cons entp rest ih =>
    refine Triple.bind
      (dirMoveEntry_links hagain h (hrest entp List.mem_cons_self) hshallow) fun r => ?_
    exact ite_success (ih fun entp hentp => hrest entp (List.mem_cons_of_mem _ hentp)) failed_pure

end Entry

theorem SamePlace.shallow {more fuel : Nat} (h : SamePlace env o path src)
    (hshallow : Shallow env o more fuel path) : Shallow env o more fuel src := by
  intro p hp
  obtain ⟨hlength, hdepth⟩ := hshallow p (h.mayLead p hp)
  refine ⟨?_, hdepth⟩
  rcases h.length p hp with heq | hle
  · rwa [heq]
  · omega

theorem dirMove_links (env : Env) (o : FileVolume) (more fuel : Nat) :
    Ends env o more fuel (dirMove env fuel) := by
  induction fuel with
  | zero => exact fun h => absurd h (Nat.lt_irrefl 0)
  | succ fuel ih =>
    intro _ srcPath dstPath hshallow
    unfold dirMove
    refine Triple.bind getRealPath_same fun real => Triple.assume fun hsame => ?_
    have hsrc := hsame.shallow hshallow
    refine Triple.ite (linksOn_pure _) ?_
    refine Triple.bind getRealPath_links fun res => ?_
    refine Triple.ite (linksOn_pure _) (Triple.ite (linksOn_pure _) ?_)
    refine Triple.bind Env.stat_links fun attrSrc => ?_
    cases attrSrc with
    | error errno => exact linksOn_pure _
    | ok attrSrc =>
      refine Triple.ite (linksOn_pure _) ?_
      refine Triple.bind Env.mkdir_links fun made => ?_
      cases made with
      | error errno => exact linksOn_pure _
      | ok made =>
        refine Triple.bind opendir_listed fun listed => Triple.assume fun hlisted => ?_
        cases listed with
        | error errno => exact linksOn_pure _
        | ok entries =>
          obtain ⟨place, hlisted⟩ := hlisted entries rfl
          exact dirMoveEntries_links ih hlisted hsrc fun entp hentp => hentp

theorem exists_shallow (env : Env) (o : FileVolume) (path : PathName) :
    ∃ more fuel, ∀ fuel' ≥ fuel, 0 < fuel' ∧ Shallow env o more fuel' path := by
  by_cases h : ∃ p, MayLead env.sys o path p
  · obtain ⟨p, hp⟩ := h
    refine ⟨p.length, PATH_MAX + p.length + 1, fun fuel' hfuel => ⟨by omega, fun q hq => ?_⟩⟩
    rw [hq.unique hp]
    omega
  · exact ⟨0, 1, fun fuel' hfuel => ⟨hfuel, fun p hp => absurd ⟨p, hp⟩ h⟩⟩

end FileApi.ModFile
