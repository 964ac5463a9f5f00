import FileApi.ModFs.AtomicFile

/-!
# An atomic file is a register

The base file changes when a write is finished, to what was written, and else not; what is read is
what it holds, unless that is nothing.
-/

namespace FileApi.ModFs

open Machine

variable {st st' : AtomicFileState} {op : AtomicFileOp} {r : AtomicFileResult} {base : FileName}

/-! ## The temporary name -/

/-- A name `mkstemp` may have made of the template. -/
def IsTempName (base name : FileName) : Prop :=
  ∃ suffix : List Char, suffix.length = mkstempXs.length ∧ name = base ++ '_' :: suffix

theorem isTempName_reset (base : FileName) : IsTempName base (base ++ tempFileSuffix) :=
  ⟨mkstempXs, rfl, rfl⟩

theorem IsTempName.ne {name : FileName} (h : IsTempName base name) : name ≠ base := by
  obtain ⟨suffix, -, rfl⟩ := h
  intro heq
  have hlen := congrArg List.length heq
  rw [List.length_append, List.length_cons] at hlen
  omega

theorem IsTempName.replace {name suffix : List Char} (h : IsTempName base name) :
    name.take (name.length - mkstempXs.length) ++ suffix = base ++ '_' :: suffix := by
  obtain ⟨old, hold, rfl⟩ := h
  rw [List.append_cons base '_' old, List.append_cons base '_' suffix, ← hold, List.length_append,
    Nat.add_sub_cancel, List.take_left]

theorem not_isSuffix_of_ne {stem suffix : List Char} (hlen : suffix.length = mkstempXs.length)
    (hne : suffix ≠ mkstempXs) : ¬ mkstempXs <:+ stem ++ suffix := by
  intro h
  obtain hsuffix := List.suffix_of_suffix_length_le h (List.suffix_append stem suffix) hlen.ge
  exact hne (hsuffix.eq_of_length hlen.symm).symm

/-- What a call of `mkstemp` is, by its end. -/
inductive MkstempCase (files : Files) (base template : FileName) :
    Bool × FileName × Files → Prop where
  | invalid (h : ¬ mkstempXs <:+ template) : MkstempCase files base template (false, template, files)
  | failed (h : mkstempXs <:+ template) {name : FileName} (hname : IsTempName base name) :
      MkstempCase files base template (false, name, files)
  | made (h : mkstempXs <:+ template) {name : FileName} (hname : IsTempName base name)
      (hxs : ¬ mkstempXs <:+ name) (hfresh : files name = none) :
      MkstempCase files base template (true, name, Function.update files name (some []))

variable {files : Files}

theorem mkstemp_cases {template : FileName} {mkstempEnd : MkstempEnd}
    {res : Bool × FileName × Files} (hname : IsTempName base template)
    (h : mkstemp files template mkstempEnd = some res) : MkstempCase files base template res := by
  simp only [mkstemp] at h
  by_cases hxs : mkstempXs <:+ template
  · rw [if_neg (not_not.mpr hxs)] at h
    cases mkstempEnd with
    | fails left =>
      by_cases hleft : left.length = mkstempXs.length
      · simp only [hleft, if_true] at h
        cases h
        exact .failed hxs ⟨left, hleft, hname.replace⟩
      · simp only [hleft, if_false] at h
        cases h
    | picks suffix =>
      dsimp only at h
      split at h
      · next hpick =>
        obtain ⟨hlen, hne, hfresh⟩ := hpick
        cases h
        exact .made hxs ⟨suffix, hlen, hname.replace⟩ (not_isSuffix_of_ne hlen hne) hfresh
      · cases h
  · rw [if_pos hxs] at h
    cases h
    exact .invalid hxs

/-! ## What holds between the operations -/

/-- A write in progress has its file under the temporary name; of the names returned no other
holds anything. -/
structure AtomicFileInv (base : FileName) (st : AtomicFileState) : Prop where
  baseName : st.entity.baseFileName = base
  newName : IsTempName base st.entity.newFileName
  writing : ∀ name, st.writing = some name →
    st.entity.newFileName = name ∧ ¬ mkstempXs <:+ name ∧ st.files name ≠ none
  returned : ∀ name ∈ st.returned, IsTempName base name ∧
    (st.files name ≠ none → st.writing = some name)

theorem atomicFile_inv (path : FileName) (files : Files) :
    AtomicFileInv path (atomicFile path files) :=
  ⟨rfl, isTempName_reset path, nofun, nofun⟩

theorem AtomicFileInv.gone (inv : AtomicFileInv base st) {name : FileName}
    (hmem : name ∈ st.returned) (hne : name ≠ st.entity.newFileName) : st.files name = none := by
  by_contra hfile
  obtain ⟨hnew, -, -⟩ := inv.writing name ((inv.returned name hmem).2 hfile)
  exact hne hnew.symm

theorem startWrite_inv {access : Bool} {mkstempEnd : MkstempEnd} (inv : AtomicFileInv base st)
    (h : startWrite st access mkstempEnd = some (r, st')) : AtomicFileInv base st' := by
  rw [startWrite] at h
  cases access with
  | false =>
    cases h
    exact inv
  | true =>
    rw [if_neg (by decide)] at h
    cases hmk : mkstemp st.files st.entity.newFileName mkstempEnd with
    | none => rw [hmk] at h; cases h
    | some res =>
      rw [hmk] at h
      cases mkstemp_cases inv.newName hmk with
      | invalid hxs =>
        cases h
        exact inv
      | failed hxs hname =>
        cases h
        refine ⟨inv.baseName, hname, fun name hwriting => ?_, inv.returned⟩
        obtain ⟨rfl, hnot, -⟩ := inv.writing name hwriting
        exact absurd hxs hnot
      | @made hxs name hname hnot hfresh =>
        cases h
        refine ⟨inv.baseName, hname, ?_, ?_⟩
        · rintro _ ⟨⟩
          exact ⟨rfl, hnot, by simp⟩
        · intro other hmem
          rcases List.mem_cons.mp hmem with rfl | hmem
          · exact ⟨hname, fun _ => rfl⟩
          · refine ⟨(inv.returned other hmem).1, fun hfile => ?_⟩
            by_cases heq : other = name
            · rw [heq]
            · dsimp only at hfile
              rw [Function.update_of_ne heq] at hfile
              obtain ⟨rfl, hother, -⟩ := inv.writing other ((inv.returned other hmem).2 hfile)
              exact absurd hxs hother

theorem writeTemp_inv {content : List UInt8} (inv : AtomicFileInv base st)
    (h : writeTemp st content = some (r, st')) : AtomicFileInv base st' := by
  rcases st with ⟨entity, files, writing, returned⟩
  cases writing with
  | none => cases h
  | some name =>
    cases h
    refine ⟨inv.baseName, inv.newName, fun other hother => ?_, fun other hmem => ?_⟩
    · obtain ⟨hnew, hxs, -⟩ := inv.writing other hother
      obtain rfl : name = other := Option.some.inj hother
      exact ⟨hnew, hxs, by simp⟩
    · refine ⟨(inv.returned other hmem).1, fun hfile => ?_⟩
      by_cases heq : other = name
      · rw [heq]
      · dsimp only at hfile
        rw [Function.update_of_ne heq] at hfile
        exact (inv.returned other hmem).2 hfile

theorem AtomicFileInv.reset (inv : AtomicFileInv base st)
    (hgone : ∀ name ∈ st.returned, files name = none) :
    AtomicFileInv base { st with
      entity := resetNewFileName st.entity, files := files, writing := none } := by
  refine ⟨inv.baseName, ?_, nofun, fun name hmem => ⟨(inv.returned name hmem).1, fun hfile => ?_⟩⟩
  · simp only [resetNewFileName, inv.baseName]
    exact isTempName_reset base
  · exact absurd (hgone name hmem) hfile

theorem finishWrite_gone (inv : AtomicFileInv base st) (content : List UInt8) :
    ∀ name ∈ st.returned, Function.update (Function.update st.files st.entity.newFileName none)
      st.entity.baseFileName (some content) name = none := by
  intro name hmem
  have hne : name ≠ st.entity.baseFileName := by
    rw [inv.baseName]
    exact (inv.returned name hmem).1.ne
  rw [Function.update_of_ne hne]
  by_cases heq : name = st.entity.newFileName
  · rw [heq, Function.update_self]
  · rw [Function.update_of_ne heq]
    exact inv.gone hmem heq

theorem failWrite_gone (inv : AtomicFileInv base st) :
    ∀ name ∈ st.returned, Function.update st.files st.entity.newFileName none name = none := by
  intro name hmem
  by_cases heq : name = st.entity.newFileName
  · rw [heq, Function.update_self]
  · rw [Function.update_of_ne heq]
    exact inv.gone hmem heq

theorem finishWrite_cases (st : AtomicFileState) (rename : Option Nat) :
    (∃ err, finishWrite st rename = (.error err, st)) ∨
      ∃ content, st.files st.entity.newFileName = some content ∧
        finishWrite st rename = (.done, { st with
          entity := resetNewFileName st.entity
          files := Function.update (Function.update st.files st.entity.newFileName none)
            st.entity.baseFileName (some content)
          writing := none }) := by
  unfold finishWrite
  cases rename with
  | some e => exact .inl ⟨_, rfl⟩
  | none =>
    cases hfile : st.files st.entity.newFileName with
    | none => exact .inl ⟨_, rfl⟩
    | some content => exact .inr ⟨content, rfl, rfl⟩

theorem failWrite_cases (st : AtomicFileState) (remove : Option Nat) :
    (∃ err, failWrite st remove = (.error err, st)) ∨
      failWrite st remove = (.done, { st with
        entity := resetNewFileName st.entity
        files := Function.update st.files st.entity.newFileName none
        writing := none }) := by
  unfold failWrite
  cases remove with
  | some e => exact .inl ⟨_, rfl⟩
  | none =>
    cases st.files st.entity.newFileName with
    | none => exact .inl ⟨_, rfl⟩
    | some content => exact .inr rfl

theorem call_read {calls : ReadCalls} (h : st.call (.readFully calls) = some (r, st')) :
    st' = st ∧ ((∃ err, readFully st.files st.entity calls = .error err ∧ r = .error err) ∨
      ∃ content, readFully st.files st.entity calls = .ok content ∧ r = .bytes content) := by
  rw [AtomicFileState.call] at h
  cases hread : readFully st.files st.entity calls with
  | error err =>
    rw [hread] at h
    cases h
    exact ⟨rfl, .inl ⟨err, rfl, rfl⟩⟩
  | ok content =>
    rw [hread] at h
    cases h
    exact ⟨rfl, .inr ⟨content, rfl, rfl⟩⟩

theorem call_inv (inv : AtomicFileInv base st) (h : st.call op = some (r, st')) :
    AtomicFileInv base st' := by
  cases op with
  | startWrite access mkstempEnd => exact startWrite_inv inv h
  | write content => exact writeTemp_inv inv h
  | finishWrite rename =>
    have heq : finishWrite st rename = (r, st') := Option.some.inj h
    rcases finishWrite_cases st rename with ⟨err, hcase⟩ | ⟨content, -, hcase⟩
    · rw [hcase] at heq
      cases heq
      exact inv
    · rw [hcase] at heq
      cases heq
      exact inv.reset (finishWrite_gone inv content)
  | failWrite remove =>
    have heq : failWrite st remove = (r, st') := Option.some.inj h
    rcases failWrite_cases st remove with ⟨err, hcase⟩ | hcase
    · rw [hcase] at heq
      cases heq
      exact inv
    · rw [hcase] at heq
      cases heq
      exact inv.reset (failWrite_gone inv)
  | readFully calls =>
    obtain ⟨rfl, -⟩ := call_read h
    exact inv

theorem run_atomicFileInv {path : FileName} {ops : List AtomicFileOp}
    (hrun : run AtomicFileState.step (atomicFile path files) ops = some st) :
    AtomicFileInv path st := by
  refine run_invariant (fun s a t inv _ hstep => ?_)
    (atomicFile_inv path files) (stepsOk_true ops _) hrun
  obtain ⟨⟨res, t'⟩, hcall, rfl⟩ := Option.map_eq_some_iff.mp hstep
  exact call_inv inv hcall

/-! ## The register -/

/-- One operation on an atomic register, from `st` to `st'`. -/
structure AtomicRegister (st : AtomicFileState) (op : AtomicFileOp) (r : AtomicFileResult)
    (st' : AtomicFileState) : Prop where
  changes : st'.files st.entity.baseFileName ≠ st.files st.entity.baseFileName →
    (∃ rename, op = .finishWrite rename) ∧ r = .done
  finished : ∀ rename, op = .finishWrite rename → r = .done →
    st.files st.entity.newFileName ≠ none ∧
    st'.files st.entity.baseFileName = st.files st.entity.newFileName ∧
    ∀ name, st.writing = some name → st.entity.newFileName = name
  reads : ∀ calls content, op = .readFully calls → r = .bytes content →
    st.files st.entity.baseFileName = some content
  readable : ∀ calls content, op = .readFully calls → calls.Succeed →
    st.files st.entity.baseFileName = some content → r = .bytes content
  ended : ((∃ rename, op = .finishWrite rename) ∨ ∃ remove, op = .failWrite remove) → r = .done →
    (∀ name ∈ st.returned, st'.files name = none) ∧
    ∀ suffix : List Char, suffix.length = mkstempXs.length → suffix ≠ mkstempXs →
      st'.files (st.entity.baseFileName ++ '_' :: suffix) = none →
      ∃ st'', st'.call (.startWrite true (.picks suffix)) =
        some (.path (st.entity.baseFileName ++ '_' :: suffix), st'')

/-- All of an existing base file is to be read, and it is empty. -/
def ReadsEmpty (st : AtomicFileState) : AtomicFileOp → Prop
  | .readFully calls => calls.Succeed ∧ st.files st.entity.baseFileName = some []
  | _ => False

theorem startWrite_reset (hnew : st.entity.newFileName = st.entity.baseFileName ++ tempFileSuffix)
    {suffix : List Char} (hlen : suffix.length = mkstempXs.length) (hne : suffix ≠ mkstempXs)
    (hfresh : st.files (st.entity.baseFileName ++ '_' :: suffix) = none) :
    ∃ st', st.call (.startWrite true (.picks suffix)) =
      some (.path (st.entity.baseFileName ++ '_' :: suffix), st') := by
  have hxs : mkstempXs <:+ st.entity.newFileName := by
    rw [hnew]
    exact ⟨st.entity.baseFileName ++ ['_'], by simp [tempFileSuffix, mkstempXs]⟩
  have hname : IsTempName st.entity.baseFileName st.entity.newFileName := by
    rw [hnew]
    exact isTempName_reset _
  have hpick : mkstemp st.files st.entity.newFileName (.picks suffix) =
      some (true, st.entity.baseFileName ++ '_' :: suffix, Function.update st.files
        (st.entity.baseFileName ++ '_' :: suffix) (some [])) := by
    simp only [mkstemp, hname.replace, not_not.mpr hxs, if_false]
    exact if_pos ⟨hlen, hne, hfresh⟩
  simp only [AtomicFileState.call, startWrite, hpick]
  exact ⟨_, rfl⟩

theorem startWrite_base {access : Bool} {mkstempEnd : MkstempEnd} (inv : AtomicFileInv base st)
    (h : startWrite st access mkstempEnd = some (r, st')) : st'.files base = st.files base := by
  rw [startWrite] at h
  cases access with
  | false =>
    cases h
    rfl
  | true =>
    rw [if_neg (by decide)] at h
    cases hmk : mkstemp st.files st.entity.newFileName mkstempEnd with
    | none => rw [hmk] at h; cases h
    | some res =>
      rw [hmk] at h
      cases mkstemp_cases inv.newName hmk with
      | invalid hxs =>
        cases h
        rfl
      | failed hxs hname =>
        cases h
        rfl
      | made hxs hname hnot hfresh =>
        cases h
        exact Function.update_of_ne hname.ne.symm _ _

theorem writeTemp_base {content : List UInt8} (inv : AtomicFileInv base st)
    (h : writeTemp st content = some (r, st')) : st'.files base = st.files base ∧ r = .done := by
  rcases st with ⟨entity, files, writing, returned⟩
  cases writing with
  | none => cases h
  | some name =>
    cases h
    obtain ⟨hnew, -, -⟩ := inv.writing name rfl
    have hname : IsTempName base name := hnew ▸ inv.newName
    exact ⟨Function.update_of_ne hname.ne.symm _ _, rfl⟩

theorem readFileToBuffer_ok {calls : ReadCalls} {content out : List UInt8}
    (h : readFileToBuffer calls content = .ok out) : out = content := by
  simp only [readFileToBuffer] at h
  split at h
  · cases h
  · split at h
    · cases h
    · split at h
      · cases h
      · split at h
        · cases h
        · split at h
          · cases h
          · next hread =>
            cases h
            have hlen : (content.take (calls.fread.getD content.length)).length = content.length := by
              by_contra hne
              exact hread (.inl hne)
            exact (List.take_prefix _ content).eq_of_length hlen

theorem readFully_ok {entity : FsAtomicFileEntity} {calls : ReadCalls} {out : List UInt8}
    (h : readFully files entity calls = .ok out) :
    files entity.baseFileName = some out := by
  simp only [readFully] at h
  split at h
  · cases h
  · cases h
  · next hfile =>
    split at h
    · cases h
    · rw [readFileToBuffer_ok h]
      exact hfile

theorem readFully_succeed {entity : FsAtomicFileEntity} {content : List UInt8}
    (hfile : files entity.baseFileName = some content) :
    readFully files entity {} = if content = [] then .error .eio else .ok content := by
  cases content with
  | nil => simp [readFully, readFileToBuffer, hfile]
  | cons b content => simp [readFully, readFileToBuffer, hfile]

/-- An operation in a run that is no read of an empty file is one on a register. -/
theorem call_atomicRegister (inv : AtomicFileInv st.entity.baseFileName st)
    (h : st.call op = some (r, st')) (hread : ¬ ReadsEmpty st op) : AtomicRegister st op r st' := by
  cases op with
  | startWrite access mkstempEnd =>
    exact ⟨fun hne => absurd (startWrite_base inv h) hne, nofun, nofun, nofun, by simp⟩
  | write content =>
    exact ⟨fun hne => absurd (writeTemp_base inv h).1 hne, nofun, nofun, nofun, by simp⟩
  | finishWrite rename =>
    have heq : finishWrite st rename = (r, st') := Option.some.inj h
    rcases finishWrite_cases st rename with ⟨err, hcase⟩ | ⟨content, hfile, hcase⟩
    · rw [hcase] at heq
      cases heq
      exact ⟨fun hne => absurd rfl hne, nofun, nofun, nofun, nofun⟩
    · rw [hcase] at heq
      cases heq
      refine ⟨fun _ => ⟨⟨rename, rfl⟩, rfl⟩, fun _ _ _ => ?_, nofun, nofun, fun _ _ => ?_⟩
      · refine ⟨by rw [hfile]; exact Option.some_ne_none content, ?_, fun name hname => ?_⟩
        · rw [hfile]
          exact Function.update_self _ _ _
        · exact (inv.writing name hname).1
      · exact ⟨finishWrite_gone inv content, fun suffix => startWrite_reset rfl⟩
  | failWrite remove =>
    have heq : failWrite st remove = (r, st') := Option.some.inj h
    rcases failWrite_cases st remove with ⟨err, hcase⟩ | hcase
    · rw [hcase] at heq
      cases heq
      exact ⟨fun hne => absurd rfl hne, nofun, nofun, nofun, nofun⟩
    · rw [hcase] at heq
      cases heq
      refine ⟨fun hne => absurd ?_ hne, nofun, nofun, nofun, fun _ _ => ?_⟩
      · exact Function.update_of_ne inv.newName.ne.symm _ _
      · exact ⟨failWrite_gone inv, fun suffix => startWrite_reset rfl⟩
  | readFully calls =>
    obtain ⟨rfl, hcase⟩ := call_read h
    refine ⟨fun hne => absurd rfl hne, nofun, ?_, ?_, by simp⟩
    · rintro _ content ⟨⟩ rfl
      rcases hcase with ⟨err, -, hr⟩ | ⟨out, hout, hr⟩
      · cases hr
      · cases hr
        exact readFully_ok hout
    · rintro _ content ⟨⟩ hsucceed hfile
      have hne : content ≠ [] := by
        rintro rfl
        exact hread ⟨hsucceed, hfile⟩
      obtain rfl : calls = {} := hsucceed
      rw [readFully_succeed hfile, if_neg hne] at hcase
      rcases hcase with ⟨err, herr, -⟩ | ⟨out, hout, hr⟩
      · cases herr
      · cases hout
        exact hr

/-- An atomic file is a register, but for reads of an empty file. -/
theorem atomicRegister_iff {path : FileName} {files : Files} {ops : List AtomicFileOp}
    (hrun : run AtomicFileState.step (atomicFile path files) ops = some st)
    (h : st.call op = some (r, st')) : AtomicRegister st op r st' ↔ ¬ ReadsEmpty st op := by
  have inv := run_atomicFileInv hrun
  have hbase := inv.baseName
  subst hbase
  constructor
  · intro hregister hread
    cases op with
    | startWrite access mkstempEnd => exact hread
    | write content => exact hread
    | finishWrite rename => exact hread
    | failWrite remove => exact hread
    | readFully calls =>
      obtain ⟨hsucceed, hfile⟩ := hread
      have hr := hregister.readable calls [] rfl hsucceed hfile
      obtain ⟨-, hcase⟩ := call_read h
      obtain rfl : calls = {} := hsucceed
      rw [readFully_succeed hfile, if_pos rfl] at hcase
      rcases hcase with ⟨err, -, herr⟩ | ⟨out, hout, -⟩
      · rw [hr] at herr
        cases herr
      · cases hout
  · exact call_atomicRegister inv h

/-! ### A write of nothing -/

def emptyWrite : List AtomicFileOp :=
  [.startWrite true (.picks ['a', 'b', 'c', 'd', 'e', 'f']), .finishWrite none]

/-- What is written here is empty, and is not read back. -/
theorem emptyWrite_not_atomicRegister :
    ∃ st, run AtomicFileState.step (atomicFile ['/', 'f'] fun _ => none) emptyWrite = some st ∧
      st.files ['/', 'f'] = some [] ∧
      st.call (.readFully {}) = some (.error .eio, st) ∧
      ¬ AtomicRegister st (.readFully {}) (.error .eio) st := by
  refine ⟨_, rfl, rfl, rfl, fun h => ?_⟩
  have hr := h.readable {} [] rfl rfl rfl
  cases hr

/-- The write itself is one on a register. -/
theorem atomicRegister_iff_emptyWrite :
    ∃ st st', run AtomicFileState.step (atomicFile ['/', 'f'] fun _ => none)
        (emptyWrite.take 1) = some st ∧
      st.call (.finishWrite none) = some (.done, st') ∧
      AtomicRegister st (.finishWrite none) .done st' :=
  ⟨_, _, rfl, rfl, (atomicRegister_iff (show run AtomicFileState.step
    (atomicFile ['/', 'f'] fun _ => none) (emptyWrite.take 1) = some _ from rfl) rfl).mpr id⟩

end FileApi.ModFs
