import FileApi.ModFs.AtomicFileExporter
import FileApi.ModFs.Proofs.AtomicFile

/-!
# How a write of an atomic file ends

A call that has an error to tell tells it and leaves the names, and both layers do the same, as
long as every file that is there can be seen and removed, the exporter has the reference of the
write, and no other error than an unknown one is to be told.
-/

namespace FileApi.ModFs

variable {files : Files} {name other : FileName} {st st' : AtomicFileState}

/-! ## Names -/

/-- The names are those of a base and a temporary file, or there are none any more. -/
def Named (entity : FsAtomicFileEntity) : Prop :=
  IsTempName entity.baseFileName entity.newFileName ∨ entity = .cleared

theorem named_reset (entity : FsAtomicFileEntity) : Named (resetNewFileName entity) :=
  .inl (isTempName_reset entity.baseFileName)

/-- An object whose names are in order. -/
structure AtomicFileObject extends AtomicFileState where
  named : Named entity

def newAtomicFile (path : FileName) (files : Files) : AtomicFileObject :=
  ⟨atomicFile path files, .inl (isTempName_reset path)⟩

theorem mkstemp_named {entity : FsAtomicFileEntity} {mkstempEnd : MkstempEnd}
    {res : Bool × FileName × Files} (hnamed : Named entity)
    (h : mkstemp files entity.newFileName mkstempEnd = some res) :
    Named { entity with newFileName := res.2.1 } := by
  rcases hnamed with htemp | rfl
  · cases mkstemp_cases htemp h with
    | invalid hxs => exact .inl htemp
    | failed hxs hname => exact .inl hname
    | made hxs hname hnot hfresh => exact .inl hname
  · have hxs : ¬ mkstempXs <:+ FsAtomicFileEntity.cleared.newFileName := by decide
    simp only [mkstemp, hxs, not_false_eq_true, if_true] at h
    cases h
    exact .inr rfl

theorem startWrite_named {access : Bool} {mkstempEnd : MkstempEnd} {r : AtomicFileResult}
    (hnamed : Named st.entity) (h : startWrite st access mkstempEnd = some (r, st')) :
    Named st'.entity := by
  rw [startWrite] at h
  cases access with
  | false =>
    cases h
    exact hnamed
  | true =>
    rw [if_neg (by decide)] at h
    cases hmk : mkstemp st.files st.entity.newFileName mkstempEnd with
    | none => rw [hmk] at h; cases h
    | some res =>
      rw [hmk] at h
      have hres := mkstemp_named hnamed hmk
      rcases res with ⟨made, template, files⟩
      cases made with
      | false => cases h; exact hres
      | true => cases h; exact hres

theorem finishWrite_named (hnamed : Named st.entity) (rename : Option Nat) :
    Named (finishWrite st rename).2.entity := by
  rcases finishWrite_cases st rename with ⟨err, hcase⟩ | ⟨content, -, hcase⟩
  · rw [hcase]
    exact hnamed
  · rw [hcase]
    exact named_reset st.entity

theorem failWrite_named (hnamed : Named st.entity) (remove : Option Nat) :
    Named (failWrite st remove).2.entity := by
  rcases failWrite_cases st remove with ⟨err, hcase⟩ | hcase
  · rw [hcase]
    exact hnamed
  · rw [hcase]
    exact named_reset st.entity

theorem call_named {op : AtomicFileOp} {r : AtomicFileResult} (hnamed : Named st.entity)
    (h : st.call op = some (r, st')) : Named st'.entity := by
  cases op with
  | startWrite access mkstempEnd => exact startWrite_named hnamed h
  | write content =>
    rw [AtomicFileState.call, writeTemp] at h
    split at h
    · cases h
    · cases h
      exact hnamed
  | finishWrite rename =>
    have heq : finishWrite st rename = (r, st') := Option.some.inj h
    have hkept := finishWrite_named hnamed rename
    rwa [heq] at hkept
  | failWrite remove =>
    have heq : failWrite st remove = (r, st') := Option.some.inj h
    have hkept := failWrite_named hnamed remove
    rwa [heq] at hkept
  | readFully calls =>
    obtain ⟨rfl, -⟩ := call_read h
    exact hnamed

theorem endWrite_named (hnamed : Named st.entity) (call : WriteEnd) :
    Named (st.endWrite call).2.entity := by
  cases call with
  | finishWrite rename => exact finishWrite_named hnamed _
  | failWrite remove => exact failWrite_named hnamed _
  | delete newEnds baseEnds =>
    rw [AtomicFileState.endWrite, deleteFiles]
    split
    · exact hnamed
    · exact .inr rfl

theorem endWriteN_named (hnamed : Named st.entity) (napi : NapiEnds) (call : WriteEnd) :
    Named (st.endWriteN napi call).2.entity := by
  cases call with
  | finishWrite rename =>
    unfold AtomicFileState.endWriteN AtomicFileNExporter.finishWrite
    dsimp only
    split
    · exact hnamed
    · split
      · exact hnamed
      · exact hnamed
      · exact named_reset st.entity
  | failWrite remove =>
    unfold AtomicFileState.endWriteN AtomicFileNExporter.failWrite
    dsimp only
    split
    · exact hnamed
    · split
      · exact hnamed
      · exact hnamed
      · exact named_reset st.entity
  | delete newEnds baseEnds => exact .inr rfl

namespace AtomicFileObject

variable (file : AtomicFileObject)

/-- An operation on an object, which is an object again. -/
def call (op : AtomicFileOp) : Option (AtomicFileResult × AtomicFileObject) :=
  match h : file.toAtomicFileState.call op with
  | none => none
  | some (r, st) => some (r, ⟨st, call_named file.named h⟩)

def endWrite (call : WriteEnd) : AtomicFileResult × AtomicFileObject :=
  ((file.toAtomicFileState.endWrite call).1,
    ⟨(file.toAtomicFileState.endWrite call).2, endWrite_named file.named call⟩)

def endWriteN (napi : NapiEnds) (call : WriteEnd) : Thrown × AtomicFileObject :=
  ((file.toAtomicFileState.endWriteN napi call).1,
    ⟨(file.toAtomicFileState.endWriteN napi call).2, endWriteN_named file.named napi call⟩)

end AtomicFileObject

/-- An object on which `Delete` has been called has no names, and a write of it cannot be ended. -/
example : ((((newAtomicFile ['f'] fun _ => none).endWrite (.delete {} {})).2.endWriteN {}
    (.finishWrite none)).1) = some eUnknownError := rfl

/-! ## What is claimed of a call -/

/-- The error number that a result tells. -/
def AtomicFileResult.thrown (r : AtomicFileResult) : Thrown :=
  if r.errNo = 0 then none else some r.errNo

/-- The work of a call is done. -/
def Done (st st' : AtomicFileState) : WriteEnd → Prop
  | .finishWrite _ => ∃ content, st.files st.entity.newFileName = some content ∧
      st'.files st.entity.baseFileName = some content
  | .failWrite _ => st.files st.entity.newFileName ≠ none ∧ st'.files st.entity.newFileName = none
  | .delete _ _ => held st'.files st.entity.newFileName = none ∧
      held st'.files st.entity.baseFileName = none

/-- A call succeeds when its work is done and only then, else it leaves the names, and the exporter
does the same. -/
structure Recoverable (st : AtomicFileState) (napi : NapiEnds) (call : WriteEnd) : Prop where
  success : (st.endWrite call).1.IsSuccess → Done st (st.endWrite call).2 call
  deleted : ∀ newEnds baseEnds, call = .delete newEnds baseEnds →
    Done st (st.endWrite call).2 call → (st.endWrite call).1.IsSuccess
  names : ¬ (st.endWrite call).1.IsSuccess → (st.endWrite call).2.entity = st.entity
  exporter : st.endWriteN napi call = ((st.endWrite call).1.thrown, (st.endWrite call).2)

/-- A file is not there, or it is seen and removed. -/
def Clears (files : Files) (name : FileName) (ends : RemovalEnds) : Prop :=
  held files name = none ∨ ends.exists_ = none ∧ ends.remove = none

/-- The `errno` of a call on a file that fails. -/
def failsWith (fails : Option SysErrno) (file : Option (List UInt8)) : Option Nat :=
  match fails, file with
  | some e, _ => some e
  | none, none => some enoentCode
  | none, some _ => none

/-- The call works and the reference is there and deleted, or the error is an unknown one. -/
def Ends (st : AtomicFileState) (napi : NapiEnds) (fails : Option SysErrno) : Prop :=
  match failsWith fails (st.files st.entity.newFileName) with
  | some e => fsErrorNo e = eUnknownError
  | none => napi.getReference = true ∧ napi.deleteReference = true

/-- When a call is as it should be. -/
def Handled (st : AtomicFileState) (napi : NapiEnds) : WriteEnd → Prop
  | .finishWrite rename => Ends st napi rename
  | .failWrite remove => Ends st napi remove
  | .delete newEnds baseEnds => Clears st.files st.entity.newFileName newEnds ∧
      Clears st.files st.entity.baseFileName baseEnds

/-! ## The ends of a write -/

theorem fsErrorNo_eq_zero_iff {errCode : Nat} : fsErrorNo errCode = 0 ↔ errCode = 0 := by
  unfold fsErrorNo eUnknownError fileioSysCapTag
  split
  · next hzero => exact iff_of_true rfl hzero
  · next hne =>
    refine iff_of_false ?_ hne
    split <;> omega

/-- What a call that moves or removes the temporary file does in both layers: it fails with a value
of `errno` and changes nothing, or does its work. -/
structure EndCases (st : AtomicFileState) (napi : NapiEnds) (call : WriteEnd)
    (fails : Option SysErrno) : Prop where
  failed : ∀ e, failsWith fails (st.files st.entity.newFileName) = some e →
    (∃ err : FsErr, err.errNo = fsErrorNo e ∧ st.endWrite call = (.error err, st)) ∧
      st.endWriteN napi call = (some eUnknownError, st)
  worked : failsWith fails (st.files st.entity.newFileName) = none →
    (st.endWrite call).1 = .done ∧ Done st (st.endWrite call).2 call ∧
      st.endWriteN napi call =
        if napi.getReference then (AtomicFileNExporter.deleted napi, (st.endWrite call).2)
        else (some eUnknownError, st)

variable {fails : Option SysErrno} {file : Option (List UInt8)}

theorem failsWith_eq_none :
    failsWith fails file = none ↔ fails = none ∧ ∃ content, file = some content := by
  unfold failsWith
  cases fails with
  | some e => simp
  | none =>
    cases file with
    | none => simp
    | some content => simp

theorem failsWith_eq_some {e : Nat} (h : failsWith fails file = some e) :
    (∃ e' : SysErrno, fails = some e' ∧ e = e') ∨ fails = none ∧ file = none ∧ e = enoentCode := by
  unfold failsWith at h
  split at h
  · next e' =>
    cases h
    exact .inl ⟨e', rfl, rfl⟩
  · cases h
    exact .inr ⟨rfl, rfl, rfl⟩
  · cases h

theorem failsWith_pos {e : Nat} (h : failsWith fails file = some e) :
    e ≠ 0 := by
  rcases failsWith_eq_some h with ⟨e', -, rfl⟩ | ⟨-, -, rfl⟩
  · exact Nat.pos_iff_ne_zero.mp e'.2.1
  · decide

theorem endCases_finishWrite (st : AtomicFileState) (napi : NapiEnds) (rename : Option SysErrno) :
    EndCases st napi (.finishWrite rename) rename := by
  constructor
  · intro e hfails
    unfold AtomicFileState.endWrite AtomicFileState.endWriteN AtomicFileNExporter.finishWrite
      finishWrite
    rcases failsWith_eq_some hfails with ⟨e', rfl, rfl⟩ | ⟨rfl, hfile, rfl⟩
    · exact ⟨⟨_, rfl, rfl⟩, ite_self _⟩
    · rw [hfile]
      exact ⟨⟨_, rfl, rfl⟩, ite_self _⟩
  · intro hfails
    obtain ⟨rfl, content, hfile⟩ := failsWith_eq_none.mp hfails
    unfold AtomicFileState.endWrite AtomicFileState.endWriteN AtomicFileNExporter.finishWrite
      finishWrite
    rw [hfile]
    refine ⟨rfl, ⟨content, hfile, Function.update_self _ _ _⟩, ?_⟩
    cases napi.getReference with
    | false => rfl
    | true => rfl

theorem endCases_failWrite (st : AtomicFileState) (napi : NapiEnds) (remove : Option SysErrno) :
    EndCases st napi (.failWrite remove) remove := by
  constructor
  · intro e hfails
    unfold AtomicFileState.endWrite AtomicFileState.endWriteN AtomicFileNExporter.failWrite
      failWrite
    rcases failsWith_eq_some hfails with ⟨e', rfl, rfl⟩ | ⟨rfl, hfile, rfl⟩
    · exact ⟨⟨_, rfl, rfl⟩, ite_self _⟩
    · rw [hfile]
      exact ⟨⟨_, rfl, rfl⟩, ite_self _⟩
  · intro hfails
    obtain ⟨rfl, content, hfile⟩ := failsWith_eq_none.mp hfails
    unfold AtomicFileState.endWrite AtomicFileState.endWriteN AtomicFileNExporter.failWrite
      failWrite
    rw [hfile]
    refine ⟨rfl, ⟨?_, Function.update_self _ _ _⟩, ?_⟩
    · rw [hfile]
      exact Option.some_ne_none content
    · cases napi.getReference with
      | false => rfl
      | true => rfl

/-- The end of a write is as it should be exactly when it works in both layers, or fails with an
error that is unknown to the table. -/
theorem EndCases.leaves_iff {napi : NapiEnds} {call : WriteEnd}
    (hcases : EndCases st napi call fails)
    (hcall : ∀ newEnds baseEnds, call ≠ .delete newEnds baseEnds) :
    Recoverable st napi call ↔ Ends st napi fails := by
  unfold Ends
  cases hfails : failsWith fails (st.files st.entity.newFileName) with
  | some e =>
    obtain ⟨⟨err, herrNo, hcore⟩, hexporter⟩ := hcases.failed e hfails
    have hne : err.errNo ≠ 0 := by
      rw [herrNo]
      exact fsErrorNo_eq_zero_iff.not.mpr (failsWith_pos hfails)
    have hthrown : AtomicFileResult.thrown (.error err) = some (fsErrorNo e) := by
      rw [← herrNo]
      exact if_neg hne
    constructor
    · intro h
      have hsame := congrArg Prod.fst h.exporter
      rw [hcore, hexporter, hthrown] at hsame
      exact (Option.some.inj hsame).symm
    · intro hunknown
      refine ⟨?_, fun newEnds baseEnds heq => absurd heq (hcall newEnds baseEnds), ?_, ?_⟩
      · rw [hcore]
        exact fun hsuccess => absurd hsuccess hne
      · rw [hcore]
        exact fun _ => rfl
      · rw [hcore, hexporter, hthrown, hunknown]
  | none =>
    obtain ⟨hdone, hwork, hexporter⟩ := hcases.worked hfails
    have hthrown : (st.endWrite call).1.thrown = none := by
      rw [hdone]
      rfl
    constructor
    · intro h
      have hsame := congrArg Prod.fst (hexporter.symm.trans h.exporter)
      rw [hthrown] at hsame
      unfold AtomicFileNExporter.deleted at hsame
      cases hget : napi.getReference with
      | false =>
        rw [hget] at hsame
        cases hsame
      | true =>
        rw [hget] at hsame
        cases hdelete : napi.deleteReference with
        | false =>
          rw [hdelete] at hsame
          cases hsame
        | true => exact ⟨rfl, rfl⟩
    · rintro ⟨hget, hdelete⟩
      refine ⟨fun _ => hwork, fun newEnds baseEnds heq => absurd heq (hcall newEnds baseEnds), ?_, ?_⟩
      · rw [hdone]
        exact fun hfail => absurd rfl hfail
      · rw [hexporter, hthrown, if_pos hget, AtomicFileNExporter.deleted, if_pos hdelete]

/-! ## Deletion -/

theorem held_eq_none_of_update : held (Function.update files name none) name = none := by
  unfold held
  split
  · rfl
  · exact Function.update_self _ _ _

theorem held_update_of_ne (hne : other ≠ name) :
    held (Function.update files name none) other = held files other := by
  unfold held
  rw [Function.update_of_ne hne]

theorem existsNotRemoved_files (files : Files) (name : FileName) (ends : RemovalEnds) :
    (existsNotRemoved files name ends).2.2 = files ∨
      (existsNotRemoved files name ends).2.2 = Function.update files name none := by
  unfold existsNotRemoved fsRemove
  split
  · exact .inl rfl
  · split
    next heq =>
    split at heq
    · split at heq
      · cases heq
        exact .inr rfl
      · cases heq
        exact .inl rfl
    · split at heq
      · cases heq
        exact .inl rfl
      · cases heq
        exact .inr rfl

theorem existsNotRemoved_of_ne (ends : RemovalEnds) (hne : other ≠ name) :
    held (existsNotRemoved files name ends).2.2 other = held files other := by
  rcases existsNotRemoved_files files name ends with heq | heq
  · rw [heq]
  · rw [heq]
    exact held_update_of_ne hne

theorem clears_iff (ends : RemovalEnds) :
    Clears files name ends ↔ (existsNotRemoved files name ends).1 = false ∧
      held (existsNotRemoved files name ends).2.2 name = none := by
  unfold Clears existsNotRemoved fsExists
  rcases ends with ⟨exists_, remove⟩
  cases hheld : held files name with
  | none =>
    refine iff_of_true (.inl rfl) ?_
    cases exists_ with
    | some e => exact ⟨rfl, hheld⟩
    | none => exact ⟨rfl, hheld⟩
  | some content =>
    cases exists_ with
    | some e =>
      refine iff_of_false (by rintro (h | ⟨h, -⟩) <;> cases h) fun h => ?_
      exact absurd (hheld.symm.trans h.2) (Option.some_ne_none content)
    | none =>
      cases remove with
      | some e =>
        refine iff_of_false (by rintro (h | ⟨-, h⟩) <;> cases h) fun h => ?_
        have hflag := h.1
        unfold fsRemove at hflag
        dsimp only [Option.isSome] at hflag
        split at hflag <;> cases hflag
      | none =>
        refine iff_of_true (.inr ⟨rfl, rfl⟩) ?_
        unfold fsRemove
        dsimp only [Option.isSome]
        rw [hheld]
        exact ⟨rfl, held_eq_none_of_update⟩

theorem removeBoth_spec (hnamed : Named st.entity) (newEnds baseEnds : RemovalEnds) :
    (Clears st.files st.entity.newFileName newEnds ∧
      Clears st.files st.entity.baseFileName baseEnds) ↔
    (removeBoth st newEnds baseEnds).1 = false ∧
      held (removeBoth st newEnds baseEnds).2.2 st.entity.newFileName = none ∧
      held (removeBoth st newEnds baseEnds).2.2 st.entity.baseFileName = none := by
  let files := (existsNotRemoved st.files st.entity.newFileName newEnds).2.2
  have hflag : (removeBoth st newEnds baseEnds).1 = false ↔
      (existsNotRemoved st.files st.entity.newFileName newEnds).1 = false ∧
        (existsNotRemoved files st.entity.baseFileName baseEnds).1 = false :=
    Bool.or_eq_false_iff
  have hfiles : (removeBoth st newEnds baseEnds).2.2 =
      (existsNotRemoved files st.entity.baseFileName baseEnds).2.2 := rfl
  have hbase : Clears st.files st.entity.baseFileName baseEnds ↔
      Clears files st.entity.baseFileName baseEnds := by
    rcases hnamed with htemp | hcleared
    · unfold Clears
      rw [existsNotRemoved_of_ne newEnds htemp.ne.symm]
    · rw [hcleared]
      exact iff_of_true (.inl rfl) (.inl rfl)
  have hnew : held (existsNotRemoved files st.entity.baseFileName baseEnds).2.2
      st.entity.newFileName = none ↔ held files st.entity.newFileName = none := by
    rcases hnamed with htemp | hcleared
    · rw [existsNotRemoved_of_ne baseEnds htemp.ne]
    · rw [hcleared]
      exact iff_of_true rfl rfl
  rw [hflag, hfiles, hbase, hnew, clears_iff, clears_iff]
  tauto

theorem recoverable_delete_iff (hnamed : Named st.entity) (napi : NapiEnds)
    (newEnds baseEnds : RemovalEnds) :
    Recoverable st napi (.delete newEnds baseEnds) ↔
      Clears st.files st.entity.newFileName newEnds ∧
        Clears st.files st.entity.baseFileName baseEnds := by
  rw [removeBoth_spec hnamed]
  rcases hboth : removeBoth st newEnds baseEnds with ⟨errFlag, fsErrcode, files⟩
  have hcore : st.endWrite (.delete newEnds baseEnds) = deleteFiles st newEnds baseEnds := rfl
  have hexporter : st.endWriteN napi (.delete newEnds baseEnds) =
      (if errFlag then some (fsErrorNo fsErrcode) else none,
        { st with files, entity := .cleared }) := by
    rw [AtomicFileState.endWriteN, AtomicFileNExporter.deleteFiles, hboth]
  cases errFlag with
  | true =>
    refine iff_of_false (fun h => ?_) (fun h => nomatch h.1)
    have hdelete : deleteFiles st newEnds baseEnds =
        (.error (.errno fsErrcode), { st with files }) := by
      rw [deleteFiles, hboth]
    -- the names are not cleared yet, or there was nothing to remove
    have hentity : FsAtomicFileEntity.cleared = st.entity := by
      have hsame := congrArg (fun r => r.2.entity) h.exporter
      rw [hexporter, hcore, hdelete] at hsame
      exact hsame
    have hclears : Clears st.files st.entity.newFileName newEnds ∧
        Clears st.files st.entity.baseFileName baseEnds := by
      rw [← hentity]
      exact ⟨.inl rfl, .inl rfl⟩
    have hflag := ((removeBoth_spec hnamed newEnds baseEnds).mp hclears).1
    rw [hboth] at hflag
    cases hflag
  | false =>
    have hdelete : deleteFiles st newEnds baseEnds =
        (.done, { st with files, entity := .cleared }) := by
      rw [deleteFiles, hboth]
    constructor
    · intro h
      have hdone := h.success (by rw [hcore, hdelete]; rfl)
      rw [hcore, hdelete] at hdone
      exact ⟨rfl, hdone⟩
    · rintro ⟨-, hdone⟩
      refine ⟨fun _ => ?_, fun _ _ _ _ => ?_, fun hfail => ?_, ?_⟩
      · rw [hcore, hdelete]
        exact hdone
      · rw [hcore, hdelete]
        rfl
      · rw [hcore, hdelete] at hfail
        exact absurd rfl hfail
      · rw [hexporter, hcore, hdelete]
        rfl

/-! ## Every call -/

/-- A call on an object is as it should be exactly when it is handled. -/
theorem recoverable_iff (file : AtomicFileObject) (napi : NapiEnds) (call : WriteEnd) :
    Recoverable file.toAtomicFileState napi call ↔ Handled file.toAtomicFileState napi call := by
  cases call with
  | finishWrite rename => exact (endCases_finishWrite _ napi rename).leaves_iff nofun
  | failWrite remove => exact (endCases_failWrite _ napi remove).leaves_iff nofun
  | delete newEnds baseEnds => exact recoverable_delete_iff file.named napi newEnds baseEnds

/-- The temporary file cannot be removed and the base file can: `Delete` succeeds. -/
theorem delete_not_recoverable :
    ¬ ∀ (file : AtomicFileObject) (napi : NapiEnds) (call : WriteEnd),
      Recoverable file.toAtomicFileState napi call := by
  intro h
  have hdelete := h (newAtomicFile ['f'] fun _ => some [1]) {}
    (.delete { remove := some ⟨13, by decide⟩ } {})
  have hdone := hdelete.success (by decide)
  cases hdone.1

end FileApi.ModFs
