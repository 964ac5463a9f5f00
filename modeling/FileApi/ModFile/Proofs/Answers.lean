import FileApi.ModFile.Proofs.Links
import FileApi.ModFile.Proofs.ReadBuffer

/-!
# Requests are answered

A `Comp` step knows the error types 300 and 301. `FileCopy` keeps its result in a `bool`, so it also
returns 1, and then neither the success nor the fail callback is called. An `Exec` step that does not
get its memory does not come to an end.
-/

namespace FileApi.ModFile

open Compress Program Zip
open ModFs (DirEntry)

variable {α β : Type} {env : Env} {w w' : World} {url urlDst src dst : PathName}

/-! ## Callbacks -/

/-- The application gave all its functions. -/
def allGiven : Callbacks := ⟨true, true, true⟩

/-- One of the success and fail callbacks, and then the complete callback. -/
def AnswersOnce (answers : List (Answer α)) : Prop :=
  (∃ obj, answers = [.success obj, .complete]) ∨
    ∃ errorProp errorCode, answers = [.fail errorProp errorCode, .complete]

/-- The request ends, and its `Comp` step answers once. -/
def Answered (exec : Run α) (comp : α → List (Answer β)) (w : World) : Prop :=
  ∃ a w', exec w = .ok a w' ∧ AnswersOnce (comp a)

/-- A result that a `Comp` step recognises. -/
def Known (retval : Int) : Prop :=
  retval = SUCCESS ∨ retval = FILE_IO_ERROR ∨ retval = FILE_PATH_ERROR

/-- An outcome that it recognises. -/
def Outcome.Known (outcome : Outcome) : Prop :=
  outcome.result = SUCCESS ∨ outcome.errorType = FILE_IO_ERROR ∨ outcome.errorType = FILE_PATH_ERROR

theorem answerOutcome_iff (failed : String) (outcome : Outcome) (obj : Option α) :
    AnswersOnce (answerOutcome failed allGiven outcome obj) ↔ outcome.Known := by
  unfold answerOutcome Outcome.Known
  by_cases hresult : outcome.result = SUCCESS
  · rw [if_pos hresult]
    exact iff_of_true (.inl ⟨obj, rfl⟩) (.inl hresult)
  · rw [if_neg hresult]
    by_cases hio : outcome.errorType = FILE_IO_ERROR
    · rw [if_pos hio]
      exact iff_of_true (.inr ⟨_, _, rfl⟩) (.inr (.inl hio))
    · rw [if_neg hio]
      by_cases hpath : outcome.errorType = FILE_PATH_ERROR
      · rw [if_pos hpath]
        exact iff_of_true (.inr ⟨_, _, rfl⟩) (.inr (.inr hpath))
      · rw [if_neg hpath]
        refine iff_of_false ?_ (not_or.mpr ⟨hresult, not_or.mpr ⟨hio, hpath⟩⟩)
        rintro (⟨obj, h⟩ | ⟨errorProp, errorCode, h⟩)
        · cases h
        · cases h

theorem answered_of_triple {exec : Run α} {comp : α → List (Answer β)}
    (h : Triple (fun _ => True) exec (fun a _ => AnswersOnce (comp a)) fun _ _ => False)
    (w : World) : Answered exec comp w := h.exists_ok trivial

/-! ## Results -/

variable {E : Abort → World → Prop}

theorem Env.onPath_returns {α : Type} {call : FileCall} {path : PathName}
    {f : Nat → ModFs.FileVolume → Except Errno α × ModFs.FileVolume} :
    Triple (fun _ => True) (env.onPath call path f) (fun _ _ => True) E :=
  onPath_triple (fun _ _ _ => trivial) fun _ _ _ => trivial

theorem Env.sendfile_returns {out source : List PathName} {count : Int} :
    Triple (fun _ => True) (env.sendfile out source count) (fun _ _ => True) E := by
  rw [sendfile, onFile]
  exact onPath_returns

theorem fileCopy_returns (srcPath dstPath : PathName) :
    Triple (fun _ => True) (fileCopy env srcPath dstPath)
      (fun r _ => r = SUCCESS ∨ r = FILE_IO_ERROR ∨ r = 1) E := by
  have hio : Triple (fun _ => True) (pure FILE_IO_ERROR : Run Int)
      (fun r _ => r = SUCCESS ∨ r = FILE_IO_ERROR ∨ r = 1) E := Triple.pure fun _ _ => .inr (.inl rfl)
  have hret : Triple (fun _ => True) (pure 1 : Run Int)
      (fun r _ => r = SUCCESS ∨ r = FILE_IO_ERROR ∨ r = 1) E := Triple.pure fun _ _ => .inr (.inr rfl)
  unfold fileCopy
  refine Triple.bind Env.onPath_returns fun real => ?_
  cases real with
  | error errno => exact hret
  | ok src =>
    refine Triple.bind Env.onPath_returns fun first => Triple.ite ?_ ?_
    · refine Triple.bind Env.onPath_returns fun sfd => Triple.bind Env.onPath_returns fun attrSrc => ?_
      cases attrSrc with
      | error errno => exact hio
      | ok attrSrc =>
        refine Triple.bind Env.onPath_returns fun ofd => ?_
        cases sfd with
        | error errno => exact hio
        | ok sfd =>
          cases ofd with
          | error errno => exact hio
          | ok ofd =>
            refine Triple.bind Env.sendfile_returns fun sent => ?_
            cases sent with
            | ok sent => exact Triple.pure fun _ _ => .inl rfl
            | error errno => exact Triple.bind Env.onPath_returns fun _ => hret
    · refine Triple.bind Env.onPath_returns fun second => ?_
      cases second with
      | ok dest =>
        refine Triple.pure fun _ _ => ?_
        split
        · exact .inl rfl
        · exact .inr (.inl rfl)
      | error errno => exact hret

/-! ## `FileCopy` -/

/-- A path is not found. -/
def NotFound (env : Env) (path : PathName) (w : World) : Prop :=
  ∃ errno w', env.realpath path w = .ok (.error errno) w'

/-- Both files are open, and `sendfile` fails. -/
def SendFails (env : Env) (src dest : PathName) (w : World) : Prop :=
  ∃ sfd w1 attrSrc w2 ofd w3 errno w4, env.openRead src w = .ok (.ok sfd) w1 ∧
    env.stat src w1 = .ok (.ok attrSrc) w2 ∧ env.openWrite dest w2 = .ok (.ok ofd) w3 ∧
    env.sendfile ofd sfd attrSrc.size w3 = .ok (.error errno) w4

/-- What the calls answer when `FileCopy` returns 1: the source is not found, or nothing is sent to a
destination that is not there, or whether it is there cannot be said twice. -/
def SilentCopy (env : Env) (srcPath dstPath : PathName) (w : World) : Prop :=
  NotFound env srcPath w ∨ ∃ src w1 first w2, env.realpath srcPath w = .ok (.ok src) w1 ∧
    env.realpath dstPath w1 = .ok first w2 ∧
      if first = .error .enoent then SendFails env src (uriToAbsolute dstPath) w2
      else NotFound env (realOr first dstPath) w2

variable {srcPath dstPath : PathName}

theorem silentCopy_iff {w1 w2 : World} {first : Except Errno PathName}
    (hsrc : env.realpath srcPath w = .ok (.ok src) w1)
    (hfirst : env.realpath dstPath w1 = .ok first w2) :
    SilentCopy env srcPath dstPath w ↔
      if first = .error .enoent then SendFails env src (uriToAbsolute dstPath) w2
      else NotFound env (realOr first dstPath) w2 := by
  constructor
  · rintro (⟨errno, w', hsrc'⟩ | ⟨src', w1', first', w2', hsrc', hfirst', hsilent⟩)
    · cases hsrc.symm.trans hsrc'
    · cases hsrc.symm.trans hsrc'
      cases hfirst.symm.trans hfirst'
      exact hsilent
  · intro hsilent
    exact .inr ⟨src, w1, first, w2, hsrc, hfirst, hsilent⟩

theorem fileCopy_one_iff {r : Int} (h : fileCopy env srcPath dstPath w = .ok r w') :
    r = 1 ↔ SilentCopy env srcPath dstPath w := by
  unfold fileCopy at h
  obtain ⟨real, w1, hsrc, h⟩ := Program.bind_eq_ok.mp h
  cases real with
  | error errno =>
    obtain ⟨rfl, -⟩ := Program.pure_eq_ok.mp h
    exact iff_of_true rfl (.inl ⟨errno, w1, hsrc⟩)
  | ok src =>
    obtain ⟨first, w2, hfirst, h⟩ := Program.bind_eq_ok.mp h
    rw [silentCopy_iff hsrc hfirst]
    by_cases hne : first = .error .enoent
    · rw [if_pos hne] at h ⊢
      obtain ⟨sfd, w3, hsfd, h⟩ := Program.bind_eq_ok.mp h
      obtain ⟨attrSrc, w4, hattr, h⟩ := Program.bind_eq_ok.mp h
      cases attrSrc with
      | error errno =>
        obtain ⟨rfl, -⟩ := Program.pure_eq_ok.mp h
        refine iff_of_false (by decide) ?_
        rintro ⟨sfd', w3', attrSrc', w4', ofd', w5', errno', w6', hsfd', hattr', -⟩
        cases hsfd.symm.trans hsfd'
        cases hattr.symm.trans hattr'
      | ok attrSrc =>
        obtain ⟨ofd, w5, hofd, h⟩ := Program.bind_eq_ok.mp h
        cases sfd with
        | error errno =>
          obtain ⟨rfl, -⟩ := Program.pure_eq_ok.mp h
          refine iff_of_false (by decide) ?_
          rintro ⟨sfd', w3', attrSrc', w4', ofd', w5', errno', w6', hsfd', -⟩
          cases hsfd.symm.trans hsfd'
        | ok sfd =>
          cases ofd with
          | error errno =>
            obtain ⟨rfl, -⟩ := Program.pure_eq_ok.mp h
            refine iff_of_false (by decide) ?_
            rintro ⟨sfd', w3', attrSrc', w4', ofd', w5', errno', w6', hsfd', hattr', hofd', -⟩
            cases hsfd.symm.trans hsfd'
            cases hattr.symm.trans hattr'
            cases hofd.symm.trans hofd'
          | ok ofd =>
            obtain ⟨sent, w6, hsent, h⟩ := Program.bind_eq_ok.mp h
            cases sent with
            | ok sent =>
              obtain ⟨rfl, -⟩ := Program.pure_eq_ok.mp h
              refine iff_of_false (by decide) ?_
              rintro ⟨sfd', w3', attrSrc', w4', ofd', w5', errno', w6', hsfd', hattr', hofd', hsent'⟩
              cases hsfd.symm.trans hsfd'
              cases hattr.symm.trans hattr'
              cases hofd.symm.trans hofd'
              cases hsent.symm.trans hsent'
            | error errno =>
              obtain ⟨u, w7, -, h⟩ := Program.bind_eq_ok.mp h
              obtain ⟨rfl, -⟩ := Program.pure_eq_ok.mp h
              exact iff_of_true rfl
                ⟨sfd, w3, attrSrc, w4, ofd, w5, errno, w6, hsfd, hattr, hofd, hsent⟩
    · rw [if_neg hne] at h ⊢
      obtain ⟨second, w3, hsecond, h⟩ := Program.bind_eq_ok.mp h
      cases second with
      | error errno =>
        obtain ⟨rfl, -⟩ := Program.pure_eq_ok.mp h
        exact iff_of_true rfl ⟨errno, w3, hsecond⟩
      | ok dest =>
        obtain ⟨rfl, -⟩ := Program.pure_eq_ok.mp h
        refine iff_of_false ?_ ?_
        · split <;> decide
        · rintro ⟨errno, w3', hsecond'⟩
          cases hsecond.symm.trans hsecond'

/-! ## Copy and move -/

theorem known_pure {r : Int} (hr : Known r) :
    Triple (fun _ => True) (pure r : Run Int) (fun r _ => Known r) E := Triple.pure fun _ _ => hr

theorem dirCopy_known (srcPath dstPath : PathName) :
    Triple (fun _ => True) (dirCopy env srcPath dstPath) (fun r _ => Known r) fun _ _ => False := by
  have hio : Known FILE_IO_ERROR := .inr (.inl rfl)
  unfold dirCopy
  refine Triple.bind Env.onPath_returns fun real => Triple.ite (known_pure (.inr (.inr rfl))) ?_
  refine Triple.bind Env.onPath_returns fun realDest => Triple.ite ?_ (known_pure ?_)
  · refine Triple.bind Env.onPath_returns fun attrSrc => ?_
    cases attrSrc with
    | error errno => exact known_pure hio
    | ok attrSrc =>
      refine Triple.ite (known_pure hio) (Triple.bind Env.onPath_returns fun made => ?_)
      cases made with
      | error errno => exact known_pure hio
      | ok made => exact known_pure (.inl rfl)
  · split
    · exact .inl rfl
    · exact hio

theorem dirMoveEntries_known {again : PathName → PathName → Run Int} {dest : PathName}
    (entries : List DirEntry) :
    Triple (fun _ => True) (dirMoveEntries env again src dest entries) (fun r _ => Known r)
      fun _ _ => True := by
  induction entries with
  | nil => exact Triple.bind Env.onPath_returns fun _ => known_pure (.inl rfl)
  | cons entp rest ih =>
    exact Triple.bind (Triple.any _) fun r => Triple.ite ih (known_pure (.inr (.inl rfl)))

theorem dirMove_known (fuel : Nat) (srcPath dstPath : PathName) :
    Triple (fun _ => True) (dirMove env fuel srcPath dstPath) (fun r _ => Known r)
      fun _ _ => True := by
  have hio : Known FILE_IO_ERROR := .inr (.inl rfl)
  have hpath : Known FILE_PATH_ERROR := .inr (.inr rfl)
  cases fuel with
  | zero => exact Triple.throw fun _ _ => trivial
  | succ fuel =>
    unfold dirMove
    refine Triple.bind Env.onPath_returns fun real => Triple.ite (known_pure hpath) ?_
    refine Triple.bind Env.onPath_returns fun res =>
      Triple.ite (known_pure (.inl rfl)) (Triple.ite (known_pure hpath) ?_)
    refine Triple.bind Env.onPath_returns fun attrSrc => ?_
    cases attrSrc with
    | error errno => exact known_pure hio
    | ok attrSrc =>
      refine Triple.ite (known_pure hio) (Triple.bind Env.onPath_returns fun made => ?_)
      cases made with
      | error errno => exact known_pure hio
      | ok made =>
        refine Triple.bind Env.onPath_returns fun listed => ?_
        cases listed with
        | error errno => exact known_pure hio
        | ok entries => exact dirMoveEntries_known entries

/-- The request is for a file, and `FileCopy` returns 1 for it. -/
def SilentRequest (env : Env) (url urlDst : PathName) (w : World) : Prop :=
  ∃ real w1 statbf w2, env.realpath url w = .ok real w1 ∧ real ≠ .error .enoent ∧
    env.stat (realOr real url) w1 = .ok (.ok statbf) w2 ∧ statbf.directory = false ∧
      SilentCopy env (realOr real url) urlDst w2

theorem outcome_known (r : Int) :
    (if r = SUCCESS then ({ result := SUCCESS } : Outcome) else { errorType := r }).Known ↔
      Known r := by
  unfold Outcome.Known Known
  by_cases hr : r = SUCCESS
  · rw [if_pos hr]
    exact iff_of_true (.inl rfl) (.inl hr)
  · have hfailed : ¬ ({ errorType := r } : Outcome).result = SUCCESS := by
      show ¬ FAILED = SUCCESS
      decide
    rw [if_neg hr, or_iff_right hr, or_iff_right hfailed]

section

variable {file directory : PathName → Run Int} {outcome : Outcome}

/-- The outcome is not recognised exactly if the result for a file is not. -/
theorem withStat_known (hdir : ∀ path s r s', directory path s = .ok r s' → Known r)
    (hfile : ∀ path s r s', file path s = .ok r s' → (Known r ↔ ¬ SilentCopy env path urlDst s))
    (h : withStat env url file directory w = .ok outcome w') :
    outcome.Known ↔ ¬ SilentRequest env url urlDst w := by
  unfold withStat at h
  obtain ⟨real, w1, hreal, h⟩ := Program.bind_eq_ok.mp h
  by_cases hne : real = .error .enoent
  · rw [if_pos hne] at h
    obtain ⟨rfl, -⟩ := Program.pure_eq_ok.mp h
    refine iff_of_true (.inr (.inr rfl)) ?_
    rintro ⟨real', w1', statbf', w2', hreal', hne', -⟩
    cases hreal.symm.trans hreal'
    exact hne' hne
  · rw [if_neg hne] at h
    obtain ⟨statbf, w2, hstat, h⟩ := Program.bind_eq_ok.mp h
    cases statbf with
    | error errno =>
      obtain ⟨rfl, -⟩ := Program.pure_eq_ok.mp h
      refine iff_of_true (.inr (.inl rfl)) ?_
      rintro ⟨real', w1', statbf', w2', hreal', hne', hstat', -⟩
      cases hreal.symm.trans hreal'
      cases hstat.symm.trans hstat'
    | ok statbf =>
      obtain ⟨retval, w3, hretval, h⟩ := Program.bind_eq_ok.mp h
      obtain ⟨rfl, -⟩ := Program.pure_eq_ok.mp h
      rw [outcome_known]
      by_cases hdirectory : statbf.directory = true
      · rw [if_pos hdirectory] at hretval
        refine iff_of_true (hdir _ _ _ _ hretval) ?_
        rintro ⟨real', w1', statbf', w2', hreal', hne', hstat', hdirectory', -⟩
        cases hreal.symm.trans hreal'
        cases hstat.symm.trans hstat'
        cases hdirectory.symm.trans hdirectory'
      · rw [if_neg hdirectory] at hretval
        rw [hfile _ _ _ _ hretval]
        refine not_congr ⟨fun hsilent => ?_, ?_⟩
        · exact ⟨real, w1, statbf, w2, hreal, hne, hstat, Bool.not_eq_true _ ▸ hdirectory, hsilent⟩
        · rintro ⟨real', w1', statbf', w2', hreal', -, hstat', -, hsilent⟩
          cases hreal.symm.trans hreal'
          cases hstat.symm.trans hstat'
          exact hsilent

theorem withStat_returns (hfile : ∀ path s, ∃ r s', file path s = .ok r s')
    (hdir : ∀ real w1 s, env.realpath url w = .ok real w1 → s.volume = w.volume →
      ∃ r s', directory (realOr real url) s = .ok r s') :
    ∃ outcome w', withStat env url file directory w = .ok outcome w' := by
  obtain ⟨real, hreal⟩ := env.realpath_returns url w
  obtain ⟨statbf, hstat⟩ := env.stat_returns (realOr real url) w.tick
  unfold withStat
  rw [Program.bind_ok hreal]
  by_cases hne : real = .error .enoent
  · rw [if_pos hne]
    exact ⟨_, _, rfl⟩
  · rw [if_neg hne, Program.bind_ok hstat]
    cases statbf with
    | error errno => exact ⟨_, _, rfl⟩
    | ok statbf =>
      dsimp only
      by_cases hdirectory : statbf.directory = true
      · obtain ⟨r, s', hrun⟩ := hdir real w.tick w.tick.tick hreal rfl
        rw [if_pos hdirectory, Program.bind_ok hrun]
        exact ⟨_, _, rfl⟩
      · obtain ⟨r, s', hrun⟩ := hfile (realOr real url) w.tick.tick
        rw [if_neg hdirectory, Program.bind_ok hrun]
        exact ⟨_, _, rfl⟩

end

theorem fileCopy_known {r : Int} (h : fileCopy env srcPath dstPath w = .ok r w') :
    Known r ↔ ¬ SilentCopy env srcPath dstPath w := by
  rw [← fileCopy_one_iff h]
  rcases (fileCopy_returns srcPath dstPath (E := fun _ _ => True)).of_ok trivial h with rfl | rfl | rfl
  · exact iff_of_true (.inl rfl) (by decide)
  · exact iff_of_true (.inr (.inl rfl)) (by decide)
  · refine iff_of_false ?_ (not_not_intro rfl)
    unfold Known
    decide

theorem answered_iff_of_known {exec : Run Outcome} {failed : String} {obj : Option α}
    (hreturns : ∃ outcome w', exec w = .ok outcome w') {p : Prop}
    (hknown : ∀ outcome w', exec w = .ok outcome w' → (outcome.Known ↔ p)) :
    Answered exec (fun outcome => answerOutcome failed allGiven outcome obj) w ↔ p := by
  obtain ⟨outcome, w', hrun⟩ := hreturns
  rw [← hknown outcome w' hrun]
  constructor
  · rintro ⟨outcome', w'', hrun', hanswers⟩
    cases hrun.symm.trans hrun'
    exact (answerOutcome_iff _ _ _).mp hanswers
  · exact fun h => ⟨outcome, w', hrun, (answerOutcome_iff _ _ _).mpr h⟩

theorem fileCopy_total (env : Env) (srcPath dstPath : PathName) (w : World) :
    ∃ r w', fileCopy env srcPath dstPath w = .ok r w' := by
  obtain ⟨r, w', hrun, -⟩ := (fileCopy_returns srcPath dstPath).exists_ok (s := w) trivial
  exact ⟨r, w', hrun⟩

theorem copyExec_total (env : Env) (url urlDst : PathName) (w : World) :
    ∃ outcome w', copyExec env url urlDst w = .ok outcome w' := by
  refine withStat_returns (fun path s => fileCopy_total env path urlDst s) fun real w1 s _ _ => ?_
  obtain ⟨r, s', hrun, -⟩ := (dirCopy_known _ urlDst).exists_ok (s := s) trivial
  exact ⟨r, s', hrun⟩

theorem copyExec_answered (env : Env) (url urlDst originDst : PathName) (w : World) :
    Answered (copyExec env url urlDst) (copyComp allGiven originDst) w ↔
      ¬ SilentRequest env url urlDst w := by
  refine answered_iff_of_known (copyExec_total env url urlDst w) fun outcome w' hrun => ?_
  exact withStat_known (fun path s r s' h => (dirCopy_known path urlDst).of_ok trivial h)
    (fun path s r s' h => fileCopy_known h) hrun

theorem fileMove_result {path : PathName} {r : Int} (h : fileMove env path urlDst w = .ok r w') :
    ∃ w1, fileCopy env path urlDst w = .ok r w1 := by
  unfold fileMove at h
  obtain ⟨retval, w1, hcopy, h⟩ := Program.bind_eq_ok.mp h
  refine ⟨w1, ?_⟩
  by_cases hr : retval = SUCCESS
  · rw [if_pos hr] at h
    obtain ⟨u, w2, -, h⟩ := Program.bind_eq_ok.mp h
    rw [hcopy, (Program.pure_eq_ok.mp h).1]
  · rw [if_neg hr] at h
    rw [hcopy, (Program.pure_eq_ok.mp h).1]

theorem fileMove_total (env : Env) (path urlDst : PathName) (w : World) :
    ∃ r w', fileMove env path urlDst w = .ok r w' := by
  obtain ⟨r, w1, hcopy⟩ := fileCopy_total env path urlDst w
  have hremove : Triple (fun _ => True) (env.remove path) (fun _ _ => True) fun _ _ => False :=
    Env.onPath_returns
  unfold fileMove
  rw [Program.bind_ok hcopy]
  by_cases hr : r = SUCCESS
  · obtain ⟨u, w2, hrun, -⟩ := hremove.exists_ok (s := w1) trivial
    rw [if_pos hr, Program.bind_ok hrun]
    exact ⟨r, w2, rfl⟩
  · rw [if_neg hr]
    exact ⟨r, w1, rfl⟩

theorem moveExec_total (env : Env) (url urlDst : PathName) (w : World) :
    ∃ fuel, ∀ fuel' ≥ fuel, ∃ outcome w', moveExec env fuel' url urlDst w = .ok outcome w' := by
  obtain ⟨real, hreal⟩ := env.realpath_returns url w
  obtain ⟨more, fuel, hfuel⟩ := exists_shallow env w.volume (realOr real url)
  refine ⟨fuel, fun fuel' hfuel' => ?_⟩
  obtain ⟨hpos, hshallow⟩ := hfuel fuel' hfuel'
  refine withStat_returns (fun path s => fileMove_total env path urlDst s) fun real' w1 s hreal' hs => ?_
  cases hreal.symm.trans hreal'
  have hlinks : Links w.volume s := by
    rw [Links, hs]
    exact .refl _
  obtain ⟨r, s', hrun, -⟩ :=
    (dirMove_links env w.volume more fuel' hpos _ urlDst hshallow).exists_ok hlinks
  exact ⟨r, s', hrun⟩

theorem moveExec_answered (env : Env) (url urlDst originDst : PathName) (w : World) :
    ∃ fuel, ∀ fuel' ≥ fuel, (Answered (moveExec env fuel' url urlDst)
      (moveComp allGiven originDst) w ↔ ¬ SilentRequest env url urlDst w) := by
  obtain ⟨fuel, hfuel⟩ := moveExec_total env url urlDst w
  refine ⟨fuel, fun fuel' hfuel' => ?_⟩
  refine answered_iff_of_known (hfuel fuel' hfuel') fun outcome w' hrun => ?_
  refine withStat_known (fun path s r s' h => (dirMove_known fuel' path urlDst).of_ok trivial h)
    (fun path s r s' h => ?_) hrun
  obtain ⟨s1, hcopy⟩ := fileMove_result h
  exact fileCopy_known hcopy

/-! ## Delete, list and write -/

theorem deleteExec_answered (env : Env) (url : PathName) (w : World) :
    Answered (deleteExec env url) (deleteComp allGiven) w := by
  have hpure : ∀ outcome : Outcome, outcome.Known → Triple (fun _ => True)
      (pure outcome : Run Outcome) (fun a _ => AnswersOnce (deleteComp allGiven a)) fun _ _ => False :=
    fun outcome h => Triple.pure fun _ _ => (answerOutcome_iff _ _ _).mpr h
  refine answered_of_triple ?_ w
  unfold deleteExec
  refine Triple.bind Env.onPath_returns fun statPath => ?_
  split
  · exact hpure _ (.inr (.inr rfl))
  · exact hpure _ (.inr (.inl rfl))
  · refine Triple.bind Env.onPath_returns fun removed => ?_
    cases removed with
    | ok u => exact hpure _ (.inl rfl)
    | error errno => exact hpure _ (.inr (.inl rfl))

theorem listComp_known (originUri : PathName) {info : Listing} (h : info.outcome.Known) :
    AnswersOnce (listComp allGiven originUri info) := by
  unfold listComp
  by_cases hresult : info.outcome.result = SUCCESS
  · rw [if_pos hresult]
    exact .inl ⟨_, rfl⟩
  · rw [if_neg hresult]
    rcases h with h | h | h
    · exact absurd h hresult
    · rw [if_neg (by rw [h]; decide), if_pos h]
      exact .inr ⟨_, _, rfl⟩
    · rw [if_pos h]
      exact .inr ⟨_, _, rfl⟩

theorem statAll_returns (i : Nat) (fileNames : List PathName) :
    Triple (fun _ => True) (statAll env i fileNames) (fun _ _ => True) E := by
  induction fileNames generalizing i with
  | nil => exact Triple.pure fun _ _ => trivial
  | cons ph fileNames ih =>
    exact Triple.bind Env.onPath_returns fun r =>
      Triple.bind (ih (i + 1)) fun rest => Triple.pure fun _ _ => trivial

theorem listExec_answered (env : Env) (url originUri : PathName) (w : World) :
    Answered (listExec env url) (listComp allGiven originUri) w := by
  have hpure : ∀ info : Listing, info.outcome.Known → Triple (fun _ => True)
      (pure info : Run Listing) (fun a _ => AnswersOnce (listComp allGiven originUri a))
        fun _ _ => False :=
    fun info h => Triple.pure fun _ _ => listComp_known originUri h
  refine answered_of_triple ?_ w
  unfold listExec
  refine Triple.bind Env.onPath_returns fun statPath => ?_
  split
  · exact hpure _ (.inr (.inr rfl))
  · exact hpure _ (.inr (.inl rfl))
  · refine Triple.bind Env.onPath_returns fun buf => ?_
    cases buf with
    | error errno => exact hpure _ (.inr (.inl rfl))
    | ok buf =>
      refine Triple.ite (hpure _ (.inl rfl)) (Triple.bind Env.onPath_returns fun listed => ?_)
      cases listed with
      | error errno => exact hpure _ (.inr (.inl rfl))
      | ok entries => exact Triple.bind (statAll_returns _ _) fun fileList => hpure _ (.inl rfl)

theorem answerWrite_known {outcome : Outcome}
    (h : outcome.result = SUCCESS ∨ outcome.errorType = FILE_IO_ERROR) :
    AnswersOnce (answerWrite allGiven outcome) := by
  unfold answerWrite
  by_cases hresult : outcome.result = SUCCESS
  · rw [if_pos hresult]
    exact .inl ⟨_, rfl⟩
  · rw [if_neg hresult, if_pos (h.resolve_left hresult)]
    exact .inr ⟨_, _, rfl⟩

theorem Env.write_returns {file : List PathName} {position : Option Nat} {bytes : List UInt8} :
    Triple (fun _ => True) (env.write file position bytes) (fun _ _ => True) E := by
  rw [write, onFile]
  exact onPath_returns

theorem Env.read_returns {file : List PathName} {position : Nat} {count : Int} :
    Triple (fun _ => True) (env.read file position count) (fun _ _ => True) E := by
  rw [read, onFile]
  exact onPath_returns

section

variable {position : Option Nat} {bytes : List UInt8} {append : Bool}

theorem writeFile_answers (opened : Except Errno (List PathName)) :
    Triple (fun _ => True)
      (match opened with
        | .error _ => (return {} : Run Outcome)
        | .ok fd => do
            match ← env.write fd position bytes with
            | .ok _ => return { result := SUCCESS }
            | .error _ => return {})
      (fun a _ => AnswersOnce (answerWrite allGiven a)) fun _ _ => False := by
  have hfailed : AnswersOnce (answerWrite allGiven ({} : Outcome)) := answerWrite_known (.inr rfl)
  cases opened with
  | error errno => exact Triple.pure fun _ _ => hfailed
  | ok fd =>
    refine Triple.bind Env.write_returns fun written => ?_
    cases written with
    | ok count => exact Triple.pure fun _ _ => answerWrite_known (.inl rfl)
    | error errno => exact Triple.pure fun _ _ => hfailed

theorem writeTextExec_answered (env : Env) (url text : PathName) (append : Bool) (w : World) :
    Answered (writeTextExec env url text append) (writeTextComp allGiven) w := by
  refine answered_of_triple ?_ w
  unfold writeTextExec
  refine Triple.bind Env.onPath_returns fun statPath => Triple.ite ?_ ?_
  · dsimp only
    refine Triple.ite ?_ ?_
    · exact Triple.bind Env.onPath_returns fun opened => writeFile_answers opened
    · exact Triple.bind Env.onPath_returns fun opened => writeFile_answers opened
  · exact Triple.pure fun _ _ => answerWrite_known (.inr rfl)

theorem writeArrayBufferExec_answered (env : Env) (url buf : PathName) (append : Bool)
    (position : Int) (w : World) :
    Answered (writeArrayBufferExec env url buf append position) (writeArrayBufferComp allGiven)
      w := by
  refine answered_of_triple ?_ w
  unfold writeArrayBufferExec
  refine Triple.bind Env.onPath_returns fun statPath => Triple.ite ?_ ?_
  · dsimp only
    refine Triple.ite ?_ ?_
    · exact Triple.bind Env.onPath_returns fun opened => writeFile_answers opened
    · exact Triple.bind Env.onPath_returns fun opened => writeFile_answers opened
  · exact Triple.pure fun _ _ => answerWrite_known (.inr rfl)

end

/-! ## Read -/

/-- The file is open, and there is no memory for what is asked for. -/
def NoMemory (env : Env) (url : PathName) (memory : Stat → Int) (w : World) : Prop :=
  ∃ path w1 fd w2 buf w3 w4, env.realpath url w = .ok (.ok path) w1 ∧
    env.openRead path w1 = .ok (.ok fd) w2 ∧ env.stat path w2 = .ok (.ok buf) w3 ∧
      env.makeUnique (memory buf) w3 = .error .badAlloc w4

/-- What the two reads have in common, before and after there is memory. -/
def readWith (env : Env) (url : PathName) (missing failed : α) (memory : Stat → Int)
    (rest : List PathName → Stat → Run α) : Run α := do
  match ← getRealPath env url with
  | .error .enoent => return missing
  | .error _ => return failed
  | .ok path =>
      let fdg ← env.openRead path
      let result ← env.stat path
      match fdg, result with
      | .ok fd, .ok buf =>
          env.makeUnique (memory buf)
          rest fd buf
      | _, _ => return failed

section

variable {missing failed : α} {memory : Stat → Int} {rest : List PathName → Stat → Run α}
  {comp : α → List (Answer β)}

theorem makeUnique_error {size : Int} {e : Abort} (h : env.makeUnique size w = .error e w') :
    e = .badAlloc := by
  unfold Env.makeUnique at h
  dsimp only at h
  split at h
  · cases h
  · cases h
    rfl

theorem readWith_answered (hmissing : AnswersOnce (comp missing)) (hfailed : AnswersOnce (comp failed))
    (hrest : ∀ fd buf, Triple (fun _ => True) (rest fd buf) (fun a _ => AnswersOnce (comp a))
      fun _ _ => False) :
    Answered (readWith env url missing failed memory rest) comp w ↔ ¬ NoMemory env url memory w := by
  constructor
  · rintro ⟨a, w', hrun, -⟩ ⟨path, w1, fd, w2, buf, w3, w4, hreal, hopen, hstat, halloc⟩
    have hthrown : readWith env url missing failed memory rest w = .error .badAlloc w4 := by
      unfold readWith
      rw [Program.bind_ok hreal]
      dsimp only
      rw [Program.bind_ok hopen, Program.bind_ok hstat]
      dsimp only
      rw [Program.bind_run, halloc]
    cases hrun.symm.trans hthrown
  · intro hmemory
    obtain ⟨real, hreal⟩ := env.realpath_returns url w
    unfold Answered readWith
    rw [Program.bind_ok hreal]
    split
    · exact ⟨missing, _, rfl, hmissing⟩
    · exact ⟨failed, _, rfl, hfailed⟩
    · next path =>
      obtain ⟨fdg, hopen⟩ := env.openRead_returns path w.tick
      obtain ⟨result, hstat⟩ := env.stat_returns path w.tick.tick
      rw [Program.bind_ok hopen, Program.bind_ok hstat]
      split
      · next fd buf =>
        cases halloc : env.makeUnique (memory buf) w.tick.tick.tick with
        | error e s =>
          cases makeUnique_error halloc
          exact absurd ⟨path, _, fd, _, buf, _, s, hreal, hopen, hstat, halloc⟩ hmemory
        | ok u s =>
          rw [Program.bind_ok halloc]
          exact (hrest fd buf).exists_ok trivial
      · exact ⟨failed, _, rfl, hfailed⟩

end

/-- Memory of a text: its size, and a zero. -/
def textMemory (buf : Stat) : Int := buf.size + 1

/-- Memory of a buffer: an `int32_t`. -/
def bufferMemory (position length : Int) (buf : Stat) : Int :=
  int32 (readLen buf.size position length + 1)

theorem readTextExec_answered (env : Env) (url : PathName) (w : World) :
    Answered (readTextExec env url) (readTextComp allGiven) w ↔ ¬ NoMemory env url textMemory w := by
  refine readWith_answered ?_ ?_ fun fd buf => ?_
  · exact (answerOutcome_iff _ _ _).mpr (.inr (.inr rfl))
  · exact (answerOutcome_iff _ _ _).mpr (.inr (.inl rfl))
  · refine Triple.bind Env.read_returns fun got => ?_
    cases got with
    | ok bytes => exact Triple.pure fun _ _ => (answerOutcome_iff _ _ _).mpr (.inl rfl)
    | error errno => exact Triple.pure fun _ _ => (answerOutcome_iff _ _ _).mpr (.inr (.inl rfl))

theorem readArrayBufferExec_answered (env : Env) (build : Build) (url : PathName)
    (position length : Int) (w : World) :
    Answered (readArrayBufferExec env build url position length)
      (readArrayBufferComp build allGiven) w ↔ ¬ NoMemory env url (bufferMemory position length) w := by
  refine readWith_answered ?_ ?_ fun fd buf => ?_
  · exact (answerOutcome_iff _ _ _).mpr (.inr (.inr rfl))
  · exact (answerOutcome_iff _ _ _).mpr (.inr (.inl rfl))
  · refine Triple.bind Env.read_returns fun got => ?_
    cases got with
    | ok bytes => exact Triple.pure fun _ _ => (answerOutcome_iff _ _ _).mpr (.inl rfl)
    | error errno => exact Triple.pure fun _ _ => (answerOutcome_iff _ _ _).mpr (.inr (.inl rfl))

/-! ## All requests -/

/-- Deleting, listing and writing are always answered; copying and moving exactly if `FileCopy` does
not return 1, and reading exactly if there is memory for what is asked for. -/
theorem requests_answered (env : Env) (w : World) (url : PathName) :
    (∀ urlDst originDst, Answered (copyExec env url urlDst) (copyComp allGiven originDst) w ↔
        ¬ SilentRequest env url urlDst w) ∧
      (∀ urlDst originDst, ∃ fuel, ∀ fuel' ≥ fuel,
        (Answered (moveExec env fuel' url urlDst) (moveComp allGiven originDst) w ↔
          ¬ SilentRequest env url urlDst w)) ∧
      Answered (deleteExec env url) (deleteComp allGiven) w ∧
      (∀ originUri, Answered (listExec env url) (listComp allGiven originUri) w) ∧
      (∀ text append, Answered (writeTextExec env url text append) (writeTextComp allGiven) w) ∧
      (∀ buf append position, Answered (writeArrayBufferExec env url buf append position)
        (writeArrayBufferComp allGiven) w) ∧
      (Answered (readTextExec env url) (readTextComp allGiven) w ↔
        ¬ NoMemory env url textMemory w) ∧
      (∀ build position length, Answered (readArrayBufferExec env build url position length)
        (readArrayBufferComp build allGiven) w ↔
          ¬ NoMemory env url (bufferMemory position length) w) := by
  refine ⟨fun urlDst originDst => ?_, fun urlDst originDst => ?_, ?_, fun originUri => ?_,
    fun text append => ?_, fun buf append position => ?_, ?_, fun build position length => ?_⟩
  · exact copyExec_answered env url urlDst originDst w
  · exact moveExec_answered env url urlDst originDst w
  · exact deleteExec_answered env url w
  · exact listExec_answered env url originUri w
  · exact writeTextExec_answered env url text append w
  · exact writeArrayBufferExec_answered env url buf append position w
  · exact readTextExec_answered env url w
  · exact readArrayBufferExec_answered env build url position length w

/-- There is no space for what is sent. -/
def noSpace : Env where
  fails := fun _ call _ => if call = .sendfile then some (.other 28) else none

/-- A file that cannot be copied: only the complete callback is called. -/
theorem copy_silent :
    ¬ Answered (copyExec noSpace (ascii "/f") (ascii "/g")) (copyComp allGiven (ascii "/g"))
      (oneFile [1]) := by
  have hrun : ∃ w', copyExec noSpace (ascii "/f") (ascii "/g") (oneFile [1]) =
      .ok { errorType := 1 } w' := ⟨_, rfl⟩
  obtain ⟨w', hrun⟩ := hrun
  rintro ⟨outcome, w'', hrun', hanswers⟩
  cases hrun.symm.trans hrun'
  rw [copyComp, answerOutcome_iff] at hanswers
  revert hanswers
  unfold Outcome.Known
  decide

end FileApi.ModFile
