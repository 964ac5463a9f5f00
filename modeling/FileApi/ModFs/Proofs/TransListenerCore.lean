import FileApi.ModFs.TransListenerCore

/-!
# What a remote copy leaves behind

The calls that end a copy drop the callback before they say so, and the directory of the copy is
removed on every way behind `PrepareSession`. What is copied out of it lands at places of its own, so
each file is either copied or not newer than what is there.
-/

namespace FileApi.ModFs.TransListenerCore

open Compress Machine

variable {args : CopyArgs} {env : CopyEnv} {t t' : Target} {place : List PathName} {file : TimedFile}
  {entry entry' : List PathName × TimedNode} {entries : List (List PathName × TimedNode)}

/-! ## What is copied -/

/-- A file has been copied to a place, or there was one that is not older, which is there still. -/
def Arrived (t t' : Target) (place : List PathName) (file : TimedFile) : Prop :=
  (∃ time, t' place = some (.file ⟨file.bytes, time⟩)) ∨
    ∃ old, t place = some (.file old) ∧ file.time ≤ old.time ∧ t' place = some (.file old)

/-- Where a file goes to: its place, or under its name into the directory that is there. -/
def landing (t : Target) (place : List PathName) : List PathName :=
  if t place = some .directory then place.headD [] :: place else place

theorem write_ok {node : TimedNode} (h : write env place node t = .ok () t') :
    t' = Function.update t place (some node) := by
  unfold write at h
  split at h
  · cases h
  · cases h
    rfl

theorem copyFile_ok (h : copyFile env place file t = .ok () t') :
    Arrived t t' place file ∧ ∀ q, q ≠ place → t' q = t q := by
  unfold copyFile at h
  rw [Program.get_bind_run] at h
  have hwrite : ∀ {node : TimedNode}, write env place node t = .ok () t' →
      t' place = some node ∧ ∀ q, q ≠ place → t' q = t q := by
    intro node hwrite
    rw [write_ok hwrite]
    exact ⟨Function.update_self _ _ _, fun q hq => Function.update_of_ne hq _ _⟩
  cases hnode : t place with
  | none =>
    rw [hnode] at h
    obtain ⟨hnew, hother⟩ := hwrite h
    exact ⟨.inl ⟨_, hnew⟩, hother⟩
  | some node =>
    rw [hnode] at h
    cases node with
    | directory => cases h
    | file old =>
      dsimp only at h
      split at h
      · obtain ⟨hnew, hother⟩ := hwrite h
        exact ⟨.inl ⟨_, hnew⟩, hother⟩
      · next hnewer =>
        cases h
        exact ⟨.inr ⟨old, hnode, not_lt.mp hnewer, hnode⟩, fun q _ => rfl⟩

/-- The places that an entry may be copied to. -/
def Touches (entry : List PathName × TimedNode) (q : List PathName) : Prop :=
  q = entry.1 ∨ (∃ file, entry.2 = .file file) ∧ q = entry.1.headD [] :: entry.1

theorem touches_landing (t : Target) (place : List PathName) (file : TimedFile) :
    Touches (place, .file file) (landing t place) := by
  unfold landing
  split
  · exact .inr ⟨⟨file, rfl⟩, rfl⟩
  · exact .inl rfl

theorem copyEntry_file (h : copyEntry env (place, .file file) t = .ok () t') :
    Arrived t t' (landing t place) file ∧ ∀ q, q ≠ landing t place → t' q = t q := by
  unfold copyEntry at h
  rw [Program.get_bind_run] at h
  unfold landing
  cases hnode : t place with
  | none =>
    rw [hnode] at h
    exact copyFile_ok h
  | some node =>
    cases node with
    | directory =>
      rw [hnode] at h
      rw [if_pos rfl]
      exact copyFile_ok h
    | file old =>
      rw [hnode] at h
      exact copyFile_ok h

theorem copyEntry_frame (h : copyEntry env entry t = .ok () t') {q : List PathName}
    (hq : ¬ Touches entry q) : t' q = t q := by
  obtain ⟨place, node⟩ := entry
  cases node with
  | file file =>
    exact (copyEntry_file h).2 q fun heq => hq (heq ▸ touches_landing t place file)
  | directory =>
    unfold copyEntry at h
    rw [Program.get_bind_run] at h
    have hne : q ≠ place := fun heq => hq (.inl heq)
    cases hnode : t place with
    | none =>
      rw [hnode] at h
      rw [write_ok h, Function.update_of_ne hne]
    | some node =>
      rw [hnode] at h
      cases node with
      | directory =>
        cases h
        rfl
      | file old => cases h

theorem copyEntries_frame (h : copyEntries env entries t = .ok () t') {q : List PathName}
    (hq : ∀ entry ∈ entries, ¬ Touches entry q) : t' q = t q := by
  induction entries generalizing t with
  | nil =>
    cases h
    rfl
  | cons entry entries ih =>
    obtain ⟨_, mid, hmid, hrest⟩ := Program.bind_eq_ok.mp h
    rw [ih hrest fun other hmem => hq other (List.mem_cons_of_mem _ hmem),
      copyEntry_frame hmid (hq entry List.mem_cons_self)]

/-- Two entries touch no place both. -/
def Apart (entry entry' : List PathName × TimedNode) : Prop := ∀ q, Touches entry q → ¬ Touches entry' q

theorem copyEntries_arrived (h : copyEntries env entries t = .ok () t')
    (hapart : entries.Pairwise Apart) (hmem : (place, .file file) ∈ entries) :
    Arrived t t' (landing t place) file := by
  induction entries generalizing t with
  | nil => cases hmem
  | cons entry entries ih =>
    obtain ⟨_, mid, hmid, hrest⟩ := Program.bind_eq_ok.mp h
    obtain ⟨hentry, hapart⟩ := List.pairwise_cons.mp hapart
    rcases List.mem_cons.mp hmem with rfl | hmem
    · have hlanding := touches_landing t place file
      have hlast : t' (landing t place) = mid (landing t place) :=
        copyEntries_frame hrest fun other hother => hentry other hother _ hlanding
      unfold Arrived
      rw [hlast]
      exact (copyEntry_file hmid).1
    · have hsame : ∀ q, Touches (place, .file file) q → mid q = t q := fun q hq =>
        copyEntry_frame hmid fun hother => hentry _ hmem q hother hq
      have hland : landing mid place = landing t place := by
        unfold landing
        rw [hsame place (.inl rfl)]
      have harrived := ih hrest hapart hmem
      rw [hland] at harrived
      unfold Arrived at harrived ⊢
      rw [hsame _ (touches_landing t place file)] at harrived
      exact harrived

theorem TempDir.apart (temp : TempDir) : temp.entries.Pairwise Apart := by
  -- what is touched beside its place is below a file, and there is nothing
  have hfile : ∀ {a b}, a ∈ temp.entries → b ∈ temp.entries → (∃ file, a.2 = .file file) →
      b.1 ≠ a.1.headD [] :: a.1 := by
    rintro ⟨place, node⟩ ⟨place', node'⟩ ha hb ⟨file, rfl⟩ rfl
    rcases temp.parent _ _ _ hb with hroot | hdir
    · exact temp.named _ ha hroot
    · exact nomatch (Prod.mk.inj (List.inj_on_of_nodup_map temp.nodup ha hdir rfl)).2
  refine (List.Nodup.of_map _ temp.nodup).pairwise_of_forall_ne fun a ha b hb hne q hqa hqb => ?_
  rcases hqa with rfl | ⟨hafile, rfl⟩
  · rcases hqb with heq | ⟨hbfile, heq⟩
    · exact hne (List.inj_on_of_nodup_map temp.nodup ha hb heq)
    · exact hfile hb ha hbfile heq
  · rcases hqb with heq | ⟨hbfile, heq⟩
    · exact hfile ha hb hafile heq.symm
    · exact hne (List.inj_on_of_nodup_map temp.nodup ha hb (List.cons.inj heq).2)

/-- What was received has arrived: below a directory every file, and otherwise the file with the name
of the source. -/
structure Settled (args : CopyArgs) (dest dest' : Target) (temp : TempDir) : Prop where
  directory : dest [] = some .directory → ∀ place file, (place, .file file) ∈ temp.entries →
    Arrived dest dest' (landing dest place) file
  file : dest [] ≠ some .directory → ∀ name file, args.fileName = slash :: name → PlainName name →
    temp.node [name] = some (.file file) → Arrived dest dest' [] file

theorem copyToSandBox_settled {temp : TempDir}
    (h : copyToSandBox env args.fileName temp t = .ok () t') : Settled args t t' temp := by
  unfold copyToSandBox at h
  rw [Program.get_bind_run] at h
  by_cases hdir : t [] = some .directory
  · rw [hdir] at h
    exact ⟨fun _ place file hmem => copyEntries_arrived h temp.apart hmem, absurd hdir⟩
  · refine ⟨fun hdir' => absurd hdir' hdir, fun _ name file hname hplain hnode => ?_⟩
    have hreceived : received env temp args.fileName = some (.file file) := by
      rw [hname, received, if_neg fun hno => hplain.1 hno.2, if_pos ⟨rfl, hplain⟩, hnode]
    have hne : args.fileName ≠ [] := by rw [hname]; nofun
    cases hthere : t [] with
    | none =>
      rw [hthere] at h
      dsimp only at h
      rw [if_neg hne, hreceived] at h
      exact (copyFile_ok h).1
    | some node =>
      rw [hthere] at h
      cases node with
      | directory => exact absurd hthere hdir
      | file old =>
        dsimp only at h
        rw [if_neg hne, hreceived] at h
        exact (copyFile_ok h).1

/-! ## The threads -/

variable {dest : Target} {found : Prop} {s s' : RemoteState}

/-- What holds of a copy: on its return the directory is gone, if `RmDir` has found it whenever it was
called and the sandbox path has a slash; the listener is told nothing after that, if `PrepareSession` did
not fail; and after a success what was received has arrived. -/
structure RemoteSafe (args : CopyArgs) (dest : Target) (found : Prop) (s : RemoteState) : Prop where
  removed : found → ∀ result, s.pc = .returned result → s.created = true →
    slash ∈ args.sandboxPath → s.tempThere = false
  quiet : s.prepareFailed = false → s.late = []
  arrived : s.pc = .returned none → ¬ args.isPublic → Settled args dest s.dest s.temp

/-- The callback is dropped, or there was no session. -/
def Dropped (s : RemoteState) : Prop :=
  s.shared = true → s.prepareFailed = true ∨ s.callback = false

/-- The daemon is done, and what it has put there has arrived. -/
def Done (args : CopyArgs) (dest : Target) (s : RemoteState) : Prop :=
  s.finished = true ∧ Settled args dest s.dest s.temp

/-- What holds where the copy stands. -/
def At (args : CopyArgs) (dest : Target) (found : Prop) (s : RemoteState) : Prop :=
  match s.pc with
  | .creating => ¬ args.isPublic ∧ s.created = false ∧ s.shared = false ∧ s.dest = dest
  | .preparing => (args.isPublic → s.created = false) ∧ s.dest = dest
  | .calling => (args.isPublic → s.created = false) ∧ s.dest = dest
  | .waiting => (args.isPublic → s.created = false) ∧ s.dest = dest
  | .copying => ¬ args.isPublic ∧ s.finished = true ∧ Dropped s ∧ s.dest = dest
  | .removing _ ending => ¬ args.isPublic ∧ Dropped s ∧ (ending = .result none → Done args dest s)
  | .returned result =>
      (found → s.created = true → slash ∈ args.sandboxPath → s.tempThere = false) ∧
      Dropped s ∧ (result = none → ¬ args.isPublic → Done args dest s)
  | .thrown => True

structure Inv (args : CopyArgs) (dest : Target) (found : Prop) (s : RemoteState) : Prop where
  here : At args dest found s
  dropped : s.calls ≠ [] ∨ s.copyEvent.copyResult ≠ .none → s.callback = false
  finished : .onFinished ∈ s.calls ∨ s.copyEvent.copyResult = .success → s.finished = true
  quiet : s.prepareFailed = false → s.late = []

theorem Inv.safe (h : Inv args dest found s) : RemoteSafe args dest found s := by
  have here := h.here
  unfold At at here
  refine ⟨fun hfound result hpc => ?_, h.quiet, fun hpc hpublic => ?_⟩
  · rw [hpc] at here
    exact here.1 hfound
  · rw [hpc] at here
    exact (here.2.2 rfl hpublic).2

theorem init_inv (args : CopyArgs) (callback : Bool) (dest : Target) :
    Inv args dest found (.init args callback dest) := by
  refine ⟨?_, by simp [RemoteState.init], by simp [RemoteState.init], fun _ => rfl⟩
  unfold RemoteState.init At
  by_cases hpublic : args.isPublic
  · rw [if_pos hpublic]
    exact ⟨fun _ => rfl, rfl⟩
  · rw [if_neg hpublic]
    exact ⟨hpublic, rfl, rfl, rfl⟩

theorem afterCopy_at {ending : Ending} (hpublic : args.isPublic → s.created = false)
    (hdropped : Dropped s) (hfailed : ending ≠ .result none) :
    At args dest found (afterCopy args ending s) := by
  unfold afterCopy
  split
  · next hyes =>
    refine ⟨fun _ hcreated => (nomatch (hpublic hyes).symm.trans hcreated), hdropped,
      fun _ hno => absurd hyes hno⟩
  · next hno => exact ⟨hno, hdropped, fun heq => absurd heq hfailed⟩

/-- A step of the copy leads from one place to another. -/
theorem copierStep_at (h : Inv args dest found s) {move : CopierMove}
    (hmove : found → move ≠ .rmDir true)
    (hstep : copierStep args s move = some s') : At args dest found s' := by
  have here := h.here
  unfold At at here
  unfold copierStep at hstep
  split at hstep
  · cases hstep
    trivial
  · next outcome hpc =>
    rw [hpc] at here
    obtain ⟨hpublic, hcreated, hshared, hdest⟩ := here
    split at hstep
    · cases hstep
      exact ⟨fun _ hno => (nomatch hcreated.symm.trans hno),
        fun hno => (nomatch hshared.symm.trans hno), nofun⟩
    · cases hstep
      exact ⟨fun hno => absurd hno hpublic, hdest⟩
    · cases hstep
      by_cases hslash : slash ∈ args.sandboxPath
      · rw [if_pos hslash]
        exact ⟨fun hno => absurd hno hpublic, hdest⟩
      · rw [if_neg hslash]
        exact ⟨fun _ _ hno => absurd hno hslash, fun hno => (nomatch hshared.symm.trans hno), nofun⟩
  · next hpc =>
    rw [hpc] at here
    cases hstep
    exact here
  · next fails hpc =>
    rw [hpc] at here
    split at hstep
    · cases hstep
      exact afterCopy_at here.1 (fun _ => .inl rfl) nofun
    · cases hstep
      exact here
  · next hpc =>
    rw [hpc] at here
    split at hstep
    · cases hstep
    · next hresult =>
      cases hstep
      exact afterCopy_at here.1 (fun _ => .inr (h.dropped (.inr (by rw [hresult]; nofun)))) nofun
    · next hresult =>
      have hdropped : Dropped s := fun _ => .inr (h.dropped (.inr (by rw [hresult]; nofun)))
      split at hstep
      · next hpublic =>
        cases hstep
        exact ⟨fun _ hcreated => (nomatch (here.1 hpublic).symm.trans hcreated), hdropped,
          fun _ hno => absurd hpublic hno⟩
      · next hpublic =>
        cases hstep
        exact ⟨hpublic, h.finished (.inr hresult), hdropped, here.2⟩
  · cases hstep
    trivial
  · next env hpc =>
    rw [hpc] at here
    obtain ⟨hpublic, hfinished, hdropped, hdest⟩ := here
    split at hstep
    · next hcopy =>
      cases hstep
      refine ⟨hpublic, hdropped, fun _ => ⟨hfinished, ?_⟩⟩
      rw [hdest] at hcopy
      exact copyToSandBox_settled hcopy
    · cases hstep
      exact ⟨hpublic, hdropped, nofun⟩
  · next more ending existsFails hpc =>
    rw [hpc] at here
    obtain ⟨hpublic, hdropped, hdone⟩ := here
    have hgone : found → (existsFails && s.tempThere) = false := by
      intro hfound
      cases existsFails with
      | false => rfl
      | true => exact absurd rfl (hmove hfound)
    dsimp only at hstep
    split at hstep
    · cases hstep
      exact ⟨hpublic, hdropped, hdone⟩
    · cases hstep
      exact ⟨fun hfound _ _ => hgone hfound, hdropped, nofun⟩
    · cases hstep
      exact ⟨fun hfound _ _ => hgone hfound, hdropped,
        fun hresult _ => hdone (congrArg _ hresult)⟩
  · cases hstep

theorem copierStep_frame {move : CopierMove} (hstep : copierStep args s move = some s') :
    s'.calls = s.calls ∧ s'.copyEvent = s.copyEvent ∧ s'.callback = s.callback ∧
      s'.finished = s.finished ∧ s'.late = s.late ∧
      (s'.prepareFailed = false → s.prepareFailed = false) := by
  unfold copierStep afterCopy at hstep
  dsimp only at hstep
  repeat' split at hstep
  all_goals cases hstep
  all_goals first
    | exact ⟨rfl, rfl, rfl, rfl, rfl, id⟩
    | exact ⟨rfl, rfl, rfl, rfl, rfl, nofun⟩

theorem copierStep_inv (h : Inv args dest found s) {move : CopierMove}
    (hmove : found → move ≠ .rmDir true)
    (hstep : copierStep args s move = some s') : Inv args dest found s' := by
  obtain ⟨hcalls, hevent, hcallback, hfinished, hlate, hprepared⟩ := copierStep_frame hstep
  refine ⟨copierStep_at h hmove hstep, ?_, ?_, ?_⟩
  · rw [hcalls, hevent, hcallback]
    exact h.dropped
  · rw [hcalls, hevent, hfinished]
    exact h.finished
  · rw [hlate]
    exact fun hno => h.quiet (hprepared hno)

theorem At.daemon (h : At args dest found s) {temp : TempDir} {callback finished : Bool}
    (hcallback : s.callback = false → callback = false)
    (hfinished : s.finished = true → finished = true ∧ temp = s.temp) (copyEvent : CopyEvent)
    (calls : List EndCall) (told late : List (Nat × Nat)) :
    At args dest found { s with
      temp := temp, callback := callback, finished := finished, copyEvent := copyEvent
      calls := calls, told := told, late := late } := by
  have hdropped : Dropped s → Dropped { s with
      temp := temp, callback := callback, finished := finished, copyEvent := copyEvent
      calls := calls, told := told, late := late } :=
    fun hdropped hshared => (hdropped hshared).imp_right hcallback
  have hdone : Done args dest s → Done args dest { s with
      temp := temp, callback := callback, finished := finished, copyEvent := copyEvent
      calls := calls, told := told, late := late } := by
    rintro ⟨hyes, hsettled⟩
    obtain ⟨hyes', rfl⟩ := hfinished hyes
    exact ⟨hyes', hsettled⟩
  unfold At at h ⊢
  cases hpc : s.pc with
  | creating => rw [hpc] at h; exact h
  | preparing => rw [hpc] at h; exact h
  | calling => rw [hpc] at h; exact h
  | waiting => rw [hpc] at h; exact h
  | copying =>
    rw [hpc] at h
    exact ⟨h.1, (hfinished h.2.1).1, hdropped h.2.2.1, h.2.2.2⟩
  | removing more ending =>
    rw [hpc] at h
    exact ⟨h.1, hdropped h.2.1, fun heq => hdone (h.2.2 heq)⟩
  | returned result =>
    rw [hpc] at h
    exact ⟨h.1, hdropped h.2.1, fun heq hpublic => hdone (h.2.2 heq hpublic)⟩
  | thrown => trivial

theorem daemonStep_inv (h : Inv args dest found s) {move : DaemonMove}
    (hstep : daemonStep s move = some s') : Inv args dest found s' := by
  unfold daemonStep at hstep
  split at hstep
  · cases hstep
  · next hshared =>
    have hshared : s.shared = true := not_not.mp hshared
    cases move with
    | puts temp =>
      dsimp only at hstep
      split at hstep
      · next hput =>
        cases hstep
        exact { h with
          here := h.here.daemon id (fun hno => absurd hno hput.2) _ _ _ _ }
      · cases hstep
    | onFileReceive totalBytes processedBytes =>
      dsimp only at hstep
      split at hstep
      · cases hstep
        exact h
      · next hcallback =>
        split at hstep
        · next result hpc =>
          cases hstep
          have here := h.here
          refine { h with
            here := h.here.daemon id (fun hyes => ⟨hyes, rfl⟩) _ _ _ _
            quiet := fun hprepared => ?_ }
          unfold At at here
          rw [hpc] at here
          rcases here.2.1 hshared with hfailed | hdropped
          · exact nomatch hprepared.symm.trans hfailed
          · exact absurd hdropped (by simpa using hcallback)
        · cases hstep
          exact { h with here := h.here.daemon id (fun hyes => ⟨hyes, rfl⟩) _ _ _ _ }
    | endCall call =>
      cases hstep
      refine { h with
        here := h.here.daemon (fun _ => rfl) (fun hyes => ⟨by rw [hyes]; rfl, rfl⟩) _ _ _ _
        dropped := fun _ => rfl
        finished := ?_ }
      rintro (hmem | hresult)
      · rcases List.mem_cons.mp hmem with heq | hmem
        · simp [← heq]
        · rw [h.finished (.inl hmem)]
          rfl
      · rw [h.finished (.inr hresult)]
        rfl
    | notify call =>
      dsimp only at hstep
      split at hstep
      · next hmem =>
        cases hstep
        have hcallback := h.dropped (.inl (List.ne_nil_of_mem hmem))
        refine { h with
          here := h.here.daemon id (fun hyes => ⟨hyes, rfl⟩) _ _ _ _
          dropped := fun _ => hcallback
          finished := ?_ }
        rintro (hcall | hresult)
        · exact h.finished (.inl (List.mem_of_mem_erase hcall))
        · cases call with
          | onFinished => exact h.finished (.inl hmem)
          | onFailed errorCode => cases hresult
      · cases hstep

/-- A remote copy is safe whatever the daemon calls, and in whatever order. -/
theorem copyFileFromSoftBus_safe {callback : Bool} {actions : List RemoteAction}
    (hrun : run (remoteStep args) (.init args callback dest) actions = some s) :
    RemoteSafe args dest (.copier (.rmDir true) ∉ actions) s := by
  have hok : StepsOk (remoteStep args)
      (fun _ action => .copier (.rmDir true) ∉ actions → action ≠ .copier (.rmDir true))
      (.init args callback dest) actions := by
    refine stepsOk_of_forall (fun action hmem _ hfound heq => ?_) _
    rw [heq] at hmem
    exact hfound hmem
  refine (run_invariant (fun s action s' hs hne hstep => ?_) (init_inv args callback dest) hok
    hrun).safe
  cases action with
  | copier move => exact copierStep_inv hs (fun hfound heq => hne hfound (congrArg _ heq)) hstep
  | daemon move => exact daemonStep_inv hs hstep

/-! ### One file that is received -/

/-- The file `/s` is received, and the sandbox path is `/d`. -/
def oneFileArgs : CopyArgs := ⟨[0x61], [slash, 0x64], [slash, 0x73], id⟩

/-- A file of two bytes that was written at five. -/
def oneFile : TempDir :=
  ⟨[([[0x73]], .file ⟨[0x68, 0x69], 5⟩)], by decide, by decide, fun name dir node hmem => by
    simp only [List.mem_singleton, Prod.mk.injEq, List.cons.injEq] at hmem
    exact .inl hmem.1.2⟩

/-- The daemon says what it has done, puts the file there and ends the copy. -/
def receives (temp : TempDir) : List RemoteAction :=
  [.copier (.createDirectory .created), .copier .prepareSession, .copier (.prepared false),
    .daemon (.onFileReceive 2 1), .daemon (.puts temp), .daemon (.endCall .onFinished),
    .daemon (.notify .onFinished), .copier .wakes, .copier (.copyToSandBox {}),
    .copier (.rmDir false), .daemon (.onFileReceive 2 2)]

def oneFileActions : List RemoteAction := receives oneFile

theorem copyFileFromSoftBus_safe_oneFile :
    ∃ s, run (remoteStep oneFileArgs) (.init oneFileArgs true fun _ => none) oneFileActions = some s ∧
      s.pc = .returned none ∧ s.tempThere = false ∧ s.told = [(1, 2)] ∧ s.late = [] ∧
      s.dest [] = some (.file ⟨[0x68, 0x69], 0⟩) ∧
      RemoteSafe oneFileArgs (fun _ => none) (.copier (.rmDir true) ∉ oneFileActions) s := by
  obtain ⟨s, hrun, hpc, htemp, htold, hlate, hdest⟩ : ∃ s,
      run (remoteStep oneFileArgs) (.init oneFileArgs true fun _ => none) oneFileActions = some s ∧
      s.pc = .returned none ∧ s.tempThere = false ∧ s.told = [(1, 2)] ∧ s.late = [] ∧
      s.dest [] = some (.file ⟨[0x68, 0x69], 0⟩) := ⟨_, rfl, rfl, rfl, rfl, rfl, rfl⟩
  exact ⟨s, hrun, hpc, htemp, htold, hlate, hdest,
    copyFileFromSoftBus_safe hrun⟩

/-- A second file that is received, and an empty directory with the name of the source. -/
def twoFiles : TempDir :=
  ⟨[([[0x73]], .file ⟨[0x68, 0x69], 5⟩), ([[0x74]], .file ⟨[0x6f], 5⟩)], by decide, by decide,
    fun name dir node hmem => by simp at hmem; exact .inl (by tauto)⟩

def oneDirectory : TempDir :=
  ⟨[([[0x73]], .directory)], by decide, by decide, fun name dir node hmem => by
    simp only [List.mem_singleton, Prod.mk.injEq, List.cons.injEq] at hmem
    exact .inl hmem.1.2⟩

/-- Where a file that was written at nine is at the sandbox path, the copy of the one that was received
succeeds without it; a second file, or a directory, is not copied where there is no directory at the
sandbox path; without a slash in the sandbox path the directory stays; and after a `PrepareSession` that
fails the listener is told something still. -/
theorem copyFileFromSoftBus_not_safe :
    (∃ s, run (remoteStep oneFileArgs)
        (.init oneFileArgs true fun place => if place = [] then some (.file ⟨[], 9⟩) else none)
        oneFileActions = some s ∧
      s.pc = .returned none ∧ s.temp.node [[0x73]] = some (.file ⟨[0x68, 0x69], 5⟩) ∧
      s.dest [] = some (.file ⟨[], 9⟩)) ∧
    (∃ s, run (remoteStep oneFileArgs) (.init oneFileArgs true fun _ => none) (receives twoFiles) =
        some s ∧ s.pc = .returned none ∧ s.temp.node [[0x74]] = some (.file ⟨[0x6f], 5⟩) ∧
      ∀ place time, s.dest place ≠ some (.file ⟨[0x6f], time⟩)) ∧
    (∃ s, run (remoteStep oneFileArgs) (.init oneFileArgs true fun _ => none)
        (receives oneDirectory) = some s ∧ s.pc = .returned none ∧ ∀ place, s.dest place = none) ∧
    (∃ s, run (remoteStep ⟨[0x61], [], [slash, 0x73], id⟩)
        (.init ⟨[0x61], [], [slash, 0x73], id⟩ true fun _ => none)
        [.copier (.createDirectory .created)] = some s ∧
      s.pc = .returned (some .eio) ∧ s.created = true ∧ s.tempThere = true) ∧
    ∃ s, run (remoteStep oneFileArgs) (.init oneFileArgs true fun _ => none)
        [.copier (.createDirectory .created), .copier .prepareSession, .copier (.prepared true),
          .copier (.rmDir false), .daemon (.onFileReceive 2 1)] = some s ∧
      s.pc = .returned (some .eio) ∧ s.late = [(1, 2)] :=
  ⟨⟨_, rfl, rfl, rfl, rfl⟩,
    ⟨_, rfl, rfl, rfl, fun place time => by
      show (Function.update (fun _ => none) [] _ : Target) place ≠ _
      unfold Function.update
      split <;> simp⟩,
    ⟨_, rfl, rfl, fun place => rfl⟩, ⟨_, rfl, rfl, rfl, rfl⟩, _, rfl, rfl, rfl⟩

end FileApi.ModFs.TransListenerCore
