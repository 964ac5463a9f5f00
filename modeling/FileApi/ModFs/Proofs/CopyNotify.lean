import FileApi.ModFs.CopyNotify

/-!
# Who closes the notify descriptors

The descriptors go through four stages: there are none yet, both threads work with them, one of the
threads is closing them, they are closed. What the notify thread may have its hands on is bounded in
every stage, and each stage is left through one step only.
-/

namespace FileApi.ModFs

open Machine

/-! ## The descriptors -/

/-- Both descriptors are open, and none was closed. -/
structure CopyState.Held (s : CopyState) (n e : Nat) : Prop where
  ne : n ≠ e
  notifyFd : s.callback.notifyFd = some n
  eventFd : s.callback.eventFd = some e
  opened : s.opened = [e, n]
  closes : s.closes = []

variable {s t : CopyState}

theorem CopyState.Held.keep {n e : Nat} (h : s.Held n e)
    (hnotifyFd : t.callback.notifyFd = s.callback.notifyFd)
    (heventFd : t.callback.eventFd = s.callback.eventFd) (hopened : t.opened = s.opened)
    (hcloses : t.closes = s.closes) : t.Held n e :=
  ⟨h.ne, hnotifyFd.trans h.notifyFd, heventFd.trans h.eventFd, hopened.trans h.opened,
    hcloses.trans h.closes⟩

/-- No descriptor is open, and none was closed twice. -/
structure CopyState.Empty (s : CopyState) : Prop where
  notifyFd : s.callback.notifyFd = none
  eventFd : s.callback.eventFd = none
  infos : s.infos.notifyFd = none
  opened : s.opened = []
  closes : s.closes.Nodup

/-- The notify thread is between its two sections of `ReadNotifyEventLocked`. -/
def NotifierPc.inReading : NotifierPc → Bool
  | .readRun | .fetch | .call _ | .reading _ | .handle | .leave => true
  | _ => false

/-- The notify thread is not closing, and reads no descriptor but `readable`. -/
structure CopyState.Reads (s : CopyState) (readable : Option Nat) : Prop where
  notClosing : ∀ step, s.notifier ≠ .closing step
  unlocked : s.locked = false
  reading : s.callback.reading = s.notifier.inReading
  call : ∀ fd, s.notifier = .call (some fd) → readable = some fd
  read : ∀ fd, s.notifier = .reading (some fd) → readable = some fd

variable {readable : Option Nat}

theorem CopyState.Reads.keep (h : s.Reads readable) (hnotifier : t.notifier = s.notifier)
    (hlocked : t.locked = s.locked) (hreading : t.callback.reading = s.callback.reading) :
    t.Reads readable :=
  ⟨hnotifier ▸ h.notClosing, hlocked.trans h.unlocked,
    hreading.trans (h.reading.trans (by rw [hnotifier])), hnotifier ▸ h.call, hnotifier ▸ h.read⟩

theorem CopyState.Reads.idle {s : CopyState} (h : s.Reads readable)
    (hidle : s.callback.reading = false) (other : Option Nat) : s.Reads other := by
  have hzone : s.notifier.inReading = false := h.reading.symm.trans hidle
  refine ⟨h.notClosing, h.unlocked, h.reading, fun fd hpc => ?_, fun fd hpc => ?_⟩
  all_goals
    rw [hpc] at hzone
    cases hzone

/-! ## The stages -/

/-- Both threads work with the descriptors. -/
structure CopyState.Working (s : CopyState) (n e : Nat) : Prop where
  held : s.Held n e
  infos : s.infos.notifyFd = some n
  closed : s.callback.closed = false
  reads : s.Reads (some n)

/-- The copying thread is in `CloseNotifyFd`, in front of `step`. -/
structure CopyState.CopierCloses (s : CopyState) (n e : Nat) (step : CloseStep) : Prop where
  held : s.Held n e
  infos : s.infos.notifyFd = if step = .closeFd then none else some n
  closed : s.callback.closed = true ↔ step = .reset
  quiet : step = .reset → s.callback.reading = false
  reads : s.Reads none

/-- Closing is left to the notify thread, which is reading. -/
structure CopyState.Deferred (s : CopyState) (n e : Nat) : Prop where
  held : s.Held n e
  infos : s.infos.notifyFd = some n
  closed : s.callback.closed = true
  reading : s.callback.reading = true
  reads : s.Reads (some n)

/-- The notify thread is in `CloseNotifyFd`. -/
structure CopyState.NotifierCloses (s : CopyState) (n e : Nat) (step : CloseStep) : Prop where
  held : s.Held n e
  notifier : s.notifier = .closing step
  locked : s.locked = true
  reading : s.callback.reading = false
  closed : step ≠ .reset → s.callback.closed = false
  infos : step = .closeFd → s.infos.notifyFd = none

/-- There are no descriptors, and none will be opened. -/
structure CopyState.Over (s : CopyState) : Prop where
  empty : s.Empty
  reads : s.Reads none
  closed : s.notifier ≠ .notStarted → s.callback.closed = false

/-- The stage, by where the copying thread stands. -/
def CopyState.Inv (s : CopyState) : Prop :=
  match s.copier with
  | .subscribe => s.Over ∧ s.closes = [] ∧ s.callback.closed = false ∧ s.notifier = .notStarted
  | .eventfd => ∃ n, s.callback.notifyFd = none ∧ s.callback.eventFd = none ∧
      s.infos.notifyFd = some n ∧ s.opened = [n] ∧ s.closes = [] ∧ s.callback.closed = false ∧
      s.Reads none ∧ s.notifier = .notStarted
  | .addWatch => ∃ n e, s.Working n e ∧ s.notifier = .notStarted
  | .copying => ∃ n e, s.Working n e
  | .locking last => (∃ n e, s.Working n e ∧ (last = false → s.notifier = .notStarted)) ∨
      last = true ∧ s.Over ∧ s.notifier = .notStarted
  | .closing last step =>
      (∃ n e, s.CopierCloses n e step ∧ (last = false → s.notifier = .notStarted)) ∨
      last = true ∧ s.Over ∧ s.notifier = .notStarted
  | .stop | .join => s.Over ∨ ∃ n e, s.Deferred n e ∨ ∃ step, s.NotifierCloses n e step
  | .returned => s.Over

/-! ## A step of the notify thread -/

/-- What the notify thread leaves alone outside `CloseNotifyFd`. -/
structure CopyState.Kept (s t : CopyState) : Prop where
  copier : t.copier = s.copier
  notifyFd : t.callback.notifyFd = s.callback.notifyFd
  eventFd : t.callback.eventFd = s.callback.eventFd
  infos : t.infos.notifyFd = s.infos.notifyFd
  opened : t.opened = s.opened
  closes : t.closes = s.closes
  closed : t.callback.closed = s.callback.closed
  started : s.notifier ≠ .notStarted

theorem CopyState.Kept.held {n e : Nat} (hkept : s.Kept t) (h : s.Held n e) :
    t.Held n e :=
  h.keep hkept.notifyFd hkept.eventFd hkept.opened hkept.closes

theorem CopyState.Kept.empty (hkept : s.Kept t) (h : s.Empty) : t.Empty :=
  ⟨hkept.notifyFd.trans h.notifyFd, hkept.eventFd.trans h.eventFd, hkept.infos.trans h.infos,
    hkept.opened.trans h.opened, hkept.closes ▸ h.closes⟩

/-- What a step of a notify thread that is not closing comes to: it goes on reading no descriptor
but `readable`, and stays in its reading if the descriptors are to be closed behind it; or it
leaves its reading to close them. -/
inductive CopyState.Moved (s t : CopyState) (readable : Option Nat) : Prop where
  | reads (reads : t.Reads readable)
      (stays : s.callback.closed = true → t.callback.reading = s.callback.reading)
  | closes (closed : s.callback.closed = true) (reading : s.callback.reading = true)
      (notifier : t.notifier = .closing .reset) (locked : t.locked = true)
      (left : t.callback.reading = false)

theorem CopyState.Reads.goto (h : s.Reads readable) (hlocked : t.locked = s.locked)
    (hreading : t.callback.reading = s.callback.reading)
    (hzone : t.notifier.inReading = s.notifier.inReading)
    (hclosing : ∀ step, t.notifier ≠ .closing step)
    (hcall : ∀ fd, t.notifier = .call (some fd) → readable = some fd)
    (hread : ∀ fd, t.notifier = .reading (some fd) → readable = some fd) : s.Moved t readable := by
  refine .reads ⟨hclosing, hlocked.trans h.unlocked, ?_, hcall, hread⟩ fun _ => hreading
  rw [hreading, hzone, h.reading]

theorem CopyState.Reads.goesOn {s : CopyState} (h : s.Reads readable) {pc : NotifierPc}
    (hfrom : s.notifier.inReading = false) (hzone : pc.inReading = false)
    (hclosing : ∀ step, pc ≠ .closing step) (goes : Bool) :
    s.Moved { s with notifier := pc.goesOn goes } readable := by
  cases goes with
  | true =>
    refine h.goto rfl rfl (by rw [hfrom]; exact hzone) hclosing (fun fd hpc => ?_) fun fd hpc => ?_
    all_goals
      change pc = _ at hpc
      rw [hpc] at hzone
      cases hzone
  | false => exact h.goto rfl rfl (by rw [hfrom]; rfl) nofun nofun nofun

theorem notifierStep_moved {move : NotifierMove} (hreads : s.Reads readable)
    (hfetch : s.notifier = .fetch → ∀ fd, s.infos.notifyFd = some fd → readable = some fd)
    (h : notifierStep s move = some t) : s.Kept t ∧ s.Moved t readable := by
  cases move with
  | polled result =>
    cases hn : s.notifier
    case poll =>
      simp only [notifierStep, hn] at h
      cases result
      all_goals
        cases h
        exact ⟨⟨rfl, rfl, rfl, rfl, rfl, rfl, rfl, by rw [hn]; nofun⟩,
          hreads.goto rfl rfl (by rw [hn]; rfl) nofun nofun nofun⟩
    all_goals simp [notifierStep, hn] at h
  | read interrupted =>
    cases hn : s.notifier
    case reading fd =>
      simp only [notifierStep, hn] at h
      cases interrupted
      all_goals
        cases h
        exact ⟨⟨rfl, rfl, rfl, rfl, rfl, rfl, rfl, by rw [hn]; nofun⟩,
          hreads.goto rfl rfl (by rw [hn]; rfl) nofun nofun nofun⟩
    all_goals simp [notifierStep, hn] at h
  | handled result =>
    cases hn : s.notifier
    case handle =>
      simp only [notifierStep, hn] at h
      cases result
      all_goals
        cases h
        exact ⟨⟨rfl, rfl, rfl, rfl, rfl, rfl, rfl, by rw [hn]; nofun⟩,
          hreads.goto rfl rfl (by rw [hn]; rfl) nofun nofun nofun⟩
    all_goals simp [notifierStep, hn] at h
  | next =>
    cases hn : s.notifier
    case checkRun | checkException | checkEventFd | checkNotifyFd =>
      simp only [notifierStep, hn] at h
      cases h
      refine ⟨⟨rfl, rfl, rfl, rfl, rfl, rfl, rfl, by rw [hn]; nofun⟩,
        hreads.goesOn (by rw [hn]; rfl) rfl ?_ _⟩
      nofun
    case wait =>
      simp only [notifierStep, hn] at h
      cases h
      exact ⟨⟨rfl, rfl, rfl, rfl, rfl, rfl, rfl, by rw [hn]; nofun⟩,
        hreads.goto rfl rfl (by rw [hn]; rfl) nofun nofun nofun⟩
    case call fd =>
      simp only [notifierStep, hn] at h
      cases h
      refine ⟨⟨rfl, rfl, rfl, rfl, rfl, rfl, rfl, by rw [hn]; nofun⟩,
        hreads.goto rfl rfl (by rw [hn]; rfl) nofun nofun fun fd' hread => ?_⟩
      cases NotifierPc.reading.inj hread
      exact hreads.call fd' hn
    case locking =>
      simp only [notifierStep, hn] at h
      split at h
      · cases h
        exact ⟨⟨rfl, rfl, rfl, rfl, rfl, rfl, rfl, by rw [hn]; nofun⟩,
          hreads.goto rfl rfl (by rw [hn]; rfl) nofun nofun nofun⟩
      · next hopen =>
        cases h
        exact ⟨⟨rfl, rfl, rfl, rfl, rfl, rfl, rfl, by rw [hn]; nofun⟩,
          .reads ⟨nofun, hreads.unlocked, rfl, nofun, nofun⟩ fun hclosed => absurd hclosed hopen⟩
    case readRun =>
      simp only [notifierStep, hn] at h
      cases h
      refine ⟨⟨rfl, rfl, rfl, rfl, rfl, rfl, rfl, by rw [hn]; nofun⟩, ?_⟩
      cases s.infos.run
      all_goals exact hreads.goto rfl rfl (by rw [hn]; rfl) nofun nofun nofun
    case fetch =>
      simp only [notifierStep, hn] at h
      cases h
      refine ⟨⟨rfl, rfl, rfl, rfl, rfl, rfl, rfl, by rw [hn]; nofun⟩,
        hreads.goto rfl rfl (by rw [hn]; rfl) nofun (fun fd hcall => ?_) nofun⟩
      exact hfetch hn fd (NotifierPc.call.inj hcall)
    case leave =>
      simp only [notifierStep, hn] at h
      have hreading : s.callback.reading = true := by rw [hreads.reading, hn]; rfl
      split at h
      · next hclosed =>
        cases h
        exact ⟨⟨rfl, rfl, rfl, rfl, rfl, rfl, rfl, by rw [hn]; nofun⟩,
          .closes hclosed hreading rfl rfl rfl⟩
      · next hopen =>
        cases h
        exact ⟨⟨rfl, rfl, rfl, rfl, rfl, rfl, rfl, by rw [hn]; nofun⟩,
          .reads ⟨nofun, hreads.unlocked, rfl, nofun, nofun⟩ fun hclosed => absurd hclosed hopen⟩
    case closing step => exact absurd hn (hreads.notClosing step)
    all_goals simp [notifierStep, hn] at h

/-! ### Stage by stage -/

variable {step : CloseStep}

section

variable {s t : CopyState} {n e : Nat} {move : NotifierMove}

theorem CopyState.Working.notifierStep (hs : s.Working n e) (h : notifierStep s move = some t) :
    t.copier = s.copier ∧ s.notifier ≠ .notStarted ∧ t.Working n e := by
  obtain ⟨hkept, hmoved⟩ := notifierStep_moved hs.reads (fun _ fd hfd => hs.infos.symm.trans hfd) h
  refine ⟨hkept.copier, hkept.started, hkept.held hs.held, hkept.infos.trans hs.infos,
    hkept.closed.trans hs.closed, ?_⟩
  cases hmoved with
  | reads reads stays => exact reads
  | closes closed =>
    rw [hs.closed] at closed
    cases closed

theorem CopyState.CopierCloses.notifierStep (hs : s.CopierCloses n e step)
    (hwindow : s.notifier = .fetch → step ≠ .eventFd ∧ step ≠ .notifyFd)
    (h : notifierStep s move = some t) :
    t.copier = s.copier ∧ s.notifier ≠ .notStarted ∧ t.CopierCloses n e step := by
  have hfetch : s.notifier = .fetch → ∀ fd, s.infos.notifyFd = some fd → none = some fd := by
    intro hpc fd hfd
    obtain ⟨heventFd, hnotifyFd⟩ := hwindow hpc
    have hreading : s.callback.reading = true := by rw [hs.reads.reading, hpc]; rfl
    cases step with
    | reset =>
      rw [hs.quiet rfl] at hreading
      cases hreading
    | eventFd => exact absurd rfl heventFd
    | notifyFd => exact absurd rfl hnotifyFd
    | closeFd =>
      rw [hs.infos, if_pos rfl] at hfd
      exact hfd
  obtain ⟨hkept, hmoved⟩ := notifierStep_moved hs.reads hfetch h
  refine ⟨hkept.copier, hkept.started, ?_⟩
  cases hmoved with
  | reads reads stays =>
    refine ⟨hkept.held hs.held, hkept.infos.trans hs.infos, hkept.closed ▸ hs.closed, ?_, reads⟩
    intro hreset
    rw [stays (hs.closed.mpr hreset), hs.quiet hreset]
  | closes closed reading =>
    rw [hs.quiet (hs.closed.mp closed)] at reading
    cases reading

theorem CopyState.Deferred.notifierStep (hs : s.Deferred n e) (h : notifierStep s move = some t) :
    t.copier = s.copier ∧ (t.Deferred n e ∨ t.NotifierCloses n e .reset) := by
  obtain ⟨hkept, hmoved⟩ := notifierStep_moved hs.reads (fun _ fd hfd => hs.infos.symm.trans hfd) h
  refine ⟨hkept.copier, ?_⟩
  cases hmoved with
  | reads reads stays =>
    exact .inl ⟨hkept.held hs.held, hkept.infos.trans hs.infos, hkept.closed.trans hs.closed,
      (stays hs.closed).trans hs.reading, reads⟩
  | closes closed reading notifier locked left =>
    exact .inr ⟨hkept.held hs.held, notifier, locked, left, fun hne => absurd rfl hne, nofun⟩

theorem CopyState.Over.notifierStep (hs : s.Over) (h : notifierStep s move = some t) :
    t.copier = s.copier ∧ s.notifier ≠ .notStarted ∧ t.Over := by
  obtain ⟨hkept, hmoved⟩ := notifierStep_moved hs.reads
    (fun _ fd hfd => hs.empty.infos.symm.trans hfd) h
  have hclosed := hs.closed hkept.started
  refine ⟨hkept.copier, hkept.started, hkept.empty hs.empty, ?_,
    fun _ => hkept.closed.trans hclosed⟩
  cases hmoved with
  | reads reads stays => exact reads
  | closes closed =>
    rw [hclosed] at closed
    cases closed

theorem CopyState.Held.closeFd (hs : s.Held n e) (hinfos : s.infos.notifyFd = none) :
    s.closeFd.Empty ∧ s.closeFd.copier = s.copier ∧ s.closeFd.notifier = s.notifier ∧
      s.closeFd.locked = s.locked := by
  rw [CopyState.closeFd, hs.eventFd, hs.notifyFd]
  refine ⟨⟨rfl, rfl, hinfos, ?_, ?_⟩, rfl, rfl, rfl⟩
  · simp [CopyState.closeOne, hs.opened]
  · simp [CopyState.closeOne, hs.closes, hs.ne.symm]

theorem CopyState.NotifierCloses.notifierStep (hs : s.NotifierCloses n e step)
    (h : notifierStep s move = some t) :
    t.copier = s.copier ∧ ((∃ next, t.NotifierCloses n e next) ∨ t.Over) := by
  have hpc := hs.notifier
  cases move
  case next =>
    simp only [notifierStep, hpc] at h
    cases step with
    | reset =>
      cases h
      exact ⟨rfl, .inl ⟨.eventFd, hs.held.keep rfl rfl rfl rfl, rfl, hs.locked, hs.reading, fun _ => rfl,
        nofun⟩⟩
    | eventFd =>
      cases h
      exact ⟨rfl, .inl ⟨.notifyFd, hs.held.keep rfl rfl rfl rfl, rfl, hs.locked, hs.reading,
        fun _ => hs.closed nofun, nofun⟩⟩
    | notifyFd =>
      cases h
      exact ⟨rfl, .inl ⟨.closeFd, hs.held.keep rfl rfl rfl rfl, rfl, hs.locked, hs.reading,
        fun _ => hs.closed nofun, fun _ => rfl⟩⟩
    | closeFd =>
      cases h
      obtain ⟨hempty, hcopier, -, -⟩ := hs.held.closeFd (hs.infos rfl)
      exact ⟨hcopier, .inr ⟨⟨hempty.notifyFd, hempty.eventFd, hempty.infos, hempty.opened,
        hempty.closes⟩, ⟨nofun, rfl, hs.reading, nofun, nofun⟩, fun _ => hs.closed nofun⟩⟩
  all_goals simp [notifierStep, hpc] at h

end

/-! ## A step of the copying thread -/

section

variable {s t : CopyState} {n e : Nat}

/-- Only the descriptors, the flags and the notify thread count; `run` does not. -/
structure CopyState.Alike (s t : CopyState) : Prop where
  notifier : t.notifier = s.notifier
  callback : t.callback = s.callback
  infos : t.infos.notifyFd = s.infos.notifyFd
  locked : t.locked = s.locked
  opened : t.opened = s.opened
  closes : t.closes = s.closes

theorem CopyState.Alike.held (h : s.Alike t) (hs : s.Held n e) : t.Held n e :=
  hs.keep (by rw [h.callback]) (by rw [h.callback]) h.opened h.closes

theorem CopyState.Alike.reads (h : s.Alike t) (hs : s.Reads readable) :
    t.Reads readable :=
  hs.keep h.notifier h.locked (by rw [h.callback])

theorem CopyState.Alike.working (h : s.Alike t) (hs : s.Working n e) : t.Working n e :=
  ⟨h.held hs.held, h.infos.trans hs.infos, h.callback ▸ hs.closed, h.reads hs.reads⟩

theorem CopyState.Alike.deferred (h : s.Alike t) (hs : s.Deferred n e) : t.Deferred n e :=
  ⟨h.held hs.held, h.infos.trans hs.infos, h.callback ▸ hs.closed, h.callback ▸ hs.reading,
    h.reads hs.reads⟩

theorem CopyState.Alike.notifierCloses (h : s.Alike t) (hs : s.NotifierCloses n e step) :
    t.NotifierCloses n e step :=
  ⟨h.held hs.held, h.notifier.trans hs.notifier, h.locked.trans hs.locked,
    h.callback ▸ hs.reading, h.callback ▸ hs.closed, fun hlast => h.infos.trans (hs.infos hlast)⟩

theorem CopyState.Alike.over (h : s.Alike t) (hs : s.Over) : t.Over :=
  ⟨⟨h.callback ▸ hs.empty.notifyFd, h.callback ▸ hs.empty.eventFd, h.infos.trans hs.empty.infos,
    h.opened.trans hs.empty.opened, h.closes ▸ hs.empty.closes⟩, h.reads hs.reads,
    h.notifier ▸ h.callback ▸ hs.closed⟩

theorem CopyState.CopierCloses.next {last : Bool} (hs : s.CopierCloses n e step)
    (hquiet : last = false → s.notifier = .notStarted) (hcopier : s.copier = .closing last step)
    (h : copierStep s .next = some t) : t.Inv := by
  simp only [copierStep, hcopier] at h
  cases step with
  | reset =>
    cases h
    refine .inl ⟨n, e, ⟨hs.held.keep rfl rfl rfl rfl, hs.infos, ?_, nofun, ?_⟩, hquiet⟩
    · exact iff_of_false nofun nofun
    · exact hs.reads.keep rfl rfl rfl
  | eventFd =>
    cases h
    refine .inl ⟨n, e, ⟨hs.held.keep rfl rfl rfl rfl, hs.infos, ?_, nofun, ?_⟩, hquiet⟩
    · exact iff_of_false (fun hclosed => nomatch hs.closed.mp hclosed) nofun
    · exact hs.reads.keep rfl rfl rfl
  | notifyFd =>
    cases h
    refine .inl ⟨n, e, ⟨hs.held.keep rfl rfl rfl rfl, rfl, ?_, nofun, ?_⟩, hquiet⟩
    · exact iff_of_false (fun hclosed => nomatch hs.closed.mp hclosed) nofun
    · exact hs.reads.keep rfl rfl rfl
  | closeFd =>
    cases h
    obtain ⟨hempty, -, hnotifier, hlocked⟩ := hs.held.closeFd (by rw [hs.infos, if_pos rfl])
    have hclosed : s.callback.closed = false :=
      Bool.eq_false_iff.mpr fun hclosed => nomatch hs.closed.mp hclosed
    have hover : s.closeFd.Over :=
      ⟨hempty, hs.reads.keep hnotifier hlocked rfl, fun _ => hclosed⟩
    cases last with
    | true => exact .inl (CopyState.Alike.over (s := s.closeFd) ⟨rfl, rfl, rfl, rfl, rfl, rfl⟩ hover)
    | false =>
      exact .inr ⟨rfl, CopyState.Alike.over (s := s.closeFd) ⟨rfl, rfl, rfl, rfl, rfl, rfl⟩ hover,
        hnotifier.trans (hquiet rfl)⟩

theorem closeFd_of_none (hnotifyFd : s.callback.notifyFd = none)
    (heventFd : s.callback.eventFd = none) : s.closeFd = s := by
  obtain ⟨copier, notifier, infos, ⟨notifyFd, eventFd, reading, closed⟩, locked, opened, closes⟩ := s
  cases hnotifyFd
  cases heventFd
  rfl

theorem CopyState.Over.next (hs : s.Over) (hquiet : s.notifier = .notStarted)
    (hcopier : s.copier = .closing true step) (h : copierStep s .next = some t) : t.Inv := by
  have hnone := hs.empty
  simp only [copierStep, hcopier] at h
  cases step with
  | reset =>
    cases h
    exact .inr ⟨rfl, ⟨⟨hnone.notifyFd, hnone.eventFd, hnone.infos, hnone.opened, hnone.closes⟩,
      hs.reads.keep rfl rfl rfl, fun _ => rfl⟩, hquiet⟩
  | eventFd =>
    cases h
    exact .inr ⟨rfl, ⟨⟨hnone.notifyFd, hnone.eventFd, hnone.infos, hnone.opened, hnone.closes⟩,
      hs.reads.keep rfl rfl rfl, hs.closed⟩, hquiet⟩
  | notifyFd =>
    cases h
    exact .inr ⟨rfl, ⟨⟨hnone.notifyFd, hnone.eventFd, rfl, hnone.opened, hnone.closes⟩,
      hs.reads.keep rfl rfl rfl, hs.closed⟩, hquiet⟩
  | closeFd =>
    simp only [CopyState.closeNotifyFd, closeFd_of_none hnone.notifyFd hnone.eventFd] at h
    cases h
    exact .inl (CopyState.Alike.over (s := s) ⟨rfl, rfl, rfl, rfl, rfl, rfl⟩ hs)

theorem CopyState.Working.locking {last : Bool} (hs : s.Working n e)
    (hquiet : last = false → s.notifier = .notStarted) : (s.closeLocked last).Inv := by
  rw [CopyState.closeLocked]
  by_cases hreading : s.callback.reading = true
  · have hlast : last = true := by
      by_contra hnot
      have hzone := hs.reads.reading
      rw [hquiet (Bool.eq_false_iff.mpr hnot), hreading] at hzone
      cases hzone
    rw [if_pos hreading, hlast]
    exact .inr ⟨n, e, .inl ⟨hs.held.keep rfl rfl rfl rfl, hs.infos, rfl, hreading,
      hs.reads.keep rfl rfl rfl⟩⟩
  · have hidle := Bool.eq_false_iff.mpr hreading
    rw [if_neg hreading]
    exact .inl ⟨n, e, ⟨hs.held.keep rfl rfl rfl rfl, hs.infos, iff_of_true rfl rfl, fun _ => hidle,
      (hs.reads.idle hidle none).keep rfl rfl rfl⟩, hquiet⟩

theorem CopyState.Over.locking (hs : s.Over) (hquiet : s.notifier = .notStarted) :
    (s.closeLocked true).Inv := by
  have hidle : s.callback.reading = false := by rw [hs.reads.reading, hquiet]; rfl
  rw [CopyState.closeLocked, if_neg (by rw [hidle]; exact Bool.false_ne_true)]
  exact .inr ⟨rfl, ⟨⟨hs.empty.notifyFd, hs.empty.eventFd, hs.empty.infos, hs.empty.opened,
    hs.empty.closes⟩, hs.reads.keep rfl rfl rfl, fun hne => absurd hquiet hne⟩, hquiet⟩

theorem copierStep_inv {move : CopierMove} (hs : s.Inv)
    (hok : move = .opened none → s.copier ≠ .eventfd) (h : copierStep s move = some t) :
    t.Inv := by
  cases hc : s.copier
  case subscribe =>
    simp only [CopyState.Inv, hc] at hs
    obtain ⟨hs, hcloses, hclosed, hquiet⟩ := hs
    have hleft : ({ s with copier := .locking true } : CopyState).Inv :=
      .inr ⟨rfl, CopyState.Alike.over (s := s) ⟨rfl, rfl, rfl, rfl, rfl, rfl⟩ hs, hquiet⟩
    cases move
    case unsubscribed =>
      simp only [copierStep, hc] at h
      cases h
      exact hleft
    case opened fd =>
      cases fd with
      | none =>
        simp only [copierStep, hc] at h
        cases h
        exact hleft
      | some fd =>
        simp only [copierStep, hc] at h
        split at h
        · cases h
        · cases h
          exact ⟨fd, hs.empty.notifyFd, hs.empty.eventFd, rfl, by rw [hs.empty.opened], hcloses,
            hclosed, hs.reads.keep rfl rfl rfl, hquiet⟩
    all_goals simp [copierStep, hc] at h
  case eventfd =>
    simp only [CopyState.Inv, hc] at hs
    obtain ⟨n, hnotifyFd, heventFd, hinfos, hopened, hcloses, hclosed, hreads, hquiet⟩ := hs
    cases move
    case opened fd =>
      cases fd with
      | none => exact absurd hc (hok rfl)
      | some fd =>
        simp only [copierStep, hc] at h
        split at h
        · cases h
        · next hfresh =>
          cases h
          rw [hopened, List.mem_singleton] at hfresh
          refine ⟨n, fd, ⟨⟨fun heq => hfresh heq.symm, hinfos, rfl, ?_, hcloses⟩, hinfos, hclosed,
            ?_⟩, hquiet⟩
          · show fd :: s.opened = _
            rw [hopened]
          · exact (hreads.idle (by rw [hreads.reading, hquiet]; rfl) (some n)).keep rfl rfl rfl
    all_goals simp [copierStep, hc] at h
  case addWatch =>
    simp only [CopyState.Inv, hc] at hs
    obtain ⟨n, e, hs, hquiet⟩ := hs
    have halike : ∀ pc, s.Alike { s with copier := pc } := fun pc => ⟨rfl, rfl, rfl, rfl, rfl, rfl⟩
    cases move
    case watched result =>
      cases result with
      | closes =>
        simp only [copierStep, hc] at h
        cases h
        exact .inl ⟨n, e, (halike _).working hs, fun _ => hquiet⟩
      | fails =>
        simp only [copierStep, hc] at h
        cases h
        exact .inl ⟨n, e, (halike _).working hs, nofun⟩
      | starts =>
        simp only [copierStep, hc] at h
        cases h
        refine ⟨n, e, hs.held.keep rfl rfl rfl rfl, hs.infos, hs.closed, ⟨nofun, hs.reads.unlocked,
          ?_, nofun, nofun⟩⟩
        show s.callback.reading = false
        rw [hs.reads.reading, hquiet]
        rfl
    all_goals simp [copierStep, hc] at h
  case copying =>
    simp only [CopyState.Inv, hc] at hs
    obtain ⟨n, e, hs⟩ := hs
    cases move
    case next =>
      simp only [copierStep, hc] at h
      cases h
      exact .inl ⟨n, e, CopyState.Alike.working (s := s) ⟨rfl, rfl, rfl, rfl, rfl, rfl⟩ hs, nofun⟩
    all_goals simp [copierStep, hc] at h
  case locking last =>
    simp only [CopyState.Inv, hc] at hs
    cases move
    case next =>
      simp only [copierStep, hc] at h
      split at h
      · cases h
      · cases h
        rcases hs with ⟨n, e, hs, hquiet⟩ | ⟨rfl, hs, hquiet⟩
        · exact hs.locking hquiet
        · exact hs.locking hquiet
    all_goals simp [copierStep, hc] at h
  case closing last step =>
    simp only [CopyState.Inv, hc] at hs
    cases move
    case next =>
      rcases hs with ⟨n, e, hs, hquiet⟩ | ⟨rfl, hs, hquiet⟩
      · exact hs.next hquiet hc h
      · exact hs.next hquiet hc h
    all_goals simp [copierStep, hc] at h
  case stop =>
    simp only [CopyState.Inv, hc] at hs
    cases move
    case next =>
      simp only [copierStep, hc] at h
      cases h
      have halike : s.Alike { s with copier := .join, infos := { s.infos with run := false } } :=
        ⟨rfl, rfl, rfl, rfl, rfl, rfl⟩
      rcases hs with hs | ⟨n, e, hs | ⟨step, hs⟩⟩
      · exact .inl (halike.over hs)
      · exact .inr ⟨n, e, .inl (halike.deferred hs)⟩
      · exact .inr ⟨n, e, .inr ⟨step, halike.notifierCloses hs⟩⟩
    all_goals simp [copierStep, hc] at h
  case join =>
    simp only [CopyState.Inv, hc] at hs
    cases move
    case next =>
      simp only [copierStep, hc] at h
      split at h
      · next hgone =>
        cases h
        rcases hs with hs | ⟨n, e, hs | ⟨step, hs⟩⟩
        · exact CopyState.Alike.over (s := s) ⟨rfl, rfl, rfl, rfl, rfl, rfl⟩ hs
        · have hzone := hs.reads.reading.symm.trans hs.reading
          rcases hgone with hgone | hgone
          all_goals
            rw [hgone] at hzone
            cases hzone
        · rw [hs.notifier] at hgone
          rcases hgone with hgone | hgone
          all_goals cases hgone
      · cases h
    all_goals simp [copierStep, hc] at h
  case returned =>
    cases move
    all_goals simp [copierStep, hc] at h

end

/-! ## Runs -/

section

variable {s t : CopyState}

theorem notifierStep_inv {move : NotifierMove} (hs : s.Inv)
    (hok : s.notifier = .fetch → ∀ last,
      s.copier ≠ .closing last .eventFd ∧ s.copier ≠ .closing last .notifyFd)
    (h : notifierStep s move = some t) : t.Inv := by
  -- in front of `StartNotify` the notify thread makes no step
  have hidle : s.notifier = .notStarted → False := by
    intro hpc
    cases move
    all_goals simp [notifierStep, hpc] at h
  cases hc : s.copier
  all_goals simp only [CopyState.Inv, hc] at hs
  case subscribe => exact absurd hs.2.2.2 hidle
  case eventfd =>
    obtain ⟨n, -, -, -, -, -, -, -, hquiet⟩ := hs
    exact absurd hquiet hidle
  case addWatch =>
    obtain ⟨n, e, -, hquiet⟩ := hs
    exact absurd hquiet hidle
  case copying =>
    obtain ⟨n, e, hs⟩ := hs
    obtain ⟨hcopier, -, ht⟩ := hs.notifierStep h
    rw [CopyState.Inv, hcopier, hc]
    exact ⟨n, e, ht⟩
  case locking last =>
    rcases hs with ⟨n, e, hs, hquiet⟩ | ⟨-, -, hquiet⟩
    · obtain ⟨hcopier, hstarted, ht⟩ := hs.notifierStep h
      rw [CopyState.Inv, hcopier, hc]
      exact .inl ⟨n, e, ht, fun hlast => absurd (hquiet hlast) hstarted⟩
    · exact absurd hquiet hidle
  case closing last step =>
    rcases hs with ⟨n, e, hs, hquiet⟩ | ⟨-, -, hquiet⟩
    · have hwindow : s.notifier = .fetch → step ≠ .eventFd ∧ step ≠ .notifyFd := by
        intro hpc
        obtain ⟨heventFd, hnotifyFd⟩ := hok hpc last
        exact ⟨fun heq => heventFd (heq ▸ hc), fun heq => hnotifyFd (heq ▸ hc)⟩
      obtain ⟨hcopier, hstarted, ht⟩ := hs.notifierStep hwindow h
      rw [CopyState.Inv, hcopier, hc]
      exact .inl ⟨n, e, ht, fun hlast => absurd (hquiet hlast) hstarted⟩
    · exact absurd hquiet hidle
  case stop | join =>
    rcases hs with hs | ⟨n, e, hs | ⟨step, hs⟩⟩
    · obtain ⟨hcopier, -, ht⟩ := hs.notifierStep h
      rw [CopyState.Inv, hcopier, hc]
      exact .inl ht
    · obtain ⟨hcopier, ht⟩ := hs.notifierStep h
      rw [CopyState.Inv, hcopier, hc]
      rcases ht with ht | ht
      · exact .inr ⟨n, e, .inl ht⟩
      · exact .inr ⟨n, e, .inr ⟨.reset, ht⟩⟩
    · obtain ⟨hcopier, ht⟩ := hs.notifierStep h
      rw [CopyState.Inv, hcopier, hc]
      rcases ht with ht | ht
      · exact .inr ⟨n, e, .inr ht⟩
      · exact .inl ht
  case returned =>
    obtain ⟨hcopier, -, ht⟩ := hs.notifierStep h
    rw [CopyState.Inv, hcopier, hc]
    exact ht

/-- Where the threads do not fall over each other: the eventfd is made, and the notify thread does
not take up the descriptor for a read while the copying thread is between resetting `closed` and
giving up the descriptor in `infos`. -/
def CopyStepOk (s : CopyState) : CopyAction → Prop
  | .copier move => move = .opened none → s.copier ≠ .eventfd
  | .notifier _ => s.notifier = .fetch → ∀ last,
      s.copier ≠ .closing last .eventFd ∧ s.copier ≠ .closing last .notifyFd

instance (s : CopyState) : ∀ a, Decidable (CopyStepOk s a)
  | .copier move => inferInstanceAs (Decidable (move = .opened none → s.copier ≠ .eventfd))
  | .notifier _ => inferInstanceAs (Decidable (s.notifier = .fetch → ∀ last,
      s.copier ≠ .closing last .eventFd ∧ s.copier ≠ .closing last .notifyFd))

theorem copyStep_inv (s : CopyState) (a : CopyAction) (t : CopyState) (hs : s.Inv)
    (hok : CopyStepOk s a) (h : copyStep s a = some t) : t.Inv := by
  cases a with
  | copier move => exact copierStep_inv hs hok h
  | notifier move => exact notifierStep_inv hs hok h

/-- Reads are of open descriptors, no descriptor is closed twice, and `DoCopy` leaves none open. -/
structure CopyState.Safe (s : CopyState) : Prop where
  reads : ∀ fd, s.notifier = .reading (some fd) → fd ∈ s.opened
  closes : s.closes.Nodup
  returned : s.copier = .returned → s.opened = []

theorem CopyState.Held.safe {n e : Nat} (hs : s.Held n e) (hreads : s.Reads readable)
    (hreadable : ∀ fd, readable = some fd → fd = n) (hnot : s.copier ≠ .returned) : s.Safe := by
  refine ⟨fun fd hpc => ?_, ?_, fun hreturned => absurd hreturned hnot⟩
  · rw [hreadable fd (hreads.read fd hpc), hs.opened]
    exact List.mem_cons_of_mem _ (List.mem_singleton.mpr rfl)
  · rw [hs.closes]
    exact List.nodup_nil

theorem CopyState.Over.safe (hs : s.Over) : s.Safe :=
  ⟨fun fd hpc => (nomatch hs.reads.read fd hpc), hs.empty.closes, fun _ => hs.empty.opened⟩

theorem CopyState.Inv.safe (hs : s.Inv) : s.Safe := by
  cases hc : s.copier
  all_goals simp only [CopyState.Inv, hc] at hs
  case subscribe => exact hs.1.safe
  case eventfd =>
    obtain ⟨n, -, -, -, -, hcloses, -, hreads, -⟩ := hs
    exact ⟨fun fd hpc => (nomatch hreads.read fd hpc), hcloses ▸ List.nodup_nil,
      fun hreturned => (nomatch hc.symm.trans hreturned)⟩
  case addWatch =>
    obtain ⟨n, e, hs, -⟩ := hs
    exact hs.held.safe hs.reads (fun fd heq => (Option.some.inj heq).symm) (by rw [hc]; nofun)
  case copying =>
    obtain ⟨n, e, hs⟩ := hs
    exact hs.held.safe hs.reads (fun fd heq => (Option.some.inj heq).symm) (by rw [hc]; nofun)
  case locking last =>
    rcases hs with ⟨n, e, hs, -⟩ | ⟨-, hs, -⟩
    · exact hs.held.safe hs.reads (fun fd heq => (Option.some.inj heq).symm) (by rw [hc]; nofun)
    · exact hs.safe
  case closing last step =>
    rcases hs with ⟨n, e, hs, -⟩ | ⟨-, hs, -⟩
    · exact hs.held.safe hs.reads nofun (by rw [hc]; nofun)
    · exact hs.safe
  case stop | join =>
    rcases hs with hs | ⟨n, e, hs | ⟨step, hs⟩⟩
    · exact hs.safe
    · exact hs.held.safe hs.reads (fun fd heq => (Option.some.inj heq).symm) (by rw [hc]; nofun)
    · exact ⟨fun fd hpc => (nomatch hs.notifier.symm.trans hpc), hs.held.closes ▸ List.nodup_nil,
        fun hreturned => (nomatch hc.symm.trans hreturned)⟩
  case returned => exact hs.safe

/-- Every interleaving that keeps clear of the window is safe. -/
theorem doCopy_safe {as : List CopyAction} (hok : StepsOk copyStep CopyStepOk {} as)
    (h : run copyStep {} as = some s) : s.Safe := by
  have hinit : CopyState.Inv {} :=
    ⟨⟨⟨rfl, rfl, rfl, rfl, List.nodup_nil⟩, ⟨nofun, rfl, rfl, nofun, nofun⟩, fun hne => absurd rfl hne⟩,
      rfl, rfl, rfl⟩
  exact (run_invariant copyStep_inv hinit hok h).safe

end

/-! ### The window, and an eventfd that is not made -/

/-- Subscribing to the descriptors 3 and 4, and the notify thread up to its `poll`. -/
def startNotify : List CopyAction :=
  [.copier (.opened (some 3)), .copier (.opened (some 4)), .copier (.watched .starts),
    .notifier .next, .notifier .next, .notifier .next, .notifier .next]

/-- The copy ends while the notify thread has found input: `closed` is reset, the notify thread
begins to read, and the descriptors are closed. -/
def readInWindow : List CopyAction :=
  startNotify ++
    [CopyAction.notifier (.polled .input), .copier .next, .copier .next, .copier .next,
      .notifier .next,      .notifier .next, .notifier .next, .copier .next, .copier .next, .copier .next,
      .notifier .next]

/-- The inotify descriptor is made and the eventfd is not. -/
def withoutEventfd : List CopyAction :=
  [.copier (.opened (some 3)), .copier (.opened none), .copier .next, .copier .next, .copier .next,
    .copier .next, .copier .next, .copier .next, .copier .next]

/-- A read of a descriptor that is closed, and a copy that leaves a descriptor open. -/
theorem doCopy_not_safe :
    (∃ s, run copyStep {} readInWindow = some s ∧ s.notifier = .reading (some 3) ∧
      s.closes = [4, 3] ∧ s.opened = [] ∧ ¬ s.Safe) ∧
    ∃ s, run copyStep {} withoutEventfd = some s ∧ s.copier = .returned ∧ s.opened = [3] ∧
      ¬ s.Safe := by
  constructor
  · have hrun : (run copyStep {} readInWindow).map (fun s => (s.notifier, s.closes, s.opened)) =
        some (.reading (some 3), [4, 3], []) := by decide +kernel
    obtain ⟨s, hs, heq⟩ := Option.map_eq_some_iff.mp hrun
    obtain ⟨hnotifier, heq⟩ := Prod.mk.inj heq
    obtain ⟨hcloses, hopened⟩ := Prod.mk.inj heq
    refine ⟨s, hs, hnotifier, hcloses, hopened, fun hsafe => ?_⟩
    have hmem := hsafe.reads 3 hnotifier
    rw [hopened] at hmem
    cases hmem
  · have hrun : (run copyStep {} withoutEventfd).map (fun s => (s.copier, s.opened)) =
        some (.returned, [3]) := by decide +kernel
    obtain ⟨s, hs, heq⟩ := Option.map_eq_some_iff.mp hrun
    obtain ⟨hcopier, hopened⟩ := Prod.mk.inj heq
    refine ⟨s, hs, hcopier, hopened, fun hsafe => ?_⟩
    have hempty := hsafe.returned hcopier
    rw [hopened] at hempty
    cases hempty

/-- The copy ends while the notify thread is reading, which then closes the descriptors itself. -/
def closeAfterRead : List CopyAction :=
  startNotify ++
    [CopyAction.notifier (.polled .input), .notifier .next, .notifier .next, .notifier .next,
      .notifier .next,
      .copier .next, .copier .next, .copier .next, .notifier (.read false),
      .notifier (.handled .more), .notifier .next, .notifier .next, .notifier .next,
      .notifier .next, .notifier .next, .notifier .next, .notifier .next, .copier .next]

theorem doCopy_safe_closeAfterRead :
    ∃ s, run copyStep {} closeAfterRead = some s ∧ s.copier = .returned ∧ s.closes = [4, 3] ∧
      s.Safe := by
  have hrun : (run copyStep {} closeAfterRead).map (fun s => (s.copier, s.closes)) =
      some (.returned, [4, 3]) := by decide +kernel
  obtain ⟨s, hs, heq⟩ := Option.map_eq_some_iff.mp hrun
  obtain ⟨hcopier, hcloses⟩ := Prod.mk.inj heq
  exact ⟨s, hs, hcopier, hcloses, doCopy_safe (by decide +kernel) hs⟩

end FileApi.ModFs
