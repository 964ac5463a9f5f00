import FileApi.Misc.Pool
import FileApi.Swapfs.SessionCleaner

/-!
# A cleaner leaves live sessions alone

`cleanup.lock` keeps a session that is made and a cleaner apart; behind that, the session is
locked before a cleaner can see it, and its `session.lock` stays in its directory until the
manager itself removes it. What a cleaner has found to be inactive stays so, because a session
becomes active only under `cleanup.lock`.
-/

namespace FileApi.Swapfs

open Pool Machine

/-! ## What the parties know -/

def SessionPc.live : SessionPc → Bool
  | .done => false
  | .crashed => false
  | _ => true

/-- What a remover is about. -/
def SessionPc.purpose : SessionPc → Option Purpose
  | .remove purpose _ => some purpose
  | .removing purpose _ _ _ => some purpose
  | .rmdir purpose _ => some purpose
  | _ => none

/-- The party is in its `Init`, up to the end of it or to the `RemoveSessionDir` of one that
fails. -/
def Party.initialising (p : Party) : Bool :=
  match p.pc with
  | .remove .destroy _ | .removing .destroy _ _ _ | .rmdir .destroy _ | .finish .destroy => false
  | .running | .closeLock | .done | .crashed => false
  | _ => true

/-- The party has made the directory, and has not removed its lock file. -/
structure Party.Guards (p : Party) (dir : Nat) : Prop where
  created : p.created = some dir
  live : p.pc.live = true
  linked : p.unlinked = false

namespace SwapRoot

variable (s : SwapRoot) (i : Nat) (p : Party)

/-- A party other than the `i`-th one guards the directory. -/
def GuardedByOther (dir : Nat) : Prop :=
  ∃ j q, j ≠ i ∧ s.parties[j]? = some q ∧ q.Guards dir

/-- A party that has made nothing yet. -/
structure Clean : Prop where
  critical : s.cleanupLock = some i
  created : p.created = none
  lockFd : p.sessionLockFd = none
  linked : p.unlinked = false

/-- A party that makes its session, or takes it back. -/
structure Makes (n dir : Nat) : Prop where
  critical : s.cleanupLock = some i
  created : p.created = some dir
  linked : p.unlinked = false
  named : ∀ d, s.names (.creating n) = some d → d = dir

/-- A manager with its session. -/
structure Runs (m dir lock : Nat) : Prop where
  created : p.created = some dir
  path : p.sessionPath = some m
  lockFd : p.sessionLockFd = some lock
  locked : s.locks lock = some i
  linked : p.unlinked = false → s.lockOf dir = some lock ∧ s.names (.session m) = some dir

/-- The lock of a cleaner, if it has one. -/
def HoldsLock : Option Nat → Prop
  | none => True
  | some l => s.locks l = some i

/-- No other party guards the directory of the name. -/
def NameFree (name : SessionName) : Prop :=
  ∀ dir, s.names name = some dir → ¬ s.GuardedByOther i dir

/-- What a party knows. -/
def PartyOk : SessionPc → Prop
  | .acquire => p.created = none ∧ p.sessionLockFd = none ∧ p.unlinked = false
  | .scan => s.Clean i p
  | .opened name dir => s.Clean i p ∧ ∀ d, s.names name = some d → d = dir
  | .marked name dir => s.Clean i p ∧ ∀ d, s.names name = some d → d = dir
  | .locking name dir lock =>
      s.Clean i p ∧ (∀ d, s.names name = some d → d = dir) ∧ ∀ l, s.lockOf dir = some l → l = lock
  | .remove (.clean lock) name => s.Clean i p ∧ s.HoldsLock i lock ∧ s.NameFree i name
  | .removing (.clean lock) name dir _ =>
      s.Clean i p ∧ s.HoldsLock i lock ∧ s.NameFree i name ∧ ¬ s.GuardedByOther i dir
  | .rmdir (.clean lock) name => s.Clean i p ∧ s.HoldsLock i lock ∧ s.NameFree i name
  | .finish (.clean lock) => s.Clean i p ∧ s.HoldsLock i lock
  | .makeDir => s.Clean i p
  | .openDir n _ => p.sessionLockFd = none ∧ ∃ dir, s.Makes i p n dir
  | .makeMarker n _ dir => p.sessionLockFd = none ∧ s.Makes i p n dir
  | .makeData n _ dir => p.sessionLockFd = none ∧ s.Makes i p n dir
  | .makeLock n _ dir => p.sessionLockFd = none ∧ s.Makes i p n dir
  | .lockSession n _ dir =>
      s.Makes i p n dir ∧ ∃ lock, p.sessionLockFd = some lock ∧ s.lockOf dir = some lock
  | .rename n _ dir =>
      s.Makes i p n dir ∧
        ∃ lock, p.sessionLockFd = some lock ∧ s.lockOf dir = some lock ∧ s.locks lock = some i
  | .closeFailed n => ∃ dir, s.Makes i p n dir
  | .remove .rollback name =>
      p.sessionLockFd = none ∧ ∃ n dir, name = .creating n ∧ s.Makes i p n dir
  | .removing .rollback name dir _ =>
      p.sessionLockFd = none ∧ ∃ n, name = .creating n ∧ s.Makes i p n dir
  | .rmdir .rollback name =>
      p.sessionLockFd = none ∧ ∃ n dir, name = .creating n ∧ s.Makes i p n dir
  | .finish .rollback => p.sessionLockFd = none ∧ s.cleanupLock = some i
  | .release ok =>
      s.cleanupLock = some i ∧
        if ok then p.unlinked = false ∧ ∃ m dir lock, s.Runs i p m dir lock
        else p.sessionLockFd = none
  | .prepared => p.unlinked = false ∧ ∃ m dir lock, s.Runs i p m dir lock
  | .running => p.unlinked = false ∧ ∃ m dir lock, s.Runs i p m dir lock
  | .remove .destroy name =>
      p.unlinked = false ∧ ∃ m dir lock, name = .session m ∧ s.Runs i p m dir lock
  | .removing .destroy name dir _ => ∃ m lock, name = .session m ∧ s.Runs i p m dir lock
  | .rmdir .destroy name => ∃ m dir lock, name = .session m ∧ s.Runs i p m dir lock
  | .finish .destroy => ∃ m dir lock, s.Runs i p m dir lock
  | .closeLock => ∃ m dir lock, s.Runs i p m dir lock
  | .done => p.sessionLockFd = none
  | .crashed => ∀ l, s.locks l ≠ some i

/-- The directories belong to the parties that made them. -/
structure Inv : Prop where
  named : ∀ name dir, s.names name = some dir → dir < s.dirs.length
  made : ∀ (i : Nat) (p : Party) dir, s.parties[i]? = some p → p.created = some dir →
    dir < s.dirs.length
  distinct : ∀ (i j : Nat) (p q : Party) dir, s.parties[i]? = some p → s.parties[j]? = some q →
    p.created = some dir → q.created = some dir → i = j
  parties : ∀ i p, s.parties[i]? = some p → s.PartyOk i p p.pc

end SwapRoot

/-! ## What a step does to the others -/

namespace SwapRoot

variable {s t : SwapRoot} {j k : Nat} {p p' q : Party} {dir lock : Nat} {f : SessionDir → SessionDir}

/-- A change by the `j`-th party: it lets the locks of others alone, and the lock files and names
of directories that others guard; and while another party holds `cleanup.lock`, names and lock
files only go away. -/
structure Change (s t : SwapRoot) (j : Nat) : Prop where
  length : s.dirs.length ≤ t.dirs.length
  named : ∀ name dir, t.names name = some dir → dir < t.dirs.length
  cleanup : ∀ k, k ≠ j → s.cleanupLock = some k → t.cleanupLock = some k
  locks : ∀ k l, k ≠ j → (t.locks l = some k ↔ s.locks l = some k)
  guarded : ∀ dir, s.GuardedByOther j dir → t.lockOf dir = s.lockOf dir ∧
    ∀ m, (s.lockOf dir).isSome → s.names (.session m) = some dir → t.names (.session m) = some dir
  shrinks : ∀ k, k ≠ j → s.cleanupLock = some k →
    (∀ name dir, t.names name = some dir → s.names name = some dir) ∧
    ∀ dir l, t.lockOf dir = some l → s.lockOf dir = some l

theorem GuardedByOther.intro (hq : s.parties[k]? = some q) (hk : k ≠ j) (h : q.Guards dir) :
    s.GuardedByOther j dir :=
  ⟨k, q, hk, hq, h⟩

section Others

variable (h : Change s t j) (hk : k ≠ j)

include h hk

theorem Clean.change (ok : s.Clean k q) : t.Clean k q :=
  ⟨h.cleanup k hk ok.critical, ok.created, ok.lockFd, ok.linked⟩

theorem Makes.change {n : Nat} (ok : s.Makes k q n dir) : t.Makes k q n dir :=
  ⟨h.cleanup k hk ok.critical, ok.created, ok.linked,
    fun d hd => ok.named d ((h.shrinks k hk ok.critical).1 _ d hd)⟩

theorem HoldsLock.change {l : Option Nat} (ok : s.HoldsLock k l) : t.HoldsLock k l := by
  cases l with
  | none => trivial
  | some l => exact (h.locks k l hk).mpr ok

theorem Runs.change {m : Nat} (hq : s.parties[k]? = some q) (hlive : q.pc.live = true)
    (ok : s.Runs k q m dir lock) : t.Runs k q m dir lock := by
  refine ⟨ok.created, ok.path, ok.lockFd, (h.locks k lock hk).mpr ok.locked, fun hlinked => ?_⟩
  obtain ⟨hlock, hname⟩ := ok.linked hlinked
  obtain ⟨hsame, hnames⟩ := h.guarded dir (.intro hq hk ⟨ok.created, hlive, hlinked⟩)
  exact ⟨hsame.trans hlock, hnames m (by rw [hlock]; rfl) hname⟩

/-- What another party knows is true behind the change. -/
theorem PartyOk.change (hq : s.parties[k]? = some q)
    (hguarded : s.cleanupLock = some k → ∀ dir, t.GuardedByOther k dir → s.GuardedByOther k dir)
    (ok : s.PartyOk k q q.pc) : t.PartyOk k q q.pc := by
  have hfree : ∀ {name}, s.Clean k q → s.NameFree k name → t.NameFree k name := by
    intro name hclean hfree dir hname hother
    exact hfree dir ((h.shrinks k hk hclean.critical).1 name dir hname)
      (hguarded hclean.critical dir hother)
  have hnames : ∀ {name dir}, s.Clean k q → (∀ d, s.names name = some d → d = dir) →
      ∀ d, t.names name = some d → d = dir := by
    intro name dir hclean hnames d hname
    exact hnames d ((h.shrinks k hk hclean.critical).1 name d hname)
  have hlockOf : ∀ {n dir lock}, q.pc.live = true → s.Makes k q n dir → s.lockOf dir = some lock →
      t.lockOf dir = some lock := by
    intro n dir lock hlive hmakes hlock
    exact (h.guarded dir (.intro hq hk ⟨hmakes.created, hlive, hmakes.linked⟩)).1.trans hlock
  have hruns : ∀ {m dir lock}, q.pc.live = true → s.Runs k q m dir lock → t.Runs k q m dir lock :=
    fun hlive => Runs.change h hk hq hlive
  generalize hpc : q.pc = pc at *
  cases pc with
  | acquire => exact ok
  | scan => exact Clean.change h hk ok
  | opened name dir => exact ⟨ok.1.change h hk, hnames ok.1 ok.2⟩
  | marked name dir => exact ⟨ok.1.change h hk, hnames ok.1 ok.2⟩
  | locking name dir lock =>
    exact ⟨ok.1.change h hk, hnames ok.1 ok.2.1,
      fun l hl => ok.2.2 l ((h.shrinks k hk ok.1.critical).2 dir l hl)⟩
  | remove purpose name =>
    cases purpose with
    | clean lock => exact ⟨ok.1.change h hk, ok.2.1.change h hk, hfree ok.1 ok.2.2⟩
    | rollback =>
      obtain ⟨hfd, n, dir, hname, hmakes⟩ := ok
      exact ⟨hfd, n, dir, hname, hmakes.change h hk⟩
    | destroy =>
      obtain ⟨hlinked, m, dir, lock, hname, hrun⟩ := ok
      exact ⟨hlinked, m, dir, lock, hname, hruns rfl hrun⟩
  | removing purpose name dir failed =>
    cases purpose with
    | clean lock =>
      exact ⟨ok.1.change h hk, ok.2.1.change h hk, hfree ok.1 ok.2.2.1,
        fun hother => ok.2.2.2 (hguarded ok.1.critical dir hother)⟩
    | rollback =>
      obtain ⟨hfd, n, hname, hmakes⟩ := ok
      exact ⟨hfd, n, hname, hmakes.change h hk⟩
    | destroy =>
      obtain ⟨m, lock, hname, hrun⟩ := ok
      exact ⟨m, lock, hname, hruns rfl hrun⟩
  | rmdir purpose name =>
    cases purpose with
    | clean lock => exact ⟨ok.1.change h hk, ok.2.1.change h hk, hfree ok.1 ok.2.2⟩
    | rollback =>
      obtain ⟨hfd, n, dir, hname, hmakes⟩ := ok
      exact ⟨hfd, n, dir, hname, hmakes.change h hk⟩
    | destroy =>
      obtain ⟨m, dir, lock, hname, hrun⟩ := ok
      exact ⟨m, dir, lock, hname, hruns rfl hrun⟩
  | finish purpose =>
    cases purpose with
    | clean lock => exact ⟨ok.1.change h hk, ok.2.change h hk⟩
    | rollback => exact ⟨ok.1, h.cleanup k hk ok.2⟩
    | destroy =>
      obtain ⟨m, dir, lock, hrun⟩ := ok
      exact ⟨m, dir, lock, hruns rfl hrun⟩
  | makeDir => exact Clean.change h hk ok
  | openDir n m =>
    obtain ⟨hfd, dir, hmakes⟩ := ok
    exact ⟨hfd, dir, hmakes.change h hk⟩
  | makeMarker n m dir => exact ⟨ok.1, ok.2.change h hk⟩
  | makeData n m dir => exact ⟨ok.1, ok.2.change h hk⟩
  | makeLock n m dir => exact ⟨ok.1, ok.2.change h hk⟩
  | lockSession n m dir =>
    obtain ⟨hmakes, lock, hfd, hlock⟩ := ok
    exact ⟨hmakes.change h hk, lock, hfd, hlockOf rfl hmakes hlock⟩
  | rename n m dir =>
    obtain ⟨hmakes, lock, hfd, hlock, hheld⟩ := ok
    exact ⟨hmakes.change h hk, lock, hfd, hlockOf rfl hmakes hlock, (h.locks k lock hk).mpr hheld⟩
  | closeFailed n =>
    obtain ⟨dir, hmakes⟩ := ok
    exact ⟨dir, hmakes.change h hk⟩
  | release okay =>
    refine ⟨h.cleanup k hk ok.1, ?_⟩
    cases okay with
    | false => exact ok.2
    | true =>
      obtain ⟨hlinked, m, dir, lock, hrun⟩ := ok.2
      exact ⟨hlinked, m, dir, lock, hruns rfl hrun⟩
  | prepared =>
    obtain ⟨hlinked, m, dir, lock, hrun⟩ := ok
    exact ⟨hlinked, m, dir, lock, hruns rfl hrun⟩
  | running =>
    obtain ⟨hlinked, m, dir, lock, hrun⟩ := ok
    exact ⟨hlinked, m, dir, lock, hruns rfl hrun⟩
  | closeLock =>
    obtain ⟨m, dir, lock, hrun⟩ := ok
    exact ⟨m, dir, lock, hruns rfl hrun⟩
  | done => exact ok
  | crashed => exact fun l hl => ok l ((h.locks k l hk).mp hl)

end Others

/-! ## The move of one party -/

theorem guardedByOther_set (hj : s.parties[j]? = some p)
    (hlive : p'.pc.live = true → p.pc.live = true)
    (hlinked : p'.unlinked = false → p.unlinked = false)
    (hmade : p'.created = some dir → p.created = some dir)
    (h : ({ t with parties := s.parties.set j p' }).GuardedByOther k dir) :
    s.GuardedByOther k dir := by
  obtain ⟨i, q, hi, hq, hguards⟩ := h
  have hlt : j < s.parties.length := (List.getElem?_eq_some_iff.mp hj).1
  by_cases hij : j = i
  · subst hij
    rw [List.getElem?_set_self hlt] at hq
    cases hq
    exact ⟨j, p, hi, hj, hmade hguards.created, hlive hguards.live, hlinked hguards.linked⟩
  · rw [List.getElem?_set_ne hij] at hq
    exact ⟨i, q, hi, hq, hguards⟩

theorem guardedByOther_self
    (h : ({ t with parties := s.parties.set j p' }).GuardedByOther j dir) :
    s.GuardedByOther j dir := by
  obtain ⟨i, q, hi, hq, hguards⟩ := h
  rw [show ({ t with parties := s.parties.set j p' } : SwapRoot).parties[i]? = s.parties[i]? from
    List.getElem?_set_ne (Ne.symm hi)] at hq
  exact ⟨i, q, hi, hq, hguards⟩

/-- One party moves, and may make a directory under `cleanup.lock`; the others still know what they
knew. -/
theorem Inv.moveTo (inv : s.Inv) (hj : s.parties[j]? = some p) (hchange : Change s t j)
    (hlive : p'.pc.live = true → p.pc.live = true)
    (hmade : ∀ dir, p'.created = some dir → p.created = some dir ∨
      s.dirs.length ≤ dir ∧ dir < t.dirs.length ∧ s.cleanupLock = some j)
    (hlinked : p'.unlinked = false → p.unlinked = false)
    (hown : ({ t with parties := s.parties.set j p' }).PartyOk j p' p'.pc) :
    ({ t with parties := s.parties.set j p' }).Inv := by
  have hlt : j < s.parties.length := (List.getElem?_eq_some_iff.mp hj).1
  -- who has made a directory had made it before, or it is the new one of the party that moves
  have hold : ∀ (i : Nat) (q : Party) dir, (s.parties.set j p')[i]? = some q →
      q.created = some dir → (∃ q₀ : Party, s.parties[i]? = some q₀ ∧ q₀.created = some dir) ∨
        i = j ∧ s.dirs.length ≤ dir ∧ dir < t.dirs.length := by
    intro i q dir hq hcreated
    by_cases hij : j = i
    · subst hij
      rw [List.getElem?_set_self hlt] at hq
      cases hq
      rcases hmade dir hcreated with hmade | ⟨hle, hnew, -⟩
      · exact .inl ⟨p, hj, hmade⟩
      · exact .inr ⟨rfl, hle, hnew⟩
    · rw [List.getElem?_set_ne hij] at hq
      exact .inl ⟨q, hq, hcreated⟩
  refine ⟨hchange.named, fun i q dir hq hcreated => ?_,
    fun i k q₁ q₂ dir h₁ h₂ hcreated₁ hcreated₂ => ?_, fun i q hq => ?_⟩
  · rcases hold i q dir hq hcreated with ⟨q₀, hq₀, hcreated₀⟩ | ⟨-, -, hnew⟩
    · exact Nat.lt_of_lt_of_le (inv.made i q₀ dir hq₀ hcreated₀) hchange.length
    · exact hnew
  · rcases hold i q₁ dir h₁ hcreated₁ with ⟨q₃, hq₃, h₃⟩ | ⟨hi, hle, -⟩
    · rcases hold k q₂ dir h₂ hcreated₂ with ⟨q₄, hq₄, h₄⟩ | ⟨-, hle, -⟩
      · exact inv.distinct i k q₃ q₄ dir hq₃ hq₄ h₃ h₄
      · have hlt := inv.made i q₃ dir hq₃ h₃
        omega
    · rcases hold k q₂ dir h₂ hcreated₂ with ⟨q₄, hq₄, h₄⟩ | ⟨hk, -, -⟩
      · have hlt := inv.made k q₄ dir hq₄ h₄
        omega
      · rw [hi, hk]
  · by_cases hij : j = i
    · subst hij
      rw [List.getElem?_set_self hlt] at hq
      cases hq
      exact hown
    · rw [List.getElem?_set_ne hij] at hq
      have hchange' : Change s { t with parties := s.parties.set j p' } j :=
        ⟨hchange.length, hchange.named, hchange.cleanup, hchange.locks, hchange.guarded,
          hchange.shrinks⟩
      refine PartyOk.change hchange' (Ne.symm hij) hq (fun hcritical dir => ?_) (inv.parties i q hq)
      refine guardedByOther_set hj hlive hlinked fun hcreated => ?_
      rcases hmade dir hcreated with hmade | ⟨-, -, hmine⟩
      · exact hmade
      · rw [hcritical] at hmine
        exact absurd (Option.some.inj hmine).symm hij

theorem Inv.move (inv : s.Inv) (hj : s.parties[j]? = some p) (hchange : Change s t j)
    (hlive : p.pc.live = true) (hcreated : p'.created = p.created)
    (hlinked : p'.unlinked = false → p.unlinked = false)
    (hown : ({ t with parties := s.parties.set j p' }).PartyOk j p' p'.pc) :
    ({ t with parties := s.parties.set j p' }).Inv :=
  inv.moveTo hj hchange (fun _ => hlive) (fun _ h => .inl (hcreated ▸ h)) hlinked hown

/-! ## The changes -/

theorem Inv.same (inv : s.Inv) (j : Nat) : Change s s j :=
  ⟨Nat.le_refl _, inv.named, fun _ _ h => h, fun _ _ _ => Iff.rfl, fun _ _ => ⟨rfl, fun _ _ h => h⟩,
    fun _ _ _ => ⟨fun _ _ h => h, fun _ _ h => h⟩⟩

theorem Inv.acquire (inv : s.Inv) (j : Nat) (hfree : s.cleanupLock = none) :
    Change s { s with cleanupLock := some j } j := by
  refine ⟨Nat.le_refl _, inv.named, fun k _ h => ?_, fun _ _ _ => Iff.rfl, fun _ _ => ⟨rfl, fun _ _ h => h⟩,
    fun k _ h => ?_⟩ <;>
  · rw [hfree] at h
    cases h

theorem Inv.release (inv : s.Inv) (j : Nat) : Change s
    { s with cleanupLock := if s.cleanupLock = some j then none else s.cleanupLock } j := by
  refine ⟨Nat.le_refl _, inv.named, fun k hk h => ?_, fun _ _ _ => Iff.rfl, fun _ _ => ⟨rfl, fun _ _ h => h⟩,
    fun _ _ _ => ⟨fun _ _ h => h, fun _ _ h => h⟩⟩
  have hne : s.cleanupLock ≠ some j := by
    rw [h]
    exact fun heq => hk (Option.some.inj heq)
  simp only [if_neg hne]
  exact h

theorem Inv.takeLock (inv : s.Inv) (j : Nat) (hfree : s.locks lock = none) :
    Change s { s with locks := Function.update s.locks lock (some j) } j := by
  refine ⟨Nat.le_refl _, inv.named, fun _ _ h => h, fun k l hk => ?_, fun _ _ => ⟨rfl, fun _ _ h => h⟩,
    fun _ _ _ => ⟨fun _ _ h => h, fun _ _ h => h⟩⟩
  by_cases hl : l = lock
  · subst hl
    simp only [Function.update_self, hfree, Option.some.injEq, reduceCtorEq, iff_false]
    exact Ne.symm hk
  · simp only [Function.update_of_ne hl]

theorem close_locks (fd : Option Nat) (hk : k ≠ j) (l : Nat) :
    (s.close j fd).locks l = some k ↔ s.locks l = some k := by
  cases fd with
  | none => rfl
  | some lock =>
    by_cases hheld : s.locks lock = some j
    · simp only [close, if_pos hheld]
      by_cases hl : l = lock
      · subst hl
        simp only [Function.update_self, hheld, Option.some.injEq, reduceCtorEq, false_iff]
        exact Ne.symm hk
      · simp only [Function.update_of_ne hl]
    · simp only [close, if_neg hheld]

theorem close_eq (j : Nat) (fd : Option Nat) :
    ∃ locks, s.close j fd = { s with locks } := by
  cases fd with
  | none => exact ⟨s.locks, rfl⟩
  | some lock =>
    simp only [close]
    split
    · exact ⟨_, rfl⟩
    · exact ⟨s.locks, rfl⟩

theorem Inv.close (inv : s.Inv) (j : Nat) (fd : Option Nat) : Change s (s.close j fd) j := by
  obtain ⟨locks, heq⟩ := close_eq (s := s) j fd
  have hlocks : ∀ k l, k ≠ j → ((s.close j fd).locks l = some k ↔ s.locks l = some k) :=
    fun k l hk => close_locks fd hk l
  rw [heq] at hlocks ⊢
  exact ⟨Nat.le_refl _, inv.named, fun _ _ h => h, hlocks, fun _ _ => ⟨rfl, fun _ _ h => h⟩,
    fun _ _ _ => ⟨fun _ _ h => h, fun _ _ h => h⟩⟩

theorem Inv.dropLocks (inv : s.Inv) (j : Nat) : Change s (s.dropLocks j) j := by
  obtain ⟨-, -, hcleanup, -, -, -⟩ := inv.release j
  refine ⟨Nat.le_refl _, inv.named, hcleanup, fun k l hk => ?_, fun _ _ => ⟨rfl, fun _ _ h => h⟩,
    fun _ _ _ => ⟨fun _ _ h => h, fun _ _ h => h⟩⟩
  simp only [SwapRoot.dropLocks]
  split
  · next hheld =>
    rw [hheld]
    simp only [reduceCtorEq, Option.some.injEq, false_iff]
    exact Ne.symm hk
  · rfl

theorem lockOf_modifyDir (s : SwapRoot) (dir : Nat) (f : SessionDir → SessionDir) (d : Nat) :
    (s.modifyDir dir f).lockOf d = if dir = d then (s.dirs[d]?).bind fun x => (f x).lock else s.lockOf d := by
  simp only [lockOf, modifyDir, List.getElem?_modify]
  split
  · exact Option.bind_map
  · simp

theorem length_modifyDir (inv : s.Inv) (name : SessionName) (d : Nat) (h : s.names name = some d) :
    d < (s.modifyDir dir f).dirs.length := by
  have hnamed := inv.named name d h
  rwa [modifyDir, List.length_modify]

theorem lockOf_modifyDir_keep (s : SwapRoot) (dir : Nat) (hf : ∀ d, (f d).lock = d.lock) (d : Nat) :
    (s.modifyDir dir f).lockOf d = s.lockOf d := by
  rw [lockOf_modifyDir]
  split
  · simp only [hf, lockOf]
  · rfl

theorem Inv.makeDir (inv : s.Inv) (j n : Nat) (hcritical : s.cleanupLock = some j) :
    Change s { s with
      names := Function.update s.names (.creating n) (some s.dirs.length)
      dirs := s.dirs ++ [{}] } j := by
  refine ⟨by simp, fun name dir h => ?_, fun _ _ h => h, fun _ _ _ => Iff.rfl,
    fun dir hguarded => ⟨?_, fun m _ h => ?_⟩, fun k hk hcleanup => ?_⟩
  · simp only [List.length_append, List.length_singleton]
    by_cases heq : name = .creating n
    · subst heq
      simp only [Function.update_self, Option.some.injEq] at h
      omega
    · simp only [Function.update_of_ne heq] at h
      have hlt := inv.named name dir h
      omega
  · obtain ⟨i, q, -, hq, hguards⟩ := hguarded
    have hlt := inv.made i q dir hq hguards.created
    simp only [lockOf, List.getElem?_append_left hlt]
  · have hne : SessionName.session m ≠ .creating n := nofun
    simp only [Function.update_of_ne hne]
    exact h
  · rw [hcritical] at hcleanup
    exact absurd (Option.some.inj hcleanup).symm hk

theorem Inv.modifyDir (inv : s.Inv) (j dir : Nat) (hf : ∀ d, (f d).lock = d.lock) :
    Change s (s.modifyDir dir f) j := by
  have hlockOf : ∀ d, (s.modifyDir dir f).lockOf d = s.lockOf d := lockOf_modifyDir_keep s dir hf
  exact ⟨Nat.le_of_eq (List.length_modify ..).symm, length_modifyDir inv, fun _ _ h => h,
    fun _ _ _ => Iff.rfl, fun _ _ => ⟨hlockOf _, fun _ _ h => h⟩,
    fun _ _ _ => ⟨fun _ _ h => h, fun d l h => hlockOf d ▸ h⟩⟩

theorem Inv.modifyOwnDir (inv : s.Inv) (j : Nat) (hmine : ¬ s.GuardedByOther j dir)
    (hf : (∀ d, s.dirs[dir]? = some d → (f d).lock = none ∨ (f d).lock = d.lock) ∨
      s.cleanupLock = some j) : Change s (s.modifyDir dir f) j := by
  refine ⟨Nat.le_of_eq (List.length_modify ..).symm, length_modifyDir inv, fun _ _ h => h,
    fun _ _ _ => Iff.rfl, fun d hguarded => ⟨?_, fun _ _ h => h⟩, fun k hk hcleanup => ⟨fun _ _ h => h, fun d l h => ?_⟩⟩
  · have hne : dir ≠ d := fun heq => hmine (heq ▸ hguarded)
    rw [lockOf_modifyDir, if_neg hne]
  · rcases hf with hf | hf
    · rw [lockOf_modifyDir] at h
      split at h
      · next heq =>
        subst heq
        obtain ⟨x, hx, hl⟩ := Option.bind_eq_some_iff.mp h
        rcases hf x hx with hnone | hsame
        · rw [hnone] at hl
          cases hl
        · rw [lockOf, hx]
          exact hsame.symm.trans hl
      · exact h
    · rw [hf] at hcleanup
      exact absurd (Option.some.inj hcleanup).symm hk

theorem Inv.rmdir (inv : s.Inv) (j : Nat) {name : SessionName} {d : SessionDir}
    (hname : (s.names name).bind (fun dir => s.dirs[dir]?) = some d) (hempty : d.isEmpty = true) :
    Change s { s with names := Function.update s.names name none } j := by
  have hsub : ∀ name' dir, Function.update s.names name none name' = some dir →
      s.names name' = some dir := by
    intro name' dir h
    by_cases heq : name' = name
    · subst heq
      rw [Function.update_self] at h
      cases h
    · rwa [Function.update_of_ne heq] at h
  refine ⟨Nat.le_refl _, fun name' dir h => inv.named name' dir (hsub name' dir h), fun _ _ h => h,
    fun _ _ _ => Iff.rfl, fun dir _ => ⟨rfl, fun m hlock h => ?_⟩,
    fun _ _ _ => ⟨hsub, fun _ _ h => h⟩⟩
  have hne : SessionName.session m ≠ name := by
    rintro rfl
    rw [h, Option.bind_some] at hname
    rw [lockOf, hname] at hlock
    simp only [SessionDir.isEmpty, Bool.and_eq_true, Option.isNone_iff_eq_none] at hempty
    rw [Option.bind_some, hempty.1.2] at hlock
    cases hlock
  simp only [Function.update_of_ne hne]
  exact h

/-- A directory moves to its final name, in place of an empty one at most. -/
theorem Inv.rename (inv : s.Inv) (j : Nat) {n m : Nat} (hcritical : s.cleanupLock = some j)
    (hname : s.names (.creating n) = some dir)
    (hempty : (((s.names (.session m)).bind fun d => s.dirs[d]?).map SessionDir.isEmpty).getD true =
      true) :
    Change s { s with
      names := Function.update (Function.update s.names (.creating n) none) (.session m)
        (some dir) } j := by
  refine ⟨Nat.le_refl _, fun name' dir' h => ?_, fun _ _ h => h, fun _ _ _ => Iff.rfl,
    fun dir' _ => ⟨rfl, fun m' hlock h => ?_⟩, fun k hk hcleanup => ?_⟩
  · by_cases heq : name' = .session m
    · subst heq
      simp only [Function.update_self, Option.some.injEq] at h
      exact h ▸ inv.named _ dir hname
    · simp only [Function.update_of_ne heq] at h
      by_cases heq' : name' = .creating n
      · subst heq'
        rw [Function.update_self] at h
        cases h
      · rw [Function.update_of_ne heq'] at h
        exact inv.named name' dir' h
  · have hne : m' ≠ m := by
      rintro rfl
      rw [h, Option.bind_some] at hempty
      rw [lockOf] at hlock
      cases hd : s.dirs[dir']? with
      | none =>
        rw [hd] at hlock
        cases hlock
      | some d =>
        rw [hd] at hempty hlock
        simp only [Option.map_some, Option.getD_some, SessionDir.isEmpty, Bool.and_eq_true,
          Option.isNone_iff_eq_none] at hempty
        rw [Option.bind_some, hempty.1.2] at hlock
        cases hlock
    have hname' : SessionName.session m' ≠ .session m := fun heq => hne (SessionName.session.inj heq)
    simp only [Function.update_of_ne hname']
    have hother : SessionName.session m' ≠ .creating n := nofun
    rw [Function.update_of_ne hother]
    exact h
  · rw [hcritical] at hcleanup
    exact absurd (Option.some.inj hcleanup).symm hk

/-! ## Every step -/

section Steps

variable {event : SessionEvent} {ps : List Party}

theorem getElem?_concat {q : Party} (h : (ps ++ [q])[k]? = some p) :
    ps[k]? = some p ∨ k = ps.length ∧ p = q := by
  rcases Nat.lt_or_ge k ps.length with hlt | hge
  · rw [List.getElem?_append_left hlt] at h
    exact .inl h
  · rw [List.getElem?_append_right hge, List.getElem?_singleton] at h
    split at h
    · exact .inr ⟨by omega, (Option.some.inj h).symm⟩
    · cases h

theorem Inv.mine (inv : s.Inv) (hj : s.parties[j]? = some p) (hcreated : p.created = some dir) :
    ¬ s.GuardedByOther j dir := by
  rintro ⟨i, q, hi, hq, hguards⟩
  exact hi (inv.distinct i j q p dir hq hj hguards.created hcreated)

/-- While a cleaner holds `cleanup.lock`, a directory whose lock file it does not find, or can
lock, is not guarded. -/
theorem Inv.not_guarded (inv : s.Inv) (hcritical : s.cleanupLock = some j)
    (hlock : ∀ l, s.lockOf dir = some l → s.locks l = none ∨ s.locks l = some j) :
    ¬ s.GuardedByOther j dir := by
  rintro ⟨i, q, hi, hq, hcreated, hlive, hlinked⟩
  have hnot : s.cleanupLock ≠ some i := by
    rw [hcritical]
    exact fun heq => hi (Option.some.inj heq).symm
  have hruns : ∀ {m d lock}, ¬ s.Runs i q m d lock := by
    intro m d lock hrun
    obtain rfl : d = dir := Option.some.inj (hrun.created.symm.trans hcreated)
    rcases hlock lock (hrun.linked hlinked).1 with hnone | hmine
    · rw [hrun.locked] at hnone
      cases hnone
    · rw [hrun.locked] at hmine
      exact hi (Option.some.inj hmine)
  have ok := inv.parties i q hq
  generalize hpc : q.pc = pc at ok hlive
  cases pc with
  | acquire =>
    rw [ok.1] at hcreated
    cases hcreated
  | scan => exact hnot ok.critical
  | opened name d => exact hnot ok.1.critical
  | marked name d => exact hnot ok.1.critical
  | locking name d l => exact hnot ok.1.critical
  | remove purpose name =>
    cases purpose with
    | clean l => exact hnot ok.1.critical
    | rollback =>
      obtain ⟨-, n, d, -, hmakes⟩ := ok
      exact hnot hmakes.critical
    | destroy =>
      obtain ⟨-, m, d, l, -, hrun⟩ := ok
      exact hruns hrun
  | removing purpose name d failed =>
    cases purpose with
    | clean l => exact hnot ok.1.critical
    | rollback =>
      obtain ⟨-, n, -, hmakes⟩ := ok
      exact hnot hmakes.critical
    | destroy =>
      obtain ⟨m, l, -, hrun⟩ := ok
      exact hruns hrun
  | rmdir purpose name =>
    cases purpose with
    | clean l => exact hnot ok.1.critical
    | rollback =>
      obtain ⟨-, n, d, -, hmakes⟩ := ok
      exact hnot hmakes.critical
    | destroy =>
      obtain ⟨m, d, l, -, hrun⟩ := ok
      exact hruns hrun
  | finish purpose =>
    cases purpose with
    | clean l => exact hnot ok.1.critical
    | rollback => exact hnot ok.2
    | destroy =>
      obtain ⟨m, d, l, hrun⟩ := ok
      exact hruns hrun
  | makeDir => exact hnot ok.critical
  | openDir n m =>
    obtain ⟨-, d, hmakes⟩ := ok
    exact hnot hmakes.critical
  | makeMarker n m d => exact hnot ok.2.critical
  | makeData n m d => exact hnot ok.2.critical
  | makeLock n m d => exact hnot ok.2.critical
  | lockSession n m d => exact hnot ok.1.critical
  | rename n m d => exact hnot ok.1.critical
  | closeFailed n =>
    obtain ⟨d, hmakes⟩ := ok
    exact hnot hmakes.critical
  | release okay => exact hnot ok.1
  | prepared =>
    obtain ⟨-, m, d, l, hrun⟩ := ok
    exact hruns hrun
  | running =>
    obtain ⟨-, m, d, l, hrun⟩ := ok
    exact hruns hrun
  | closeLock =>
    obtain ⟨m, d, l, hrun⟩ := ok
    exact hruns hrun
  | done => cases hlive
  | crashed => cases hlive

theorem Clean.of_eq (ok : s.Clean j p) (hcleanup : t.cleanupLock = s.cleanupLock)
    (hcreated : p'.created = p.created) (hfd : p'.sessionLockFd = p.sessionLockFd)
    (hlinked : p.unlinked = false → p'.unlinked = false) : t.Clean j p' :=
  ⟨hcleanup.trans ok.critical, hcreated.trans ok.created, hfd.trans ok.lockFd, hlinked ok.linked⟩

/-- A step of a cleaner up to its decision. -/
theorem stepClean_inv (inv : s.Inv) (hj : s.parties[j]? = some p)
    (hstep : s.stepClean j p p.pc event = some (t, p')) :
    ({ t with parties := s.parties.set j p' }).Inv := by
  have ok := inv.parties j p hj
  generalize hpc : p.pc = pc at ok hstep
  have hlive : pc.live = true → p.pc.live = true := fun h => hpc ▸ h
  unfold stepClean at hstep
  split at hstep
  · split at hstep
    · next hfree =>
      cases hstep
      exact inv.move hj (inv.acquire j (Option.isNone_iff_eq_none.mp hfree)) (hlive rfl) rfl id
        ⟨rfl, ok.1, ok.2.1, ok.2.2⟩
    · cases hstep
  · cases hstep
    exact inv.move hj (inv.same j) (hlive rfl) rfl id ok.2.1
  · split at hstep
    · cases hstep
      refine inv.move hj (inv.same j) (hlive rfl) rfl id ?_
      rw [hpc]
      exact Clean.of_eq ok rfl rfl rfl id
    · next hname =>
      cases hstep
      refine inv.move hj (inv.same j) (hlive rfl) rfl id ⟨Clean.of_eq ok rfl rfl rfl id, fun d hd => ?_⟩
      exact Option.some.inj (hd.symm.trans hname)
  · cases hstep
    refine inv.move hj (inv.same j) (hlive rfl) rfl id ?_
    cases p.creates with
    | false => exact ⟨ok.critical, ok.lockFd⟩
    | true => exact Clean.of_eq ok rfl rfl rfl id
  · cases hstep
    exact inv.move hj (inv.same j) (hlive rfl) rfl id ⟨ok.critical, ok.lockFd⟩
  · split at hstep
    · cases hstep
      exact inv.move hj (inv.same j) (hlive rfl) rfl id (Clean.of_eq ok.1 rfl rfl rfl id)
    · cases hstep
      exact inv.move hj (inv.same j) (hlive rfl) rfl id ⟨Clean.of_eq ok.1 rfl rfl rfl id, ok.2⟩
  · cases hstep
    exact inv.move hj (inv.same j) (hlive rfl) rfl id (Clean.of_eq ok.1 rfl rfl rfl id)
  · next name dir =>
    split at hstep
    · next hnone =>
      cases hstep
      refine inv.move hj (inv.same j) (hlive rfl) rfl id
        ⟨Clean.of_eq ok.1 rfl rfl rfl id, trivial, fun d hd hother => ?_⟩
      obtain rfl := ok.2 d hd
      refine inv.not_guarded ok.1.critical (fun l hl => ?_) (guardedByOther_self hother)
      rw [hnone] at hl
      cases hl
    · next lock hlock =>
      cases hstep
      refine inv.move hj (inv.same j) (hlive rfl) rfl id
        ⟨Clean.of_eq ok.1 rfl rfl rfl id, ok.2, fun l hl => ?_⟩
      exact Option.some.inj (hl.symm.trans hlock)
  · cases hstep
    exact inv.move hj (inv.same j) (hlive rfl) rfl id (Clean.of_eq ok.1 rfl rfl rfl id)
  · next name dir lock =>
    split at hstep
    · next hfree =>
      cases hstep
      have hfree := Option.isNone_iff_eq_none.mp hfree
      refine inv.move hj (inv.takeLock j hfree) (hlive rfl) rfl id
        ⟨Clean.of_eq ok.1 rfl rfl rfl id, Function.update_self .., fun d hd hother => ?_⟩
      obtain rfl := ok.2.1 d hd
      refine inv.not_guarded ok.1.critical (fun l hl => ?_) (guardedByOther_self hother)
      obtain rfl := ok.2.2 l hl
      exact .inl hfree
    · cases hstep
      exact inv.move hj (inv.same j) (hlive rfl) rfl id (Clean.of_eq ok.1 rfl rfl rfl id)
  · cases hstep
    exact inv.move hj (inv.same j) (hlive rfl) rfl id (Clean.of_eq ok.1 rfl rfl rfl id)
  · cases hstep

theorem HoldsLock.of_eq {l : Option Nat} (ok : s.HoldsLock j l) (hlocks : t.locks = s.locks) :
    t.HoldsLock j l := by
  cases l with
  | none => trivial
  | some l => exact (congrFun hlocks l).trans ok

theorem Makes.of_eq {n : Nat} (ok : s.Makes j p n dir) (hcleanup : t.cleanupLock = s.cleanupLock)
    (hcreated : p'.created = p.created) (hlinked : p.unlinked = false → p'.unlinked = false)
    (hnames : ∀ d, t.names (.creating n) = some d → s.names (.creating n) = some d) :
    t.Makes j p' n dir :=
  ⟨hcleanup.trans ok.critical, hcreated.trans ok.created, hlinked ok.linked,
    fun d hd => ok.named d (hnames d hd)⟩

theorem Runs.of_eq {m : Nat} (ok : s.Runs j p m dir lock) (hcreated : p'.created = p.created)
    (hpath : p'.sessionPath = p.sessionPath) (hfd : p'.sessionLockFd = p.sessionLockFd)
    (hlocks : t.locks = s.locks)
    (hlinked : p'.unlinked = false → p.unlinked = false ∧ t.lockOf dir = s.lockOf dir ∧
      (s.names (.session m) = some dir → t.names (.session m) = some dir)) :
    t.Runs j p' m dir lock := by
  refine ⟨hcreated.trans ok.created, hpath.trans ok.path, hfd.trans ok.lockFd,
    hlocks ▸ ok.locked, fun h => ?_⟩
  obtain ⟨hlinked, hlockOf, hnames⟩ := hlinked h
  obtain ⟨hlock, hname⟩ := ok.linked hlinked
  exact ⟨hlockOf.trans hlock, hnames hname⟩

variable {pc : SessionPc}

theorem Runs.same {m : Nat} (ok : s.Runs j p m dir lock) :
    ({ s with parties := ps }).Runs j { p with pc } m dir lock :=
  Runs.of_eq ok rfl rfl rfl rfl fun h => ⟨h, rfl, id⟩

theorem Makes.same {n : Nat} (ok : s.Makes j p n dir) :
    ({ s with parties := ps }).Makes j { p with pc } n dir :=
  Makes.of_eq ok rfl rfl id fun _ h => h

theorem PartyOk.finish {purpose : Purpose} (ok : s.PartyOk j p pc)
    (hpurpose : pc.purpose = some purpose) : s.PartyOk j p (.finish purpose) := by
  cases pc with
  | remove purpose' name =>
    cases hpurpose
    cases purpose with
    | clean l => exact ⟨ok.1, ok.2.1⟩
    | rollback =>
      obtain ⟨hfd, n, d, -, hmakes⟩ := ok
      exact ⟨hfd, hmakes.critical⟩
    | destroy =>
      obtain ⟨-, m, d, l, -, hrun⟩ := ok
      exact ⟨m, d, l, hrun⟩
  | removing purpose' name d failed =>
    cases hpurpose
    cases purpose with
    | clean l => exact ⟨ok.1, ok.2.1⟩
    | rollback =>
      obtain ⟨hfd, n, -, hmakes⟩ := ok
      exact ⟨hfd, hmakes.critical⟩
    | destroy =>
      obtain ⟨m, l, -, hrun⟩ := ok
      exact ⟨m, d, l, hrun⟩
  | rmdir purpose' name =>
    cases hpurpose
    cases purpose with
    | clean l => exact ⟨ok.1, ok.2.1⟩
    | rollback =>
      obtain ⟨hfd, n, d, -, hmakes⟩ := ok
      exact ⟨hfd, hmakes.critical⟩
    | destroy =>
      obtain ⟨m, d, l, -, hrun⟩ := ok
      exact ⟨m, d, l, hrun⟩
  | _ => cases hpurpose

theorem finish_same {purpose : Purpose} (ok : s.PartyOk j p (.finish purpose)) :
    ({ s with parties := ps }).PartyOk j { p with pc } (.finish purpose) := by
  cases purpose with
  | clean l =>
    exact ⟨Clean.of_eq ok.1 rfl rfl rfl id, HoldsLock.of_eq ok.2 rfl⟩
  | rollback => exact ok
  | destroy =>
    obtain ⟨m, d, l, hrun⟩ := ok
    exact ⟨m, d, l, hrun.same⟩

theorem unlink_lock {d d' : SessionDir} {e : DirEntry} (h : d.unlink e = some d') :
    (d'.lock = none ∨ d'.lock = d.lock) ∧ (e ≠ .lock → d'.lock = d.lock) := by
  cases e <;> simp only [SessionDir.unlink, Option.ite_none_right_eq_some, Option.some.injEq] at h <;>
    obtain ⟨-, rfl⟩ := h <;> simp

theorem Inv.toFinish (inv : s.Inv) (hj : s.parties[j]? = some p) {purpose : Purpose}
    (hpurpose : p.pc.purpose = some purpose) :
    ({ s with parties := s.parties.set j { p with pc := .finish purpose } }).Inv := by
  have hlive : p.pc.live = true := by
    cases hpc : p.pc <;> rw [hpc] at hpurpose <;> first | rfl | cases hpurpose
  exact inv.move hj (inv.same j) hlive rfl id (finish_same ((inv.parties j p hj).finish hpurpose))

/-- A step of the removal of a tree. -/
theorem stepRemove_inv (inv : s.Inv) (hj : s.parties[j]? = some p)
    (hstep : s.stepRemove j p p.pc event = some (t, p')) :
    ({ t with parties := s.parties.set j p' }).Inv := by
  have ok := inv.parties j p hj
  generalize hpc : p.pc = pc at ok hstep
  have hlive : pc.live = true → p.pc.live = true := fun h => hpc ▸ h
  unfold stepRemove at hstep
  split at hstep
  · next purpose name =>
    split at hstep
    · cases hstep
      exact inv.toFinish hj (by rw [hpc]; rfl)
    · next dir hname =>
      cases hstep
      refine inv.move hj (inv.same j) (hlive rfl) rfl id ?_
      cases purpose with
      | clean l =>
        exact ⟨Clean.of_eq ok.1 rfl rfl rfl id, HoldsLock.of_eq ok.2.1 rfl,
          fun d hd hother => ok.2.2 d hd (guardedByOther_self hother),
          fun hother => ok.2.2 dir hname (guardedByOther_self hother)⟩
      | rollback =>
        obtain ⟨hfd, n, d, rfl, hmakes⟩ := ok
        obtain rfl := hmakes.named dir hname
        exact ⟨hfd, n, rfl, hmakes.same⟩
      | destroy =>
        obtain ⟨hlinked, m, d, l, rfl, hrun⟩ := ok
        obtain rfl : d = dir := Option.some.inj ((hrun.linked hlinked).2.symm.trans hname)
        exact ⟨m, l, rfl, hrun.same⟩
  · cases hstep
    exact inv.toFinish hj (by rw [hpc]; rfl)
  · next purpose name dir failed e =>
    obtain ⟨d', hunlink, heq⟩ := Option.map_eq_some_iff.mp hstep
    cases heq
    obtain ⟨d, hd, hunlink⟩ := Option.bind_eq_some_iff.mp hunlink
    obtain ⟨hgone, hkept⟩ := unlink_lock hunlink
    have hmine : ¬ s.GuardedByOther j dir := by
      cases purpose with
      | clean l => exact ok.2.2.2
      | rollback =>
        obtain ⟨-, n, -, hmakes⟩ := ok
        exact inv.mine hj hmakes.created
      | destroy =>
        obtain ⟨m, l, -, hrun⟩ := ok
        exact inv.mine hj hrun.created
    have hchange := inv.modifyOwnDir (f := fun _ => d') j hmine (.inl fun d₀ hd₀ => by
      obtain rfl := Option.some.inj (hd.symm.trans hd₀)
      exact hgone)
    refine inv.move hj hchange (hlive rfl) rfl (fun h => (Bool.or_eq_false_iff.mp h).1) ?_
    simp only [hpc]
    cases purpose with
    | clean l =>
      exact ⟨Clean.of_eq ok.1 rfl rfl rfl fun h => by simpa using h, HoldsLock.of_eq ok.2.1 rfl,
        fun d₀ hd₀ hother => ok.2.2.1 d₀ hd₀ (guardedByOther_self hother),
        fun hother => ok.2.2.2 (guardedByOther_self hother)⟩
    | rollback =>
      obtain ⟨hfd, n, hname, hmakes⟩ := ok
      exact ⟨hfd, n, hname, Makes.of_eq hmakes rfl rfl (fun h => by simpa using h) fun _ h => h⟩
    | destroy =>
      obtain ⟨m, l, hname, hrun⟩ := ok
      refine ⟨m, l, hname, Runs.of_eq hrun rfl rfl rfl rfl fun h => ?_⟩
      obtain ⟨hlinked, hnot⟩ := Bool.or_eq_false_iff.mp h
      refine ⟨hlinked, ?_, id⟩
      have hne : e ≠ .lock := by
        rintro rfl
        cases hnot
      have hlockOf := lockOf_modifyDir s dir (fun _ => d') dir
      rw [if_pos rfl, hd, Option.bind_some, hkept hne] at hlockOf
      rw [show s.lockOf dir = d.lock by rw [lockOf, hd]; rfl]
      exact hlockOf
  · next purpose name dir failed =>
    cases hstep
    refine inv.move hj (inv.same j) (hlive rfl) rfl id ?_
    cases purpose with
    | clean l =>
      exact ⟨Clean.of_eq ok.1 rfl rfl rfl id, HoldsLock.of_eq ok.2.1 rfl,
        fun d₀ hd₀ hother => ok.2.2.1 d₀ hd₀ (guardedByOther_self hother),
        fun hother => ok.2.2.2 (guardedByOther_self hother)⟩
    | rollback =>
      obtain ⟨hfd, n, hname, hmakes⟩ := ok
      exact ⟨hfd, n, hname, hmakes.same⟩
    | destroy =>
      obtain ⟨m, l, hname, hrun⟩ := ok
      exact ⟨m, l, hname, hrun.same⟩
  · next purpose name dir failed =>
    split at hstep
    · cases hstep
      exact inv.toFinish hj (by rw [hpc]; rfl)
    · cases hstep
      have hchange := inv.modifyDir (f := fun d => { d with marker := false }) j dir fun _ => rfl
      refine inv.move hj hchange (hlive rfl) rfl id ?_
      cases purpose with
      | clean l =>
        exact ⟨Clean.of_eq ok.1 rfl rfl rfl id, HoldsLock.of_eq ok.2.1 rfl,
          fun d₀ hd₀ hother => ok.2.2.1 d₀ hd₀ (guardedByOther_self hother)⟩
      | rollback =>
        obtain ⟨hfd, n, hname, hmakes⟩ := ok
        exact ⟨hfd, n, dir, hname, Makes.of_eq hmakes rfl rfl id fun _ h => h⟩
      | destroy =>
        obtain ⟨m, l, hname, hrun⟩ := ok
        have hkept := lockOf_modifyDir_keep (f := fun d => { d with marker := false }) s dir
          (fun _ => rfl) dir
        exact ⟨m, dir, l, hname, Runs.of_eq hrun rfl rfl rfl rfl fun h => ⟨h, hkept, id⟩⟩
  · next purpose name =>
    split at hstep
    · cases hstep
      exact inv.toFinish hj (by rw [hpc]; rfl)
    · next d hname =>
      split at hstep
      · next hempty =>
        cases hstep
        refine inv.move hj (inv.rmdir j hname hempty) (hlive rfl) rfl id ?_
        cases purpose with
        | clean l => exact ⟨Clean.of_eq ok.1 rfl rfl rfl id, HoldsLock.of_eq ok.2.1 rfl⟩
        | rollback =>
          obtain ⟨hfd, n, dir, -, hmakes⟩ := ok
          exact ⟨hfd, hmakes.critical⟩
        | destroy =>
          obtain ⟨m, dir, l, rfl, hrun⟩ := ok
          refine ⟨m, dir, l, Runs.of_eq hrun rfl rfl rfl rfl fun h => ?_⟩
          -- a directory with its lock file in it is not empty
          obtain ⟨hlock, hdir⟩ := hrun.linked h
          rw [hdir, Option.bind_some] at hname
          rw [lockOf, hname, Option.bind_some] at hlock
          simp [SessionDir.isEmpty, hlock] at hempty
      · cases hstep
        exact inv.toFinish hj (by rw [hpc]; rfl)
  · cases hstep
    exact inv.toFinish hj (by rw [hpc]; rfl)
  · next l =>
    cases hstep
    refine inv.move hj (inv.close j l) (hlive rfl) rfl id ?_
    obtain ⟨locks, heq⟩ := close_eq (s := s) j l
    exact Clean.of_eq ok.1 (by rw [heq]) rfl rfl id
  · cases hstep
    exact inv.move hj (inv.same j) (hlive rfl) rfl id ⟨ok.2, ok.1⟩
  · cases hstep
    obtain ⟨m, dir, l, hrun⟩ := ok
    exact inv.move hj (inv.same j) (hlive rfl) rfl id ⟨m, dir, l, hrun.same⟩
  · cases hstep

theorem Inv.toRollback (inv : s.Inv) (hj : s.parties[j]? = some p) {n : Nat}
    (hlive : p.pc.live = true) (hfd : p.sessionLockFd = none) (hmakes : s.Makes j p n dir) :
    ({ s with parties := s.parties.set j { p with pc := .remove .rollback (.creating n) } }).Inv :=
  inv.move hj (inv.same j) hlive rfl id ⟨hfd, n, dir, rfl, hmakes.same⟩

theorem Inv.toCloseFailed (inv : s.Inv) (hj : s.parties[j]? = some p) {n : Nat}
    (hlive : p.pc.live = true) (hmakes : s.Makes j p n dir) :
    ({ s with parties := s.parties.set j { p with pc := .closeFailed n } }).Inv :=
  inv.move hj (inv.same j) hlive rfl id ⟨dir, hmakes.same⟩

/-- A step of the creation of a session. -/
theorem stepCreate_inv (inv : s.Inv) (hj : s.parties[j]? = some p)
    (hstep : s.stepCreate j p p.pc event = some (t, p')) :
    ({ t with parties := s.parties.set j p' }).Inv := by
  have ok := inv.parties j p hj
  generalize hpc : p.pc = pc at ok hstep
  have hlive : pc.live = true → p.pc.live = true := fun h => hpc ▸ h
  unfold stepCreate at hstep
  split at hstep
  · next n m =>
    split at hstep
    · cases hstep
      exact inv.move hj (inv.same j) (hlive rfl) rfl id ⟨ok.critical, ok.lockFd⟩
    · cases hstep
      refine inv.moveTo hj (inv.makeDir j n ok.critical) (fun _ => hlive rfl) (fun dir hcreated => ?_) id ?_
      · cases hcreated
        exact .inr ⟨Nat.le_refl _, by simp, ok.critical⟩
      · refine ⟨ok.lockFd, s.dirs.length, ok.critical, rfl, ?_, fun d hd => ?_⟩
        · exact ok.linked
        · simp only [Function.update_self, Option.some.injEq] at hd
          exact hd.symm
  · cases hstep
    exact inv.move hj (inv.same j) (hlive rfl) rfl id ⟨ok.critical, ok.lockFd⟩
  · next n m =>
    obtain ⟨hfd, dir, hmakes⟩ := ok
    split at hstep
    · cases hstep
      exact inv.toRollback hj (hlive rfl) hfd hmakes
    · next d hname =>
      cases hstep
      obtain rfl := hmakes.named d hname
      exact inv.move hj (inv.same j) (hlive rfl) rfl id ⟨hfd, hmakes.same⟩
  · obtain ⟨hfd, dir, hmakes⟩ := ok
    cases hstep
    exact inv.toRollback hj (hlive rfl) hfd hmakes
  · next n m dir =>
    split at hstep
    · cases hstep
    · cases hstep
      exact inv.move hj (inv.modifyDir j dir fun _ => rfl) (hlive rfl) rfl id
        ⟨ok.1, Makes.of_eq ok.2 rfl rfl id fun _ h => h⟩
  · cases hstep
    exact inv.toRollback hj (hlive rfl) ok.1 ok.2
  · next n m dir =>
    split at hstep
    · cases hstep
    · cases hstep
      exact inv.move hj (inv.modifyDir j dir fun _ => rfl) (hlive rfl) rfl id
        ⟨ok.1, Makes.of_eq ok.2 rfl rfl id fun _ h => h⟩
  · cases hstep
    exact inv.toRollback hj (hlive rfl) ok.1 ok.2
  · next n m dir =>
    split at hstep
    · cases hstep
    · cases hstep
      have hown := inv.modifyOwnDir (f := fun d => { d with lock := some s.nextLock }) j
        (inv.mine hj ok.2.created) (.inr ok.2.critical)
      have hchange : Change s { s.modifyDir dir fun d => { d with lock := some s.nextLock } with
          nextLock := s.nextLock + 1 } j :=
        ⟨hown.length, hown.named, hown.cleanup, hown.locks, hown.guarded, hown.shrinks⟩
      refine inv.move hj hchange (hlive rfl) rfl id
        ⟨Makes.of_eq ok.2 rfl rfl id fun _ h => h, s.nextLock, rfl, ?_⟩
      have hlockOf := lockOf_modifyDir s dir (fun d => { d with lock := some s.nextLock }) dir
      rw [if_pos rfl, List.getElem?_eq_getElem (inv.made j p dir hj ok.2.created)] at hlockOf
      exact hlockOf
  · cases hstep
    exact inv.toRollback hj (hlive rfl) ok.1 ok.2
  · next n m dir =>
    obtain ⟨hmakes, lock, hfd, hlock⟩ := ok
    split at hstep
    · cases hstep
    · next l hl =>
      obtain rfl : lock = l := Option.some.inj (hfd.symm.trans hl)
      split at hstep
      · next hfree =>
        cases hstep
        exact inv.move hj (inv.takeLock j (Option.isNone_iff_eq_none.mp hfree)) (hlive rfl) rfl id
          ⟨Makes.of_eq hmakes rfl rfl id fun _ h => h, lock, hfd, hlock, Function.update_self ..⟩
      · cases hstep
        exact inv.toCloseFailed hj (hlive rfl) hmakes
  · cases hstep
    exact inv.toCloseFailed hj (hlive rfl) ok.1
  · next n m dir =>
    obtain ⟨hmakes, lock, hfd, hlock, hheld⟩ := ok
    split at hstep
    · cases hstep
      exact inv.toCloseFailed hj (hlive rfl) hmakes
    · next d hname =>
      obtain rfl := hmakes.named d hname
      split at hstep
      · next hempty =>
        cases hstep
        refine inv.move hj (inv.rename j hmakes.critical hname hempty) (hlive rfl) rfl id
          ⟨hmakes.critical, hmakes.linked, m, d, lock, hmakes.created, rfl, hfd, hheld,
            fun _ => ⟨hlock, ?_⟩⟩
        exact Function.update_self ..
      · cases hstep
        exact inv.toCloseFailed hj (hlive rfl) hmakes
  · cases hstep
    exact inv.toCloseFailed hj (hlive rfl) ok.1
  · next n =>
    obtain ⟨dir, hmakes⟩ := ok
    cases hstep
    obtain ⟨locks, heq⟩ := close_eq (s := s) j p.sessionLockFd
    refine inv.move hj (inv.close j p.sessionLockFd) (hlive rfl) rfl id
      ⟨rfl, n, dir, rfl, Makes.of_eq hmakes ?_ rfl id fun d h => ?_⟩
    · rw [heq]
    · rw [heq] at h
      exact h
  · cases hstep

theorem Inv.toDestroy (inv : s.Inv) (hj : s.parties[j]? = some p) (hlive : p.pc.live = true)
    (ok : p.unlinked = false ∧ ∃ m dir lock, s.Runs j p m dir lock) :
    ({ s with parties := s.parties.set j { p with pc := p.removeSessionDir } }).Inv := by
  obtain ⟨hlinked, m, dir, lock, hrun⟩ := ok
  refine inv.move hj (inv.same j) hlive rfl id ?_
  have hpc : p.removeSessionDir = .remove .destroy (.session m) := by
    rw [Party.removeSessionDir, hrun.path]
  simp only [hpc]
  exact ⟨hlinked, m, dir, lock, rfl, hrun.same⟩

theorem stepManager_inv (inv : s.Inv) (hj : s.parties[j]? = some p)
    (hstep : s.stepManager j p p.pc event = some (t, p')) :
    ({ t with parties := s.parties.set j p' }).Inv := by
  have ok := inv.parties j p hj
  generalize hpc : p.pc = pc at ok hstep
  have hlive : pc.live = true → p.pc.live = true := fun h => hpc ▸ h
  unfold stepManager at hstep
  split at hstep
  · next okay =>
    cases hstep
    refine inv.move hj (inv.release j) (hlive rfl) rfl id ?_
    cases okay with
    | false => exact ok.2
    | true =>
      obtain ⟨hlinked, m, dir, lock, hrun⟩ := ok.2
      exact ⟨hlinked, m, dir, lock, Runs.of_eq hrun rfl rfl rfl rfl fun h => ⟨h, rfl, id⟩⟩
  · obtain ⟨hlinked, m, dir, lock, hrun⟩ := ok
    cases hstep
    exact inv.move hj (inv.same j) (hlive rfl) rfl id ⟨hlinked, m, dir, lock, hrun.same⟩
  · cases hstep
    exact inv.toDestroy hj (hlive rfl) ok
  · obtain ⟨hlinked, m, dir, lock, hrun⟩ := ok
    obtain ⟨d, -, heq⟩ := Option.map_eq_some_iff.mp hstep
    cases heq
    have hf : ∀ x : SessionDir, (if x.data then { x with files := x.files + 1 } else x).lock = x.lock := by
      intro x
      split <;> rfl
    refine inv.move hj (inv.modifyDir j d hf) (hlive rfl) rfl id ?_
    rw [hpc]
    exact ⟨hlinked, m, dir, lock, Runs.of_eq hrun rfl rfl rfl rfl fun h =>
      ⟨h, lockOf_modifyDir_keep s d hf dir, id⟩⟩
  · cases hstep
    exact inv.toDestroy hj (hlive rfl) ok
  · obtain ⟨-, m, dir, lock, hrun⟩ := ok
    cases hstep
    exact inv.move hj (inv.same j) (hlive rfl) rfl id ⟨m, dir, lock, hrun.same⟩
  · obtain ⟨m, dir, lock, hrun⟩ := ok
    cases hstep
    exact inv.move hj (inv.close j p.sessionLockFd) (hlive rfl) rfl id rfl
  · cases hstep

theorem stepParty_inv (inv : s.Inv) (hj : s.parties[j]? = some p)
    (hstep : s.stepParty j p event = some (t, p')) :
    ({ t with parties := s.parties.set j p' }).Inv := by
  unfold stepParty at hstep
  split at hstep
  all_goals first
    | exact stepClean_inv inv hj hstep
    | exact stepRemove_inv inv hj hstep
    | exact stepCreate_inv inv hj hstep
    | exact stepManager_inv inv hj hstep
    | cases hstep

theorem step_inv (s : SwapRoot) (a : SessionAction) (t : SwapRoot) (inv : s.Inv) (_ : True)
    (hstep : s.step a = some t) : t.Inv := by
  cases a with
  | start creates =>
    cases hstep
    -- the new party has nothing, so the others see no change
    have hguarded : ∀ k dir,
        ({ s with parties := s.parties ++ [{ creates := creates }] } : SwapRoot).GuardedByOther k dir →
          s.GuardedByOther k dir := by
      rintro k dir ⟨i, q, hi, hq, hguards⟩
      rcases getElem?_concat hq with hq | ⟨-, rfl⟩
      · exact ⟨i, q, hi, hq, hguards⟩
      · cases hguards.created
    have hchange := inv.same s.parties.length
    refine ⟨inv.named, fun i q dir hq hcreated => ?_, fun i k q₁ q₂ dir h₁ h₂ hcreated₁ hcreated₂ => ?_,
      fun i q hq => ?_⟩
    · rcases getElem?_concat hq with hq | ⟨-, rfl⟩
      · exact inv.made i q dir hq hcreated
      · cases hcreated
    · rcases getElem?_concat h₁ with h₁ | ⟨-, rfl⟩
      · rcases getElem?_concat h₂ with h₂ | ⟨-, rfl⟩
        · exact inv.distinct i k q₁ q₂ dir h₁ h₂ hcreated₁ hcreated₂
        · cases hcreated₂
      · cases hcreated₁
    · rcases getElem?_concat hq with hq | ⟨-, rfl⟩
      · have hne : i ≠ s.parties.length := Nat.ne_of_lt (List.getElem?_eq_some_iff.mp hq).1
        have hchange' : Change s { s with parties := s.parties ++ [{ creates := creates }] }
            s.parties.length :=
          ⟨hchange.length, hchange.named, hchange.cleanup, hchange.locks, hchange.guarded,
            hchange.shrinks⟩
        exact PartyOk.change hchange' hne hq (fun _ dir => hguarded i dir) (inv.parties i q hq)
      · exact ⟨rfl, rfl, rfl⟩
  | go i event =>
    simp only [SwapRoot.step] at hstep
    split at hstep
    · cases hstep
    · next p hp =>
      obtain ⟨⟨t₁, p'⟩, hparty, rfl⟩ := Option.map_eq_some_iff.mp hstep
      exact stepParty_inv inv hp hparty
  | crash i =>
    simp only [SwapRoot.step] at hstep
    split at hstep
    · cases hstep
    · next p hp =>
      cases hstep
      refine inv.moveTo hp (inv.dropLocks i) (fun h => by cases h) (fun _ h => .inl h) id fun l h => ?_
      simp only [SwapRoot.dropLocks] at h
      split at h
      · cases h
      · next hne => exact hne h

end Steps

/-! ## Every run -/

/-- The directory in which, or the one that, a cleaner removes something with this event. -/
def cleanerRemoves (s : SwapRoot) (i : Nat) (event : SessionEvent) : Option Nat :=
  match (s.parties[i]?).map Party.pc, event with
  | some (.removing (.clean _) _ dir _), .unlink _ => some dir
  | some (.removing (.clean _) _ dir failed), .ok => if failed then none else some dir
  | some (.rmdir (.clean _) name), .ok => s.names name
  | _, _ => none

/-- When a cleaner removes something, the manager that has made the directory is not in its
`Init`, and if it still holds its session lock, it has removed its lock file itself. -/
def CleanerSafe (s : SwapRoot) : Prop :=
  ∀ i event t dir j p, s.step (.go i event) = some t → s.cleanerRemoves i event = some dir →
    s.parties[j]? = some p → p.created = some dir →
    p.initialising = false ∧
      ((∃ lock, p.sessionLockFd = some lock ∧ s.locks lock = some j) → p.unlinked = true)

/-- The start: any directories with any names, and nobody there. -/
structure Unattended (s : SwapRoot) : Prop where
  named : ∀ name dir, s.names name = some dir → dir < s.dirs.length
  cleanup : s.cleanupLock = none
  locks : ∀ l, s.locks l = none
  parties : s.parties = []

theorem Unattended.inv (h : s.Unattended) : s.Inv := by
  have hnone : ∀ (i : Nat) (q : Party), s.parties[i]? ≠ some q := by
    intro i q hq
    rw [h.parties] at hq
    cases hq
  exact ⟨h.named, fun i q _ hq => absurd hq (hnone i q), fun i _ q _ _ hq => absurd hq (hnone i q),
    fun i q hq => absurd hq (hnone i q)⟩

theorem Inv.cleaner {event : SessionEvent} (inv : s.Inv)
    (h : s.cleanerRemoves j event = some dir) :
    ∃ p, s.parties[j]? = some p ∧ s.Clean j p ∧ ¬ s.GuardedByOther j dir := by
  unfold cleanerRemoves at h
  cases hj : s.parties[j]? with
  | none =>
    rw [hj] at h
    cases h
  | some p =>
    have ok := inv.parties j p hj
    rw [hj, Option.map_some] at h
    generalize p.pc = pc at h ok
    split at h
    · next heq =>
      cases heq
      cases h
      exact ⟨p, rfl, ok.1, ok.2.2.2⟩
    · next heq =>
      cases heq
      split at h
      · cases h
      · cases h
        exact ⟨p, rfl, ok.1, ok.2.2.2⟩
    · next heq =>
      cases heq
      exact ⟨p, rfl, ok.1, ok.2.2 dir h⟩
    · cases h

/-- In its `Init` a party holds `cleanup.lock`, has made nothing yet, or has its session. -/
theorem PartyOk.initialising (ok : s.PartyOk j p p.pc) (h : p.initialising = true) :
    s.cleanupLock = some j ∨ p.created = none ∨ p.unlinked = false := by
  unfold Party.initialising at h
  generalize p.pc = pc at ok h
  cases pc with
  | acquire => exact .inr (.inl ok.1)
  | scan => exact .inl ok.critical
  | opened name dir => exact .inl ok.1.critical
  | marked name dir => exact .inl ok.1.critical
  | locking name dir lock => exact .inl ok.1.critical
  | remove purpose name =>
    cases purpose with
    | clean lock => exact .inl ok.1.critical
    | rollback =>
      obtain ⟨-, n, dir, -, hmakes⟩ := ok
      exact .inl hmakes.critical
    | destroy => simp at h
  | removing purpose name dir failed =>
    cases purpose with
    | clean lock => exact .inl ok.1.critical
    | rollback =>
      obtain ⟨-, n, -, hmakes⟩ := ok
      exact .inl hmakes.critical
    | destroy => simp at h
  | rmdir purpose name =>
    cases purpose with
    | clean lock => exact .inl ok.1.critical
    | rollback =>
      obtain ⟨-, n, dir, -, hmakes⟩ := ok
      exact .inl hmakes.critical
    | destroy => simp at h
  | finish purpose =>
    cases purpose with
    | clean lock => exact .inl ok.1.critical
    | rollback => exact .inl ok.2
    | destroy => simp at h
  | makeDir => exact .inl ok.critical
  | openDir n m =>
    obtain ⟨-, dir, hmakes⟩ := ok
    exact .inl hmakes.critical
  | makeMarker n m dir => exact .inl ok.2.critical
  | makeData n m dir => exact .inl ok.2.critical
  | makeLock n m dir => exact .inl ok.2.critical
  | lockSession n m dir => exact .inl ok.1.critical
  | rename n m dir => exact .inl ok.1.critical
  | closeFailed n =>
    obtain ⟨dir, hmakes⟩ := ok
    exact .inl hmakes.critical
  | release okay => exact .inl ok.1
  | prepared => exact .inr (.inr ok.1)
  | running => simp at h
  | closeLock => simp at h
  | done => simp at h
  | crashed => simp at h

theorem Inv.cleanerSafe (inv : s.Inv) : s.CleanerSafe := by
  intro i event t dir j p _ hremoves hj hcreated
  obtain ⟨cleaner, hi, hclean, hfree⟩ := inv.cleaner hremoves
  have ok := inv.parties j p hj
  have hne : j ≠ i := by
    rintro rfl
    cases Option.some.inj (hi.symm.trans hj)
    rw [hclean.created] at hcreated
    cases hcreated
  have hnot : p.pc.live = true → p.unlinked = true := by
    intro hlive
    by_contra hlinked
    exact hfree ⟨j, p, hne, hj, hcreated, hlive, by simpa using hlinked⟩
  refine ⟨?_, ?_⟩
  · by_contra hinit
    have hinit : p.initialising = true := by simpa using hinit
    have hlive : p.pc.live = true := by
      unfold Party.initialising at hinit
      cases hpc : p.pc <;> first | rfl | simp [hpc] at hinit
    rcases PartyOk.initialising ok hinit with hcritical | hnone | hlinked
    · rw [hclean.critical] at hcritical
      exact hne (Option.some.inj hcritical).symm
    · rw [hnone] at hcreated
      cases hcreated
    · rw [hnot hlive] at hlinked
      cases hlinked
  · rintro ⟨lock, hfd, hheld⟩
    refine hnot ?_
    cases hpc : p.pc with
    | done =>
      rw [hpc] at ok
      rw [show p.sessionLockFd = none from ok] at hfd
      cases hfd
    | crashed =>
      rw [hpc] at ok
      exact absurd hheld (ok lock)
    | _ => rfl

/-- Any number of managers and cleaners, in any order, each of which may crash at any time. -/
theorem Unattended.cleanerSafe_of_run (h : s.Unattended) {as : List SessionAction}
    (hrun : run SwapRoot.step s as = some t) : t.CleanerSafe :=
  (run_invariant step_inv h.inv (stepsOk_true as s) hrun).cleanerSafe


/-! ## Two runs -/

/-- The `i`-th party takes `cleanup.lock`, finds nothing to clean and makes its session. -/
def createSession (i : Nat) : List SessionAction :=
  [.start true, .go i .ok, .go i .ok, .go i (.drawn 1 2), .go i .ok, .go i .ok, .go i .ok,
    .go i .ok, .go i .ok, .go i .ok, .go i .ok, .go i .ok]

/-- The `i`-th party is a cleaner that finds the session. -/
def cleanSession (i : Nat) : List SessionAction :=
  [.start false, .go i .ok, .go i (.entry (.session 2)), .go i .ok, .go i .ok]

/-- A manager dies, and a cleaner is about to remove its files. -/
theorem cleanerSafe_crashed : ∃ s, run SwapRoot.step {}
    (createSession 0 ++ SessionAction.crash 0 :: (cleanSession 1 ++ [SessionAction.go 1 .ok, .go 1 .ok])) = some s ∧
      s.CleanerSafe := by
  have hstart : Unattended {} := ⟨nofun, rfl, fun _ => rfl, rfl⟩
  have hrun : ∃ s, run SwapRoot.step {} (createSession 0 ++
      SessionAction.crash 0 :: (cleanSession 1 ++ [SessionAction.go 1 .ok, .go 1 .ok])) = some s := ⟨_, rfl⟩
  obtain ⟨s, hrun⟩ := hrun
  exact ⟨s, hrun, hstart.cleanerSafe_of_run hrun⟩

/-- A `Destroy` has removed `session.lock` and holds its lock still; a cleaner finds no lock file
and removes the data directory. -/
theorem destroy_cleaned : ∃ as s t p, run SwapRoot.step {} as = some s ∧
    s.step (.go 1 (.unlink .data)) = some t ∧ s.cleanerRemoves 1 (.unlink .data) = some 0 ∧
    s.parties[0]? = some p ∧ p.created = some 0 ∧
    ∃ lock, p.sessionLockFd = some lock ∧ s.locks lock = some 0 := by
  refine ⟨createSession 0 ++ [SessionAction.go 0 .destroy, .go 0 .ok, .go 0 (.unlink .lock)] ++
    (cleanSession 1 ++ [SessionAction.go 1 .ok]), _, _, _, rfl, rfl, rfl, rfl, rfl, 0, rfl, rfl⟩

end SwapRoot

end FileApi.Swapfs
