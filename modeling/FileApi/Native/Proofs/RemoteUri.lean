import FileApi.Misc.Machine
import FileApi.Native.RemoteUri
import Mathlib.Data.Finset.Card

/-!
# The table of remote uris

The table stays small because the smallest descriptor is closed when another one comes. It is not
asked whether the other one is the same.
-/

namespace FileApi.Native

variable {b later : Binder} {w : World} {fd : Int} {path pkgName uri front rest : List UInt8}
  {flags : Int} {tag : UInt8}

/-! ## Uris -/

theorem find_append (h : tag ∉ front) : find tag (front ++ tag :: rest) = some front.length := by
  have hfront : front.findIdx? (· == tag) = none := by
    rw [List.findIdx?_eq_none_iff]
    intro x hx
    exact beq_eq_false_iff_ne.mpr fun heq => h (heq ▸ hx)
  rw [find, List.findIdx?_append, hfront, Option.none_or, List.findIdx?_cons, beq_self_eq_true]
  rw [if_pos rfl, Option.map_some, Nat.zero_add]

theorem drop_behind (front rest : List UInt8) (tag : UInt8) :
    (front ++ tag :: rest).drop (front.length + 1) = rest := by
  rw [← List.drop_drop, List.drop_left, List.drop_succ_cons, List.drop_zero]

/-- A package name without the characters that the parts of a uri are found by. -/
structure PlainName (pkgName : List UInt8) : Prop where
  scheme : SCHEME_TAG ∉ pkgName
  fragment : FRAGMENT_TAG ∉ pkgName
  fd : FD_TAG ∉ pkgName

/-- A uri up to its fragment. -/
def authority (pkgName : List UInt8) : List UInt8 := SCHEME ++ ascii ":///" ++ pkgName ++ ascii "/"

theorem uriOf_eq (pkgName : List UInt8) (fd : Int) :
    uriOf pkgName fd =
      authority pkgName ++ FRAGMENT_TAG :: (REMOTE_URI_TAG ++ FD_TAG :: decimal fd.toNat) := by
  rw [uriOf, authority, List.append_assoc _ [FD_TAG], List.append_assoc _ REMOTE_URI_TAG,
    List.append_assoc _ [FRAGMENT_TAG]]
  rfl

theorem find_scheme (pkgName : List UInt8) (fd : Int) :
    find SCHEME_TAG (uriOf pkgName fd) = some SCHEME.length := by
  have huri : uriOf pkgName fd = SCHEME ++ SCHEME_TAG :: (ascii "///" ++ pkgName ++ ascii "/" ++
      FRAGMENT_TAG :: (REMOTE_URI_TAG ++ FD_TAG :: decimal fd.toNat)) := by
    rw [uriOf_eq, authority, List.append_assoc, List.append_assoc, List.append_assoc,
      List.append_assoc, List.append_assoc]
    rfl
  rw [huri]
  exact find_append (by decide)

theorem find_fragment (hname : PlainName pkgName) (fd : Int) :
    find FRAGMENT_TAG (uriOf pkgName fd) = some (authority pkgName).length := by
  rw [uriOf_eq]
  refine find_append ?_
  simp only [authority, List.mem_append, not_or]
  exact ⟨⟨⟨by decide, by decide⟩, hname.fragment⟩, by decide⟩

theorem uriOf_eq_fd (pkgName : List UInt8) (fd : Int) :
    uriOf pkgName fd =
      (authority pkgName ++ FRAGMENT_TAG :: REMOTE_URI_TAG) ++ FD_TAG :: decimal fd.toNat := by
  rw [uriOf_eq, List.append_assoc, List.cons_append]

theorem find_fd (hname : PlainName pkgName) (fd : Int) :
    find FD_TAG (uriOf pkgName fd) =
      some (authority pkgName ++ FRAGMENT_TAG :: REMOTE_URI_TAG).length := by
  rw [uriOf_eq_fd]
  refine find_append ?_
  simp only [authority, List.mem_append, not_or]
  exact ⟨⟨⟨⟨by decide, by decide⟩, hname.fd⟩, by decide⟩, by decide⟩

theorem isRemoteUri_uriOf (hname : PlainName pkgName) (hfd : 0 ≤ fd) (hlimit : fd < 10 ^ 9)
    (later : Binder) :
    isRemoteUri later (uriOf pkgName fd) O_RDONLY = (some fd, later.removeFd fd) := by
  have hscheme : (uriOf pkgName fd).take SCHEME.length = SCHEME := by
    rw [uriOf, List.append_assoc, List.append_assoc, List.append_assoc, List.append_assoc,
      List.append_assoc, List.append_assoc]
    exact List.take_left
  have hfragment : ((uriOf pkgName fd).drop ((authority pkgName).length + 1)).take
      REMOTE_URI_TAG.length = REMOTE_URI_TAG := by
    rw [uriOf_eq, drop_behind]
    exact List.take_left
  have hdigits : (uriOf pkgName fd).drop
      ((authority pkgName ++ FRAGMENT_TAG :: REMOTE_URI_TAG).length + 1) = decimal fd.toNat := by
    rw [uriOf_eq_fd, drop_behind]
  have hall : isAllDigits (decimal fd.toNat) = true :=
    List.all_eq_true.mpr fun d hd => isDigit_of_mem_decimal hd
  have hlong : (decimal fd.toNat).length ≤ DIGIT_LENGTH_LIMIT :=
    (length_decimal_le_iff (by decide)).mpr (by show fd.toNat < 10 ^ 9; omega)
  have hshort : 0 < (decimal fd.toNat).length := List.length_pos_iff.mpr (decimal_ne_nil _)
  have hvalue : (ofDecimal (decimal fd.toNat) : Int) = fd := by
    rw [ofDecimal_decimal]
    omega
  unfold isRemoteUri
  rw [find_scheme, find_fragment hname, find_fd hname]
  dsimp only
  rw [hscheme, if_neg (not_not_intro rfl), hfragment, if_pos rfl, hdigits, if_pos hall,
    if_neg (by omega), hvalue, if_neg]
  rintro (hneg | hflags)
  · omega
  · exact hflags rfl

/-! ## The table -/

/-- The table is small and has no descriptor that was handed out since it was put there. -/
structure Sound (w : World) : Prop where
  bounded : w.binder.fdFromBinder.card ≤ MAX_URI_SIZE
  apart : ∀ fd ∈ w.binder.fdFromBinder, fd ∉ w.handedOut
  nonneg : ∀ fd ∈ w.binder.fdFromBinder, 0 ≤ fd

theorem evicts_some {e : Int} (h : b.evicts = some e) :
    b.fdFromBinder.card = MAX_URI_SIZE ∧ e ∈ b.fdFromBinder := by
  unfold Binder.evicts at h
  split at h
  · next hfull =>
    cases h
    exact ⟨hfull, Finset.min'_mem _ _⟩
  · cases h

theorem evict_card (h : b.fdFromBinder.card ≤ MAX_URI_SIZE) :
    b.evict.fdFromBinder.card < MAX_URI_SIZE := by
  unfold Binder.evict
  cases hevicts : b.evicts with
  | some e =>
    obtain ⟨hfull, hmem⟩ := evicts_some hevicts
    have hcard := Finset.card_erase_lt_of_mem hmem
    show (b.fdFromBinder.erase e).card < MAX_URI_SIZE
    omega
  | none =>
    refine lt_of_le_of_ne h fun hfull => ?_
    rw [Binder.evicts, dif_pos hfull] at hevicts
    cases hevicts

theorem mem_evict {e : Int} (h : e ∈ b.evict.fdFromBinder) : e ∈ b.fdFromBinder := by
  unfold Binder.evict at h
  split at h
  · exact Finset.mem_of_mem_erase h
  · exact h

theorem opened_evict {e : Int} (hopen : e ∈ b.opened) :
    e ∈ b.evict.opened ↔ ¬ b.evicts = some e := by
  unfold Binder.evict
  cases hevicts : b.evicts with
  | some e' =>
    rw [Option.some.injEq]
    constructor
    · rintro hmem rfl
      exact Finset.notMem_erase _ _ hmem
    · intro hne
      exact Finset.mem_erase.mpr ⟨Ne.symm hne, hopen⟩
  | none => exact iff_of_true hopen nofun

/-! ## Steps -/

/-- A call of `ConvertUri` that succeeds: the table stays small, the descriptor is there and still
open, what is closed has not been handed out, and the uri is decoded to the descriptor. -/
structure Converts (w : World) (fd : Int) (pkgName uri : List UInt8) (b : Binder) : Prop where
  bounded : b.fdFromBinder.card ≤ MAX_URI_SIZE
  member : fd ∈ b.fdFromBinder
  stillOpen : fd ∈ w.binder.opened → fd ∈ b.opened
  closed : ∀ e ∈ w.binder.opened, e ∉ b.opened → e ∉ w.handedOut
  decoded : PlainName pkgName → fd < 10 ^ 9 → ∀ later : Binder,
    isRemoteUri later uri O_RDONLY = (some fd, later.removeFd fd) ∧
      fd ∉ (later.removeFd fd).fdFromBinder

/-- What is claimed of an action in a state. -/
def Meets (w : World) (a : Action) : Prop :=
  w.binder.fdFromBinder.card ≤ MAX_URI_SIZE ∧
    match a with
    | .convertUri fd pkgName => ∀ uri b, convertUri w.binder fd pkgName = (.ok uri, b) →
        Converts w fd pkgName uri b
    | .isRemoteUri path flags => ∀ fd b, isRemoteUri w.binder path flags = (some fd, b) →
        fd ∉ b.fdFromBinder
    | _ => True

/-- A descriptor that is the smallest of a full table is put there again. -/
def ClosesItself (w : World) (a : Action) : Prop :=
  ∃ fd pkgName, a = .convertUri fd pkgName ∧ 0 ≤ fd ∧ w.binder.evicts = some fd ∧
    fd ∈ w.binder.opened

theorem isRemoteUri_cases {result : Option Int} (h : isRemoteUri b path flags = (result, later)) :
    result = none ∧ later = b ∨ result = some (-1) ∧ later = b ∨
      ∃ fd, result = some fd ∧ later = b.removeFd fd := by
  have hnone : (none, b) = (result, later) → result = none ∧ later = b := by
    rintro ⟨⟩
    exact ⟨rfl, rfl⟩
  unfold isRemoteUri at h
  split at h
  · dsimp only at h
    split at h
    · exact .inl (hnone h)
    split at h
    · split at h
      · split at h
        · exact .inl (hnone h)
        · obtain ⟨hresult, hlater⟩ := Prod.mk.inj h
          exact .inr (.inr ⟨_, hresult.symm, hlater.symm⟩)
      · cases h
        exact .inr (.inl ⟨rfl, rfl⟩)
    · exact .inl (hnone h)
  · exact .inl (hnone h)

theorem convertUri_ok (hfd : 0 ≤ fd) (pkgName : List UInt8) :
    convertUri b fd pkgName = (.ok (uriOf pkgName fd),
      { b.evict with fdFromBinder := insert fd b.evict.fdFromBinder }) :=
  if_neg (Int.not_lt.mpr hfd)

theorem convertUri_error (hfd : fd < 0) (pkgName : List UInt8) :
    convertUri b fd pkgName = (.error .einval, b) := if_pos hfd

theorem not_closesItself {a : Action} (h : ∀ fd pkgName, a ≠ .convertUri fd pkgName) :
    ¬ ClosesItself w a := by
  rintro ⟨fd, pkgName, rfl, -⟩
  exact h fd pkgName rfl

theorem Sound.meets_iff (h : Sound w) (a : Action) : Meets w a ↔ ¬ ClosesItself w a := by
  cases a with
  | convertUri fd pkgName =>
    by_cases hfd : fd < 0
    · refine iff_of_true ⟨h.bounded, fun uri b hrun => ?_⟩ ?_
      · cases (convertUri_error hfd pkgName).symm.trans hrun
      · rintro ⟨fd', pkgName', ⟨⟩, hnonneg, -⟩
        exact Int.not_lt.mpr hnonneg hfd
    · have hnonneg := Int.not_lt.mp hfd
      constructor
      · rintro ⟨-, hconverts⟩ ⟨fd', pkgName', ⟨⟩, -, hevicts, hopen⟩
        have hstill := (hconverts _ _ (convertUri_ok hnonneg pkgName)).stillOpen hopen
        exact (opened_evict hopen).mp hstill hevicts
      · intro hnot
        refine ⟨h.bounded, fun uri b hrun => ?_⟩
        cases (convertUri_ok hnonneg pkgName).symm.trans hrun
        have hcard := evict_card h.bounded
        refine ⟨?_, Finset.mem_insert_self _ _, fun hopen => ?_, fun e hopen hclosed => ?_,
          fun hname hlimit later => ?_⟩
        · exact (Finset.card_insert_le _ _).trans hcard
        · exact (opened_evict hopen).mpr fun hevicts =>
            hnot ⟨fd, pkgName, rfl, hnonneg, hevicts, hopen⟩
        · have hevicts := not_not.mp (mt (opened_evict hopen).mpr hclosed)
          exact h.apart e (evicts_some hevicts).2
        · exact ⟨isRemoteUri_uriOf hname hnonneg hlimit later, Finset.notMem_erase _ _⟩
  | isRemoteUri path flags =>
    refine iff_of_true ⟨h.bounded, fun fd b hrun => ?_⟩ (not_closesItself nofun)
    rcases isRemoteUri_cases hrun with ⟨hnone, -⟩ | ⟨⟨⟩, rfl⟩ | ⟨fd, ⟨⟩, rfl⟩
    · cases hnone
    · intro hmem
      exact absurd (h.nonneg _ hmem) (by decide)
    · exact Finset.notMem_erase _ _
  | opens fd => exact iff_of_true ⟨h.bounded, trivial⟩ (not_closesItself nofun)
  | closes fd => exact iff_of_true ⟨h.bounded, trivial⟩ (not_closesItself nofun)

theorem Sound.convertUri (h : Sound w) (hfd : 0 ≤ fd) :
    Sound ⟨{ w.binder.evict with fdFromBinder := insert fd w.binder.evict.fdFromBinder },
      w.handedOut.erase fd⟩ := by
  refine ⟨?_, fun x hx => ?_, fun x hx => ?_⟩
  · exact (Finset.card_insert_le _ _).trans (evict_card h.bounded)
  · rcases Finset.mem_insert.mp hx with rfl | hx
    · exact Finset.notMem_erase _ _
    · exact fun hmem => h.apart x (mem_evict hx) (Finset.mem_of_mem_erase hmem)
  · rcases Finset.mem_insert.mp hx with rfl | hx
    · exact hfd
    · exact h.nonneg x (mem_evict hx)

theorem Sound.isRemoteUri (h : Sound w) (result : Int) :
    Sound ⟨w.binder.removeFd result,
      if result < 0 then w.handedOut else insert result w.handedOut⟩ := by
  refine ⟨Finset.card_erase_le.trans h.bounded, fun x hx => ?_,
    fun x hx => h.nonneg x (Finset.mem_of_mem_erase hx)⟩
  have hapart := h.apart x (Finset.mem_of_mem_erase hx)
  dsimp only
  split
  · exact hapart
  · rw [Finset.mem_insert, not_or]
    exact ⟨Finset.ne_of_mem_erase hx, hapart⟩

theorem Sound.step {w' : World} {a : Action} (h : Sound w) (hstep : step w a = some w') :
    Sound w' := by
  cases a with
  | convertUri fd pkgName =>
    dsimp only [Native.step] at hstep
    by_cases hfd : fd < 0
    · rw [convertUri_error hfd] at hstep
      cases hstep
      exact h
    · rw [convertUri_ok (Int.not_lt.mp hfd)] at hstep
      cases hstep
      exact h.convertUri (Int.not_lt.mp hfd)
  | isRemoteUri path flags =>
    dsimp only [Native.step] at hstep
    cases hrun : Native.isRemoteUri w.binder path flags with
    | mk result later =>
      rw [hrun] at hstep
      rcases isRemoteUri_cases hrun with ⟨rfl, rfl⟩ | ⟨rfl, rfl⟩ | ⟨fd, rfl, rfl⟩
      · cases hstep
        exact h
      · cases hstep
        exact h
      · cases hstep
        exact h.isRemoteUri fd
  | opens fd =>
    cases hstep
    exact ⟨h.bounded, h.apart, h.nonneg⟩
  | closes fd =>
    cases hstep
    exact ⟨h.bounded, h.apart, h.nonneg⟩

/-! ## Runs -/

/-- An empty table, and some descriptors that are open. -/
def start (opened : Finset Int) : World := ⟨{ opened := opened }, ∅⟩

theorem sound_start (opened : Finset Int) : Sound (start opened) :=
  ⟨Nat.zero_le _, fun _ hmem => absurd hmem (Finset.notMem_empty _),
    fun _ hmem => absurd hmem (Finset.notMem_empty _)⟩

/-- In a run every step is as claimed exactly if no descriptor is put into a full table again that it
is the smallest of. -/
theorem remoteUri_run_iff (opened : Finset Int) (actions : List Action) :
    Machine.StepsOk step Meets (start opened) actions ↔
      Machine.StepsOk step (fun w a => ¬ ClosesItself w a) (start opened) actions :=
  Machine.stepsOk_congr (fun _ _ _ h _ hstep => h.step hstep) (fun _ a h => h.meets_iff a)
    (sound_start opened)

/-- A table is filled with the descriptors below 128. -/
def filled : List Action := (List.range 128).map fun fd => .convertUri (127 - fd) []

/-- The descriptor 0 is put into the full table again, and is closed then. -/
theorem remoteUri_closes :
    ¬ Machine.StepsOk step Meets (start {0}) (filled ++ [.convertUri 0 []]) := by
  intro h
  have hfull : (Machine.run step (start {0}) filled).any
      (fun w => w.binder.evicts = some 0 ∧ 0 ∈ w.binder.opened) = true := by decide +kernel
  obtain ⟨w, hrun, hw⟩ := Option.any_eq_true _ _ |>.mp hfull
  obtain ⟨hevicts, hopen⟩ := of_decide_eq_true hw
  obtain ⟨-, hconverts⟩ := h.at hrun
  have hstill := (hconverts _ _ (convertUri_ok (Int.le_refl 0) [])).stillOpen hopen
  exact (opened_evict hopen).mp hstill hevicts

end FileApi.Native
