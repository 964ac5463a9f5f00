import FileApi.Misc.Pool
import FileApi.ModFs.FdTag

/-!
# The table of tags under any interleaving

What a call has mapped and not published yet is its own, and nothing but a mapping that a call has
prepared is ever published. So the table in use is a mapping for good, every call finds the entry of
its descriptor in it, and the tags are registers. `FdTagFunc` alone can come to prepare what was not
mapped: behind a `mmap` that failed, when another call has published a table by then.
-/

namespace FileApi.ModFs.FdTag

open Machine Registers

/-! ## What the table promises -/

/-- A descriptor that has an entry. -/
structure Request.InTable (request : Request) : Prop where
  nonneg : 0 ≤ request.fd
  lt : request.fd < (FD_SAN_OVERFLOW_END : Int)

/-- The access a call makes that returns `tag`. -/
def Request.access (i : Nat) (tag : UInt64) : Request → Access Nat Int UInt64
  | .getFdTag fd => .get i fd tag
  | .setFdTag fd tag => .set i fd tag

/-- An entry is in one of the tables. -/
def FdSanEntry.Inside (copy : Copy) (m : Memory) : FdSanEntry → Prop
  | .entries idx => idx < FD_SAN_TABLE_SIZE
  | .overflow a offset => (m.mappings a).isSome ∧
      overflowHeaderSize.toNat + (offset + 1) * fdSanEntrySize.toNat ≤ copy.alignedSize.toNat

/-- The entry that `GetFdSanEntry` has returned to a call. -/
def Pc.entry : Pc → Option FdSanEntry
  | .access fde => some fde
  | .done fde _ => fde
  | _ => none

/-- What holds of the table and the calls at any time. -/
structure Consistent (copy : Copy) (s : State) : Prop where
  running : s.memory.faulted = false
  published : ∀ p, s.memory.overflow = some p → ∃ a table, p = .at a ∧
    s.memory.mappings a = some table ∧ table.len = copy.alignedCount
  storesLen : ∀ c ∈ s.calls, ∀ p localOverflow, c.pc = .storeLen p localOverflow →
    ∃ a, p = .at a ∧ (s.memory.mappings a).isSome
  inside : ∀ c ∈ s.calls, ∀ fde, c.pc.entry = some fde → fde.Inside copy s.memory
  entry_iff : ∀ c ∈ s.calls, ∀ d ∈ s.calls, ∀ fde fde', c.pc.entry = some fde →
    d.pc.entry = some fde' → (c.request.fd = d.request.fd ↔ fde = fde')
  legal : Legal 0 s.memory.history
  returned : ∀ i (c : Call), s.calls[i]? = some c → ∀ fde tag, c.pc = .done fde tag → c.failed = false →
    c.request.InTable → c.request.access i tag ∈ s.memory.history
  refused : ∀ c ∈ s.calls, ∀ tag, c.pc = .done none tag → tag = 0

/-- Every state of the run is consistent, and a table that is published stays. -/
structure RunOk (copy : Copy) (actions : List Action) : Prop where
  consistent : ∀ front s, front <+: actions → run (step copy) {} front = some s → Consistent copy s
  stays : ∀ front later s t, front ++ later <+: actions → run (step copy) {} front = some s →
    run (step copy) s later = some t → ∀ p, s.memory.overflow = some p → t.memory.overflow = some p

/-- No call whose `mmap` has failed finds a table when it looks again. -/
def NoLateTable (copy : Copy) (s : State) : Action → Prop
  | .call _ => True
  | .go i _ => copy = .fdTagFunc →
      ∀ c ∈ s.calls[i]?, c.pc = .reloadOverflow → s.memory.overflow = none

instance (copy : Copy) (s : State) : ∀ a, Decidable (NoLateTable copy s a)
  | .call _ => isTrue trivial
  | .go i _ => inferInstanceAs (Decidable (copy = .fdTagFunc →
      ∀ c ∈ s.calls[i]?, c.pc = .reloadOverflow → s.memory.overflow = none))

/-! ## The invariant -/

/-- A descriptor whose entry is in the overflow table. -/
structure Overflowing (fd : Int) : Prop where
  ge : (FD_SAN_TABLE_SIZE : Int) ≤ fd
  lt : fd < (FD_SAN_OVERFLOW_END : Int)

/-- The entry of a descriptor. -/
def EntryOf (m : Memory) (fd : Int) : FdSanEntry → Prop
  | .entries idx => fd = idx ∧ idx < FD_SAN_TABLE_SIZE
  | .overflow a offset => m.overflow = some (.at a) ∧ Overflowing fd ∧
      offset = fd.toNat - FD_SAN_TABLE_SIZE

/-- A mapping that a call has to itself. -/
structure Owns (m : Memory) (i a : Nat) (table : FdSanTableOverflow) : Prop where
  mapped : m.mappings a = some table
  creator : table.creator = i
  clear : ∀ k, table.closeTags k = 0
  unpublished : m.overflow ≠ some (.at a)

/-- What a call that uses the overflow table has found. -/
structure Found (m : Memory) (fd : Int) (localOverflow : Option Pointer) : Prop where
  overflowing : Overflowing fd
  current : localOverflow = m.overflow
  isSome : localOverflow.isSome

/-- What holds of the `i`-th call. -/
def CallOk (copy : Copy) (m : Memory) (i : Nat) (c : Call) : Prop :=
  match c.pc with
  | .getFdSanEntry => True
  | .loadOverflow => Overflowing c.request.fd
  | .mmap => Overflowing c.request.fd
  | .reloadOverflow => copy = .fdTagFunc ∧ c.failed = true
  | .storeLen allocation localOverflow => Overflowing c.request.fd ∧ localOverflow = none ∧
      ∃ a table, allocation = .at a ∧ Owns m i a table
  | .compareExchange allocation localOverflow => Overflowing c.request.fd ∧ localOverflow = none ∧
      ∃ a table, allocation = .at a ∧ Owns m i a table ∧ table.len = copy.alignedCount
  | .munmap allocation localOverflow => Found m c.request.fd localOverflow ∧
      ∃ a table, allocation = .at a ∧ Owns m i a table
  | .loadLen localOverflow => Found m c.request.fd localOverflow
  | .access fde => EntryOf m c.request.fd fde
  | .done (some fde) tag => EntryOf m c.request.fd fde ∧ c.request.access i tag ∈ m.history
  | .done none tag => tag = 0 ∧ (c.failed = true ∨ ¬ c.request.InTable)

/-- The tag of a descriptor, in whichever table it is. -/
def Memory.tagOf (m : Memory) (fd : Int) : UInt64 :=
  if fd < (FD_SAN_TABLE_SIZE : Int) then m.entries fd.toNat
  else match m.deref m.overflow with
    | none => 0
    | some (_, table) => table.closeTags (fd.toNat - FD_SAN_TABLE_SIZE)

/-- What holds of what the calls share. -/
structure MemoryOk (copy : Copy) (m : Memory) : Prop where
  running : m.faulted = false
  published : ∀ p, m.overflow = some p → ∃ a table, p = .at a ∧ m.mappings a = some table ∧
    table.len = copy.alignedCount
  tags : ∀ fd, 0 ≤ fd → m.tagOf fd = last 0 m.history fd
  legal : Legal 0 m.history

structure Inv (copy : Copy) (s : State) : Prop where
  memory : MemoryOk copy s.memory
  calls : ∀ i (c : Call), s.calls[i]? = some c → CallOk copy s.memory i c

/-- What a step of the `i`-th call leaves to the others. -/
structure Frame (i : Nat) (m m' : Memory) : Prop where
  overflow : ∀ p, m.overflow = some p → m'.overflow = some p
  mappings : ∀ a table, m.mappings a = some table → table.creator ≠ i →
    m.overflow ≠ some (.at a) → m'.mappings a = some table ∧ m'.overflow ≠ some (.at a)
  history : ∀ access ∈ m.history, access ∈ m'.history

variable {copy : Copy} {m m' : Memory} {i j a : Nat} {c c' : Call} {table : FdSanTableOverflow}

namespace Frame

theorem refl (i : Nat) (m : Memory) : Frame i m m :=
  ⟨fun _ h => h, fun _ _ h _ hun => ⟨h, hun⟩, fun _ h => h⟩

theorem trans {m'' : Memory} (h : Frame i m m') (h' : Frame i m' m'') : Frame i m m'' := by
  refine ⟨fun p hp => h'.overflow p (h.overflow p hp), fun b table htable hne hun => ?_,
    fun access hmem => h'.history access (h.history access hmem)⟩
  obtain ⟨hmapped, hstill⟩ := h.mappings b table htable hne hun
  exact h'.mappings b table hmapped hne hstill

theorem setMapping (hmine : ∀ table, m.mappings a = some table → table.creator = i)
    (new : Option FdSanTableOverflow) : Frame i m (m.setMapping a new) := by
  refine ⟨fun _ h => h, fun b table htable hne hun => ⟨?_, hun⟩, fun _ h => h⟩
  have hb : b ≠ a := by
    rintro rfl
    exact hne (hmine table htable)
  exact (if_neg hb).trans htable

theorem publish (hnone : m.overflow = none) (howns : Owns m i a table) :
    Frame i m { m with overflow := some (.at a) } := by
  refine ⟨fun p hp => ?_, fun b other hother hne _ => ⟨hother, fun heq => hne ?_⟩, fun _ h => h⟩
  · rw [hnone] at hp
    cases hp
  · cases heq
    obtain rfl : table = other := Option.some.inj (howns.mapped.symm.trans hother)
    exact howns.creator

theorem record (i : Nat) (m : Memory) (access : Access Nat Int UInt64) :
    Frame i m (m.record access) :=
  ⟨fun _ h => h, fun _ _ h _ hun => ⟨h, hun⟩, fun _ h => List.mem_append_left _ h⟩

end Frame

theorem EntryOf.frame {fd : Int} {fde : FdSanEntry} (hframe : Frame i m m')
    (h : EntryOf m fd fde) : EntryOf m' fd fde := by
  cases fde with
  | entries idx => exact h
  | overflow b offset => exact ⟨hframe.overflow _ h.1, h.2⟩

theorem Owns.frame (hframe : Frame i m m') (hij : j ≠ i) (h : Owns m j a table) :
    Owns m' j a table := by
  obtain ⟨hmapped, hun⟩ := hframe.mappings a table h.mapped (by rwa [h.creator]) h.unpublished
  exact ⟨hmapped, h.creator, h.clear, hun⟩

theorem Found.frame {fd : Int} {localOverflow : Option Pointer} (hframe : Frame i m m')
    (h : Found m fd localOverflow) : Found m' fd localOverflow := by
  obtain ⟨p, hp⟩ := Option.isSome_iff_exists.mp h.isSome
  have hcurrent := hframe.overflow p (h.current.symm.trans hp)
  exact ⟨h.overflowing, hp.trans hcurrent.symm, h.isSome⟩

theorem CallOk.frame (hframe : Frame i m m') (hij : j ≠ i) (h : CallOk copy m j c) :
    CallOk copy m' j c := by
  unfold CallOk at h ⊢
  split at h
  · trivial
  · exact h
  · exact h
  · exact h
  · obtain ⟨hfd, hnone, a, table, hp, howns⟩ := h
    exact ⟨hfd, hnone, a, table, hp, howns.frame hframe hij⟩
  · obtain ⟨hfd, hnone, a, table, hp, howns, hlen⟩ := h
    exact ⟨hfd, hnone, a, table, hp, howns.frame hframe hij, hlen⟩
  · obtain ⟨hfound, a, table, hp, howns⟩ := h
    exact ⟨hfound.frame hframe, a, table, hp, howns.frame hframe hij⟩
  · exact Found.frame hframe h
  · exact EntryOf.frame hframe h
  · exact ⟨h.1.frame hframe, hframe.history _ h.2⟩
  · exact h

/-! ## The memory -/

@[simp] theorem Memory.tagOf_record (m : Memory) (access : Access Nat Int UInt64) (fd : Int) :
    (m.record access).tagOf fd = m.tagOf fd := rfl

theorem Memory.tagOf_setMapping (hun : m.overflow ≠ some (.at a))
    (new : Option FdSanTableOverflow) (fd : Int) : (m.setMapping a new).tagOf fd = m.tagOf fd := by
  have hderef : (m.setMapping a new).deref m.overflow = m.deref m.overflow := by
    cases hp : m.overflow with
    | none => rfl
    | some p =>
      cases p with
      | mapFailed => rfl
      | «at» b =>
        have hb : b ≠ a := by
          rintro rfl
          exact hun hp
        exact congrArg (Option.map _) (if_neg hb)
  unfold Memory.tagOf
  rw [show (m.setMapping a new).overflow = m.overflow from rfl, hderef]
  rfl

namespace MemoryOk

theorem setMapping (h : MemoryOk copy m) (hun : m.overflow ≠ some (.at a))
    (new : Option FdSanTableOverflow) : MemoryOk copy (m.setMapping a new) := by
  refine ⟨h.running, fun p hp => ?_, fun fd hfd => ?_, h.legal⟩
  · obtain ⟨b, table, rfl, hmapped, hlen⟩ := h.published p hp
    have hb : b ≠ a := by
      rintro rfl
      exact hun hp
    exact ⟨b, table, rfl, (if_neg hb).trans hmapped, hlen⟩
  · exact (Memory.tagOf_setMapping hun new fd).trans (h.tags fd hfd)

theorem publish (h : MemoryOk copy m) (hnone : m.overflow = none) (howns : Owns m i a table)
    (hlen : table.len = copy.alignedCount) :
    MemoryOk copy { m with overflow := some (.at a) } := by
  refine ⟨h.running, fun p hp => ?_, fun fd hfd => ?_, h.legal⟩
  · cases hp
    exact ⟨a, table, rfl, howns.mapped, hlen⟩
  · have htag := h.tags fd hfd
    have hderef : Memory.deref { m with overflow := some (.at a) } (some (.at a)) =
        some (a, table) := by
      show (m.mappings a).map _ = _
      rw [howns.mapped]
      rfl
    unfold Memory.tagOf at htag ⊢
    rw [hderef]
    rw [hnone] at htag
    split
    · rwa [if_pos ‹_›] at htag
    · rw [if_neg ‹_›] at htag
      exact (howns.clear _).trans htag

end MemoryOk

/-! ## The tags -/

variable {fd : Int} {fde : FdSanEntry}

theorem EntryOf.nonneg (h : EntryOf m fd fde) : 0 ≤ fd := by
  cases fde with
  | entries idx => exact h.1 ▸ Int.natCast_nonneg idx
  | overflow a offset => exact Int.le_trans (Int.natCast_nonneg _) h.2.1.ge

theorem EntryOf.mapped {offset : Nat} (hm : MemoryOk copy m)
    (h : EntryOf m fd (.overflow a offset)) :
    ∃ table, m.mappings a = some table ∧ table.len = copy.alignedCount ∧
      m.deref m.overflow = some (a, table) := by
  obtain ⟨b, table, hb, hmapped, hlen⟩ := hm.published _ h.1
  cases hb
  refine ⟨table, hmapped, hlen, ?_⟩
  rw [h.1]
  show (m.mappings a).map _ = _
  rw [hmapped]
  rfl

theorem Memory.load_eq (hm : MemoryOk copy m) (h : EntryOf m fd fde) :
    m.load fde = some (m.tagOf fd) := by
  unfold Memory.tagOf
  cases fde with
  | entries idx =>
    obtain ⟨rfl, hlt⟩ := h
    rw [if_pos (Int.ofNat_lt.mpr hlt), Int.toNat_natCast]
    rfl
  | overflow a offset =>
    obtain ⟨table, hmapped, -, hderef⟩ := h.mapped hm
    have hge := h.2.1.ge
    rw [if_neg (by omega), hderef, h.2.2]
    show (m.mappings a).map _ = _
    rw [hmapped]
    rfl

/-- A tag that is stored is the tag of its descriptor, and of no other. -/
theorem Memory.store_eq (hm : MemoryOk copy m) (h : EntryOf m fd fde) (tag : UInt64) :
    ∃ m', m.store tag fde = some m' ∧ m'.faulted = false ∧ m'.history = m.history ∧
      m'.overflow = m.overflow ∧ Frame i m m' ∧
      (∀ b table, m.mappings b = some table → ∃ table', m'.mappings b = some table' ∧
        table'.len = table.len) ∧
      ∀ fd', 0 ≤ fd' → m'.tagOf fd' = if fd = fd' then tag else m.tagOf fd' := by
  cases fde with
  | entries idx =>
    obtain ⟨rfl, hlt⟩ := h
    refine ⟨_, rfl, hm.running, rfl, rfl, ⟨fun _ hp => hp, fun _ _ hb _ hun => ⟨hb, hun⟩,
      fun _ ha => ha⟩, fun b table hb => ⟨table, hb, rfl⟩, fun fd' hnonneg => ?_⟩
    have hsize : (FD_SAN_TABLE_SIZE : Int) = 128 := rfl
    have hidx : idx < 128 := hlt
    unfold Memory.tagOf
    dsimp only
    by_cases hlow : fd' < (FD_SAN_TABLE_SIZE : Int)
    · rw [if_pos hlow, if_pos hlow]
      exact if_congr (by omega) rfl rfl
    · rw [if_neg hlow, if_neg hlow, if_neg (by omega)]
      rfl
  | overflow a offset =>
    obtain ⟨table, hmapped, -, hderef⟩ := h.mapped hm
    obtain ⟨hpublished, hfd, hoffset⟩ := h
    let stored : FdSanTableOverflow := { table with
      closeTags := fun k => if k = offset then tag else table.closeTags k }
    have hself : (m.setMapping a (some stored)).mappings a = some stored := if_pos rfl
    refine ⟨m.setMapping a (some stored), ?_, hm.running, rfl, rfl, ⟨fun _ hp => hp, ?_,
      fun _ ha => ha⟩, ?_, ?_⟩
    · show (m.mappings a).map _ = _
      rw [hmapped]
      rfl
    · intro b other hother _ hun
      have hb : b ≠ a := by
        rintro rfl
        exact hun hpublished
      exact ⟨(if_neg hb).trans hother, hun⟩
    · intro b other hother
      by_cases hb : b = a
      · subst hb
        obtain rfl : table = other := Option.some.inj (hmapped.symm.trans hother)
        exact ⟨stored, hself, rfl⟩
      · exact ⟨other, (if_neg hb).trans hother, rfl⟩
    · intro fd' hnonneg
      have hge := hfd.ge
      have hderef' : (m.setMapping a (some stored)).deref m.overflow = some (a, stored) := by
        rw [hpublished]
        show (((m.setMapping a (some stored)).mappings a).map _) = _
        rw [hself]
        rfl
      unfold Memory.tagOf
      rw [show (m.setMapping a (some stored)).overflow = m.overflow from rfl, hderef', hderef]
      by_cases hlow : fd' < (FD_SAN_TABLE_SIZE : Int)
      · rw [if_pos hlow, if_pos hlow, if_neg (by omega)]
        rfl
      · rw [if_neg hlow, if_neg hlow]
        have hiff : fd'.toNat - FD_SAN_TABLE_SIZE = offset ↔ fd = fd' := by omega
        dsimp only [stored]
        rw [if_congr hiff rfl rfl]

/-! ## Steps -/

/-- What a step of the `i`-th call leaves. -/
structure StepOk (copy : Copy) (i : Nat) (m m' : Memory) (c' : Call) : Prop where
  memory : MemoryOk copy m'
  call : CallOk copy m' i c'
  frame : Frame i m m'

theorem MemoryOk.unchanged (hm : MemoryOk copy m) (hc : CallOk copy m i c') :
    StepOk copy i m m c' :=
  ⟨hm, hc, .refl i m⟩

theorem accessTag_ok (hm : MemoryOk copy m) (hentry : EntryOf m c.request.fd fde) :
    StepOk copy i m (accessTag i fde m c).1 (accessTag i fde m c).2 := by
  obtain ⟨request, pc, failed⟩ := c
  cases request with
  | getFdTag fd =>
    have htag := hm.tags fd hentry.nonneg
    unfold accessTag
    simp only [Memory.load_eq hm hentry]
    have hframe := Frame.record i m (.get i fd (m.tagOf fd))
    refine ⟨⟨hm.running, hm.published, fun fd' hfd' => ?_, ?_⟩, ⟨hentry.frame hframe, ?_⟩, hframe⟩
    · exact (hm.tags fd' hfd').trans (last_append_get i fd fd' _).symm
    · simp only [Request.fd, htag]
      exact hm.legal.append_get i fd
    · exact List.mem_append_right _ (List.mem_singleton_self _)
  | setFdTag fd tag =>
    obtain ⟨m', hstore, hrunning, hhistory, hoverflow, hframe, hlen, htags⟩ :=
      Memory.store_eq (i := i) hm hentry tag
    unfold accessTag
    simp only [hstore]
    have hframe' := hframe.trans (.record i m' (.set i fd tag))
    refine ⟨⟨hrunning, fun p hp => ?_, fun fd' hfd' => ?_, ?_⟩, ⟨hentry.frame hframe', ?_⟩, hframe'⟩
    · obtain ⟨a, table, ha, hmapped, hcount⟩ := hm.published p (hoverflow.symm.trans hp)
      obtain ⟨table', hmapped', hlen'⟩ := hlen a table hmapped
      exact ⟨a, table', ha, hmapped', hlen'.trans hcount⟩
    · rw [Memory.tagOf_record, htags fd' hfd', hm.tags fd' hfd']
      simp only [Memory.record, hhistory, last_append_set]
      rfl
    · simp only [Memory.record, hhistory]
      exact hm.legal.append_set i fd tag
    · exact List.mem_append_right _ (List.mem_singleton_self _)

theorem check_ok : CallOk copy m i (c.goto c.request.check) := by
  have hsize : (FD_SAN_TABLE_SIZE : Int) = 128 := rfl
  have hend : (FD_SAN_OVERFLOW_END : Int) = 2048 := rfl
  have hsize' : FD_SAN_TABLE_SIZE = 128 := rfl
  have hend' : FD_SAN_OVERFLOW_END = 2048 := rfl
  unfold Request.check
  split
  · next hneg => exact ⟨rfl, .inr fun h => absurd h.nonneg (Int.not_le.mpr hneg)⟩
  split
  · next hge =>
    have hnot : ¬ c.request.fd < (FD_SAN_OVERFLOW_END : Int) := by omega
    exact ⟨rfl, .inr fun h => absurd h.lt hnot⟩
  split
  · next hlt =>
    have hidx : c.request.fd = (c.request.fd.toNat : Int) := by omega
    exact ⟨hidx, hlt⟩
  · exact ⟨show (FD_SAN_TABLE_SIZE : Int) ≤ c.request.fd by omega,
      show c.request.fd < (FD_SAN_OVERFLOW_END : Int) by omega⟩

theorem alignedCount_gt (copy : Copy) (h : Overflowing fd) :
    fd.toNat - FD_SAN_TABLE_SIZE < copy.alignedCount.toNat := by
  have hlt := h.lt
  have hcount : copy.alignedCount.toNat = 2047 := by cases copy <;> decide
  have hsize' : FD_SAN_TABLE_SIZE = 128 := rfl
  have hend : (FD_SAN_OVERFLOW_END : Int) = 2048 := rfl
  omega

/-- What a step does, whatever the other calls have done. -/
theorem stepCall_ok {address : Option Nat} (hm : MemoryOk copy m) (hc : CallOk copy m i c)
    (hlate : copy = .fdTagFunc → c.pc = .reloadOverflow → m.overflow = none)
    (h : stepCall copy i address m c = some (m', c')) : StepOk copy i m m' c' := by
  obtain ⟨request, pc, failed⟩ := c
  unfold stepCall at h
  cases pc with
  | getFdSanEntry =>
    cases h
    exact hm.unchanged check_ok
  | loadOverflow =>
    dsimp only at h
    split at h
    · cases h
      exact hm.unchanged hc
    · next p hp =>
      cases h
      exact hm.unchanged (Found.mk hc hp.symm rfl)
  | mmap =>
    dsimp only at h
    split at h
    · cases h
      cases copy with
      | fdTagFunc => exact hm.unchanged ⟨rfl, rfl⟩
      | commonFunc => exact hm.unchanged ⟨rfl, .inl rfl⟩
    · next a =>
      split at h
      · cases h
      · next hfree =>
        cases h
        rw [Bool.not_eq_true, Option.isSome_eq_false_iff, Option.isNone_iff_eq_none] at hfree
        have hun : m.overflow ≠ some (.at a) := fun hp => by
          obtain ⟨b, table, hb, hmapped, -⟩ := hm.published _ hp
          cases hb
          rw [hfree] at hmapped
          cases hmapped
        refine ⟨hm.setMapping hun _, ⟨hc, rfl, a, _, rfl, if_pos rfl, rfl, fun _ => rfl, hun⟩,
          .setMapping (fun table htable => ?_) _⟩
        rw [hfree] at htable
        cases htable
  | reloadOverflow =>
    obtain ⟨hcopy, hfailed⟩ := hc
    dsimp only at h
    rw [hlate hcopy rfl] at h
    cases h
    exact hm.unchanged ⟨rfl, .inl hfailed⟩
  | storeLen allocation localOverflow =>
    obtain ⟨hfd, hnone, a, table, rfl, howns⟩ := hc
    have hderef : m.deref (some (.at a)) = some (a, table) := congrArg (Option.map _) howns.mapped
    simp only [hderef] at h
    cases h
    refine ⟨hm.setMapping howns.unpublished _, ⟨hfd, hnone, a, _, rfl, ⟨if_pos rfl, howns.creator,
      howns.clear, howns.unpublished⟩, rfl⟩, .setMapping (fun other hother => ?_) _⟩
    obtain rfl : table = other := Option.some.inj (howns.mapped.symm.trans hother)
    exact howns.creator
  | compareExchange allocation localOverflow =>
    obtain ⟨hfd, hnone, a, table, rfl, howns, hlen⟩ := hc
    dsimp only at hnone h
    rw [hnone] at h
    split at h
    · next hempty =>
      cases h
      exact ⟨hm.publish hempty howns hlen, Found.mk hfd rfl rfl, .publish hempty howns⟩
    · next hother =>
      cases h
      exact hm.unchanged
        ⟨Found.mk hfd rfl (Option.isSome_iff_ne_none.mpr hother), a, table, rfl, howns⟩
  | munmap allocation localOverflow =>
    obtain ⟨hfound, a, table, rfl, howns⟩ := hc
    cases h
    have hframe : Frame i m (m.setMapping a none) := .setMapping (fun other hother => by
      obtain rfl : table = other := Option.some.inj (howns.mapped.symm.trans hother)
      exact howns.creator) _
    exact ⟨hm.setMapping howns.unpublished _, hfound.frame hframe, hframe⟩
  | loadLen localOverflow =>
    obtain ⟨hfd, hcurrent, hisSome⟩ := hc
    obtain ⟨p, hp⟩ := Option.isSome_iff_exists.mp hisSome
    obtain ⟨a, table, rfl, hmapped, hlen⟩ := hm.published p (hcurrent.symm.trans hp)
    have hderef : m.deref localOverflow = some (a, table) := by
      rw [hp]
      exact congrArg (Option.map _) hmapped
    simp only [hderef] at h
    rw [if_neg (by rw [hlen]; exact Nat.not_le_of_gt (alignedCount_gt copy hfd))] at h
    cases h
    exact hm.unchanged ⟨hcurrent.symm.trans hp, hfd, rfl⟩
  | access fde =>
    have hok := accessTag_ok (i := i) hm hc
    rwa [Option.some.inj h] at hok
  | done fde tag => cases h

/-! ## Runs -/

variable {s t : State} {action : Action}

theorem Inv.after_step (h : Inv copy s) (hlate : NoLateTable copy s action)
    (hstep : step copy s action = some t) :
    Inv copy t ∧ ∀ p, s.memory.overflow = some p → t.memory.overflow = some p := by
  unfold FdTag.step at hstep
  simp only [h.memory.running, Bool.false_eq_true, if_false] at hstep
  cases action with
  | call request =>
    cases hstep
    exact ⟨⟨h.memory, Pool.forall_getElem?_append_singleton h.calls trivial⟩, fun _ hp => hp⟩
  | go i address =>
    dsimp only at hstep
    split at hstep
    · cases hstep
    · next c hi =>
      obtain ⟨⟨m', c'⟩, hcall, rfl⟩ := Option.map_eq_some_iff.mp hstep
      have hok := stepCall_ok h.memory (h.calls i c hi) (fun hcopy => hlate hcopy c hi) hcall
      refine ⟨⟨hok.memory, Pool.forall_getElem?_set (fun j d hij hj => ?_) hok.call⟩,
        hok.frame.overflow⟩
      exact (h.calls j d hj).frame hok.frame hij

theorem inv_initial (copy : Copy) : Inv copy {} :=
  ⟨⟨rfl, nofun, fun fd _ => by unfold Memory.tagOf; split <;> rfl, .nil⟩, nofun⟩

theorem Inv.after_run {actions : List Action} (h : Inv copy s)
    (hok : StepsOk (step copy) (NoLateTable copy) s actions)
    (hrun : run (step copy) s actions = some t) :
    Inv copy t ∧ ∀ p, s.memory.overflow = some p → t.memory.overflow = some p := by
  let inv : State → Prop := fun t =>
    Inv copy t ∧ ∀ p, s.memory.overflow = some p → t.memory.overflow = some p
  have hstep : ∀ mid a after, inv mid → NoLateTable copy mid a → step copy mid a = some after →
      inv after := by
    intro mid a after hmid hlate hstep
    obtain ⟨hafter, hstays⟩ := hmid.1.after_step hlate hstep
    exact ⟨hafter, fun p hp => hstays p (hmid.2 p hp)⟩
  exact run_invariant hstep ⟨h, fun _ hp => hp⟩ hok hrun

/-! ## What the invariant says -/

theorem EntryOf.iff {fd' : Int} {fde' : FdSanEntry} (h : EntryOf m fd fde)
    (h' : EntryOf m fd' fde') : fd = fd' ↔ fde = fde' := by
  have hsize : (FD_SAN_TABLE_SIZE : Int) = 128 := rfl
  have hsize' : FD_SAN_TABLE_SIZE = 128 := rfl
  cases fde with
  | entries idx =>
    obtain ⟨hfd, hidx⟩ := h
    cases fde' with
    | entries idx' =>
      obtain ⟨hfd', -⟩ := h'
      rw [FdSanEntry.entries.injEq]
      omega
    | overflow b offset' =>
      have hge := h'.2.1.ge
      exact iff_of_false (by omega) nofun
  | overflow a offset =>
    obtain ⟨hp, ⟨hge, -⟩, hoffset⟩ := h
    cases fde' with
    | entries idx' =>
      obtain ⟨hfd', hidx'⟩ := h'
      exact iff_of_false (by omega) nofun
    | overflow b offset' =>
      obtain ⟨hp', ⟨hge', -⟩, hoffset'⟩ := h'
      have hab : a = b := by
        rw [hp, Option.some.injEq, Pointer.at.injEq] at hp'
        exact hp'
      rw [FdSanEntry.overflow.injEq]
      omega

theorem EntryOf.inside (hm : MemoryOk copy m) (h : EntryOf m fd fde) : fde.Inside copy m := by
  cases fde with
  | entries idx => exact h.2
  | overflow a offset =>
    obtain ⟨table, hmapped, -⟩ := h.mapped hm
    refine ⟨Option.isSome_iff_exists.mpr ⟨table, hmapped⟩, ?_⟩
    obtain ⟨-, ⟨-, hlt⟩, hoffset⟩ := h
    have haligned : copy.alignedSize.toNat = 16384 := by cases copy <;> decide
    have hend : (FD_SAN_OVERFLOW_END : Int) = 2048 := rfl
    have hheader : overflowHeaderSize.toNat = 8 := rfl
    have hentry : fdSanEntrySize.toNat = 8 := rfl
    have hsize' : FD_SAN_TABLE_SIZE = 128 := rfl
    rw [haligned, hheader, hentry]
    omega

theorem CallOk.entryOf (h : CallOk copy m i c) (hentry : c.pc.entry = some fde) :
    EntryOf m c.request.fd fde := by
  obtain ⟨request, pc, failed⟩ := c
  cases pc with
  | access fde' =>
    cases hentry
    exact h
  | done fde' tag =>
    obtain rfl : fde' = some fde := hentry
    exact h.1
  | _ => cases hentry

theorem Inv.consistent (h : Inv copy s) : Consistent copy s := by
  have hcalls : ∀ c ∈ s.calls, ∃ i, CallOk copy s.memory i c := fun c hc => by
    obtain ⟨i, hi⟩ := List.mem_iff_getElem?.mp hc
    exact ⟨i, h.calls i c hi⟩
  refine ⟨h.memory.running, h.memory.published, fun c hc p localOverflow hpc => ?_,
    fun c hc fde hentry => ?_, fun c hc d hd fde fde' hentry hentry' => ?_, h.memory.legal,
    fun i c hi fde tag hpc hfailed hin => ?_, fun c hc tag hpc => ?_⟩
  · obtain ⟨i, hok⟩ := hcalls c hc
    rw [CallOk, hpc] at hok
    obtain ⟨-, -, a, table, hp, howns⟩ := hok
    exact ⟨a, hp, Option.isSome_iff_exists.mpr ⟨table, howns.mapped⟩⟩
  · obtain ⟨i, hok⟩ := hcalls c hc
    exact (hok.entryOf hentry).inside h.memory
  · obtain ⟨i, hok⟩ := hcalls c hc
    obtain ⟨j, hok'⟩ := hcalls d hd
    exact (hok.entryOf hentry).iff (hok'.entryOf hentry')
  · have hok := h.calls i c hi
    rw [CallOk, hpc] at hok
    cases fde with
    | none =>
      rcases hok.2 with hfailed' | hout
      · rw [hfailed] at hfailed'
        cases hfailed'
      · exact absurd hin hout
    | some fde => exact hok.2
  · obtain ⟨i, hok⟩ := hcalls c hc
    rw [CallOk, hpc] at hok
    exact hok.1

theorem not_consistent_of_late (h : Consistent copy s) (hlate : ¬ NoLateTable copy s action) :
    ∃ t, step copy s action = some t ∧ ¬ Consistent copy t := by
  cases action with
  | call request => exact absurd trivial hlate
  | go i address =>
    simp only [NoLateTable, Classical.not_imp, not_forall] at hlate
    obtain ⟨hcopy, c, hc, hpc, hsome⟩ := hlate
    obtain ⟨p, hp⟩ := Option.ne_none_iff_exists'.mp hsome
    have hlt : i < s.calls.length := (List.getElem?_eq_some_iff.mp hc).1
    refine ⟨{ s with calls := s.calls.set i (c.goto (.storeLen .mapFailed (some p))) }, ?_,
      fun hbad => ?_⟩
    · have hcall : stepCall copy i address s.memory c =
          some (s.memory, c.goto (.storeLen .mapFailed (some p))) := by
        unfold stepCall
        rw [hpc]
        dsimp only
        rw [hp]
      unfold FdTag.step
      simp only [h.running, Bool.false_eq_true, if_false, Option.mem_def.mp hc, hcall,
        Option.map_some]
    · obtain ⟨a, ha, -⟩ := hbad.storesLen _ (List.mem_set hlt _) _ _ rfl
      cases ha

/-- The table is as it should be in a run exactly if no call finds a table behind a `mmap` that
failed; where `CommonFunc` has the table, that is always so. -/
theorem fdTag_runOk_iff (copy : Copy) (actions : List Action) :
    RunOk copy actions ↔ StepsOk (step copy) (NoLateTable copy) {} actions := by
  constructor
  · intro h
    refine stepsOk_iff.mpr fun front a back hsplit s hrun => by_contra fun hlate => ?_
    have hsplit' : actions = (front ++ [a]) ++ back := by
      rw [hsplit, List.append_assoc, List.singleton_append]
    have hfront : front <+: actions := ⟨a :: back, hsplit.symm⟩
    obtain ⟨t, ht, hbad⟩ := not_consistent_of_late (h.consistent front s hfront hrun) hlate
    refine hbad (h.consistent (front ++ [a]) t ⟨back, hsplit'.symm⟩ ?_)
    rw [run_append, hrun]
    simp only [Option.bind_some, run, ht]
  · intro hok
    refine ⟨fun front s hfront hrun => ?_, fun front later s t hfront hrun hlater => ?_⟩
    · obtain ⟨back, rfl⟩ := hfront
      exact ((inv_initial copy).after_run hok.left hrun).1.consistent
    · obtain ⟨back, rfl⟩ := hfront
      have hs := ((inv_initial copy).after_run hok.left.left hrun).1
      exact (hs.after_run (hok.left.right hrun) hlater).2

/-- Two calls find no table; the `mmap` of the second one fails when the first has published its
own. -/
def lateTable : List Action :=
  [.call (.setFdTag 200 7), .call (.getFdTag 300), .go 0 none, .go 1 none, .go 0 none, .go 1 none,
    .go 0 (some 0), .go 0 none, .go 0 none, .go 1 none, .go 1 none, .go 1 none]

theorem lateTable_not_runOk :
    (run (step .fdTagFunc) {} lateTable).map (fun s => s.memory.faulted) = some true ∧
      ¬ RunOk .fdTagFunc lateTable := by
  refine ⟨rfl, fun h => ?_⟩
  have hend := h.consistent lateTable _ (List.prefix_refl _) rfl
  exact absurd hend.running (by decide)

example : ¬ StepsOk (step .fdTagFunc) (NoLateTable .fdTagFunc) {} lateTable := by decide
example : StepsOk (step .commonFunc) (NoLateTable .commonFunc) {} lateTable := by decide

end FileApi.ModFs.FdTag
