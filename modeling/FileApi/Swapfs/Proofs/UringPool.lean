import Mathlib.Data.List.Perm.Basic
import FileApi.Misc.Pool
import FileApi.Swapfs.UringPool
import FileApi.Swapfs.Proofs.ReadEngines

/-!
# A slot belongs to one call

While a call holds a slot, its ring has the request of the call and what the call did to cancel
it, and nothing else; a slot that is not held has an empty ring. So a completion with the id of a
request is the one of its call, as long as no id is handed out twice.
-/

namespace FileApi.Swapfs

open Pool Machine

/-! ## The ring of a call -/

/-- What is in a ring. -/
def RingSlot.entries (slot : RingSlot) : List RingEntry :=
  slot.outstanding ++ slot.completions.map Prod.fst

/-- The ring of the `i`-th call while it waits: its request once, and once something went wrong
the requests to cancel it, with another id. -/
structure RingOf (i : Nat) (id : UInt64) (rebuild : Bool) (entries : List RingEntry) : Prop where
  mine : entries.count ⟨id, some i⟩ = 1
  others : ∀ e ∈ entries, e = ⟨id, some i⟩ ∨ e.read = none ∧ e.userData ≠ id ∧ rebuild = true

/-- What a call knows of its slot. -/
def Holds (i : Nat) (slot : RingSlot) : UringPc → Prop
  | .openFile _ => slot.available = true ∧ slot.entries = []
  | .getSqe _ => slot.available = true ∧ slot.entries = []
  | .submit _ _ => slot.available = true ∧ slot.entries = []
  | .waitCqe _ id state => RingOf i id state.rebuild slot.entries
  | .cancel _ id cancelId state =>
      RingOf i id state.rebuild slot.entries ∧ cancelId ≠ id ∧ state.rebuild = true
  | .release _ _ => slot.available = true → slot.entries = []
  | _ => True

namespace RingOf

variable {i : Nat} {id : UInt64} {rebuild : Bool} {e : RingEntry}
  {entries entries' : List RingEntry}

theorem perm (h : RingOf i id rebuild entries) (hperm : entries'.Perm entries) :
    RingOf i id rebuild entries' :=
  ⟨(hperm.count_eq _).trans h.mine, fun e he => h.others e (hperm.mem_iff.mp he)⟩

theorem rebuilding (h : RingOf i id rebuild entries) : RingOf i id true entries := by
  refine ⟨h.mine, fun e he => ?_⟩
  rcases h.others e he with hmine | ⟨hnone, hid, -⟩
  · exact .inl hmine
  · exact .inr ⟨hnone, hid, rfl⟩

theorem singleton (i : Nat) (id : UInt64) (rebuild : Bool) : RingOf i id rebuild [⟨id, some i⟩] := by
  refine ⟨by simp, fun e he => .inl ?_⟩
  exact List.mem_singleton.mp he

theorem append_cancels (h : RingOf i id true entries) {cancelId : UInt64} (hne : cancelId ≠ id)
    (n : Nat) (hperm : entries'.Perm (entries ++ List.replicate n ⟨cancelId, none⟩)) :
    RingOf i id true entries' := by
  refine perm ⟨?_, ?_⟩ hperm
  · have hzero : (List.replicate n (⟨cancelId, none⟩ : RingEntry)).count ⟨id, some i⟩ = 0 :=
      List.count_eq_zero.mpr fun hmem => by
        have heq := List.eq_of_mem_replicate hmem
        cases heq
    rw [List.count_append, h.mine, hzero]
  · intro e he
    rcases List.mem_append.mp he with he | he
    · exact h.others e he
    · obtain rfl := List.eq_of_mem_replicate he
      exact .inr ⟨rfl, hne, rfl⟩

theorem own_of_userData (h : RingOf i id rebuild entries) (he : e ∈ entries)
    (hid : e.userData = id) : e = ⟨id, some i⟩ := by
  rcases h.others e he with hmine | ⟨-, hne, -⟩
  · exact hmine
  · exact absurd hid hne

theorem reap_other (h : RingOf i id rebuild (e :: entries)) (hid : e.userData ≠ id) :
    RingOf i id true entries := by
  have hne : e ≠ ⟨id, some i⟩ := fun heq => hid (by rw [heq])
  refine rebuilding ⟨?_, fun d hd => h.others d (List.mem_cons_of_mem e hd)⟩
  rw [← h.mine, List.count_cons_of_ne hne]

theorem reap_own (h : RingOf i id false (e :: entries)) (hid : e.userData = id) : entries = [] := by
  obtain rfl := h.own_of_userData List.mem_cons_self hid
  have hzero : entries.count ⟨id, some i⟩ = 0 := by
    have hone := h.mine
    rw [List.count_cons_self] at hone
    omega
  rw [List.eq_nil_iff_forall_not_mem]
  intro d hd
  rcases h.others d (List.mem_cons_of_mem _ hd) with rfl | ⟨-, -, hfalse⟩
  · exact List.count_eq_zero.mp hzero hd
  · cases hfalse

end RingOf

theorem Holds.perm {i : Nat} {slot slot' : RingSlot} {pc : UringPc} (h : Holds i slot pc)
    (havailable : slot'.available = slot.available) (hperm : slot'.entries.Perm slot.entries) :
    Holds i slot' pc := by
  have hempty : slot.entries = [] → slot'.entries = [] := fun hnil => (hnil ▸ hperm).eq_nil
  cases pc with
  | openFile k => exact ⟨havailable.trans h.1, hempty h.2⟩
  | getSqe k => exact ⟨havailable.trans h.1, hempty h.2⟩
  | submit k id => exact ⟨havailable.trans h.1, hempty h.2⟩
  | waitCqe k id state => exact RingOf.perm h hperm
  | cancel k id cancelId state => exact ⟨h.1.perm hperm, h.2⟩
  | release k result => exact fun ha => hempty (h (havailable ▸ ha))
  | _ => trivial

/-! ## The invariant -/

/-- A call that goes on behind its ring took its own completion, if the ring had its request. -/
def ReaderOk (reader : Reader) : Prop :=
  match reader.pc with
  | .waitCqe _ _ _ => True
  | .cancel _ _ _ _ => True
  | .rebuild _ _ => reader.accepted = true → reader.consumed = true
  | .release _ _ => reader.accepted = true → reader.consumed = true
  | .done _ => reader.accepted = true → reader.consumed = true
  | _ => reader.accepted = false

/-- The ids are counted up from one. -/
def IdOk (issued : Nat) : UringPc → Prop
  | .submit _ id => ∃ n < issued, id = UInt64.ofNat (n + 1)
  | .waitCqe _ id _ => ∃ n < issued, id = UInt64.ofNat (n + 1)
  | .cancel _ id _ _ => ∃ n < issued, id = UInt64.ofNat (n + 1)
  | _ => True

theorem IdOk.mono {issued issued' : Nat} {pc : UringPc} (h : IdOk issued pc)
    (hle : issued ≤ issued') : IdOk issued' pc := by
  cases pc with
  | submit k id =>
    obtain ⟨n, hn, hid⟩ := h
    exact ⟨n, Nat.lt_of_lt_of_le hn hle, hid⟩
  | waitCqe k id state =>
    obtain ⟨n, hn, hid⟩ := h
    exact ⟨n, Nat.lt_of_lt_of_le hn hle, hid⟩
  | cancel k id cancelId state =>
    obtain ⟨n, hn, hid⟩ := h
    exact ⟨n, Nat.lt_of_lt_of_le hn hle, hid⟩
  | _ => trivial

/-- Whether the call holds the slot, as a number. -/
def Reader.holds (k : Nat) (reader : Reader) : Nat := if reader.pc.slot = some k then 1 else 0

def usedAt (slots : List RingSlot) (k : Nat) : Nat :=
  if (slots[k]?.map RingSlot.inUse).getD false then 1 else 0

/-- What is known of a call. -/
structure ReaderInv (slots : List RingSlot) (issued i : Nat) (reader : Reader) : Prop where
  ok : ReaderOk reader
  id : IdOk issued reader.pc
  slot : ∀ k, reader.pc.slot = some k → ∃ slot, slots[k]? = some slot ∧ Holds i slot reader.pc

/-- A slot in use is held by one call, and one that can be acquired has an empty ring. -/
structure PoolInv (slots : List RingSlot) (readers : List Reader) (issued : Nat) : Prop where
  owners : ∀ k, total (Reader.holds k) readers = usedAt slots k
  readers : ∀ i reader, readers[i]? = some reader → ReaderInv slots issued i reader
  free : ∀ slot ∈ slots, slot.available = true → slot.inUse = false → slot.entries = []

variable {j : Nat}

section Moves

variable {slots : List RingSlot} {readers : List Reader} {issued issued' i k : Nat}
  {reader reader' : Reader} {slot slot' : RingSlot}

variable {other : Reader}

theorem PoolInv.unique (inv : PoolInv slots readers issued) (hi : readers[i]? = some reader)
    (hj : readers[j]? = some other) (hk : reader.pc.slot = some k) (hk' : other.pc.slot = some k) :
    i = j := by
  by_contra hne
  have htwo := add_le_total (Reader.holds k) hne hi hj
  rw [inv.owners k, Reader.holds, Reader.holds, if_pos hk, if_pos hk', usedAt] at htwo
  split at htwo <;> omega

theorem PoolInv.inUse (inv : PoolInv slots readers issued) (hi : readers[i]? = some reader)
    (hk : reader.pc.slot = some k) (hslot : slots[k]? = some slot) : slot.inUse = true := by
  have hle := le_total (Reader.holds k) hi
  rw [inv.owners k, Reader.holds, if_pos hk, usedAt, hslot] at hle
  by_contra hne
  simp [hne] at hle

theorem PoolInv.not_held (inv : PoolInv slots readers issued) (hslot : slots[k]? = some slot)
    (hfree : slot.inUse = false) (hj : readers[j]? = some other) :
    other.pc.slot ≠ some k := by
  intro hk
  have hused := inv.inUse hj hk hslot
  rw [hfree] at hused
  cases hused

theorem ReaderInv.mono (inv : ReaderInv slots issued j other) (hle : issued ≤ issued') :
    ReaderInv slots issued' j other :=
  ⟨inv.ok, inv.id.mono hle, inv.slot⟩

theorem ReaderInv.set_other (inv : ReaderInv slots issued j other) (hne : other.pc.slot ≠ some k) :
    ReaderInv (slots.set k slot') issued j other := by
  refine ⟨inv.ok, inv.id, fun k' hk' => ?_⟩
  obtain ⟨s, hs, hholds⟩ := inv.slot k' hk'
  have hkk : k ≠ k' := fun heq => hne (heq ▸ hk')
  exact ⟨s, by rw [List.getElem?_set_ne hkk]; exact hs, hholds⟩

theorem usedAt_set (hslot : slots[k]? = some slot) (k' : Nat) :
    usedAt (slots.set k slot') k' =
      if k' = k then (if slot'.inUse then 1 else 0) else usedAt slots k' := by
  have hlt : k < slots.length := (List.getElem?_eq_some_iff.mp hslot).1
  unfold usedAt
  by_cases hk : k' = k
  · subst hk
    rw [List.getElem?_set_self hlt, if_pos rfl]
    rfl
  · rw [List.getElem?_set_ne (Ne.symm hk), if_neg hk]

theorem PoolInv.idle (inv : PoolInv slots readers issued) (hi : readers[i]? = some reader)
    (hnone : reader.pc.slot = none) (hnone' : reader'.pc.slot = none) (hok : ReaderOk reader')
    (hid : IdOk issued reader'.pc) : PoolInv slots (readers.set i reader') issued := by
  refine ⟨fun k => ?_, Pool.forall_getElem?_set (fun j other _ hj => inv.readers j other hj) ⟨hok, hid, ?_⟩,
    inv.free⟩
  · have hset := total_set (Reader.holds k) reader' hi
    rw [Reader.holds, Reader.holds, hnone, hnone'] at hset
    rw [← inv.owners k]
    omega
  · intro k hk
    rw [hnone'] at hk
    cases hk

theorem PoolInv.keep (inv : PoolInv slots readers issued) (hi : readers[i]? = some reader)
    (hk : reader.pc.slot = some k) (hk' : reader'.pc.slot = some k) (hslot : slots[k]? = some slot)
    (hinUse : slot'.inUse = slot.inUse) (hholds : Holds i slot' reader'.pc)
    (hok : ReaderOk reader') (hid : IdOk issued' reader'.pc) (hle : issued ≤ issued') :
    PoolInv (slots.set k slot') (readers.set i reader') issued' := by
  have hlt : k < slots.length := (List.getElem?_eq_some_iff.mp hslot).1
  have hused := inv.inUse hi hk hslot
  refine ⟨fun k₁ => ?_, Pool.forall_getElem?_set (fun j other hji hj => ?_) ⟨hok, hid, fun k₁ hk₁ => ?_⟩, ?_⟩
  · have hset := total_set (Reader.holds k₁) reader' hi
    rw [Reader.holds, Reader.holds, hk, hk'] at hset
    have hsame : usedAt (slots.set k slot') k₁ = usedAt slots k₁ := by
      rw [usedAt_set hslot]
      split
      · next heq =>
        subst heq
        rw [usedAt, hslot, hinUse]
        rfl
      · rfl
    rw [hsame, ← inv.owners k₁]
    omega
  · refine ((inv.readers j other hj).set_other ?_).mono hle
    exact fun hother => hji (inv.unique hj hi hother hk)
  · rw [hk'] at hk₁
    cases hk₁
    exact ⟨slot', List.getElem?_set_self hlt, hholds⟩
  · refine forall_mem_set k inv.free ?_
    intro _ hfree
    rw [hinUse, hused] at hfree
    cases hfree

theorem PoolInv.acquire (inv : PoolInv slots readers issued) (hi : readers[i]? = some reader)
    (hnone : reader.pc.slot = none) (hk' : reader'.pc.slot = some k)
    (hslot : slots[k]? = some slot) (hfree : slot.inUse = false)
    (hholds : Holds i { slot with inUse := true } reader'.pc) (hok : ReaderOk reader')
    (hid : IdOk issued reader'.pc) :
    PoolInv (slots.set k { slot with inUse := true }) (readers.set i reader') issued := by
  have hlt : k < slots.length := (List.getElem?_eq_some_iff.mp hslot).1
  refine ⟨fun k₁ => ?_, Pool.forall_getElem?_set (fun j other _ hj => ?_) ⟨hok, hid, fun k₁ hk₁ => ?_⟩, ?_⟩
  · have hset := total_set (Reader.holds k₁) reader' hi
    have howners := inv.owners k₁
    rw [Reader.holds, Reader.holds, hnone, hk'] at hset
    rw [usedAt_set hslot]
    by_cases heq : k₁ = k
    · subst heq
      rw [usedAt, hslot] at howners
      simp only [Option.map_some, Option.getD_some, hfree, reduceCtorEq, if_false, if_true,
        Bool.false_eq_true] at hset howners ⊢
      omega
    · rw [if_neg heq, ← howners]
      simp only [reduceCtorEq, if_false, Option.some.injEq, if_neg (Ne.symm heq)] at hset
      omega
  · exact (inv.readers j other hj).set_other (inv.not_held hslot hfree hj)
  · rw [hk'] at hk₁
    cases hk₁
    exact ⟨_, List.getElem?_set_self hlt, hholds⟩
  · refine forall_mem_set k inv.free ?_
    intro _ hused
    cases hused

theorem PoolInv.release (inv : PoolInv slots readers issued) (hi : readers[i]? = some reader)
    (hk : reader.pc.slot = some k) (hnone : reader'.pc.slot = none) (hslot : slots[k]? = some slot)
    (hempty : slot.available = true → slot.entries = []) (hok : ReaderOk reader')
    (hid : IdOk issued reader'.pc) :
    PoolInv (slots.set k { slot with inUse := false }) (readers.set i reader') issued := by
  have hused := inv.inUse hi hk hslot
  refine ⟨fun k₁ => ?_, Pool.forall_getElem?_set (fun j other hji hj => ?_) ⟨hok, hid, fun k₁ hk₁ => ?_⟩, ?_⟩
  · have hset := total_set (Reader.holds k₁) reader' hi
    have howners := inv.owners k₁
    rw [Reader.holds, Reader.holds, hnone, hk] at hset
    rw [usedAt_set hslot]
    by_cases heq : k₁ = k
    · subst heq
      rw [usedAt, hslot] at howners
      simp only [Option.map_some, Option.getD_some, hused, reduceCtorEq, if_false, if_true,
        Bool.false_eq_true] at hset howners ⊢
      omega
    · rw [if_neg heq, ← howners]
      simp only [reduceCtorEq, if_false, Option.some.injEq, if_neg (Ne.symm heq)] at hset
      omega
  · refine (inv.readers j other hj).set_other ?_
    exact fun hother => hji (inv.unique hj hi hother hk)
  · rw [hnone] at hk₁
    cases hk₁
  · exact forall_mem_set k inv.free fun ha _ => hempty ha

theorem PoolInv.ring (inv : PoolInv slots readers issued) (hslot : slots[k]? = some slot)
    (havailable : slot'.available = slot.available) (hinUse : slot'.inUse = slot.inUse)
    (hperm : slot'.entries.Perm slot.entries) : PoolInv (slots.set k slot') readers issued := by
  have hlt : k < slots.length := (List.getElem?_eq_some_iff.mp hslot).1
  refine ⟨fun k₁ => ?_, fun j other hj => ?_, forall_mem_set k inv.free fun ha hfree => ?_⟩
  · rw [usedAt_set hslot, inv.owners k₁]
    split
    · next heq =>
      subst heq
      rw [usedAt, hslot, hinUse]
      rfl
    · rfl
  · have hold := inv.readers j other hj
    by_cases hheld : other.pc.slot = some k
    · refine ⟨hold.ok, hold.id, fun k₁ hk₁ => ?_⟩
      rw [hheld] at hk₁
      cases hk₁
      obtain ⟨s, hs, hholds⟩ := hold.slot k hheld
      obtain rfl : slot = s := Option.some.inj (hslot.symm.trans hs)
      exact ⟨slot', List.getElem?_set_self hlt, hholds.perm havailable hperm⟩
    · exact hold.set_other hheld
  · have hnil := inv.free slot (List.mem_of_getElem? hslot) (havailable ▸ ha) (hinUse ▸ hfree)
    exact (hnil ▸ hperm).eq_nil

end Moves

/-! ## Every step -/

section Steps

variable {s : Engine} {i k : Nat} {slot : RingSlot} {request : ReadRequest} {pc pc' : UringPc}
  {accepted consumed : Bool} {next' : UInt64} {response : Response}

theorem modify_of_getElem? {l : List RingSlot} (f : RingSlot → RingSlot) (h : l[k]? = some slot) :
    l.modify k f = l.set k (f slot) := by
  rw [List.modify_eq_set_getElem?, h]
  rfl

theorem slotsAfter_of_slot (hk : pc.slot = some k) (h : s.slots[k]? = some slot) :
    s.slotsAfter i pc response = s.slots.set k (slot.after i pc response) := by
  have hmodify := modify_of_getElem? (fun slot => slot.after i pc response) h
  cases pc <;> cases hk <;> exact hmodify

theorem freeSlot_spec (h : s.freeSlot = some k) :
    ∃ slot, s.slots[k]? = some slot ∧ slot.available = true ∧ slot.inUse = false := by
  obtain ⟨hlt, hfound, -⟩ := List.findIdx?_eq_some_iff_getElem.mp h
  simp only [Bool.and_eq_true, Bool.not_eq_true'] at hfound
  exact ⟨_, List.getElem?_eq_getElem hlt, hfound.1, hfound.2⟩

theorem ofNat_succ_ne {m n : Nat} (hm : m < n) (hn : n < 2 ^ 64) :
    UInt64.ofNat (n + 1) ≠ UInt64.ofNat (m + 1) := by
  intro heq
  have hmod := congrArg UInt64.toNat heq
  simp only [UInt64.toNat_ofNat'] at hmod
  omega

/-- A step of a call keeps the pool. -/
theorem stepRead_pool (inv : PoolInv s.slots s.readers s.issued)
    (hnext : s.nextRequestId = UInt64.ofNat (s.issued + 1))
    (hi : s.readers[i]? = some ⟨request, pc, accepted, consumed⟩)
    (hallows : s.allows pc response = true)
    (h : stepRead request s.nextRequestId pc response = some (pc', next'))
    (hfew : s.issued + pc.issues pc' ≤ 2 ^ 64) :
    PoolInv (s.slotsAfter i pc response)
      (s.readers.set i ⟨request, pc', accepted || response.accepts pc, consumed⟩)
      (s.issued + pc.issues pc') := by
  obtain ⟨hok, hid, hslots⟩ := inv.readers i _ hi
  unfold stepRead at h
  split at h
  · -- `IsAvailable`
    obtain ⟨rfl, -⟩ := Prod.mk.inj (Option.some.inj h)
    have hzero : accepted = false := hok
    subst hzero
    split
    · exact inv.idle hi rfl rfl nofun trivial
    · split
      · exact inv.idle hi rfl rfl nofun trivial
      · exact inv.idle hi rfl rfl rfl trivial
  · cases h
    have hzero : accepted = false := hok
    subst hzero
    exact inv.idle hi rfl rfl nofun trivial
  · -- `AcquireSlot` finds a slot
    next k =>
    cases h
    have hfound : s.freeSlot = some k := by
      simp only [Engine.allows] at hallows
      split at hallows
      · cases hallows
      · simp only [Option.isSome_some, Bool.true_and, beq_iff_eq] at hallows
        exact hallows.symm
    obtain ⟨slot, hslot, havailable, hfree⟩ := freeSlot_spec hfound
    have hempty := inv.free slot (List.mem_of_getElem? hslot) havailable hfree
    have hmodify := modify_of_getElem? (fun slot => { slot with inUse := true }) hslot
    simp only [Engine.slotsAfter, hmodify]
    have hzero : accepted = false := hok
    subst hzero
    exact inv.acquire hi rfl rfl hslot hfree ⟨havailable, hempty⟩ rfl trivial
  · -- the file cannot be opened
    next k err =>
    cases h
    obtain ⟨slot, hslot, -, hempty⟩ := hslots k rfl
    rw [slotsAfter_of_slot rfl hslot]
    have hzero : accepted = false := hok
    subst hzero
    exact inv.keep hi rfl rfl hslot rfl (fun _ => hempty) nofun trivial (Nat.le_refl _)
  · next k =>
    cases h
    obtain ⟨slot, hslot, hholds⟩ := hslots k rfl
    rw [slotsAfter_of_slot rfl hslot]
    have hzero : accepted = false := hok
    subst hzero
    exact inv.keep hi rfl rfl hslot rfl hholds rfl trivial (Nat.le_refl _)
  · -- `GetSqe` and an id
    next k =>
    cases h
    obtain ⟨slot, hslot, hholds⟩ := hslots k rfl
    rw [slotsAfter_of_slot rfl hslot]
    have hzero : accepted = false := hok
    subst hzero
    exact inv.keep hi rfl rfl hslot rfl hholds rfl ⟨s.issued, Nat.lt_succ_self _, hnext⟩
      (Nat.le_succ _)
  · next k =>
    cases h
    obtain ⟨slot, hslot, hholds⟩ := hslots k rfl
    rw [slotsAfter_of_slot rfl hslot]
    have hzero : accepted = false := hok
    subst hzero
    exact inv.keep hi rfl rfl hslot rfl trivial nofun trivial (Nat.le_succ _)
  · -- `Submit`
    next k id ret =>
    obtain ⟨rfl, -⟩ := Prod.mk.inj (Option.some.inj h)
    obtain ⟨slot, hslot, havailable, hempty⟩ := hslots k rfl
    rw [slotsAfter_of_slot rfl hslot]
    have hzero : accepted = false := hok
    subst hzero
    have hinUse : (slot.after i (.submit k id) (.ret ret)).inUse = slot.inUse := by
      simp only [RingSlot.after]
      split <;> rfl
    have hring : 0 < ret → ∀ rebuild,
        RingOf i id rebuild (slot.after i (.submit k id) (.ret ret)).entries := by
      intro hpos rebuild
      refine RingOf.perm (RingOf.singleton i id rebuild) (.of_eq ?_)
      have hnil := List.append_eq_nil_iff.mp hempty
      simp only [RingSlot.after, if_pos hpos, RingSlot.entries, hnil.1, hnil.2, List.nil_append,
        List.append_nil]
    split
    · next hintr =>
      subst hintr
      exact inv.keep hi rfl rfl hslot hinUse ⟨havailable, hempty⟩ rfl hid (Nat.le_refl _)
    split
    · next hrefused =>
      refine inv.keep hi rfl rfl hslot hinUse trivial ?_ trivial (Nat.le_refl _)
      intro haccepted
      simp only [Response.accepts, Bool.false_or, decide_eq_true_eq] at haccepted
      omega
    next hrefused =>
    split
    · exact inv.keep hi rfl rfl hslot hinUse (hring (by omega) _) trivial hid (Nat.le_refl _)
    · exact inv.keep hi rfl rfl hslot hinUse (hring (by omega) _) trivial hid (Nat.le_refl _)
  · -- the wait fails
    next k id state ret =>
    obtain ⟨slot, hslot, hholds⟩ := hslots k rfl
    rw [slotsAfter_of_slot rfl hslot]
    split at h
    · cases h
      exact inv.keep hi rfl rfl hslot rfl hholds trivial hid (Nat.le_refl _)
    simp only at h
    split at h
    · cases h
      exact inv.keep hi rfl rfl hslot rfl (RingOf.rebuilding hholds) trivial hid (Nat.le_refl _)
    · cases h
      obtain ⟨n, hn, rfl⟩ := hid
      refine inv.keep hi rfl rfl hslot rfl ⟨RingOf.rebuilding hholds, ?_, rfl⟩ trivial
        ⟨n, Nat.lt_succ_of_lt hn, rfl⟩ (Nat.le_succ _)
      rw [hnext]
      exact ofNat_succ_ne hn hfew
  · -- `Cancel`
    next k id cancelId state ret =>
    obtain ⟨rfl, -⟩ := Prod.mk.inj (Option.some.inj h)
    obtain ⟨slot, hslot, hring, hne, hrebuild⟩ := hslots k rfl
    rw [slotsAfter_of_slot rfl hslot]
    have hcancels : RingOf i id true
        (slot.after i (.cancel k id cancelId state) (.ret ret)).entries := by
      refine hring.rebuilding.append_cancels hne ret.toNat ?_
      simp only [RingSlot.after, RingSlot.entries, List.append_assoc]
      exact List.perm_append_comm.append_left _
    rw [← hrebuild] at hcancels
    split
    · exact inv.keep hi rfl rfl hslot rfl ⟨hcancels, hne, hrebuild⟩ trivial hid (Nat.le_refl _)
    · exact inv.keep hi rfl rfl hslot rfl hcancels trivial hid (Nat.le_refl _)
  · -- completions are not taken here
    cases hallows
  · -- `RebuildSlot`
    next k result rebuilt =>
    cases h
    obtain ⟨slot, hslot, -⟩ := hslots k rfl
    rw [slotsAfter_of_slot rfl hslot]
    refine inv.keep hi rfl rfl hslot rfl (fun _ => rfl) ?_ trivial (Nat.le_refl _)
    intro haccepted
    exact hok (by simpa [Response.accepts] using haccepted)
  · -- `ReleaseSlot`
    next k result =>
    cases h
    obtain ⟨slot, hslot, hempty⟩ := hslots k rfl
    rw [slotsAfter_of_slot rfl hslot]
    refine inv.release hi rfl rfl hslot hempty ?_ trivial
    intro haccepted
    exact hok (by simpa [Response.accepts] using haccepted)
  · cases h

theorem entries_eraseIdx {entry : RingEntry} {res : Int}
    (h : slot.completions[j]? = some (entry, res)) : slot.entries.Perm
      (entry :: { slot with completions := slot.completions.eraseIdx j }.entries) := by
  obtain ⟨hlt, hget⟩ := List.getElem?_eq_some_iff.mp h
  have hperm := List.getElem_cons_eraseIdx_perm hlt
  rw [hget] at hperm
  refine ((hperm.map Prod.fst).symm.append_left slot.outstanding).trans ?_
  exact List.perm_middle

theorem reap_pool {state : WaitState} {id : UInt64} {entry : RingEntry} {res : Int}
    (inv : PoolInv s.slots s.readers s.issued)
    (hi : s.readers[i]? = some ⟨request, .waitCqe k id state, accepted, consumed⟩)
    (hslot : s.slots[k]? = some slot) (hentry : slot.completions[j]? = some (entry, res))
    (h : stepRead request s.nextRequestId (.waitCqe k id state) (.cqe entry.userData res) =
      some (pc', next')) :
    PoolInv (s.slots.set k { slot with completions := slot.completions.eraseIdx j })
      (s.readers.set i ⟨request, pc', accepted,
        consumed || (entry.userData == id && entry.read == some i)⟩) s.issued ∧
    next' = s.nextRequestId := by
  obtain ⟨-, hid, hslots⟩ := inv.readers i _ hi
  obtain ⟨slot₁, hslot₁, hring⟩ := hslots k rfl
  obtain rfl : slot = slot₁ := Option.some.inj (hslot.symm.trans hslot₁)
  have hperm := entries_eraseIdx hentry
  have hring' : RingOf i id state.rebuild _ := RingOf.perm hring hperm.symm
  obtain ⟨rfl, rfl⟩ := Prod.mk.inj (Option.some.inj h)
  refine ⟨?_, rfl⟩
  by_cases hmine : entry.userData = id
  · have hown := hring'.own_of_userData List.mem_cons_self hmine
    have hconsumed : (consumed || (entry.userData == id && entry.read == some i)) = true := by
      rw [hown]
      simp
    rw [if_neg (not_not.mpr hmine)]
    split
    · exact inv.keep hi rfl rfl hslot rfl trivial (fun _ => hconsumed) trivial (Nat.le_refl _)
    · next hrebuild =>
      have hrebuild' : state.rebuild = false := by simpa using hrebuild
      rw [hrebuild'] at hring'
      exact inv.keep hi rfl rfl hslot rfl (fun _ => hring'.reap_own hmine) (fun _ => hconsumed)
        trivial (Nat.le_refl _)
  · rw [if_pos hmine]
    exact inv.keep hi rfl rfl hslot rfl (hring'.reap_other hmine) trivial hid (Nat.le_refl _)

end Steps

/-! ## Every run -/

/-- A call that is behind its ring. -/
def UringPc.behind : UringPc → Bool
  | .rebuild _ _ => true
  | .release _ _ => true
  | .done _ => true
  | _ => false

/-- The safety of the slots: a call leaves its ring when it has taken its own completion, or the
ring never had its request; a slot that can be acquired has an empty ring; a slot belongs to one
call; and what a call takes for its completion is its own. -/
structure SlotSafe (s : Engine) : Prop where
  returns : ∀ reader ∈ s.readers, reader.pc.behind = true → reader.accepted = true →
    reader.consumed = true
  free : ∀ slot ∈ s.slots, slot.available = true → slot.inUse = false →
    slot.outstanding = [] ∧ slot.completions = []
  owner : ∀ (i j : Nat) (a b : Reader) (k : Nat), s.readers[i]? = some a → s.readers[j]? = some b →
    a.pc.slot = some k → b.pc.slot = some k → i = j
  attributed : ∀ (i : Nat) (reader : Reader) (k : Nat) (id : UInt64) (state : WaitState)
    (slot : RingSlot) (entry : RingEntry) (res : Int), s.readers[i]? = some reader →
    reader.pc = .waitCqe k id state → s.slots[k]? = some slot → (entry, res) ∈ slot.completions →
    entry.userData = id → entry.read = some i

/-- The invariants of a run; the pool is in order while the ids are different. -/
structure EngineInv (s : Engine) : Prop where
  next : s.nextRequestId = UInt64.ofNat (s.issued + 1)
  pool : s.issued ≤ 2 ^ 64 → PoolInv s.slots s.readers s.issued

theorem init_engineInv (flags : List Bool) : EngineInv (Engine.init flags) := by
  have hslot : ∀ slot ∈ (Engine.init flags).slots, slot.inUse = false ∧ slot.entries = [] := by
    intro slot hslot
    obtain ⟨available, -, rfl⟩ := List.mem_map.mp hslot
    exact ⟨rfl, rfl⟩
  refine ⟨rfl, fun _ => ⟨fun k => ?_, nofun, fun slot h _ _ => (hslot slot h).2⟩⟩
  show 0 = usedAt (Engine.init flags).slots k
  rw [usedAt]
  cases hk : (Engine.init flags).slots[k]? with
  | none => rfl
  | some slot => simp [(hslot slot (List.mem_of_getElem? hk)).1]

theorem stepRead_next {request : ReadRequest} {n : Nat} {pc pc' : UringPc} {next' : UInt64}
    {response : Response}
    (h : stepRead request (UInt64.ofNat (n + 1)) pc response = some (pc', next')) :
    next' = UInt64.ofNat (n + pc.issues pc' + 1) := by
  have hsucc : UInt64.ofNat (n + 1) + 1 = UInt64.ofNat (n + 1 + 1) := by
    rw [← UInt64.ofNat_one, ← UInt64.ofNat_add]
  unfold stepRead at h
  split at h
  case h_6 | h_7 => cases h; exact hsucc
  case h_9 =>
    split at h
    · cases h; rfl
    simp only at h
    split at h
    · cases h; rfl
    · cases h; exact hsucc
  case h_11 =>
    obtain ⟨rfl, rfl⟩ := Prod.mk.inj (Option.some.inj h)
    split
    · rfl
    · split <;> rfl
  case h_14 => cases h
  all_goals
    obtain ⟨rfl, rfl⟩ := Prod.mk.inj (Option.some.inj h)
    rfl

theorem step_engineInv (s : Engine) (a : EngineAction) (t : Engine) (inv : EngineInv s)
    (_ : True) (h : s.step a = some t) : EngineInv t := by
  cases a with
  | read request =>
    cases h
    refine ⟨inv.next, fun hfew => ?_⟩
    have pool := inv.pool hfew
    refine ⟨fun k => ?_, Pool.forall_getElem?_append_singleton pool.readers ⟨rfl, trivial, nofun⟩,
      pool.free⟩
    simp only [total_append, total_cons, total_nil, pool.owners k]
    rfl
  | go i response =>
    simp only [Engine.step] at h
    split at h
    · cases h
    next reader hi =>
    split at h
    case isFalse => cases h
    next hallows =>
    obtain ⟨⟨pc', next'⟩, hstep, rfl⟩ := Option.map_eq_some_iff.mp h
    obtain ⟨request, pc, accepted, consumed⟩ := reader
    refine ⟨?_, fun hfew => ?_⟩
    · rw [inv.next] at hstep
      exact stepRead_next hstep
    · have hfew' : s.issued ≤ 2 ^ 64 := Nat.le_trans (Nat.le_add_right _ _) hfew
      exact stepRead_pool (inv.pool hfew') inv.next hi hallows hstep hfew
  | reap i j =>
    simp only [Engine.step] at h
    split at h
    · cases h
    next reader hi =>
    obtain ⟨request, pc, accepted, consumed⟩ := reader
    simp only at h
    split at h
    case h_2 => cases h
    next k id state =>
    split at h
    · cases h
    next slot hslot =>
    split at h
    · cases h
    next entry res hentry =>
    obtain ⟨⟨pc', next'⟩, hstep, rfl⟩ := Option.map_eq_some_iff.mp h
    exact ⟨inv.next, fun hfew => (reap_pool (inv.pool hfew) hi hslot hentry hstep).1⟩
  | complete k j res =>
    simp only [Engine.step] at h
    split at h
    · cases h
    next slot hslot =>
    split at h
    · cases h
    next entry hentry =>
    cases h
    refine ⟨inv.next, fun hfew => (inv.pool hfew).ring hslot rfl rfl ?_⟩
    obtain ⟨hlt, rfl⟩ := List.getElem?_eq_some_iff.mp hentry
    simp only [RingSlot.entries, List.map_append, List.map_cons, List.map_nil]
    -- the request goes from one list to the other
    rw [← List.append_assoc]
    refine List.perm_append_singleton _ _ |>.trans ?_
    exact (List.getElem_cons_eraseIdx_perm hlt).append_right _
  | shutDown =>
    cases h
    exact ⟨inv.next, inv.pool⟩

/-- In every run in which no request id is handed out twice, the slots are safe. -/
theorem slotSafe_of_run {flags : List Bool} {as : List EngineAction} {s : Engine}
    (hrun : run Engine.step (Engine.init flags) as = some s) (hfew : s.issued ≤ 2 ^ 64) :
    SlotSafe s := by
  have pool := (run_invariant step_engineInv (init_engineInv flags) (stepsOk_true as _) hrun).pool hfew
  refine ⟨fun reader hmem hbehind haccepted => ?_, fun slot hslot ha hfree => ?_, ?_, ?_⟩
  · obtain ⟨i, hi⟩ := List.mem_iff_getElem?.mp hmem
    have hok := (pool.readers i reader hi).ok
    obtain ⟨request, pc, accepted, consumed⟩ := reader
    cases pc with
    | rebuild k result => exact hok haccepted
    | release k result => exact hok haccepted
    | done result => exact hok haccepted
    | _ => cases hbehind
  · have hempty := List.append_eq_nil_iff.mp (pool.free slot hslot ha hfree)
    exact ⟨hempty.1, List.map_eq_nil_iff.mp hempty.2⟩
  · exact fun i j a b k hi hj hk hk' => pool.unique hi hj hk hk'
  · intro i reader k id state slot entry res hi hpc hslot hentry hid
    obtain ⟨slot₁, hslot₁, hholds⟩ := (pool.readers i reader hi).slot k (by rw [hpc]; rfl)
    obtain rfl : slot = slot₁ := Option.some.inj (hslot.symm.trans hslot₁)
    rw [hpc] at hholds
    have hmem : entry ∈ slot.entries :=
      List.mem_append_right _ (List.mem_map.mpr ⟨(entry, res), hentry, rfl⟩)
    rw [RingOf.own_of_userData hholds hmem hid]

/-- Two of the rings could be set up. -/
def twoRings : Engine := Engine.init [true, true, false, false]

/-- Read `i` takes the first ring and waits for its completion. -/
def waitSteps (i : Nat) : List EngineAction :=
  [.read pageRead, .go i (.flag true), .go i (.slot (some 0)), .go i .ok, .go i (.flag true),
    .go i (.ret 1)]

/-- A read is done, and the completion of a second one is there, on the ring the first gave back. -/
def reused : Engine :=
  { twoRings with
    slots := { available := true, inUse := true, completions := [(⟨2, some 1⟩, 4096)] } ::
      twoRings.slots.tail
    nextRequestId := 3
    readers := [⟨pageRead, .done (.ok ()), true, true⟩, ⟨pageRead, .waitCqe 0 2 {}, true, false⟩]
    issued := 2 }

def reusedSteps : List EngineAction :=
  waitSteps 0 ++ [EngineAction.complete 0 0 4096, .reap 0 0, .go 0 .ok] ++ waitSteps 1 ++
    [EngineAction.complete 0 0 4096]

theorem run_reused : run Engine.step twoRings reusedSteps = some reused := rfl

theorem slotSafe_reused :
    run Engine.step twoRings reusedSteps = some reused ∧ SlotSafe reused :=
  ⟨run_reused, slotSafe_of_run run_reused (by decide)⟩

/-! ### Coming round -/

/-- A first read waits for its completion; more reads are behind it. -/
def waiting (nextRequestId : UInt64) (issued : Nat) (l : List Reader) : Engine where
  slots := [{ available := true, inUse := true, outstanding := [⟨1, some 0⟩] },
    { available := true }, { available := false }, { available := false }]
  nextRequestId
  readers := ⟨pageRead, .waitCqe 0 1 {}, true, false⟩ :: l
  issued

theorem run_waiting : run Engine.step twoRings (waitSteps 0) = some (waiting 2 1 []) := rfl

/-- A read on the other ring, which gets no entry. -/
def noSqeSteps (i : Nat) : List EngineAction :=
  [.read pageRead, .go i (.flag true), .go i (.slot (some 1)), .go i .ok, .go i (.flag false),
    .go i (.flag true), .go i .ok]

theorem Engine.run_go_last {s : Engine} {readers : List Reader} {reader : Reader} {response : Response}
    {pc : UringPc} {next : UInt64} {i : Nat} {as : List EngineAction}
    (hreaders : s.readers = readers ++ [reader]) (hi : i = readers.length)
    (hallows : s.allows reader.pc response = true)
    (hstep : stepRead reader.request s.nextRequestId reader.pc response = some (pc, next)) :
    run Engine.step s (.go i response :: as) = run Engine.step { s with
      slots := s.slotsAfter i reader.pc response
      nextRequestId := next
      issued := s.issued + reader.pc.issues pc
      readers := readers ++ [{ reader with
        pc := pc
        accepted := reader.accepted || response.accepts reader.pc }] } as := by
  subst hi
  rw [run]
  simp only [Engine.step, hreaders, List.getElem?_concat_length, hallows, if_true, hstep,
    Option.map_some, Option.bind_some]
  rw [List.set_append_right _ _ (Nat.le_refl _), Nat.sub_self]
  rfl

theorem run_noSqe (next : UInt64) (issued : Nat) (l : List Reader) :
    run Engine.step (waiting next issued l) (noSqeSteps (l.length + 1)) =
      some (waiting (next + 1) (issued + 1)
        (l ++ [⟨pageRead, .done (.error .ioError), false, false⟩])) := by
  let readers : List Reader := ⟨pageRead, .waitCqe 0 1 {}, true, false⟩ :: l
  have hread : run Engine.step (waiting next issued l) (noSqeSteps (l.length + 1)) =
      run Engine.step
        { waiting next issued l with readers := readers ++ [{ request := pageRead }] }
        (noSqeSteps (l.length + 1)).tail := rfl
  rw [hread]
  refine Eq.trans (Engine.run_go_last rfl rfl rfl rfl) ?_
  refine Eq.trans (Engine.run_go_last rfl rfl rfl rfl) ?_
  refine Eq.trans (Engine.run_go_last rfl rfl rfl rfl) ?_
  refine Eq.trans (Engine.run_go_last rfl rfl rfl rfl) ?_
  refine Eq.trans (Engine.run_go_last rfl rfl rfl rfl) ?_
  exact Eq.trans (Engine.run_go_last rfl rfl rfl rfl) rfl

theorem run_noSqe_times (n : Nat) : ∀ (next : UInt64) (issued : Nat) (l : List Reader),
    ∃ as l', run Engine.step (waiting next issued l) as =
      some (waiting (next + UInt64.ofNat n) (issued + n) l') := by
  induction n with
  | zero =>
    intro next issued l
    exact ⟨[], l, by simp [run]⟩
  | succ n ih =>
    intro next issued l
    obtain ⟨as, l', hrest⟩ := ih (next + 1) (issued + 1)
      (l ++ [⟨pageRead, .done (.error .ioError), false, false⟩])
    refine ⟨noSqeSteps (l.length + 1) ++ as, l', ?_⟩
    rw [run_append, run_noSqe, Option.bind_some, hrest]
    rw [UInt64.ofNat_add, UInt64.add_assoc, UInt64.add_comm 1, UInt64.ofNat_one]
    congr 2
    omega

/-- The wait fails, the request to cancel gets the id of the request, and its completion is taken
for the one of the read. -/
def takenSteps : List EngineAction :=
  [.go 0 (.ret (- EIO)), .go 0 (.ret 1), .complete 0 1 (-125), .reap 0 0]

theorem run_taken (issued : Nat) (l : List Reader) :
    ∃ s, run Engine.step (waiting 1 issued l) takenSteps = some s ∧
      ⟨pageRead, .rebuild 0 (.error .ioError), true, false⟩ ∈ s.readers := by
  exact ⟨_, rfl, List.mem_cons_self⟩

/-- The id of a read that is not completed is handed out again. -/
theorem idAgain_not_slotSafe :
    ∃ as s, run Engine.step twoRings as = some s ∧ ¬ SlotSafe s := by
  obtain ⟨as, l, hround⟩ := run_noSqe_times (2 ^ 64 - 1) 2 1 []
  have hone : (2 : UInt64) + UInt64.ofNat (2 ^ 64 - 1) = 1 := by decide
  rw [hone] at hround
  obtain ⟨s, htaken, hmem⟩ := run_taken (1 + (2 ^ 64 - 1)) l
  refine ⟨waitSteps 0 ++ (as ++ takenSteps), s, ?_, fun hsafe => ?_⟩
  · rw [run_append, run_waiting, Option.bind_some, run_append, hround]
    exact htaken
  · have hconsumed := hsafe.returns _ hmem rfl rfl
    cases hconsumed

end FileApi.Swapfs
