import FileApi.Misc.Except
import FileApi.ModFs.FileMapping

/-!
# A mapping is a bounded buffer

What the calls on a mapping return and leave in it is what they do to a buffer with a position and
a limit, whose bytes are those of the file, as long as `memcpy_s` takes the copies. The accesses to
the memory stay inside the capacity, and what `Msync` flushes stays inside the mapping unless the
end of the range is taken beyond `SIZE_MAX`.
-/

namespace FileApi.ModFs.FileMapping

open BoundedBuffer

/-! ## The plain buffer -/

/-- The bytes that a caller has. -/
def UserBuffer.bytes (buffer : UserBuffer) : List UInt8 := buffer.data.getD []

/-- What a call returns and does to a buffer that is mapped or not any more; nothing is said about
a range to be flushed. A copy is refused by the size of its target. -/
def plainExec (refused : UInt64 → Bool) (readOnly : Bool) :
    Option (BoundedBuffer UInt8) → Call → Option Answer × Option (BoundedBuffer UInt8)
  | none, .unmap _ => (some .done, none)
  | none, _ => (some (.failed .mmapFree), none)
  | some b, .setPosition position =>
      match b.setPosition position.toNat with
      | some b' => (some .done, some b')
      | none => (some (.failed (.errno .einval)), some b)
  | some b, .getPosition => (some (.size (UInt64.ofNat b.position)), some b)
  | some b, .capacity => (some (.size (UInt64.ofNat b.items.length)), some b)
  | some b, .setLimit limit =>
      match b.setLimit limit.toNat with
      | some b' => (some .done, some b')
      | none => (some (.failed (.errno .einval)), some b)
  | some b, .getLimit => (some (.size (UInt64.ofNat b.limit)), some b)
  | some b, .flip => (some .done, some b.flip)
  | some b, .remaining => (some (.size (UInt64.ofNat (b.limit - b.position))), some b)
  | some b, .read buffer length =>
      if buffer.invalid then (some (.failed (.errno .einval)), some b)
      else
        let got := b.sliceAt b.position (min length.toNat buffer.bufLen.toNat)
        if got ≠ [] ∧ refused buffer.bufLen then (some (.failed .mmapOob), some b)
        else (some (.transferred ⟨UInt64.ofNat got.length, got⟩), some (b.advance got.length))
  | some b, .readFrom position buffer length =>
      if buffer.invalid ∨ b.items.length < position.toNat then
        (some (.failed (.errno .einval)), some b)
      else
        let got := b.sliceAt position.toNat (min length.toNat buffer.bufLen.toNat)
        if got ≠ [] ∧ refused buffer.bufLen then (some (.failed .mmapOob), some b)
        else (some (.transferred ⟨UInt64.ofNat got.length, got⟩), some b)
  | some b, .write data length =>
      if data.invalid then (some (.failed (.errno .einval)), some b)
      else if readOnly then (some (.failed .mmapRo), some b)
      else
        let given := data.bytes.take length.toNat
        let count := min given.length (b.limit - b.position)
        if count ≠ 0 ∧ refused (UInt64.ofNat (b.limit - b.position)) then
          (some (.failed .mmapOob), some b)
        else
          (some (.transferred ⟨UInt64.ofNat count, []⟩),
            some ((b.putAt b.position given).advance count))
  | some b, .writeTo position data length =>
      if data.invalid ∨ b.items.length < position.toNat then
        (some (.failed (.errno .einval)), some b)
      else if readOnly then (some (.failed .mmapRo), some b)
      else
        let given := data.bytes.take length.toNat
        let count := min given.length (b.limit - position.toNat)
        if count ≠ 0 ∧ refused (UInt64.ofNat (b.limit - position.toNat)) then
          (some (.failed .mmapOob), some b)
        else (some (.transferred ⟨UInt64.ofNat count, []⟩), some (b.putAt position.toNat given))
  | some b, .msync _ _ _ => (none, some b)
  | some b, .unmap (some errno) => (some (.failed (.errno errno)), some b)
  | some _, .unmap none => (some .done, none)

/-- Some calls, and what is said about the answers. -/
def plainAll (refused : UInt64 → Bool) (readOnly : Bool) :
    Option (BoundedBuffer UInt8) → List Call → List (Option Answer) × Option (BoundedBuffer UInt8)
  | b, [] => ([], b)
  | b, call :: calls =>
      let (said, b') := plainExec refused readOnly b call
      let (rest, last) := plainAll refused readOnly b' calls
      (said :: rest, last)

/-- An answer is the one that is said. -/
def Says (said : Option Answer) (got : Answer) : Prop := ∀ answer, said = some answer → got = answer

/-- The copies that `memcpy_s` does not take. -/
def refusedBySecurec (destMax : UInt64) : Bool := securecMemMaxLen < destMax

/-! ## What the memory shows -/

/-- A mapping of a number of bytes behind so many others. -/
structure Shows (start size : Nat) (b : BoundedBuffer UInt8) (m : FsFileMapping) : Prop where
  isValid : m.entity.isValid = true
  mapAddr : m.entity.mapAddr = some m.entity.adjustment
  rawMapAddr : m.entity.rawMapAddr = some 0
  adjustment : m.entity.adjustment.toNat = start
  capacity : m.entity.capacity.toNat = size
  rawCapacity : m.entity.rawCapacity.toNat = start + size
  position : m.entity.position.toNat = b.position
  limit : m.entity.limit.toNat = b.limit
  length : b.items.length = size
  memory : m.memory.length = start + size
  items : (m.memory.drop start).take size = b.items

/-- A mapping that is gone. -/
structure Unmapped (m : FsFileMapping) : Prop where
  isValid : m.entity.isValid = false
  capacity : m.entity.capacity = 0
  rawCapacity : m.entity.rawCapacity = 0
  adjustment : m.entity.adjustment = 0
  limit : m.entity.limit = 0
  position : m.entity.position = 0

/-- An object of a mode that stands for a buffer, or for none, and what it has accessed so far. -/
structure Stands (start size : Nat) (mode : MappingMode) (plain : Option (BoundedBuffer UInt8))
    (m : FsFileMapping) : Prop where
  shows : ∀ b, plain = some b → Shows start size b m
  unmapped : plain = none → Unmapped m
  sameMode : m.entity.mode = mode
  inside : ∀ a ∈ m.accesses, start ≤ a.start ∧ a.start + a.length ≤ start + size
  unwritten : mode = .readOnly → ∀ a ∈ m.accesses, a.write = false

variable {start size : Nat} {mode : MappingMode} {b b' : BoundedBuffer UInt8}
  {m m' : FsFileMapping}

theorem Shows.checkValid (h : Shows start size b m) : m.entity.checkValid = true := by
  rw [FileMappingEntity.checkValid, h.isValid, h.mapAddr]
  rfl

theorem Shows.capacity_lt_iff (h : Shows start size b m) (position : UInt64) :
    m.entity.capacity < position ↔ b.items.length < position.toNat := by
  rw [UInt64.lt_iff_toNat_lt, h.capacity, h.length]

theorem Unmapped.checkValid (h : Unmapped m) : m.entity.checkValid = false := by
  rw [FileMappingEntity.checkValid, h.isValid]
  rfl

theorem Shows.ifValid {α : Type} (h : Shows start size b m)
    (f : Except FsError α × FsFileMapping) : m.ifValid f = f := if_pos h.checkValid

theorem Unmapped.ifValid {α : Type} (h : Unmapped m) (f : Except FsError α × FsFileMapping) :
    m.ifValid f = (.error .mmapFree, m) := by
  rw [FsFileMapping.ifValid, h.checkValid]
  rfl

theorem Shows.remainingFrom (h : Shows start size b m) (position : UInt64) :
    (m.remainingFrom position).toNat = b.limit - position.toNat := by
  unfold FsFileMapping.remainingFrom
  split
  · next hlt =>
    rw [UInt64.toNat_sub_of_le _ _ (UInt64.le_of_lt hlt), h.limit]
  · next hnot =>
    rw [UInt64.lt_iff_toNat_lt, h.limit] at hnot
    rw [Nat.sub_eq_zero_of_le (Nat.le_of_not_lt hnot)]
    rfl

theorem Shows.opLength (h : Shows start size b m) (position length bufLen : UInt64) :
    (m.opLength position length bufLen).toNat =
      min (min length.toNat bufLen.toNat) (b.limit - position.toNat) := by
  rw [← h.remainingFrom position]
  unfold FsFileMapping.opLength
  generalize m.remainingFrom position = remaining
  dsimp only
  split
  · next hlt =>
    rw [UInt64.lt_iff_toNat_lt] at hlt
    split
    · next hlt' =>
      rw [UInt64.lt_iff_toNat_lt] at hlt'
      omega
    · next hlt' =>
      rw [UInt64.lt_iff_toNat_lt] at hlt'
      omega
  · next hlt =>
    rw [UInt64.lt_iff_toNat_lt] at hlt
    split
    · next hlt' =>
      rw [UInt64.lt_iff_toNat_lt] at hlt'
      omega
    · next hlt' =>
      rw [UInt64.lt_iff_toNat_lt] at hlt'
      omega

theorem Shows.addressOf (h : Shows start size b m) (position : UInt64) :
    m.addressOf position = start + position.toNat := by
  rw [FsFileMapping.addressOf, h.mapAddr, Option.getD_some, h.adjustment]

theorem Shows.noted (h : Shows start size b m) (accesses : List Access) :
    Shows start size b { m with accesses := accesses } := ⟨h.isValid, h.mapAddr, h.rawMapAddr,
  h.adjustment, h.capacity, h.rawCapacity, h.position, h.limit, h.length, h.memory, h.items⟩

theorem Shows.moved (h : Shows start size b m) {position limit : UInt64}
    (hitems : b'.items = b.items) (hposition : position.toNat = b'.position)
    (hlimit : limit.toNat = b'.limit) :
    Shows start size b'
      { m with entity := { m.entity with limit := limit, position := position } } :=
  ⟨h.isValid, h.mapAddr, h.rawMapAddr, h.adjustment, h.capacity, h.rawCapacity, hposition, hlimit,
    by rw [hitems, h.length], h.memory, by rw [hitems, h.items]⟩

theorem Shows.advanced (h : Shows start size b m) {count : Nat}
    (hcount : count ≤ b.limit - b.position) :
    (m.entity.position + UInt64.ofNat count).toNat = (b.advance count).position := by
  have hposition := h.position
  have hlimit := h.limit
  have hle := b.position_le
  have hmax := m.entity.limit.toNat_lt
  rw [UInt64.toNat_add, UInt64.toNat_ofNat', Nat.mod_eq_of_lt (b := 2 ^ 64) (by omega),
    Nat.mod_eq_of_lt (by omega), hposition]
  exact (Nat.min_eq_left (by omega)).symm

theorem Shows.slice (h : Shows start size b m) {position count : Nat}
    (hcount : count ≤ b.limit - position) :
    (m.memory.drop (start + position)).take count = b.sliceAt position count := by
  have hlimit := b.limit_le
  rw [h.length] at hlimit
  rw [sliceAt, ← h.items, List.take_take, Nat.min_eq_left hlimit, List.drop_take, List.drop_drop,
    List.take_take, Nat.min_eq_left hcount]

/-! ## Transfers -/

theorem memcpyS_fits [Securec] {destMax : UInt64} {src : List UInt8} (hne : src ≠ [])
    (hfits : src.length ≤ destMax.toNat) :
    memcpyS destMax src =
      if refusedBySecurec destMax then (some .erange, []) else (none, src) := by
  rw [Securec.fits destMax src hne hfits]
  simp only [refusedBySecurec, decide_eq_true_eq]

theorem Shows.inside (h : Shows start size b m) {position : UInt64} {a : Access}
    (hstart : a.start = m.addressOf position) (hlength : a.length ≤ b.limit - position.toNat)
    (hposition : position.toNat ≤ b.limit) : start ≤ a.start ∧ a.start + a.length ≤ start + size := by
  have hlimit := b.limit_le
  rw [h.length] at hlimit
  rw [hstart, h.addressOf]
  omega

/-- What `Read` and `ReadFrom` copy. -/
theorem Shows.copyOut [Securec] (h : Shows start size b m) (position length : UInt64) (buffer : UserBuffer) :
    ∃ accesses : List Access,
      (∀ a ∈ accesses, a ∈ m.accesses ∨
        (start ≤ a.start ∧ a.start + a.length ≤ start + size) ∧ a.write = false) ∧
      m.copyOut position buffer (m.opLength position length buffer.bufLen) =
        (if b.sliceAt position.toNat (min length.toNat buffer.bufLen.toNat) ≠ [] ∧
            refusedBySecurec buffer.bufLen then .error .mmapOob
          else .ok
            ⟨UInt64.ofNat (b.sliceAt position.toNat (min length.toNat buffer.bufLen.toNat)).length,
              b.sliceAt position.toNat (min length.toNat buffer.bufLen.toNat)⟩,
          { m with accesses := accesses }) := by
  have hcount := h.opLength position length buffer.bufLen
  have hslice := b.sliceAt_min position.toNat (min length.toNat buffer.bufLen.toNat)
  have hlength := b.length_sliceAt position.toNat (min length.toNat buffer.bufLen.toNat)
  rw [← hcount] at hlength hslice
  generalize m.opLength position length buffer.bufLen = opLength at *
  generalize b.sliceAt position.toNat (min length.toNat buffer.bufLen.toNat) = got at *
  have hofNat : UInt64.ofNat got.length = opLength := by rw [hlength, UInt64.ofNat_toNat]
  have hempty : got ≠ [] ↔ 0 < opLength := by
    rw [UInt64.lt_iff_toNat_lt, ← hlength, ← List.length_pos_iff]
    exact Iff.rfl
  rw [hofNat]
  unfold FsFileMapping.copyOut
  by_cases hpos : 0 < opLength
  · have hsrc : (m.memory.drop (m.addressOf position)).take opLength.toNat = got := by
      rw [h.addressOf, h.slice (by omega), hslice]
    have hpos' : 0 < opLength.toNat := UInt64.lt_iff_toNat_lt.mp hpos
    refine ⟨⟨m.addressOf position, opLength.toNat, false⟩ :: m.accesses, ?_, ?_⟩
    · intro a ha
      rcases List.mem_cons.mp ha with rfl | ha
      · exact .inr ⟨h.inside rfl (by show opLength.toNat ≤ _; omega) (by omega), rfl⟩
      · exact .inl ha
    · rw [if_pos hpos]
      dsimp only
      rw [hsrc, memcpyS_fits (hempty.mpr hpos) (by omega)]
      cases refusedBySecurec buffer.bufLen with
      | true =>
        rw [if_pos rfl, if_pos ⟨hempty.mpr hpos, rfl⟩]
        rfl
      | false =>
        rw [if_neg Bool.false_ne_true, if_neg fun hand => Bool.false_ne_true hand.2]
  · refine ⟨m.accesses, fun a ha => .inl ha, ?_⟩
    have hnil : got = [] := by
      by_contra hne
      exact hpos (hempty.mp hne)
    rw [if_neg hpos, if_neg fun hand => hand.1 hnil, hnil]

theorem length_bytes {data : UserBuffer} (h : data.invalid = false) :
    data.bytes.length = data.bufLen.toNat := by
  unfold UserBuffer.bytes
  cases hdata : data.data with
  | some bytes => exact data.sized bytes hdata
  | none =>
    rw [UserBuffer.invalid, hdata] at h
    have hzero : ¬ 0 < data.bufLen := by simpa using h
    rw [UInt64.lt_iff_toNat_lt] at hzero
    exact (Nat.eq_zero_of_not_pos hzero).symm

theorem Shows.written (h : Shows start size b m) {position : Nat} {new : List UInt8}
    (hnew : position + (new.take (b.limit - position)).length ≤ size) (accesses : List Access) :
    Shows start size (b.putAt position new)
      { m with
        memory := splice m.memory (start + position) (new.take (b.limit - position))
        accesses := accesses } where
  isValid := h.isValid
  mapAddr := h.mapAddr
  rawMapAddr := h.rawMapAddr
  adjustment := h.adjustment
  capacity := h.capacity
  rawCapacity := h.rawCapacity
  position := h.position
  limit := h.limit
  length := by
    have hlength := h.length
    rw [← hlength]
    exact length_splice (by omega)
  memory := by
    have hmemory := h.memory
    rw [← hmemory]
    exact length_splice (by omega)
  items := by
    rw [window_splice hnew (Nat.le_of_eq h.memory.symm), h.items]
    rfl

/-- What `Write` and `WriteTo` copy. -/
theorem Shows.copyIn [Securec] (h : Shows start size b m) (position length : UInt64) {data : UserBuffer}
    (hdata : data.invalid = false) {given : List UInt8} (hgiven : given = data.bytes.take length.toNat)
    {count : Nat} (hcount : count = min given.length (b.limit - position.toNat)) :
    ∃ m', m'.entity = m.entity ∧
      (∀ a ∈ m'.accesses, a ∈ m.accesses ∨ start ≤ a.start ∧ a.start + a.length ≤ start + size) ∧
      m.copyIn position data (m.opLength position length data.bufLen) =
        (if count ≠ 0 ∧ refusedBySecurec (UInt64.ofNat (b.limit - position.toNat)) then
          .error .mmapOob else .ok ⟨UInt64.ofNat count, []⟩, m') ∧
      Shows start size
        (if count ≠ 0 ∧ refusedBySecurec (UInt64.ofNat (b.limit - position.toNat)) then b
          else b.putAt position.toNat given) m' := by
  have hlength := length_bytes hdata
  have hop := h.opLength position length data.bufLen
  have hsame : (m.opLength position length data.bufLen).toNat = count := by
    rw [hop, hcount, hgiven, List.length_take, hlength]
  have hremaining : m.remainingFrom position = UInt64.ofNat (b.limit - position.toNat) := by
    rw [← h.remainingFrom position, UInt64.ofNat_toNat]
  have htake : data.bytes.take count = given.take (b.limit - position.toNat) := by
    rw [hgiven, List.take_take, hcount, hgiven, List.length_take, hlength]
    rw [List.take_eq_take_iff]
    omega
  have hlimit := b.limit_le
  rw [h.length] at hlimit
  generalize m.opLength position length data.bufLen = opLength at *
  have hofNat : UInt64.ofNat count = opLength := by rw [← hsame, UInt64.ofNat_toNat]
  unfold FsFileMapping.copyIn
  by_cases hpos : 0 < opLength
  · have hpos' : 0 < count := by
      rw [← hsame]
      exact UInt64.lt_iff_toNat_lt.mp hpos
    have hsrc : (data.bytes.take count).length = count := by
      rw [List.length_take, hlength]
      omega
    have hne : data.bytes.take count ≠ [] := by
      rw [← List.length_pos_iff, hsrc]
      exact hpos'
    have hfits : (data.bytes.take count).length ≤ (m.remainingFrom position).toNat := by
      rw [hsrc, h.remainingFrom]
      omega
    have hcopy := memcpyS_fits hne hfits
    rw [if_pos hpos]
    dsimp only
    rw [hsame]
    rw [show data.data.getD [] = data.bytes from rfl, hcopy, hremaining]
    have haccess : ∀ new : Access, new.start = m.addressOf position → new.length ≤ count →
        ∀ a ∈ new :: m.accesses,
          a ∈ m.accesses ∨ start ≤ a.start ∧ a.start + a.length ≤ start + size := by
      intro new hstart hle a ha
      rcases List.mem_cons.mp ha with rfl | ha
      · exact .inr (h.inside hstart (by omega) (by omega))
      · exact .inl ha
    cases hrefused : refusedBySecurec (UInt64.ofNat (b.limit - position.toNat)) with
    | true =>
      have hboth : count ≠ 0 ∧ true = true := ⟨by omega, rfl⟩
      rw [if_pos rfl, if_pos hboth, if_pos hboth]
      refine ⟨{ m with
        memory := splice m.memory (m.addressOf position) []
        accesses := ⟨m.addressOf position, 0, true⟩ :: m.accesses }, rfl, ?_, rfl, ?_⟩
      · exact haccess _ rfl (Nat.zero_le _)
      · rw [splice_nil]
        exact h.noted _
    | false =>
      have hneither : ¬ (count ≠ 0 ∧ false = true) := fun hand => Bool.false_ne_true hand.2
      rw [if_neg Bool.false_ne_true, if_neg hneither, if_neg hneither, hofNat]
      refine ⟨{ m with
        memory := splice m.memory (m.addressOf position) (data.bytes.take count)
        accesses := ⟨m.addressOf position, (data.bytes.take count).length, true⟩ :: m.accesses },
        rfl, ?_, rfl, ?_⟩
      · exact haccess _ rfl (Nat.le_of_eq hsrc)
      · rw [htake, h.addressOf]
        refine h.written ?_ _
        rw [← htake, hsrc]
        omega
  · have hzero : count = 0 := by
      rw [← hsame]
      exact Nat.eq_zero_of_not_pos fun hlt => hpos (UInt64.lt_iff_toNat_lt.mpr hlt)
    have hnil : given.take (b.limit - position.toNat) = [] := by
      rw [← htake, hzero, List.take_zero]
    rw [if_neg hpos]
    have hneither : ¬ (count ≠ 0 ∧
        refusedBySecurec (UInt64.ofNat (b.limit - position.toNat)) = true) :=
      fun hand => hand.1 hzero
    rw [if_neg hneither, if_neg hneither, hofNat]
    refine ⟨m, rfl, fun a ha => .inl ha, rfl, ?_⟩
    have hsame : b.putAt position.toNat given = b := by
      unfold putAt
      simp only [hnil, splice_nil]
    rw [hsame]
    exact h

/-! ## One call -/

theorem says_some (answer : Answer) : Says (some answer) answer := fun _ h => Option.some.inj h

variable {plain : Option (BoundedBuffer UInt8)}

theorem Stands.shown (h : Stands start size mode plain m) (hshows : Shows start size b' m')
    (hmode : m'.entity.mode = m.entity.mode) (hnew : ∀ a ∈ m'.accesses, a ∈ m.accesses ∨
      (start ≤ a.start ∧ a.start + a.length ≤ start + size) ∧ (mode = .readOnly → a.write = false)) :
    Stands start size mode (some b') m' where
  shows := fun _ heq => Option.some.inj heq ▸ hshows
  unmapped := nofun
  sameMode := hmode.trans h.sameMode
  inside := fun a ha => (hnew a ha).elim (h.inside a) And.left
  unwritten := fun hread a ha => (hnew a ha).elim (h.unwritten hread a) fun hin => hin.2 hread

theorem Stands.reads (h : Stands start size mode plain m) (hshows : Shows start size b' m')
    (hmode : m'.entity.mode = m.entity.mode) (hnew : ∀ a ∈ m'.accesses, a ∈ m.accesses ∨
      (start ≤ a.start ∧ a.start + a.length ≤ start + size) ∧ a.write = false) :
    Stands start size mode (some b') m' :=
  h.shown hshows hmode fun a ha => (hnew a ha).imp_right fun hin => ⟨hin.1, fun _ => hin.2⟩

theorem Stands.writes (h : Stands start size mode plain m) (hwritable : mode ≠ .readOnly)
    (hshows : Shows start size b' m') (hmode : m'.entity.mode = m.entity.mode)
    (hnew : ∀ a ∈ m'.accesses, a ∈ m.accesses ∨ start ≤ a.start ∧ a.start + a.length ≤ start + size) :
    Stands start size mode (some b') m' :=
  h.shown hshows hmode fun a ha =>
    (hnew a ha).imp_right fun hin => ⟨hin, fun hread => absurd hread hwritable⟩

theorem Stands.moved (h : Stands start size mode plain m) {e : FileMappingEntity}
    (hshows : Shows start size b' { m with entity := e }) (hmode : e.mode = m.entity.mode) :
    Stands start size mode (some b') { m with entity := e } :=
  h.shown hshows hmode fun _ ha => .inl ha

/-- Once unmapped, only `Unmap` succeeds. -/
theorem Unmapped.exec [Securec] (h : Unmapped m) (pageSize : Int) {call : Call}
    (hcall : ∀ fails, call ≠ .unmap fails) : m.exec pageSize call = (.failed .mmapFree, m) := by
  cases call with
  | setPosition position =>
    rw [FsFileMapping.exec, FsFileMapping.setPosition, h.ifValid]
    rfl
  | getPosition =>
    rw [FsFileMapping.exec, FsFileMapping.getPosition, h.ifValid]
    rfl
  | capacity =>
    rw [FsFileMapping.exec, FsFileMapping.capacity, h.ifValid]
    rfl
  | setLimit limit =>
    rw [FsFileMapping.exec, FsFileMapping.setLimit, h.ifValid]
    rfl
  | getLimit =>
    rw [FsFileMapping.exec, FsFileMapping.getLimit, h.ifValid]
    rfl
  | flip =>
    rw [FsFileMapping.exec, FsFileMapping.flip, h.ifValid]
    rfl
  | remaining =>
    rw [FsFileMapping.exec, FsFileMapping.remaining, h.ifValid]
    rfl
  | read buffer length =>
    rw [FsFileMapping.exec, FsFileMapping.read, h.ifValid]
    rfl
  | readFrom position buffer length =>
    rw [FsFileMapping.exec, FsFileMapping.readFrom, h.ifValid]
    rfl
  | write data length =>
    rw [FsFileMapping.exec, FsFileMapping.write, h.ifValid]
    rfl
  | writeTo position data length =>
    rw [FsFileMapping.exec, FsFileMapping.writeTo, h.ifValid]
    rfl
  | msync offset length fails =>
    have hrange : m.msyncRange pageSize offset length = .error .mmapFree := by
      rw [FsFileMapping.msyncRange, h.checkValid]
      rfl
    rw [FsFileMapping.exec]
    unfold FsFileMapping.msync
    rw [hrange]
    rfl
  | unmap fails => exact absurd rfl (hcall fails)

theorem Unmapped.unmap [Securec] (h : Unmapped m) (pageSize : Int) (fails : Option Errno) :
    m.exec pageSize (.unmap fails) = (.done, m) := by
  rw [FsFileMapping.exec]
  unfold FsFileMapping.unmap
  rw [if_pos (.inl h.isValid)]
  rfl

section Calls

variable (h : Stands start size mode (some b) m)

include h

theorem Stands.shown_self : Shows start size b m := h.shows b rfl

theorem Stands.setPosition (position : UInt64) :
    Says (plainExec refusedBySecurec (mode = .readOnly) (some b) (.setPosition position)).1
        (answer (fun _ => .done) (m.setPosition position).1) ∧
      Stands start size mode
        (plainExec refusedBySecurec (mode = .readOnly) (some b) (.setPosition position)).2
        (m.setPosition position).2 := by
  have hs := h.shown_self
  rw [FsFileMapping.setPosition, hs.ifValid, plainExec, BoundedBuffer.setPosition]
  have hiff : m.entity.limit < position ↔ ¬ position.toNat ≤ b.limit := by
    rw [UInt64.lt_iff_toNat_lt, hs.limit, Nat.not_le]
  by_cases hle : position.toNat ≤ b.limit
  · rw [if_neg fun hlt => hiff.mp hlt hle, dif_pos hle]
    exact ⟨says_some _, h.moved (hs.moved rfl rfl hs.limit) rfl⟩
  · rw [if_pos (hiff.mpr hle), dif_neg hle]
    exact ⟨says_some _, h⟩

theorem Stands.setLimit (limit : UInt64) :
    Says (plainExec refusedBySecurec (mode = .readOnly) (some b) (.setLimit limit)).1
        (answer (fun _ => .done) (m.setLimit limit).1) ∧
      Stands start size mode
        (plainExec refusedBySecurec (mode = .readOnly) (some b) (.setLimit limit)).2
        (m.setLimit limit).2 := by
  have hs := h.shown_self
  rw [FsFileMapping.setLimit, hs.ifValid, plainExec, BoundedBuffer.setLimit]
  have hiff : m.entity.capacity < limit ↔ ¬ limit.toNat ≤ b.items.length := by
    rw [UInt64.lt_iff_toNat_lt, hs.capacity, hs.length, Nat.not_le]
  by_cases hle : limit.toNat ≤ b.items.length
  · rw [if_neg fun hlt => hiff.mp hlt hle, dif_pos hle]
    refine ⟨says_some _, h.moved (hs.moved rfl ?_ rfl) rfl⟩
    dsimp only
    have hposition := hs.position
    split
    · next hlt =>
      rw [UInt64.lt_iff_toNat_lt] at hlt
      omega
    · next hlt =>
      rw [UInt64.lt_iff_toNat_lt] at hlt
      omega
  · rw [if_pos (hiff.mpr hle), dif_neg hle]
    exact ⟨says_some _, h⟩

theorem Stands.read [Securec] (buffer : UserBuffer) (length : UInt64) :
    Says (plainExec refusedBySecurec (mode = .readOnly) (some b) (.read buffer length)).1
        (answer .transferred (m.read buffer length).1) ∧
      Stands start size mode
        (plainExec refusedBySecurec (mode = .readOnly) (some b) (.read buffer length)).2
        (m.read buffer length).2 := by
  have hs := h.shown_self
  rw [FsFileMapping.read, hs.ifValid, plainExec]
  cases hinvalid : buffer.invalid with
  | true => exact ⟨says_some _, h⟩
  | false =>
    rw [if_neg Bool.false_ne_true, if_neg Bool.false_ne_true]
    obtain ⟨accesses, hnew, hcopy⟩ := hs.copyOut m.entity.position length buffer
    have hlength := b.length_sliceAt b.position (min length.toNat buffer.bufLen.toNat)
    rw [hcopy, hs.position]
    dsimp only
    split
    · exact ⟨says_some _, h.reads (hs.noted _) rfl hnew⟩
    · refine ⟨says_some _, h.reads ((hs.noted _).moved rfl ?_ hs.limit) rfl hnew⟩
      exact hs.advanced (by omega)

theorem Stands.readFrom [Securec] (position : UInt64) (buffer : UserBuffer) (length : UInt64) :
    Says (plainExec refusedBySecurec (mode = .readOnly) (some b) (.readFrom position buffer length)).1
        (answer .transferred (m.readFrom position buffer length).1) ∧
      Stands start size mode
        (plainExec refusedBySecurec (mode = .readOnly) (some b) (.readFrom position buffer length)).2
        (m.readFrom position buffer length).2 := by
  have hs := h.shown_self
  rw [FsFileMapping.readFrom, hs.ifValid, plainExec]
  have hiff := hs.capacity_lt_iff position
  by_cases hbad : buffer.invalid = true ∨ b.items.length < position.toNat
  · rw [if_pos hbad, if_pos (hbad.imp_right hiff.mpr)]
    exact ⟨says_some _, h⟩
  · have hfits : ¬ (buffer.invalid = true ∨ m.entity.capacity < position) := fun hno =>
      hbad (hno.imp_right hiff.mp)
    rw [if_neg hbad, if_neg hfits]
    obtain ⟨accesses, hnew, hcopy⟩ := hs.copyOut position length buffer
    rw [hcopy]
    dsimp only
    split
    · exact ⟨says_some _, h.reads (hs.noted _) rfl hnew⟩
    · exact ⟨says_some _, h.reads (hs.noted _) rfl hnew⟩

theorem Stands.isReadOnly : m.entity.isReadOnly = decide (mode = .readOnly) := by
  rw [FileMappingEntity.isReadOnly, h.sameMode]

theorem Stands.write [Securec] (data : UserBuffer) (length : UInt64) :
    Says (plainExec refusedBySecurec (mode = .readOnly) (some b) (.write data length)).1
        (answer .transferred (m.write data length).1) ∧
      Stands start size mode
        (plainExec refusedBySecurec (mode = .readOnly) (some b) (.write data length)).2
        (m.write data length).2 := by
  have hs := h.shown_self
  rw [FsFileMapping.write, hs.ifValid, plainExec]
  cases hinvalid : data.invalid with
  | true => exact ⟨says_some _, h⟩
  | false =>
    rw [if_neg Bool.false_ne_true, if_neg Bool.false_ne_true, h.isReadOnly]
    by_cases hread : mode = .readOnly
    · rw [if_pos (decide_eq_true hread), if_pos (decide_eq_true hread)]
      exact ⟨says_some _, h⟩
    · have hno : ¬ decide (mode = .readOnly) = true := fun heq => hread (of_decide_eq_true heq)
      rw [if_neg hno, if_neg hno]
      obtain ⟨m', hentity, hnew, hcopy, hshows⟩ :=
        hs.copyIn m.entity.position length hinvalid rfl rfl
      rw [hcopy]
      rw [hs.position] at hshows ⊢
      dsimp only
      split
      · next hrefused =>
        rw [if_pos hrefused] at hshows
        exact ⟨says_some _, h.writes hread hshows (congrArg _ hentity) hnew⟩
      · next hrefused =>
        rw [if_neg hrefused] at hshows
        refine ⟨says_some _, h.writes hread (hshows.moved rfl ?_ hshows.limit)
          (show m'.entity.mode = _ from congrArg _ hentity) hnew⟩
        exact hshows.advanced (Nat.min_le_right _ _)

theorem Stands.writeTo [Securec] (position : UInt64) (data : UserBuffer) (length : UInt64) :
    Says (plainExec refusedBySecurec (mode = .readOnly) (some b) (.writeTo position data length)).1
        (answer .transferred (m.writeTo position data length).1) ∧
      Stands start size mode
        (plainExec refusedBySecurec (mode = .readOnly) (some b) (.writeTo position data length)).2
        (m.writeTo position data length).2 := by
  have hs := h.shown_self
  rw [FsFileMapping.writeTo, hs.ifValid, plainExec]
  have hiff := hs.capacity_lt_iff position
  by_cases hbad : data.invalid = true ∨ b.items.length < position.toNat
  · rw [if_pos hbad, if_pos (hbad.imp_right hiff.mpr)]
    exact ⟨says_some _, h⟩
  · have hfits : ¬ (data.invalid = true ∨ m.entity.capacity < position) := fun hno =>
      hbad (hno.imp_right hiff.mp)
    rw [if_neg hbad, if_neg hfits, h.isReadOnly]
    have hinvalid : data.invalid = false := Bool.eq_false_iff.mpr fun hi => hbad (.inl hi)
    by_cases hread : mode = .readOnly
    · rw [if_pos (decide_eq_true hread), if_pos (decide_eq_true hread)]
      exact ⟨says_some _, h⟩
    · have hno : ¬ decide (mode = .readOnly) = true := fun heq => hread (of_decide_eq_true heq)
      rw [if_neg hno, if_neg hno]
      obtain ⟨m', hentity, hnew, hcopy, hshows⟩ := hs.copyIn position length hinvalid rfl rfl
      rw [hcopy]
      dsimp only
      split
      · next hrefused =>
        rw [if_pos hrefused] at hshows
        exact ⟨says_some _, h.writes hread hshows (congrArg _ hentity) hnew⟩
      · next hrefused =>
        rw [if_neg hrefused] at hshows
        exact ⟨says_some _, h.writes hread hshows (congrArg _ hentity) hnew⟩

end Calls

/-- A call does to the object what it does to the buffer, and returns what is said. -/
theorem Stands.exec [Securec] (h : Stands start size mode plain m) (pageSize : Int) (call : Call) :
    Says (plainExec refusedBySecurec (mode = .readOnly) plain call).1 (m.exec pageSize call).1 ∧
      Stands start size mode (plainExec refusedBySecurec (mode = .readOnly) plain call).2
        (m.exec pageSize call).2 := by
  cases plain with
  | none =>
    have hgone := h.unmapped rfl
    by_cases hcall : ∃ fails, call = .unmap fails
    · obtain ⟨fails, rfl⟩ := hcall
      rw [hgone.unmap]
      exact ⟨says_some _, h⟩
    · have hother : ∀ fails, call ≠ .unmap fails := fun fails heq => hcall ⟨fails, heq⟩
      have hplain : plainExec refusedBySecurec (mode = .readOnly) none call =
          (some (.failed .mmapFree), none) := by
        cases call with
        | unmap fails => exact absurd rfl (hother fails)
        | _ => rfl
      rw [hgone.exec pageSize hother, hplain]
      exact ⟨says_some _, h⟩
  | some b =>
    have hs := h.shown_self
    cases call with
    | setPosition position => exact h.setPosition position
    | getPosition =>
      rw [FsFileMapping.exec, FsFileMapping.getPosition, hs.ifValid, plainExec, ← hs.position,
        UInt64.ofNat_toNat]
      exact ⟨says_some _, h⟩
    | capacity =>
      have hlength : b.items.length = m.entity.capacity.toNat := hs.length.trans hs.capacity.symm
      rw [FsFileMapping.exec, FsFileMapping.capacity, hs.ifValid, plainExec, hlength,
        UInt64.ofNat_toNat]
      exact ⟨says_some _, h⟩
    | setLimit limit => exact h.setLimit limit
    | getLimit =>
      rw [FsFileMapping.exec, FsFileMapping.getLimit, hs.ifValid, plainExec, ← hs.limit,
        UInt64.ofNat_toNat]
      exact ⟨says_some _, h⟩
    | flip =>
      rw [FsFileMapping.exec, FsFileMapping.flip, hs.ifValid, plainExec]
      exact ⟨says_some _, h.moved (hs.moved rfl rfl hs.position) rfl⟩
    | remaining =>
      rw [FsFileMapping.exec, FsFileMapping.remaining, hs.ifValid, plainExec, ← hs.position,
        ← hs.remainingFrom, UInt64.ofNat_toNat]
      exact ⟨says_some _, h⟩
    | read buffer length => exact h.read buffer length
    | readFrom position buffer length => exact h.readFrom position buffer length
    | write data length => exact h.write data length
    | writeTo position data length => exact h.writeTo position data length
    | msync offset length fails =>
      refine ⟨nofun, ?_⟩
      have hsame : (m.msync pageSize offset length fails).2 = m := by
        unfold FsFileMapping.msync
        split
        · rfl
        · split <;> rfl
      rw [FsFileMapping.exec, Prod.map_snd, hsame]
      exact h
    | unmap fails =>
      have hmapped : ¬ (m.entity.isValid = false ∨ m.entity.rawMapAddr = none) := by
        rw [hs.isValid, hs.rawMapAddr]
        simp
      rw [FsFileMapping.exec]
      unfold FsFileMapping.unmap
      rw [if_neg hmapped]
      cases fails with
      | some errno => exact ⟨says_some _, h⟩
      | none =>
        exact ⟨says_some _, nofun, fun _ => ⟨rfl, rfl, rfl, rfl, rfl, rfl⟩, h.sameMode, h.inside,
          h.unwritten⟩

/-! ## Any calls -/

theorem Stands.execAll [Securec] (pageSize : Int) (calls : List Call) :
    ∀ {plain : Option (BoundedBuffer UInt8)} {m : FsFileMapping}, Stands start size mode plain m →
      List.Forall₂ Says (plainAll refusedBySecurec (mode = .readOnly) plain calls).1
          (m.execAll pageSize calls).1 ∧
        Stands start size mode (plainAll refusedBySecurec (mode = .readOnly) plain calls).2
          (m.execAll pageSize calls).2 := by
  induction calls with
  | nil => exact fun h => ⟨.nil, h⟩
  | cons call calls ih =>
    intro plain m h
    obtain ⟨hresult, hnext⟩ := h.exec pageSize call
    obtain ⟨hrest, hlast⟩ := ih hnext
    exact ⟨.cons hresult hrest, hlast⟩

/-! ## A new mapping -/

section Mmap

variable {env : MmapEnv} {content content' : List UInt8} {fd offset : Int} {align : PageAlignResult}

theorem tdiv_add_emod (hoffset : 0 ≤ offset) (pageSize : Int) :
    offset.tdiv pageSize * pageSize + offset % pageSize = offset := by
  rw [← Int.tmod_eq_emod_of_nonneg hoffset]
  exact Int.tdiv_mul_add_tmod offset pageSize

theorem adjustment_toNat (hoffset : 0 ≤ offset) (hpage : 0 < env.pageSize) :
    (UInt64.ofInt (offset - offset.tdiv env.pageSize * env.pageSize)).toNat =
      (offset % env.pageSize).toNat := by
  have hlong : env.pageSize ≤ 2 ^ 63 - 1 := env.isLong
  have hmod := Int.emod_lt_of_pos offset hpage
  have hmod0 := Int.emod_nonneg offset (Int.ne_of_gt hpage)
  have haligned := tdiv_add_emod hoffset env.pageSize
  have hdiff : offset - offset.tdiv env.pageSize * env.pageSize = offset % env.pageSize := by
    omega
  rw [hdiff, UInt64.ofInt, UInt64.toNat_ofNat', Int.emod_eq_of_lt hmod0 (by omega),
    Nat.mod_eq_of_lt (by omega)]

variable {size : UInt64}

theorem alignToPage_some (hoffset : 0 ≤ offset) (h : alignToPage env offset size = some align) :
    0 < env.pageSize ∧ 0 ≤ align.alignedOffset ∧
      offset = align.alignedOffset + align.adjustment.toNat ∧
      align.adjustedSize.toNat = align.adjustment.toNat + size.toNat := by
  unfold alignToPage at h
  split at h
  · cases h
  · next hpage =>
    have hpos : 0 < env.pageSize := by omega
    have hlong : env.pageSize ≤ 2 ^ 63 - 1 := env.isLong
    have haligned := tdiv_add_emod hoffset env.pageSize
    have hmod := Int.emod_lt_of_pos offset hpos
    have hmod0 := Int.emod_nonneg offset (Int.ne_of_gt hpos)
    have hnonneg : 0 ≤ offset.tdiv env.pageSize * env.pageSize :=
      Int.mul_nonneg (Int.tdiv_nonneg hoffset (Int.le_of_lt hpos)) (Int.le_of_lt hpos)
    dsimp only at h
    split at h
    · cases h
    · next hsize =>
      cases h
      have hadjustment := adjustment_toNat hoffset hpos
      refine ⟨hpos, hnonneg, ?_, ?_⟩
      · dsimp only
        rw [hadjustment]
        omega
      · dsimp only
        rw [UInt64.lt_iff_toNat_lt, UInt64.toNat_sub_of_le _ _ (UInt64.le_iff_toNat_le.mpr ?_),
          UInt64.toNat_ofNat'] at hsize
        · rw [UInt64.toNat_add, Nat.mod_eq_of_lt (by omega), Nat.add_comm]
        · rw [UInt64.toNat_ofNat']
          omega

theorem validateMmapParams_ok {mode : Int} {mode' : MappingMode}
    (h : validateMmapParams fd mode offset size = .ok mode') :
    0 ≤ fd ∧ mappingMode mode = some mode' ∧ 0 ≤ offset ∧ 0 < size := by
  unfold validateMmapParams at h
  split at h
  · cases h
  · next hfd =>
    split at h
    · cases h
    · next hmode =>
      split at h
      · cases h
      · next hoffset =>
        split at h
        · cases h
        · next hsize =>
          cases h
          exact ⟨Int.not_lt.mp hfd, hmode, Int.not_lt.mp hoffset, UInt64.not_le.mp hsize⟩

theorem validateFile_ok (h : validateFile env = .ok ()) :
    env.validated = none ∧ env.regular = true := by
  unfold validateFile at h
  split at h
  · cases h
  · next hvalidated =>
    split at h
    · next hregular => exact ⟨hvalidated, hregular⟩
    · cases h

theorem expandFileIfNeeded_cases (hregular : env.regular = true)
    (h : expandFileIfNeeded env content offset size = .ok content') :
    content' = content ∧ offset + size.toNat ≤ content.length ∨
      content' =
          content ++ List.replicate ((offset + size.toNat).toNat - content.length) 0 ∧
        env.fstat = none ∧ offset + size.toNat ≤ int64Max ∧
          (content.length : Int) < offset + size.toNat ∧ env.ftruncate = none := by
  unfold expandFileIfNeeded at h
  split at h
  · cases h
  · next hfstat =>
    split at h
    · cases h
    · split at h
      · cases h
      · next hfits =>
        dsimp only at h
        split at h
        · next hle =>
          cases h
          exact .inl ⟨rfl, hle⟩
        · next hshort =>
          split at h
          · rw [if_pos (.inl hregular)] at h
            cases h
          · next hftruncate =>
            cases h
            exact .inr ⟨rfl, hfstat, by omega, by omega, hftruncate⟩

theorem expandFileIfNeeded_ok (hregular : env.regular = true)
    (h : expandFileIfNeeded env content offset size = .ok content') :
    content <+: content' ∧ offset + size.toNat ≤ content'.length := by
  rcases expandFileIfNeeded_cases hregular h with ⟨rfl, hle⟩ | ⟨rfl, -⟩
  · exact ⟨List.prefix_rfl, hle⟩
  · refine ⟨List.prefix_append _ _, ?_⟩
    rw [List.length_append, List.length_replicate]
    omega

theorem doMmap_stands {mode : Int}
    (h : doMmap env content fd mode offset size = .ok (m, content')) :
    content <+: content' ∧ 0 < env.pageSize ∧
      offset.toNat + size.toNat ≤ content'.length ∧
      ∃ mode', mappingMode mode = some mode' ∧
        Stands m.entity.adjustment.toNat size.toNat mode'
          (some (ofItems ((content'.drop offset.toNat).take size.toNat))) m := by
  obtain ⟨mode', hvalid, h⟩ := bind_eq_ok.mp h
  obtain ⟨u, hfile, h⟩ := bind_eq_ok.mp h
  obtain ⟨-, hregular⟩ := validateFile_ok hfile
  obtain ⟨-, hmode, hnonneg, -⟩ := validateMmapParams_ok hvalid
  split at h
  · cases h
  · next align halign =>
    obtain ⟨hpage, haligned, hoffset, hsize⟩ := alignToPage_some hnonneg halign
    obtain ⟨file, hexpand, h⟩ := bind_eq_ok.mp h
    obtain ⟨hfront, hreaches⟩ := expandFileIfNeeded_ok hregular hexpand
    split at h
    · cases h
    · obtain ⟨made, hmade, h⟩ := bind_eq_ok.mp h
      unfold constructor at hmade
      split at hmade
      · cases hmade
        cases h
        have hlength : ((content'.drop offset.toNat).take size.toNat).length = size.toNat := by
          rw [List.length_take, List.length_drop]
          omega
        have hitems : (((content'.drop align.alignedOffset.toNat).take align.adjustedSize.toNat).drop
            align.adjustment.toNat).take size.toNat = (content'.drop offset.toNat).take size.toNat := by
          have hsum : align.alignedOffset.toNat + align.adjustment.toNat = offset.toNat := by omega
          rw [List.drop_take, List.drop_drop, hsum, List.take_take, hsize, Nat.min_eq_left (by omega)]
        refine ⟨hfront, hpage, by omega, mode', hmode, ?_, nofun, rfl, nofun, fun _ => nofun⟩
        rintro b ⟨⟩
        have hmemory : ((content'.drop align.alignedOffset.toNat).take
            align.adjustedSize.toNat).length = align.adjustment.toNat + size.toNat := by
          rw [List.length_take, List.length_drop]
          omega
        exact ⟨rfl, rfl, rfl, rfl, rfl, hsize, rfl, hlength.symm, hlength, hmemory, hitems⟩
      · cases hmade

end Mmap

/-! ## Refinement -/

/-- The answers once `Unmap` has succeeded. -/
def FailsUnlessUnmap (call : Call) (got : Answer) : Prop :=
  (∃ fails, call = .unmap fails) ∨ got = .failed .mmapFree

theorem Unmapped.execAll [Securec] (pageSize : Int) (calls : List Call) (h : Unmapped m) :
    List.Forall₂ FailsUnlessUnmap calls (m.execAll pageSize calls).1 := by
  induction calls with
  | nil => exact .nil
  | cons call calls ih =>
    by_cases hcall : ∃ fails, call = .unmap fails
    · obtain ⟨fails, rfl⟩ := hcall
      rw [FsFileMapping.execAll, h.unmap]
      exact .cons (.inl ⟨fails, rfl⟩) ih
    · rw [FsFileMapping.execAll, h.exec pageSize fun fails heq => hcall ⟨fails, heq⟩]
      exact .cons (.inr rfl) ih

/-- The cursors are in order, and the mapping is as long as its parts. -/
structure Ordered (e : FileMappingEntity) : Prop where
  position : e.position ≤ e.limit
  limit : e.limit ≤ e.capacity
  rawCapacity : e.adjustment.toNat + e.capacity.toNat = e.rawCapacity.toNat

theorem Stands.ordered (h : Stands start size mode plain m) :
    Ordered m.entity := by
  cases plain with
  | some b =>
    have hs := h.shown_self
    have hlimit := b.limit_le
    rw [hs.length, ← hs.capacity, ← hs.limit] at hlimit
    have hposition := b.position_le
    rw [← hs.position, ← hs.limit] at hposition
    exact ⟨UInt64.le_iff_toNat_le.mpr hposition, UInt64.le_iff_toNat_le.mpr hlimit,
      by rw [hs.adjustment, hs.capacity, hs.rawCapacity]⟩
  | none =>
    obtain ⟨-, hcapacity, hraw, hadjustment, hlimit, hposition⟩ := h.unmapped rfl
    refine ⟨?_, ?_, ?_⟩
    · rw [hlimit, hposition]
      exact UInt64.le_refl _
    · rw [hcapacity, hlimit]
      exact UInt64.le_refl _
    · rw [hcapacity, hraw, hadjustment]
      rfl

/-- The calls on a mapping of a file return what they return on a buffer of the bytes of the file,
and leave it so; the copies that `memcpy_s` does not take fail and change nothing. The cursors stay
in order, all accesses are inside the capacity, none writes if the mode is read-only, and after
`Unmap` only `Unmap` succeeds. -/
theorem doMmap_refines [Securec] {env : MmapEnv} {content content' : List UInt8} {fd mode offset : Int}
    {size : UInt64} {last : FsFileMapping} {calls : List Call} {answers : List Answer}
    (h : doMmap env content fd mode offset size = .ok (m, content'))
    (hcalls : m.execAll env.pageSize calls = (answers, last)) :
    content <+: content' ∧
    ∃ mode' saids final, mappingMode mode = some mode' ∧
      ((content'.drop offset.toNat).take size.toNat).length = size.toNat ∧
      plainAll refusedBySecurec (mode' = .readOnly)
        (some (ofItems ((content'.drop offset.toNat).take size.toNat))) calls = (saids, final) ∧
      List.Forall₂ Says saids answers ∧
      Stands m.entity.adjustment.toNat size.toNat mode' final last ∧
      Ordered last.entity ∧
      ∀ fails gone more, last.exec env.pageSize (.unmap fails) = (.done, gone) →
        List.Forall₂ FailsUnlessUnmap more (gone.execAll env.pageSize more).1 := by
  obtain ⟨hfront, -, hlength, mode', hmode, hstands⟩ := doMmap_stands h
  obtain ⟨hresult, hlast⟩ := hstands.execAll env.pageSize calls
  rw [hcalls] at hresult hlast
  refine ⟨hfront, mode', _, _, hmode, ?_, rfl, hresult, hlast, hlast.ordered, ?_⟩
  · rw [List.length_take, List.length_drop]
    omega
  · intro fails gone more hunmap
    refine Unmapped.execAll env.pageSize more ?_
    obtain ⟨hsaid, hgone⟩ := hlast.exec env.pageSize (.unmap fails)
    rw [hunmap] at hsaid hgone
    generalize (plainAll refusedBySecurec _ _ calls).2 = final at hsaid hgone
    refine hgone.unmapped ?_
    cases final with
    | none => rfl
    | some b =>
      cases fails with
      | none => rfl
      | some errno => cases hsaid _ rfl

/-! ## Flushed ranges -/

/-- A range that starts on a page, is inside the mapping and covers what is asked for. -/
structure FlushedRange (pageSize : Int) (e : FileMappingEntity) (offset length : UInt64)
    (range : UInt64 × UInt64) : Prop where
  aligned : pageSize ∣ range.1.toNat
  inside : range.1.toNat + range.2.toNat ≤ e.rawCapacity.toNat
  first : range.1.toNat ≤ e.adjustment.toNat + offset.toNat
  last : e.adjustment.toNat + offset.toNat + length.toNat ≤ range.1.toNat + range.2.toNat

/-- What is flushed is a good range, and every range in the capacity is flushed. -/
def MsyncMeets (pageSize : Int) (m : FsFileMapping) (offset length : UInt64) : Prop :=
  (∀ range, m.msyncRange pageSize offset length = .ok range →
    FlushedRange pageSize m.entity offset length range) ∧
  (offset.toNat + length.toNat ≤ m.entity.capacity.toNat →
    ∃ range, m.msyncRange pageSize offset length = .ok range)

/-- The end of the range is beyond `SIZE_MAX`, although its start is inside the mapping and its
length counted from the page on is not beyond it. -/
def EndWraps (pageSize : Int) (e : FileMappingEntity) (offset length : UInt64) : Prop :=
  e.adjustment.toNat + offset.toNat ≤ e.rawCapacity.toNat ∧
    length.toNat + (e.adjustment.toNat + offset.toNat) % pageSize.toNat < 2 ^ 64 ∧
    2 ^ 64 ≤ e.adjustment.toNat + offset.toNat + length.toNat

instance (pageSize : Int) (e : FileMappingEntity) (offset length : UInt64) :
    Decidable (EndWraps pageSize e offset length) := inferInstanceAs (Decidable (_ ∧ _ ∧ _))

/-- The range in numbers without a bound. -/
theorem msyncRange_ok {pageSize : Int} (hvalid : m.entity.checkValid = true) (hpos : 0 < pageSize)
    (hlong : pageSize ≤ int64Max) (offset length : UInt64) (range : UInt64 × UInt64) :
    m.msyncRange pageSize offset length = .ok range ↔
      m.entity.adjustment.toNat + offset.toNat ≤ m.entity.rawCapacity.toNat ∧
      length.toNat + (m.entity.adjustment.toNat + offset.toNat) % pageSize.toNat < 2 ^ 64 ∧
      (m.entity.adjustment.toNat + offset.toNat + length.toNat < 2 ^ 64 →
        m.entity.adjustment.toNat + offset.toNat + length.toNat ≤ m.entity.rawCapacity.toNat) ∧
      range.1.toNat + (m.entity.adjustment.toNat + offset.toNat) % pageSize.toNat =
        m.entity.adjustment.toNat + offset.toNat ∧
      range.2.toNat =
        length.toNat + (m.entity.adjustment.toNat + offset.toNat) % pageSize.toNat := by
  have hlong : pageSize ≤ 2 ^ 63 - 1 := hlong
  have hoffset := offset.toNat_lt
  have hlength := length.toNat_lt
  have hadjustment := m.entity.adjustment.toNat_lt
  have hraw := m.entity.rawCapacity.toNat_lt
  unfold FsFileMapping.msyncRange
  rw [if_pos hvalid]
  dsimp only
  generalize m.entity.adjustment = a at *
  generalize m.entity.rawCapacity = r at *
  by_cases hsum : a.toNat + offset.toNat < 2 ^ 64
  · have hrawOffset : (a + offset).toNat = a.toNat + offset.toNat := by
      rw [UInt64.toNat_add, Nat.mod_eq_of_lt hsum]
    have hpage : (UInt64.ofNat pageSize.toNat).toNat = pageSize.toNat := by
      rw [UInt64.toNat_ofNat', Nat.mod_eq_of_lt (by omega)]
    obtain ⟨page, hsame⟩ : ∃ page, UInt64.ofNat pageSize.toNat = page := ⟨_, rfl⟩
    rw [hsame] at hpage ⊢
    rw [← hrawOffset] at hsum ⊢
    rw [← hpage]
    have hfirst : ¬ a + offset < a := by
      rw [UInt64.lt_iff_toNat_lt]
      omega
    rw [if_neg hfirst, if_neg (by omega : ¬ pageSize ≤ 0)]
    generalize a + offset = x at *
    have hdiv := Nat.div_add_mod' x.toNat page.toNat
    have haligned : (x / page * page).toNat = x.toNat / page.toNat * page.toNat := by
      rw [UInt64.toNat_mul, UInt64.toNat_div, Nat.mod_eq_of_lt (by omega)]
    have hextra : (x - x / page * page).toNat = x.toNat % page.toNat := by
      rw [UInt64.toNat_sub_of_le _ _ (UInt64.le_iff_toNat_le.mpr (by omega)), haligned]
      omega
    by_cases hinside : r < x
    · rw [if_pos hinside]
      rw [UInt64.lt_iff_toNat_lt] at hinside
      exact iff_of_false nofun fun hand => absurd hand.1 (by omega)
    · rw [if_neg hinside]
      rw [UInt64.lt_iff_toNat_lt] at hinside
      by_cases hrest : length.toNat + x.toNat % page.toNat < 2 ^ 64
      · have hrawLength : (length + (x - x / page * page)).toNat =
            length.toNat + x.toNat % page.toNat := by
          rw [UInt64.toNat_add, hextra, Nat.mod_eq_of_lt hrest]
        have hkept : ¬ length + (x - x / page * page) < x - x / page * page := by
          rw [UInt64.lt_iff_toNat_lt, hrawLength, hextra]
          omega
        have hend : (x / page * page + (length + (x - x / page * page))).toNat =
            (x.toNat + length.toNat) % 2 ^ 64 := by
          rw [UInt64.toNat_add, haligned, hrawLength]
          congr 1
          omega
        have hover : r < x / page * page + (length + (x - x / page * page)) ↔
            ¬ (x.toNat + length.toNat < 2 ^ 64 → x.toNat + length.toNat ≤ r.toNat) := by
          rw [UInt64.lt_iff_toNat_lt, hend]
          omega
        rw [if_neg hkept]
        by_cases hends : x.toNat + length.toNat < 2 ^ 64 → x.toNat + length.toNat ≤ r.toNat
        · rw [if_neg fun hlt => hover.mp hlt hends]
          constructor
          · rintro ⟨⟩
            refine ⟨by omega, hrest, hends, ?_, hrawLength⟩
            rw [haligned]
            exact hdiv
          · rintro ⟨-, -, -, hstart, hcount⟩
            refine congrArg Except.ok (Prod.ext (UInt64.toNat_inj.mp ?_) (UInt64.toNat_inj.mp ?_))
            · rw [haligned]
              omega
            · rw [hrawLength, hcount]
        · rw [if_pos (hover.mpr hends)]
          exact iff_of_false nofun fun hand => hends hand.2.2.1
      · have hwrapped : length + (x - x / page * page) < x - x / page * page := by
          rw [UInt64.lt_iff_toNat_lt, UInt64.toNat_add, hextra]
          omega
        rw [if_pos hwrapped]
        exact iff_of_false nofun fun hand => hrest hand.2.1
  · have hwrapped : a + offset < a := by
      rw [UInt64.lt_iff_toNat_lt, UInt64.toNat_add]
      omega
    rw [if_pos hwrapped]
    exact iff_of_false nofun fun hand => absurd hand.1 (by omega)

theorem msyncRange_exists {pageSize : Int} (hvalid : m.entity.checkValid = true)
    (hpos : 0 < pageSize) (hlong : pageSize ≤ int64Max) {offset length : UInt64}
    (hinside : m.entity.adjustment.toNat + offset.toNat ≤ m.entity.rawCapacity.toNat)
    (hrest : length.toNat + (m.entity.adjustment.toNat + offset.toNat) % pageSize.toNat < 2 ^ 64)
    (hends : m.entity.adjustment.toNat + offset.toNat + length.toNat < 2 ^ 64 →
      m.entity.adjustment.toNat + offset.toNat + length.toNat ≤ m.entity.rawCapacity.toNat) :
    ∃ range, m.msyncRange pageSize offset length = .ok range := by
  have hok := msyncRange_ok hvalid hpos hlong offset length
  have hraw := m.entity.rawCapacity.toNat_lt
  have hmod := Nat.mod_le (m.entity.adjustment.toNat + offset.toNat) pageSize.toNat
  generalize m.entity.adjustment.toNat + offset.toNat = x at *
  refine ⟨(UInt64.ofNat (x - x % pageSize.toNat), UInt64.ofNat (length.toNat + x % pageSize.toNat)),
    (hok _).mpr ⟨hinside, hrest, hends, ?_, ?_⟩⟩
  · rw [UInt64.toNat_ofNat', Nat.mod_eq_of_lt (by omega)]
    omega
  · rw [UInt64.toNat_ofNat', Nat.mod_eq_of_lt hrest]

theorem flushedRange_of_ok {pageSize : Int} (hvalid : m.entity.checkValid = true)
    (hpos : 0 < pageSize) (hlong : pageSize ≤ int64Max) {offset length : UInt64}
    {range : UInt64 × UInt64} (hrange : m.msyncRange pageSize offset length = .ok range)
    (hends : m.entity.adjustment.toNat + offset.toNat + length.toNat < 2 ^ 64) :
    FlushedRange pageSize m.entity offset length range := by
  obtain ⟨-, -, hinside, hstart, hcount⟩ :=
    (msyncRange_ok hvalid hpos hlong offset length range).mp hrange
  have hinside := hinside hends
  refine ⟨?_, by omega, by omega, by omega⟩
  have hdvd := Nat.dvd_sub_mod (n := pageSize.toNat)
    (m.entity.adjustment.toNat + offset.toNat)
  have hfirst : range.1.toNat = m.entity.adjustment.toNat + offset.toNat -
      (m.entity.adjustment.toNat + offset.toNat) % pageSize.toNat := by omega
  rw [← hfirst] at hdvd
  rw [← Int.toNat_of_nonneg (Int.le_of_lt hpos)]
  exact Int.ofNat_dvd.mpr hdvd

/-- After any calls on a mapping of a file, `Msync` flushes what it should exactly if the end of the
range does not wrap. -/
theorem msync_meets_iff [Securec] {env : MmapEnv} {content content' : List UInt8} {fd mode offset : Int}
    {size : UInt64} {last : FsFileMapping} {calls : List Call} {answers : List Answer}
    (h : doMmap env content fd mode offset size = .ok (m, content'))
    (hcalls : m.execAll env.pageSize calls = (answers, last))
    (hvalid : last.entity.checkValid = true) (start length : UInt64) :
    MsyncMeets env.pageSize last start length ↔
      ¬ EndWraps env.pageSize last.entity start length := by
  obtain ⟨-, hpage, -, mode', -, hstands⟩ := doMmap_stands h
  have hlast := (hstands.execAll env.pageSize calls).2
  rw [hcalls] at hlast
  have hsum : last.entity.adjustment.toNat + last.entity.capacity.toNat =
      last.entity.rawCapacity.toNat := hlast.ordered.rawCapacity
  have hraw := last.entity.rawCapacity.toNat_lt
  have hmod := Nat.mod_le (last.entity.adjustment.toNat + start.toNat) env.pageSize.toNat
  constructor
  · rintro ⟨hgood, -⟩ ⟨hinside, hrest, hwraps⟩
    obtain ⟨range, hrange⟩ := msyncRange_exists hvalid hpage env.isLong hinside hrest fun hlt =>
      absurd hwraps (Nat.not_le_of_lt hlt)
    have hflushed := hgood range hrange
    have hover := Nat.le_trans hflushed.last hflushed.inside
    omega
  · intro hends
    refine ⟨fun range hrange => ?_, fun hcapacity => ?_⟩
    · obtain ⟨hinside, hrest, -⟩ :=
        (msyncRange_ok hvalid hpage env.isLong start length range).mp hrange
      refine flushedRange_of_ok hvalid hpage env.isLong hrange (Nat.lt_of_not_le fun hwraps => ?_)
      exact hends ⟨hinside, hrest, hwraps⟩
    · exact msyncRange_exists hvalid hpage env.isLong (by omega) (by omega) fun _ => by omega

/-! ### Two mappings -/

/-- `memcpy_s` as it is documented. -/
instance documented : Securec where
  memcpyS destMax src :=
    if destMax = 0 ∨ securecMemMaxLen < destMax then (some .erange, [])
    else if destMax.toNat < src.length then
      (some .erangeAndReset, List.replicate destMax.toNat 0)
    else (none, src)
  fits destMax src hne hfits := by
    have hzero : destMax ≠ 0 := by
      rintro rfl
      exact hne (List.length_eq_zero_iff.mp (Nat.le_zero.mp hfits))
    by_cases hmax : securecMemMaxLen < destMax
    · rw [if_pos (.inr hmax), if_pos hmax]
    · rw [if_neg (not_or.mpr ⟨hzero, hmax⟩), if_neg (Nat.not_lt_of_le hfits), if_neg hmax]

/-- Pages of four bytes. -/
def smallPages : MmapEnv where
  pageSize := 4
  isLong := by decide

def oneByte : UserBuffer := ⟨some [7], 1, fun _ h => by cases h; rfl⟩

/-- The bytes 5 to 7 of a file of six bytes, which is made longer, and a byte that is written. -/
theorem doMmap_refines_sixBytes :
    ∃ m last, doMmap smallPages [0, 1, 2, 3, 4, 5] 3 1 5 3 = .ok (m, [0, 1, 2, 3, 4, 5, 0, 0]) ∧
      m.execAll smallPages.pageSize [.write oneByte 1, .flip, .getLimit] =
        ([.transferred ⟨1, []⟩, .done, .size 1], last) ∧
      ∃ b, Stands 1 3 .readWrite (some b) last ∧ b.items = [7, 0, 0] ∧ b.position = 0 ∧
        b.limit = 1 := by
  obtain ⟨m, h, hstart, last, hcalls⟩ : ∃ m,
      doMmap smallPages [0, 1, 2, 3, 4, 5] 3 1 5 3 = .ok (m, [0, 1, 2, 3, 4, 5, 0, 0]) ∧
      m.entity.adjustment.toNat = 1 ∧
      ∃ last, m.execAll smallPages.pageSize [.write oneByte 1, .flip, .getLimit] =
        ([.transferred ⟨1, []⟩, .done, .size 1], last) := ⟨_, rfl, rfl, _, rfl⟩
  obtain ⟨-, mode', saids, final, hmode, -, hplain, -, hstands, -⟩ := doMmap_refines h hcalls
  obtain rfl : mode' = .readWrite := (Option.some.inj hmode).symm
  obtain ⟨-, rfl⟩ := Prod.mk.inj hplain
  rw [hstart] at hstands
  exact ⟨m, last, h, hcalls, _, hstands, rfl, rfl, rfl⟩

/-- In a mapping of 2 GiB a byte cannot be written, as `memcpy_s` is told all that remains. -/
theorem large_not_plain :
    ∃ m content, doMmap smallPages [] 3 1 0 2147483648 = .ok (m, content) ∧
      ¬ List.Forall₂ Says
        (plainAll (fun _ => false) false (some (ofItems ((content.drop 0).take 2147483648)))
          [.write oneByte 1]).1
        (m.execAll smallPages.pageSize [.write oneByte 1]).1 := by
  obtain ⟨m, content, h, hcalls⟩ : ∃ m content,
      doMmap smallPages [] 3 1 0 2147483648 = .ok (m, content) ∧
      (m.execAll smallPages.pageSize [.write oneByte 1]).1 = [.failed .mmapOob] := ⟨_, _, rfl, rfl⟩
  refine ⟨m, content, h, fun hall => ?_⟩
  have hlength : ((content.drop 0).take 2147483648).length = 2147483648 := by
    obtain ⟨-, -, hreaches, -⟩ := doMmap_stands h
    rw [List.drop_zero, List.length_take]
    exact Nat.min_eq_left hreaches
  have hplain : (plainAll (fun _ => false) false
      (some (ofItems ((content.drop 0).take 2147483648))) [.write oneByte 1]).1 =
      [some (.transferred ⟨1, []⟩)] := by
    generalize (content.drop 0).take 2147483648 = items at hlength
    have hcount : min 1 (items.length - 0) = 1 := by omega
    have hvalid : ¬ oneByte.invalid = true := by decide
    have htaken : ¬ (min (oneByte.bytes.take (1 : UInt64).toNat).length
        ((ofItems items).limit - (ofItems items).position) ≠ 0 ∧ false = true) :=
      fun hand => Bool.false_ne_true hand.2
    rw [plainAll, plainExec, if_neg hvalid, if_neg Bool.false_ne_true, if_neg htaken]
    show [some (Answer.transferred ⟨UInt64.ofNat (min 1 (items.length - 0)), []⟩)] = _
    rw [hcount]
    rfl
  rw [hplain, hcalls] at hall
  cases hall with
  | cons hfirst _ => cases hfirst _ rfl

/-- All of a mapping is flushed. -/
theorem msync_meets_sixBytes :
    ∃ m, doMmap smallPages [0, 1, 2, 3, 4, 5] 3 1 5 3 = .ok (m, [0, 1, 2, 3, 4, 5, 0, 0]) ∧
      MsyncMeets smallPages.pageSize m 0 3 := by
  obtain ⟨m, h, hvalid, hends⟩ : ∃ m,
      doMmap smallPages [0, 1, 2, 3, 4, 5] 3 1 5 3 = .ok (m, [0, 1, 2, 3, 4, 5, 0, 0]) ∧
      m.entity.checkValid = true ∧ ¬ EndWraps smallPages.pageSize m.entity 0 3 :=
    ⟨_, rfl, rfl, by decide⟩
  have hcalls : m.execAll smallPages.pageSize [] = ([], m) := rfl
  exact ⟨m, h, (msync_meets_iff h hcalls hvalid 0 3).mpr hends⟩

/-- The second page of a mapping and nearly all of the address space behind it. -/
theorem msync_not_meets :
    ∃ m content, doMmap smallPages [] 3 1 0 8 = .ok (m, content) ∧
      m.msyncRange smallPages.pageSize 4 0xfffffffffffffffc = .ok (4, 0xfffffffffffffffc) ∧
      ¬ MsyncMeets smallPages.pageSize m 4 0xfffffffffffffffc := by
  obtain ⟨m, content, h, hcapacity, hrange⟩ : ∃ m content,
      doMmap smallPages [] 3 1 0 8 = .ok (m, content) ∧ m.entity.rawCapacity = 8 ∧
      m.msyncRange smallPages.pageSize 4 0xfffffffffffffffc = .ok (4, 0xfffffffffffffffc) :=
    ⟨_, _, rfl, rfl, rfl⟩
  refine ⟨m, content, h, hrange, fun hmeets => ?_⟩
  have hinside := (hmeets.1 _ hrange).inside
  rw [hcapacity] at hinside
  exact absurd hinside (by decide)

end FileApi.ModFs.FileMapping
