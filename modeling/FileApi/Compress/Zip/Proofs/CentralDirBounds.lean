import FileApi.Compress.Zip.ReaderOpen

/-!
# The bounds of the central directory

`ZipCheckAndCorrectCentralDirOffset` adds the offset and the size of the directory as 64-bit
numbers before it compares them with the place of the end record (`zip_reader_impl.c:193`).
-/

namespace FileApi.Compress.Zip

variable {archive : List UInt8} {pos : Nat} {offsetOfEOCD offset size : UInt64} {isZip64 : Bool}

/-- The directory ends in front of the end record, and what was added to its offset was not
negative; all of it over the numbers themselves. -/
structure CentralDirPlace.InBounds (place : CentralDirPlace) (offsetOfEOCD offset : UInt64) :
    Prop where
  inside : place.offsetOfCentralDir.toNat + place.sizeOfCentralDir.toNat ≤ offsetOfEOCD.toNat
  forward : 0 ≤ place.offsetCorrection
  corrected : (offset.toNat : Int) + place.offsetCorrection = place.offsetOfCentralDir.toNat

/-- The sum of offset and size is past the end of the 64-bit numbers and what is left of it is not
behind the end record, with a central header at the offset. -/
def CentralDirWraps (archive : List UInt8) (offsetOfEOCD offset size : UInt64) : Prop :=
  offset.toNat < offLimit ∧
    zipCheckSignature ⟨archive, offset.toNat⟩ ZIP_MAGIC_CENTRALHEADER = .ok () ∧
    offset ≤ offsetOfEOCD ∧ 2 ^ 64 ≤ offset.toNat + size.toNat ∧ offset + size ≤ offsetOfEOCD

theorem toInt64_nonneg {value : UInt64} (h : 0 ≤ toInt64 value) :
    value.toNat < offLimit ∧ toInt64 value = value.toNat := by
  have hlt := value.toNat_lt
  rw [toInt64] at h ⊢
  split at h
  · next hlim =>
    rw [if_pos hlim]
    exact ⟨hlim, rfl⟩
  · omega

theorem toInt64_sub {a b : UInt64} (ha : a.toNat < offLimit) (hb : b.toNat < offLimit)
    (h : 0 ≤ toInt64 (a - b)) : (b.toNat : Int) + toInt64 (a - b) = a.toNat := by
  obtain ⟨hlim, heq⟩ := toInt64_nonneg h
  rw [heq]
  have hsub := UInt64.toNat_sub a b
  rw [offLimit] at *
  omega

theorem streamSeek_toInt64 {f g : ByteFile} {value : UInt64}
    (h : streamSeek f (toInt64 value) .set = .ok g) :
    value.toNat < offLimit ∧ g = f.seekTo value.toNat := by
  obtain ⟨hnonneg, hseek⟩ := streamSeek_set_eq h
  obtain ⟨hlim, heq⟩ := toInt64_nonneg hnonneg
  rw [heq, Int.toNat_natCast] at hseek
  exact ⟨hlim, hseek⟩

/-- What the correction does when it ends well: it leaves offset and size alone, cuts the size, or
puts the directory in front of the end record. -/
theorem zipCorrectCentralDir_ok {stream : ByteFile} {place : CentralDirPlace}
    (h : zipCorrectCentralDir stream offsetOfEOCD isZip64 offset size = .ok place) :
    (zipCheckSignature stream ZIP_MAGIC_CENTRALHEADER = .ok () ∧
      (offsetOfEOCD < offset + size ∧ place = ⟨offset, offsetOfEOCD - offset, 0⟩ ∨
        offset + size ≤ offsetOfEOCD ∧ place = ⟨offset, size, 0⟩)) ∨
    (zipCheckSignature stream ZIP_MAGIC_CENTRALHEADER ≠ .ok () ∧
      ((offsetOfEOCD - size).toNat < offLimit ∧
        place = ⟨offsetOfEOCD - size, size, toInt64 (offsetOfEOCD - size - offset)⟩ ∨
        size = 0 ∧ place = ⟨offset, size, 0⟩)) := by
  rw [zipCorrectCentralDir] at h
  split at h
  · next hsig =>
    refine .inl ⟨hsig, ?_⟩
    split at h
    · next hlt =>
      cases h
      exact .inl ⟨hlt, rfl⟩
    · next hle =>
      cases h
      exact .inr ⟨UInt64.not_lt.mp hle, rfl⟩
  · next e hsig =>
    refine .inr ⟨by rw [hsig]; nofun, ?_⟩
    split at h
    · cases h
    · obtain ⟨moved, hseek, h⟩ := bind_eq_ok.mp h
      split at h
      · cases h
        exact .inl ⟨(streamSeek_toInt64 hseek).1, rfl⟩
      · split at h
        · next hzero =>
          cases h
          exact .inr ⟨hzero, rfl⟩
        · cases h

/-- The function returns a directory within its bounds, unless the sum of offset and size wraps. -/
theorem zipCheckAndCorrectCentralDirOffset_inBounds_iff :
    (∀ place, zipCheckAndCorrectCentralDirOffset ⟨archive, pos⟩ offsetOfEOCD isZip64 offset size =
        .ok place → place.InBounds offsetOfEOCD offset) ↔
      ¬ CentralDirWraps archive offsetOfEOCD offset size := by
  have hadd := UInt64.toNat_add offset size
  have heocd := offsetOfEOCD.toNat_lt
  constructor
  · rintro h ⟨hlim, hsig, hbefore, hwraps, hleft⟩
    have hrun : zipCheckAndCorrectCentralDirOffset ⟨archive, pos⟩ offsetOfEOCD isZip64 offset size =
        .ok ⟨offset, size, 0⟩ := by
      rw [zipCheckAndCorrectCentralDirOffset, toInt64_of_lt hlim, streamSeek_set hlim, ok_bind,
        ByteFile.seekTo, zipCorrectCentralDir, hsig]
      dsimp only
      rw [if_neg (UInt64.not_lt.mpr hleft), ok_bind,
        if_neg (not_or.mpr ⟨UInt64.not_lt.mpr hbefore, Int.lt_irrefl 0⟩)]
    have hinside := (h _ hrun).inside
    dsimp only at hinside
    omega
  · intro hno place h
    rw [zipCheckAndCorrectCentralDirOffset] at h
    obtain ⟨stream, hseek, h⟩ := bind_eq_ok.mp h
    obtain ⟨hlim, rfl⟩ := streamSeek_toInt64 hseek
    obtain ⟨found, hfound, h⟩ := bind_eq_ok.mp h
    split at h
    · cases h
    · next hchecked =>
      cases h
      rw [not_or, UInt64.not_lt, Int.not_lt] at hchecked
      obtain ⟨hbefore, hforward⟩ := hchecked
      have hbefore' := UInt64.le_iff_toNat_le.mp hbefore
      obtain ⟨hsig, ⟨hcut, rfl⟩ | ⟨hsum, rfl⟩⟩ | ⟨-, ⟨hmoved, rfl⟩ | ⟨hzero, rfl⟩⟩ :=
        zipCorrectCentralDir_ok hfound
      · -- the size is cut
        refine ⟨?_, hforward, Int.add_zero _⟩
        have hsub := UInt64.toNat_sub_of_le offsetOfEOCD offset hbefore
        dsimp only at hbefore' ⊢
        omega
      · refine ⟨?_, hforward, Int.add_zero _⟩
        have hsum' := UInt64.le_iff_toNat_le.mp hsum
        have hlt : offset.toNat + size.toNat < 2 ^ 64 := by
          by_contra hwraps
          exact hno ⟨hlim, hsig, hbefore, Nat.not_lt.mp hwraps, hsum⟩
        dsimp only
        omega
      · -- the directory is put in front of the end record
        refine ⟨?_, hforward, toInt64_sub hmoved hlim hforward⟩
        have hsub := UInt64.toNat_sub offsetOfEOCD size
        have hsize := size.toNat_lt
        dsimp only at hbefore' ⊢
        omega
      · refine ⟨?_, hforward, Int.add_zero _⟩
        rw [hzero]
        exact hbefore'

/-- A central header at offset 4 and a size that comes to zero with it. -/
theorem zipCheckAndCorrectCentralDirOffset_not_inBounds :
    zipCheckAndCorrectCentralDirOffset ⟨[0, 0, 0, 0, 0x50, 0x4b, 0x01, 0x02], 0⟩ 8 true 4
        0xfffffffffffffffc = .ok ⟨4, 0xfffffffffffffffc, 0⟩ ∧
      ¬ (CentralDirPlace.mk 4 0xfffffffffffffffc 0).InBounds 8 4 := by
  refine ⟨by decide +kernel, fun h => ?_⟩
  exact absurd h.inside (by decide)

end FileApi.Compress.Zip
