import FileApi.Compress.Zip.DosTime
import FileApi.Misc.BitFields

/-!
# Times of DOS and back

The encoder takes years of two digits, years from 1900 on and whole years. Its check lets years of
DOS up to 207 through, and there are seven bits for them: years from 2108 on come back as years from
1980 on.
-/

namespace FileApi.Compress.Zip

open BitFields

/-! ## Words -/

/-- A time of DOS that is to be packed; the year is from 1980 on. -/
structure DosTime where
  year : Nat
  mon : Nat
  mday : Nat
  hour : Nat
  min : Nat
  sec : Nat

namespace DosTime

/-- The fields fit; of the year only the low bits are kept. -/
structure Fits (t : DosTime) : Prop where
  year : t.year ≤ 207
  mon : t.mon ≤ 11
  mday : t.mday ≤ 31
  hour : t.hour ≤ 23
  min : t.min ≤ 59
  sec : t.sec ≤ 59

/-- The seconds by two, the minutes and the hours. -/
def timeWord (t : DosTime) : Nat := t.sec / 2 + 2 ^ 5 * (t.min + 2 ^ 6 * t.hour)

/-- The days, the months from 1 on and the years. -/
def dateWord (t : DosTime) : Nat := t.mday + 2 ^ 5 * (t.mon + 1 + 2 ^ 4 * t.year)

/-- The word, and what of it there is room for. -/
def word (t : DosTime) : Nat := (t.timeWord + 2 ^ 16 * t.dateWord) % 2 ^ 32

variable {t : DosTime}

theorem Fits.timeWord_lt (h : t.Fits) : t.timeWord < 2 ^ 16 := by
  have hhour := h.hour
  have hmin := h.min
  have hsec := h.sec
  rw [timeWord]
  omega

theorem Fits.word_eq (h : t.Fits) : t.word = t.timeWord + 2 ^ 16 * (t.dateWord % 2 ^ 16) := by
  have htime := h.timeWord_lt
  rw [word]
  omega

theorem Fits.dateWord_mod (h : t.Fits) :
    t.dateWord % 2 ^ 16 = t.mday + 2 ^ 5 * (t.mon + 1 + 2 ^ 4 * (t.year % 2 ^ 7)) := by
  have hmon := h.mon
  have hmday := h.mday
  rw [dateWord]
  omega

/-- The fields of the word. -/
structure Holds (t : DosTime) (word : Nat) : Prop where
  mday : field 16 5 word = t.mday
  mon : field 21 4 word = t.mon + 1
  year : field 25 7 word = t.year % 128
  hour : field 11 5 word = t.hour
  min : field 5 6 word = t.min
  sec : field 0 5 word = t.sec / 2

theorem Fits.holds (h : t.Fits) : t.Holds t.word := by
  have hmon := h.mon
  have hmday := h.mday
  have hhour := h.hour
  have hmin := h.min
  have hsec := h.sec
  have hword : t.word = t.timeWord + 2 ^ 16 *
      (t.mday + 2 ^ 5 * (t.mon + 1 + 2 ^ 4 * (t.year % 128))) := by
    rw [h.word_eq, h.dateWord_mod]
    rfl
  have htime : t.timeWord = t.sec / 2 + 2 ^ 5 * (t.min + 2 ^ 6 * t.hour) := rfl
  refine ⟨?_, ?_, ?_, ?_, ?_, ?_⟩
  · rw [hword]
    exact field_add h.timeWord_lt (by omega) _
  · rw [field_eq]
    omega
  · rw [field_eq]
    omega
  · rw [field_eq]
    omega
  · rw [field_eq]
    omega
  · rw [field_eq]
    omega

end DosTime

/-! ## The encoder -/

theorem toNat_ofInt {x : Int} (h : 0 ≤ x) (hlt : x < 2 ^ 32) : (UInt32.ofInt x).toNat = x.toNat := by
  rw [UInt32.ofInt, Int.emod_eq_of_lt h hlt, UInt32.toNat_ofNat']
  omega

theorem zipInvalidDate_eq_false {ptm : Tm} : zipInvalidDate ptm = false ↔
    (0 ≤ ptm.tmYear ∧ ptm.tmYear ≤ 207) ∧ (0 ≤ ptm.tmMon ∧ ptm.tmMon ≤ 11) ∧
      (1 ≤ ptm.tmMday ∧ ptm.tmMday ≤ 31) ∧ (0 ≤ ptm.tmHour ∧ ptm.tmHour ≤ 23) ∧
        (0 ≤ ptm.tmMin ∧ ptm.tmMin ≤ 59) ∧ 0 ≤ ptm.tmSec ∧ ptm.tmSec ≤ 59 := by
  simp only [zipInvalidDate, dateValueInRange, Bool.or_eq_false_iff, Bool.not_eq_false',
    decide_eq_true_eq, and_assoc]
  rfl

/-- The time that `ZipTimeToDosModDateTime` packs. -/
def dosTimeOf (ptm : Tm) : DosTime where
  year := (fixedYear ptm.tmYear).toNat
  mon := ptm.tmMon.toNat
  mday := ptm.tmMday.toNat
  hour := ptm.tmHour.toNat
  min := ptm.tmMin.toNat
  sec := ptm.tmSec.toNat

variable {ptm : Tm}

theorem dosTimeOf_fits (h : zipInvalidDate { ptm with tmYear := fixedYear ptm.tmYear } = false) :
    (dosTimeOf ptm).Fits := by
  obtain ⟨hyear, hmon, hmday, hhour, hmin, hsec⟩ := zipInvalidDate_eq_false.mp h
  refine ⟨?_, ?_, ?_, ?_, ?_, ?_⟩
  · exact Int.toNat_le.mpr hyear.2
  · exact Int.toNat_le.mpr hmon.2
  · exact Int.toNat_le.mpr hmday.2
  · exact Int.toNat_le.mpr hhour.2
  · exact Int.toNat_le.mpr hmin.2
  · exact Int.toNat_le.mpr hsec.2

theorem zipTimeToDosModDateTime_toNat
    (h : zipInvalidDate { ptm with tmYear := fixedYear ptm.tmYear } = false) :
    (zipTimeToDosModDateTime (some ptm)).toNat = (dosTimeOf ptm).word := by
  have hfits := dosTimeOf_fits h
  obtain ⟨hyear, hmon, hmday, hhour, hmin, hsec⟩ := zipInvalidDate_eq_false.mp h
  dsimp only at hyear hmon hmday hhour hmin hsec
  have hnat : ∀ {x : Int}, 0 ≤ x → x ≤ 207 → (UInt32.ofInt x).toNat = x.toNat := fun h hle =>
    toNat_ofInt h (by omega)
  have hdate : (UInt32.ofInt ptm.tmMday + 32 * (UInt32.ofInt ptm.tmMon + 1) +
      512 * UInt32.ofInt (fixedYear ptm.tmYear)).toNat = (dosTimeOf ptm).dateWord := by
    have hyear' := hfits.year
    have hmon' := hfits.mon
    have hmday' := hfits.mday
    simp only [UInt32.toNat_add, UInt32.toNat_mul, hnat hyear.1 hyear.2, hnat hmon.1 (by omega),
      hnat (by omega : 0 ≤ ptm.tmMday) (by omega)]
    simp only [dosTimeOf] at hyear' hmon' hmday'
    simp only [dosTimeOf, DosTime.dateWord, UInt32.reduceToNat]
    omega
  have htime : (UInt32.ofInt ptm.tmSec / 2 + 32 * UInt32.ofInt ptm.tmMin +
      2048 * UInt32.ofInt ptm.tmHour).toNat = (dosTimeOf ptm).timeWord := by
    have hhour' := hfits.hour
    have hmin' := hfits.min
    have hsec' := hfits.sec
    simp only [UInt32.toNat_add, UInt32.toNat_mul, UInt32.toNat_div, hnat hhour.1 (by omega),
      hnat hmin.1 (by omega), hnat hsec.1 (by omega)]
    simp only [dosTimeOf] at hhour' hmin' hsec'
    simp only [dosTimeOf, DosTime.timeWord, UInt32.reduceToNat]
    omega
  have hshift : (dosTimeOf ptm).dateWord <<< ((16 : UInt32).toNat % 32) % 2 ^ 32 =
      ((dosTimeOf ptm).dateWord % 2 ^ 16) <<< 16 := by
    rw [show (16 : UInt32).toNat % 32 = 16 from rfl, Nat.shiftLeft_eq, Nat.shiftLeft_eq]
    omega
  rw [zipTimeToDosModDateTime]
  dsimp only
  rw [if_neg (by rw [h]; nofun), UInt32.toNat_or, UInt32.toNat_shiftLeft, hdate, htime, hshift,
    shiftLeft_or hfits.timeWord_lt, hfits.word_eq]

/-! ## The decoder -/

theorem zipConvertDosDateToTime_eq (clock : Clock) (dosDateTime : UInt32) :
    zipConvertDosDateToTime clock dosDateTime = clock.mktime {
      tmMday := field 16 5 dosDateTime.toNat
      tmMon := field 21 4 dosDateTime.toNat - 1
      tmYear := field 25 7 dosDateTime.toNat + 80
      tmHour := field 11 5 dosDateTime.toNat
      tmMin := field 5 6 dosDateTime.toNat
      tmSec := field 0 5 dosDateTime.toNat * 2
      tmIsdst := -1 } := by
  have hmday : (dosDateTime >>> 16 &&& 0x1f).toNat = field 16 5 dosDateTime.toNat := by
    rw [UInt32.toNat_and, UInt32.toNat_shiftRight]
    rfl
  have hmon : ((dosDateTime >>> 16) >>> 5 &&& 0x0f).toNat = field 21 4 dosDateTime.toNat := by
    rw [UInt32.toNat_and, UInt32.toNat_shiftRight, UInt32.toNat_shiftRight, ← Nat.shiftRight_add]
    rfl
  have hyear : ((dosDateTime >>> 16) >>> 9 &&& 0x7f).toNat = field 25 7 dosDateTime.toNat := by
    rw [UInt32.toNat_and, UInt32.toNat_shiftRight, UInt32.toNat_shiftRight, ← Nat.shiftRight_add]
    rfl
  have htime : (dosDateTime &&& 0xffff).toNat = dosDateTime.toNat % 2 ^ 16 := by
    rw [UInt32.toNat_and]
    exact Nat.and_two_pow_sub_one_eq_mod _ 16
  have hhour : ((dosDateTime &&& 0xffff) >>> 11 &&& 0x1f).toNat = field 11 5 dosDateTime.toNat := by
    rw [UInt32.toNat_and, UInt32.toNat_shiftRight, htime]
    exact field_mod (show 11 + 5 ≤ 16 by decide) _
  have hmin : ((dosDateTime &&& 0xffff) >>> 5 &&& 0x3f).toNat = field 5 6 dosDateTime.toNat := by
    rw [UInt32.toNat_and, UInt32.toNat_shiftRight, htime]
    exact field_mod (show 5 + 6 ≤ 16 by decide) _
  have hsec : ((dosDateTime &&& 0xffff) <<< 1 &&& 0x3e).toNat = field 0 5 dosDateTime.toNat * 2 := by
    have hlt : (dosDateTime.toNat % 2 ^ 16) <<< 1 < 2 ^ 32 := by
      rw [Nat.shiftLeft_eq]
      omega
    rw [UInt32.toNat_and, UInt32.toNat_shiftLeft, htime, show (1 : UInt32).toNat % 32 = 1 from rfl,
      Nat.mod_eq_of_lt hlt, show (0x3e : UInt32).toNat = (2 ^ 5 - 1) <<< 1 from rfl,
      ← Nat.shiftLeft_and_distrib, Nat.shiftLeft_eq]
    exact congrArg (· * 2) (field_mod (show 0 + 5 ≤ 16 by decide) _)
  rw [zipConvertDosDateToTime, hmday, hmon, hyear, hhour, hmin, hsec]
  rfl

/-! ## Back and forth -/

/-- What comes back of a time that the check lets through: the year by its low seven bits, the
seconds by two. -/
theorem zipConvertDosDateToTime_encoded (clock : Clock)
    (h : zipInvalidDate { ptm with tmYear := fixedYear ptm.tmYear } = false) :
    zipConvertDosDateToTime clock (zipTimeToDosModDateTime (some ptm)) = clock.mktime { ptm with
      tmYear := fixedYear ptm.tmYear % 128 + 80
      tmSec := ptm.tmSec / 2 * 2
      tmIsdst := -1 } := by
  have hfits := dosTimeOf_fits h
  obtain ⟨hyear, hmon, hmday, hhour, hmin, hsec⟩ := zipInvalidDate_eq_false.mp h
  dsimp only at hyear hmon hmday hhour hmin hsec
  rw [zipConvertDosDateToTime_eq, zipTimeToDosModDateTime_toNat h]
  obtain ⟨hmday', hmon', hyear', hhour', hmin', hsec'⟩ := hfits.holds
  rw [hmday', hmon', hyear', hhour', hmin', hsec']
  refine congrArg clock.mktime ?_
  have hyearEq : ((dosTimeOf ptm).year : Int) = fixedYear ptm.tmYear := Int.toNat_of_nonneg hyear.1
  have hmonEq : ((dosTimeOf ptm).mon : Int) = ptm.tmMon := Int.toNat_of_nonneg hmon.1
  have hmdayEq : ((dosTimeOf ptm).mday : Int) = ptm.tmMday := Int.toNat_of_nonneg (by omega)
  have hhourEq : ((dosTimeOf ptm).hour : Int) = ptm.tmHour := Int.toNat_of_nonneg hhour.1
  have hminEq : ((dosTimeOf ptm).min : Int) = ptm.tmMin := Int.toNat_of_nonneg hmin.1
  have hsecEq : ((dosTimeOf ptm).sec : Int) = ptm.tmSec := Int.toNat_of_nonneg hsec.1
  rw [Tm.mk.injEq]
  push_cast
  rw [hyearEq, hmonEq, hmdayEq, hhourEq, hminEq, hsecEq]
  exact ⟨rfl, rfl, rfl, rfl, by omega, rfl, trivial⟩

/-- The year that `tm_year` stands for, as the encoder's comment has it: with two digits, from 1900
on, or as a whole. -/
def supportedYear (tmYear : Int) : Option Int :=
  if 0 ≤ tmYear ∧ tmYear ≤ 79 then some (2000 + tmYear)
  else if 80 ≤ tmYear ∧ tmYear ≤ 207 then some (1900 + tmYear)
  else if 1980 ≤ tmYear ∧ tmYear ≤ 2107 then some tmYear
  else none

theorem fixedYear_of_supported {tmYear year : Int} (h : supportedYear tmYear = some year) :
    fixedYear tmYear = year - 1980 ∧ 1980 ≤ year ∧ year ≤ 2107 := by
  unfold supportedYear at h
  unfold fixedYear
  split_ifs at h <;> cases h <;> split_ifs <;> omega

/-- What a time comes back as: in its year, the seconds by two, and `mktime` is to find out whether
it is summer time. -/
def Tm.returned (tm : Tm) (year : Int) : Tm :=
  { tm with tmYear := year - 1900, tmSec := tm.tmSec / 2 * 2, tmIsdst := -1 }

/-- A time with a year that is supported comes back, and with a year that is far from those it is
not encoded. -/
theorem dosDateTime_roundTrip (clock : Clock) (h : ptm.BrokenDown) :
    (∀ year, supportedYear ptm.tmYear = some year → ptm.tmSec ≤ 59 →
      zipConvertDosDateToTime clock (zipTimeToDosModDateTime (some ptm)) =
        clock.mktime (ptm.returned year)) ∧
    (ptm.tmYear < -20 ∨ 288 ≤ ptm.tmYear ∧ ptm.tmYear < 1980 ∨ 2188 ≤ ptm.tmYear ∨
        ptm.tmSec = 60 → zipTimeToDosModDateTime (some ptm) = 0) := by
  constructor
  · intro year hyear hsec
    obtain ⟨hfixed, hge, hle⟩ := fixedYear_of_supported hyear
    have hvalid : zipInvalidDate { ptm with tmYear := fixedYear ptm.tmYear } = false := by
      rw [hfixed]
      exact zipInvalidDate_eq_false.mpr
        ⟨⟨Int.sub_nonneg_of_le hge, Int.sub_le_of_sub_le (by omega)⟩, h.mon, h.mday, h.hour, h.min,
          h.sec.1, hsec⟩
    rw [zipConvertDosDateToTime_encoded clock hvalid, hfixed, Tm.returned]
    have hmod : (year - 1980) % 128 + 80 = year - 1900 := by omega
    rw [hmod]
  · intro hfar
    have hinvalid : zipInvalidDate { ptm with tmYear := fixedYear ptm.tmYear } = true := by
      refine (Bool.eq_false_or_eq_true _).resolve_right fun hvalid => ?_
      obtain ⟨hyear, -, -, -, -, -, hsec⟩ := zipInvalidDate_eq_false.mp hvalid
      dsimp only at hyear hsec
      unfold fixedYear at hyear
      split_ifs at hyear <;> omega
    rw [zipTimeToDosModDateTime]
    exact if_pos hinvalid

/-- Half past eight and one second on the last day of February 2000. -/
def leapDay : Tm :=
  { tmSec := 1, tmMin := 30, tmHour := 8, tmMday := 29, tmMon := 1, tmYear := 100 }

theorem leapDay_roundTrip :
    let clock : Clock := ⟨fun _ => some leapDay, fun _ => 951813000⟩
    zipConvertDosDateToTime clock (zipTimeToDosModDateTime (some leapDay)) =
      clock.mktime { leapDay with tmSec := 0, tmIsdst := -1 } :=
  (dosDateTime_roundTrip _
    (show leapDay.BrokenDown from ⟨by decide, by decide, by decide, by decide, by decide⟩)).1
    2000 rfl (by decide)

/-- The first second of 1970. -/
def epoch : Tm :=
  { tmSec := 0, tmMin := 0, tmHour := 0, tmMday := 1, tmMon := 0, tmYear := 70 }

/-- It is encoded, as the first second of 2070. -/
theorem epoch_encoded : epoch.BrokenDown ∧ supportedYear epoch.tmYear = some 2070 ∧
    ¬ (1980 ≤ 1900 + epoch.tmYear ∧ 1900 + epoch.tmYear ≤ 2107) ∧
      zipTimeToDosModDateTime (some epoch) ≠ 0 :=
  ⟨⟨by decide, by decide, by decide, by decide, by decide⟩, rfl, by decide, by decide⟩

end FileApi.Compress.Zip
