import Mathlib.Data.Nat.Bitwise

/-!
# Times of DOS

`zip_handler_common.c:35-127`: a broken-down time as 32 bits and back. `localtime_r` and `mktime` are
those of the C library, for the zone that is set.
-/

namespace FileApi.Compress.Zip

/-- `struct tm`, without the days of the week and of the year. -/
structure Tm where
  tmSec : Int
  tmMin : Int
  tmHour : Int
  tmMday : Int
  tmMon : Int
  tmYear : Int
  tmIsdst : Int := 0
  deriving DecidableEq

/-- What `struct tm` allows. -/
structure Tm.BrokenDown (tm : Tm) : Prop where
  sec : 0 ≤ tm.tmSec ∧ tm.tmSec ≤ 60
  min : 0 ≤ tm.tmMin ∧ tm.tmMin ≤ 59
  hour : 0 ≤ tm.tmHour ∧ tm.tmHour ≤ 23
  mday : 1 ≤ tm.tmMday ∧ tm.tmMday ≤ 31
  mon : 0 ≤ tm.tmMon ∧ tm.tmMon ≤ 11

/-- The time functions of the C library; `localtime_r` may fail. -/
structure Clock where
  localtime : Int → Option Tm
  mktime : Tm → Int

/-- `DATE_VALUE_IN_RANGE`. -/
def dateValueInRange (min max value : Int) : Bool := min ≤ value ∧ value ≤ max

/-- `ZipInvalidDate`. -/
def zipInvalidDate (ptm : Tm) : Bool :=
  !dateValueInRange 0 (127 + 80) ptm.tmYear || !dateValueInRange 0 11 ptm.tmMon ||
    !dateValueInRange 1 31 ptm.tmMday || !dateValueInRange 0 23 ptm.tmHour ||
    !dateValueInRange 0 59 ptm.tmMin || !dateValueInRange 0 59 ptm.tmSec

/-- The year of `fixedTime` in `ZipTimeToDosModDateTime`. -/
def fixedYear (tmYear : Int) : Int :=
  if 1980 ≤ tmYear then tmYear - 1980
  else if 80 ≤ tmYear then tmYear - 80
  else tmYear + 20

/-- `ZipTimeToDosModDateTime`; `none` is a null pointer. -/
def zipTimeToDosModDateTime : Option Tm → UInt32
  | none => 0
  | some ptm =>
      let fixedTime := { ptm with tmYear := fixedYear ptm.tmYear }
      if zipInvalidDate fixedTime then 0
      else
        ((UInt32.ofInt fixedTime.tmMday + 32 * (UInt32.ofInt fixedTime.tmMon + 1) +
            512 * UInt32.ofInt fixedTime.tmYear) <<< 16) |||
          (UInt32.ofInt fixedTime.tmSec / 2 + 32 * UInt32.ofInt fixedTime.tmMin +
            2048 * UInt32.ofInt fixedTime.tmHour)

/-- `ZipGetCurrentDosModeDateTime`, with what `time` returns. -/
def zipGetCurrentDosModeDateTime (clock : Clock) (timestamp : Int) : UInt32 :=
  zipTimeToDosModDateTime (clock.localtime timestamp)

/-- `ZipConvertTimeToDosDate`, with `ZipTimeToTm`. -/
def zipConvertTimeToDosDate (clock : Clock) (time : Int) : UInt32 :=
  match clock.localtime time with
  | none => 0
  | some ptm => zipTimeToDosModDateTime (some ptm)

/-- `ZipConvertDosDateToTime`. -/
def zipConvertDosDateToTime (clock : Clock) (dosDateTime : UInt32) : Int :=
  let msTime := dosDateTime &&& 0xffff
  let msDate := dosDateTime >>> 16
  clock.mktime {
    tmMday := (msDate &&& 0x1f).toNat
    tmMon := ((msDate >>> 5) &&& 0x0f).toNat - 1
    tmYear := ((msDate >>> 9) &&& 0x7f).toNat + 80
    tmHour := ((msTime >>> 11) &&& 0x1f).toNat
    tmMin := ((msTime >>> 5) &&& 0x3f).toNat
    tmSec := ((msTime <<< 1) &&& 0x3e).toNat
    tmIsdst := -1 }

end FileApi.Compress.Zip
