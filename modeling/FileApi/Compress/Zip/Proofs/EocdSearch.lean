import FileApi.Compress.Zip.ReaderOpen
import FileApi.Misc.LastBelow

/-!
# The search for the end record

`ZipSearchEOCDFromback` goes back by one to four bytes, by the byte it sees. It comes to the record
that a search byte by byte comes to, and it reads no byte outside of its buffer.
-/

namespace FileApi.Compress.Zip

/-- The signature of the end record. -/
def eocdSignature : List UInt8 := [0x50, 0x4b, 0x05, 0x06]

/-- The signature stands at a position. -/
def signatureAt (bytes : List UInt8) (p : Nat) : Bool := (bytes.drop p).take 4 = eocdSignature

/-- The first of the bytes `ZipSearchEOCD` looks at. -/
def searchStart (archive : List UInt8) : Nat :=
  archive.length -
    (ZIP_SIZE_MAX_GLOBAL_COMMENT + ZIP_SIZE_EOCD_FIXED + ZIP_SIZE_CD_LOCATOR64)

/-- The naive search: the rightmost position, with room for a record behind it. -/
def naiveSearchEOCD (archive : List UInt8) : Option Nat :=
  lastBelow (fun p => searchStart archive ≤ p && signatureAt archive p)
    (archive.length + 1 - ZIP_SIZE_EOCD_FIXED)

/-- What is done with the record at a position of the file. -/
def zipReadRecordAt (archive : List UInt8) (p : Nat) : Except ArchiveErr EocdInfo := do
  let eocd ← zipReadEOCD archive p
  if eocd.totalNumberOfEntries ≠ UINT16_MAX ∧ eocd.offsetOfCentralDir ≠ UINT32_MAX then
    return ⟨eocd, UInt64.ofNat p, zeroEOCD64, 0, false⟩
  else
    let (eocd64, offsetOfEOCD64) ←
      zipSearchEOCD64 ⟨archive, searchStart archive⟩ (archive.drop (searchStart archive))
        (p - searchStart archive)
    return ⟨eocd, UInt64.ofNat p, eocd64, offsetOfEOCD64, true⟩

/-! ## The signature, byte by byte -/

variable {bytes : List UInt8}

theorem getD_of_signatureAt {p j : Nat} (h : signatureAt bytes p = true) (hj : j < 4) :
    bytes.getD (p + j) 0 = eocdSignature.getD j 0 := by
  have hsig : (bytes.drop p).take 4 = eocdSignature := of_decide_eq_true h
  rw [← hsig]
  simp only [List.getD_eq_getElem?_getD, List.getElem?_take_of_lt hj, List.getElem?_drop]

theorem not_signatureAt_of_getD {p j : Nat} (hj : j < 4)
    (h : bytes.getD (p + j) 0 ≠ eocdSignature.getD j 0) : signatureAt bytes p = false :=
  Bool.eq_false_iff.mpr fun hsig => h (getD_of_signatureAt hsig hj)

theorem getLittleEndianValue_eq_iff {cur : Nat} (h : cur + 4 ≤ bytes.length) :
    getLittleEndianValue bytes cur ZIP_SIZE_SIGNATURE = ZIP_MAGIC_ENDHEADER.toNat ↔
      signatureAt bytes cur = true := by
  have hlen : ((bytes.drop cur).take 4).length = 4 := by
    rw [List.length_take, List.length_drop]
    omega
  rw [getLittleEndianValue, ZIP_SIZE_SIGNATURE, signatureAt, decide_eq_true_eq]
  constructor
  · intro heq
    have hbytes := leBytes_leValue ((bytes.drop cur).take 4)
    rw [hlen, heq] at hbytes
    rw [← hbytes]
    decide
  · intro heq
    rw [heq]
    decide

/-- Where the signature cannot stand when the cursor goes back: at the cursor, and where the byte
at the cursor would be another byte of it. -/
theorem signatureAt_skip {cur n : Nat} (hn : n ≤ 4) (hcur : signatureAt bytes cur = false)
    (hbyte : ∀ j < n, 0 < j → bytes.getD cur 0 ≠ eocdSignature.getD j 0) :
    ∀ q, cur + 1 - n ≤ q → q < cur + 1 → signatureAt bytes q = false := by
  intro q hge hlt
  by_cases heq : q = cur
  · rw [heq]
    exact hcur
  · refine not_signatureAt_of_getD (j := cur - q) (by omega) ?_
    rw [show q + (cur - q) = cur by omega]
    exact hbyte (cur - q) (by omega) (by omega)

/-! ## The walk -/

/-- What is done with the record at a position of the buffer. -/
def zipReadRecord (stream : ByteFile) (buffer : List UInt8) (maxRead fileSize cur : Nat) :
    Except ArchiveErr EocdInfo := do
  let eocd ← zipReadEOCD buffer cur
  let offsetOfEOCD := UInt64.ofNat (fileSize - (maxRead - cur))
  if eocd.totalNumberOfEntries ≠ UINT16_MAX ∧ eocd.offsetOfCentralDir ≠ UINT32_MAX then
    return ⟨eocd, offsetOfEOCD, zeroEOCD64, 0, false⟩
  else
    let (eocd64, offsetOfEOCD64) ← zipSearchEOCD64 stream buffer cur
    return ⟨eocd, offsetOfEOCD, eocd64, offsetOfEOCD64, true⟩

/-- The loop is the search byte by byte. The induction is on the turns: every turn leaves out
positions only where the signature does not stand. -/
theorem zipSearchEOCDFromback_eq (stream : ByteFile) (buffer : List UInt8) (maxRead fileSize : Nat)
    (fuel : Nat) : ∀ cur, cur < fuel → cur + ZIP_SIZE_EOCD_FIXED ≤ buffer.length →
    zipSearchEOCDFromback stream buffer maxRead fileSize fuel (some cur) =
      match lastBelow (signatureAt buffer) (cur + 1) with
      | none => .error .formatError
      | some p => zipReadRecord stream buffer maxRead fileSize p := by
  induction fuel with
  | zero => exact fun cur h => absurd h (Nat.not_lt_zero cur)
  | succ fuel ih =>
    intro cur hfuel hlen
    -- going back by `n` where nothing stands
    have hback : ∀ n, 0 < n → n ≤ 4 → signatureAt buffer cur = false →
        (∀ j < n, 0 < j → buffer.getD cur 0 ≠ eocdSignature.getD j 0) →
        zipSearchEOCDFromback stream buffer maxRead fileSize fuel
            (if n ≤ cur then some (cur - n) else none) =
          match lastBelow (signatureAt buffer) (cur + 1) with
          | none => .error .formatError
          | some p => zipReadRecord stream buffer maxRead fileSize p := by
      intro n hpos hn hcur hbyte
      rw [lastBelow_skip (by omega) (signatureAt_skip hn hcur hbyte)]
      split
      · next hle =>
        rw [ih (cur - n) (by omega) (by omega), show cur - n + 1 = cur + 1 - n by omega]
      · next hlt =>
        rw [show cur + 1 - n = 0 by omega]
        cases fuel with
        | zero => rfl
        | succ fuel => rfl
    have hother : ∀ {n}, 0 < n → n ≤ 4 → buffer.getD cur 0 ≠ 0x50 →
        (∀ j < n, 0 < j → buffer.getD cur 0 ≠ eocdSignature.getD j 0) → _ :=
      fun hpos hn hne hbyte => hback _ hpos hn
        (not_signatureAt_of_getD (j := 0) (by decide) hne) hbyte
    rw [zipSearchEOCDFromback]
    dsimp only
    split
    · next hbyte =>
      split
      · next hsig =>
        rw [ne_eq, getLittleEndianValue_eq_iff (by rw [ZIP_SIZE_EOCD_FIXED] at hlen; omega),
          Bool.not_eq_true] at hsig
        refine hback 4 (by decide) (by decide) hsig ?_
        rw [hbyte]
        decide
      · next hsig =>
        rw [ne_eq, not_not, getLittleEndianValue_eq_iff
          (by rw [ZIP_SIZE_EOCD_FIXED] at hlen; omega)] at hsig
        rw [lastBelow, if_pos hsig]
        rfl
    · next hbyte =>
      refine hother (by decide) (by decide) ?_ ?_
      all_goals
        rw [hbyte]
        decide
    · next hbyte =>
      refine hother (by decide) (by decide) ?_ ?_
      all_goals
        rw [hbyte]
        decide
    · next hbyte =>
      refine hother (by decide) (by decide) ?_ ?_
      all_goals
        rw [hbyte]
        decide
    · next h50 h4b h05 h06 =>
      refine hother (by decide) (by decide) h50 fun j hlt hpos => ?_
      have hj : j = 1 ∨ j = 2 ∨ j = 3 := by omega
      rcases hj with rfl | rfl | rfl
      · exact h4b
      · exact h05
      · exact h06

/-! ## Reading the buffer under a check -/

/-- Bytes of the buffer; `none` where one of them lies outside. -/
def readBuffer (buffer : List UInt8) (pos len : Nat) : Option (List UInt8) :=
  if pos + len ≤ buffer.length then some ((buffer.drop pos).take len) else none

/-- `ZipSearchEOCD64`, under the check. -/
def zipSearchEOCD64Checked (stream : ByteFile) (buffer : List UInt8) (cur : Nat) :
    Option (Except ArchiveErr (EndOfCentralDir64 × UInt64)) :=
  if cur < ZIP_SIZE_CD_LOCATOR64 then some (.error .formatError)
  else
    (readBuffer buffer (cur - ZIP_SIZE_CD_LOCATOR64) ZIP_SIZE_SIGNATURE).bind fun signature =>
      if leValue signature = ZIP_MAGIC_ENDLOCHEADER64.toNat then
        (readBuffer buffer (cur - ZIP_SIZE_CD_LOCATOR64) ZIP_SIZE_CD_LOCATOR64).map fun locator =>
          zipReadEOCD64 stream locator 0
      else some (.ok (zeroEOCD64, 0))

/-- What is done with a record, under the check. -/
def zipReadRecordChecked (stream : ByteFile) (buffer : List UInt8) (maxRead fileSize cur : Nat) :
    Option (Except ArchiveErr EocdInfo) :=
  (readBuffer buffer cur ZIP_SIZE_EOCD_FIXED).bind fun record =>
    match zipReadEOCD record 0 with
    | .error e => some (.error e)
    | .ok eocd =>
        let offsetOfEOCD := UInt64.ofNat (fileSize - (maxRead - cur))
        if eocd.totalNumberOfEntries ≠ UINT16_MAX ∧ eocd.offsetOfCentralDir ≠ UINT32_MAX then
          some (.ok ⟨eocd, offsetOfEOCD, zeroEOCD64, 0, false⟩)
        else
          (zipSearchEOCD64Checked stream buffer cur).map fun result =>
            result.map fun (eocd64, offsetOfEOCD64) =>
              ⟨eocd, offsetOfEOCD, eocd64, offsetOfEOCD64, true⟩

/-- The loop of `ZipSearchEOCDFromback`, under the check. -/
def zipSearchEOCDFrombackChecked (stream : ByteFile) (buffer : List UInt8)
    (maxRead fileSize : Nat) : Nat → Option Nat → Option (Except ArchiveErr EocdInfo)
  | _, none => some (.error .formatError)
  | 0, some _ => some (.error .formatError)
  | fuel + 1, some cur =>
      let back (n : Nat) := if n ≤ cur then some (cur - n) else none
      let again (n : Nat) :=
        zipSearchEOCDFrombackChecked stream buffer maxRead fileSize fuel (back n)
      buffer[cur]?.bind fun b =>
        match b with
        | 0x50 =>
            (readBuffer buffer cur ZIP_SIZE_SIGNATURE).bind fun signature =>
              if leValue signature ≠ ZIP_MAGIC_ENDHEADER.toNat then again 4
              else zipReadRecordChecked stream buffer maxRead fileSize cur
        | 0x4b => again 1
        | 0x05 => again 2
        | 0x06 => again 3
        | _ => again 4

/-- `ZipSearchEOCD` with a buffer of `maxRead` bytes, under the check. -/
def zipSearchEOCDChecked (stream : ByteFile) : Option (Except ArchiveErr EocdInfo) :=
  let fileSize := stream.data.length
  let maxRead :=
    min fileSize (ZIP_SIZE_MAX_GLOBAL_COMMENT + ZIP_SIZE_EOCD_FIXED + ZIP_SIZE_CD_LOCATOR64)
  let buffer := stream.data.drop (fileSize - maxRead)
  let cur := if ZIP_SIZE_EOCD_FIXED ≤ maxRead then some (maxRead - ZIP_SIZE_EOCD_FIXED) else none
  zipSearchEOCDFrombackChecked ⟨stream.data, fileSize⟩ buffer maxRead fileSize (maxRead + 1) cur

theorem readBuffer_of_le {buffer : List UInt8} {pos len : Nat} (h : pos + len ≤ buffer.length) :
    readBuffer buffer pos len = some ((buffer.drop pos).take len) := if_pos h

theorem zipReadEOCD_take (buffer : List UInt8) (pos : Nat) :
    zipReadEOCD ((buffer.drop pos).take ZIP_SIZE_EOCD_FIXED) 0 = zipReadEOCD buffer pos := by
  have htake : ∀ l : List UInt8, EndOfCentralDir.ofBytes (l.take ZIP_SIZE_EOCD_FIXED) =
      EndOfCentralDir.ofBytes l := by
    intro l
    simp only [EndOfCentralDir.ofBytes, getU32, getU16, takeLE, List.drop_take, List.take_take,
      List.drop_drop, ZIP_SIZE_EOCD_FIXED]
    rfl
  rw [zipReadEOCD, zipReadEOCD, List.drop_zero, htake]

theorem zipReadEOCD64_take (stream : ByteFile) (buffer : List UInt8) (pos : Nat) :
    zipReadEOCD64 stream ((buffer.drop pos).take ZIP_SIZE_CD_LOCATOR64) 0 =
      zipReadEOCD64 stream buffer pos := by
  have htake : ∀ l : List UInt8,
      (EndOfCentralDirLocator64.ofBytes (l.take ZIP_SIZE_CD_LOCATOR64)).offsetOfEOCD64 =
        (EndOfCentralDirLocator64.ofBytes l).offsetOfEOCD64 := by
    intro l
    simp only [EndOfCentralDirLocator64.ofBytes, getU32, getU64, takeLE, List.drop_take,
      List.take_take, List.drop_drop, ZIP_SIZE_CD_LOCATOR64]
    rfl
  rw [zipReadEOCD64, zipReadEOCD64, List.drop_zero, htake]

theorem zipSearchEOCD64Checked_eq (stream : ByteFile) {buffer : List UInt8} {cur : Nat}
    (h : cur ≤ buffer.length) :
    zipSearchEOCD64Checked stream buffer cur = some (zipSearchEOCD64 stream buffer cur) := by
  rw [zipSearchEOCD64Checked, zipSearchEOCD64]
  split
  · rfl
  · next hcur =>
    have hlocator : cur - ZIP_SIZE_CD_LOCATOR64 + ZIP_SIZE_CD_LOCATOR64 ≤ buffer.length := by omega
    have hsignature : cur - ZIP_SIZE_CD_LOCATOR64 + ZIP_SIZE_SIGNATURE ≤ buffer.length := by
      rw [ZIP_SIZE_CD_LOCATOR64] at hcur ⊢
      rw [ZIP_SIZE_SIGNATURE]
      omega
    rw [readBuffer_of_le hsignature, readBuffer_of_le hlocator, Option.bind_some, Option.map_some,
      zipReadEOCD64_take, getLittleEndianValue]
    split
    · rfl
    · rfl

theorem zipReadRecordChecked_eq (stream : ByteFile) {buffer : List UInt8} {maxRead fileSize cur : Nat}
    (h : cur + ZIP_SIZE_EOCD_FIXED ≤ buffer.length) :
    zipReadRecordChecked stream buffer maxRead fileSize cur =
      some (zipReadRecord stream buffer maxRead fileSize cur) := by
  rw [zipReadRecordChecked, zipReadRecord, readBuffer_of_le h, Option.bind_some, zipReadEOCD_take,
    zipSearchEOCD64Checked_eq stream (by omega)]
  cases zipReadEOCD buffer cur with
  | error e => rfl
  | ok eocd =>
    rw [ok_bind]
    dsimp only
    split
    · rfl
    · cases zipSearchEOCD64 stream buffer cur with
      | error e => rfl
      | ok result => rfl

theorem byteCases_some {α : Type} (b : UInt8) (x50 x4b x05 x06 other : α) :
    (match b with
      | 0x50 => some x50
      | 0x4b => some x4b
      | 0x05 => some x05
      | 0x06 => some x06
      | _ => some other) = some (match b with
      | 0x50 => x50
      | 0x4b => x4b
      | 0x05 => x05
      | 0x06 => x06
      | _ => other) := by
  split
  all_goals rfl

theorem zipSearchEOCDFrombackChecked_eq (stream : ByteFile) (buffer : List UInt8)
    (maxRead fileSize : Nat) (fuel : Nat) : ∀ cur,
    (∀ p, cur = some p → p + ZIP_SIZE_EOCD_FIXED ≤ buffer.length) →
    zipSearchEOCDFrombackChecked stream buffer maxRead fileSize fuel cur =
      some (zipSearchEOCDFromback stream buffer maxRead fileSize fuel cur) := by
  induction fuel with
  | zero =>
    intro cur _
    cases cur with
    | none => rfl
    | some cur => rfl
  | succ fuel ih =>
    intro cur hcur
    cases cur with
    | none => rfl
    | some cur =>
      have hlen := hcur cur rfl
      rw [ZIP_SIZE_EOCD_FIXED] at hlen
      have hback : ∀ n, zipSearchEOCDFrombackChecked stream buffer maxRead fileSize fuel
          (if n ≤ cur then some (cur - n) else none) = some (zipSearchEOCDFromback stream buffer
            maxRead fileSize fuel (if n ≤ cur then some (cur - n) else none)) := by
        intro n
        refine ih _ fun p hp => ?_
        split at hp
        · cases hp
          rw [ZIP_SIZE_EOCD_FIXED]
          omega
        · cases hp
      have hbyte : buffer[cur]? = some (buffer.getD cur 0) := by
        rw [List.getD_eq_getElem?_getD, List.getElem?_eq_getElem (by omega), Option.getD_some]
      have hsignature : readBuffer buffer cur ZIP_SIZE_SIGNATURE =
          some ((buffer.drop cur).take ZIP_SIZE_SIGNATURE) :=
        readBuffer_of_le (by rw [ZIP_SIZE_SIGNATURE]; omega)
      rw [zipSearchEOCDFrombackChecked, zipSearchEOCDFromback, hbyte, hsignature]
      dsimp only
      rw [Option.bind_some, Option.bind_some, hback, hback, hback, hback,
        zipReadRecordChecked_eq stream (by rw [ZIP_SIZE_EOCD_FIXED]; omega), getLittleEndianValue]
      rw [← apply_ite some]
      exact byteCases_some _ _ _ _ _ _

/-! ## `ZipSearchEOCD` -/

theorem zipSearchEOCD64_pos (archive buffer : List UInt8) (pos pos' cur : Nat) :
    zipSearchEOCD64 ⟨archive, pos⟩ buffer cur = zipSearchEOCD64 ⟨archive, pos'⟩ buffer cur := by
  unfold zipSearchEOCD64
  split
  · rfl
  · split
    · rfl
    · rfl

variable {archive : List UInt8}

theorem zipReadRecord_drop {maxRead cur : Nat}
    (hmax : maxRead + searchStart archive = archive.length) (hcur : cur ≤ maxRead) :
    zipReadRecord ⟨archive, archive.length⟩ (archive.drop (searchStart archive)) maxRead
      archive.length cur = zipReadRecordAt archive (searchStart archive + cur) := by
  have hoffset : archive.length - (maxRead - cur) = searchStart archive + cur := by omega
  have hread : zipReadEOCD (archive.drop (searchStart archive)) cur =
      zipReadEOCD archive (searchStart archive + cur) := by
    rw [zipReadEOCD, zipReadEOCD, List.drop_drop]
  rw [zipReadRecord, zipReadRecordAt, hread, hoffset, Nat.add_sub_cancel_left,
    zipSearchEOCD64_pos _ _ archive.length (searchStart archive)]

theorem streamSeek_fromEnd {f : ByteFile} {n target : Nat} (hsum : target + n = f.data.length)
    (hlim : f.data.length < offLimit) :
    streamSeek f (-(n : Int)) .fromEnd = .ok (f.seekTo target) := by
  have htarget : (f.data.length : Int) + -(n : Int) = (target : Int) := by omega
  have hlt : (target : Int) < (offLimit : Int) := by omega
  simp only [streamSeek, htarget, Int.toNat_natCast]
  rw [if_pos ⟨Int.natCast_nonneg target, hlt⟩]

theorem zipSearchEOCD_run (hlim : archive.length < offLimit) {pos maxRead : Nat}
    (hmax : maxRead = min archive.length
      (ZIP_SIZE_MAX_GLOBAL_COMMENT + ZIP_SIZE_EOCD_FIXED + ZIP_SIZE_CD_LOCATOR64)) :
    zipSearchEOCD ⟨archive, pos⟩ =
      zipSearchEOCDFromback ⟨archive, archive.length⟩ (archive.drop (searchStart archive)) maxRead
        archive.length (maxRead + 1)
        (if ZIP_SIZE_EOCD_FIXED ≤ maxRead then some (maxRead - ZIP_SIZE_EOCD_FIXED) else none) := by
  have hsum : searchStart archive + maxRead = archive.length := by
    rw [searchStart]
    omega
  have hseekEnd := streamSeek_fromEnd (f := ⟨archive, pos⟩) (n := 0) (Nat.add_zero _) hlim
  have hseekBack := streamSeek_fromEnd (f := ⟨archive, archive.length⟩) hsum hlim
  have hlen : (archive.drop (searchStart archive)).length = maxRead := by
    rw [List.length_drop]
    omega
  have hread : streamRead ⟨archive, searchStart archive⟩ maxRead =
      (archive.drop (searchStart archive), ⟨archive, archive.length⟩) := by
    rw [streamRead, ByteFile.read, List.take_of_length_le (Nat.le_of_eq hlen), hlen, hsum]
  rw [Int.natCast_zero, Int.neg_zero] at hseekEnd
  rw [zipSearchEOCD, hseekEnd, ok_bind]
  simp only [streamTell, ByteFile.seekTo, ← hmax]
  rw [hseekBack, ok_bind, ByteFile.seekTo, hread]

theorem naiveSearchEOCD_eq {maxRead : Nat} (hsum : searchStart archive + maxRead = archive.length)
    (hroom : ZIP_SIZE_EOCD_FIXED ≤ maxRead) :
    naiveSearchEOCD archive =
      (lastBelow (signatureAt (archive.drop (searchStart archive)))
        (maxRead - ZIP_SIZE_EOCD_FIXED + 1)).map (searchStart archive + ·) := by
  have hbound : archive.length + 1 - ZIP_SIZE_EOCD_FIXED =
      searchStart archive + (maxRead - ZIP_SIZE_EOCD_FIXED + 1) := by omega
  rw [naiveSearchEOCD, hbound]
  refine lastBelow_add (fun q hq => ?_) fun q hq => ?_
  · rw [Bool.and_eq_false_iff]
    exact .inl (decide_eq_false (Nat.not_le.mpr hq))
  · rw [signatureAt, signatureAt, List.drop_drop, decide_eq_true (Nat.le_add_right _ q),
      Bool.true_and]

theorem naiveSearchEOCD_of_short (hroom : archive.length < ZIP_SIZE_EOCD_FIXED) :
    naiveSearchEOCD archive = none := by
  rw [naiveSearchEOCD, Nat.sub_eq_zero_of_le hroom]
  rfl

theorem zipSearchEOCD_naive (hlim : archive.length < offLimit) (pos : Nat) :
    zipSearchEOCD ⟨archive, pos⟩ =
      match naiveSearchEOCD archive with
      | none => .error .formatError
      | some p => zipReadRecordAt archive p := by
  obtain ⟨maxRead, hmax⟩ : ∃ maxRead, maxRead = min archive.length
    (ZIP_SIZE_MAX_GLOBAL_COMMENT + ZIP_SIZE_EOCD_FIXED + ZIP_SIZE_CD_LOCATOR64) := ⟨_, rfl⟩
  have hsum : searchStart archive + maxRead = archive.length := by
    rw [searchStart]
    omega
  rw [zipSearchEOCD_run hlim hmax]
  by_cases hroom : ZIP_SIZE_EOCD_FIXED ≤ maxRead
  · rw [if_pos hroom, naiveSearchEOCD_eq hsum hroom, zipSearchEOCDFromback_eq _ _ _ _ _ _ (by omega)
      (by rw [List.length_drop]; omega)]
    cases hlast : lastBelow (signatureAt (archive.drop (searchStart archive)))
        (maxRead - ZIP_SIZE_EOCD_FIXED + 1) with
    | none => rfl
    | some p =>
      have hp := (lastBelow_eq_some_iff.mp hlast).1
      have hsum' := (Nat.add_comm maxRead (searchStart archive)).trans hsum
      exact zipReadRecord_drop hsum' (by omega)
  · have hshort : archive.length < ZIP_SIZE_EOCD_FIXED := by omega
    rw [if_neg hroom, naiveSearchEOCD_of_short hshort, zipSearchEOCDFromback]

theorem zipSearchEOCDChecked_eq (hlim : archive.length < offLimit) (pos : Nat) :
    zipSearchEOCDChecked ⟨archive, pos⟩ = some (zipSearchEOCD ⟨archive, pos⟩) := by
  obtain ⟨maxRead, hmax⟩ : ∃ maxRead, maxRead = min archive.length
    (ZIP_SIZE_MAX_GLOBAL_COMMENT + ZIP_SIZE_EOCD_FIXED + ZIP_SIZE_CD_LOCATOR64) := ⟨_, rfl⟩
  have hstart : archive.length - maxRead = searchStart archive := by
    rw [searchStart]
    omega
  rw [zipSearchEOCD_run hlim hmax, zipSearchEOCDChecked]
  simp only [← hmax, hstart]
  refine zipSearchEOCDFrombackChecked_eq _ _ _ _ _ _ fun p hp => ?_
  split at hp
  · next hle =>
    cases hp
    rw [List.length_drop]
    omega
  · cases hp

theorem naiveSearchEOCD_eq_some_iff {p : Nat} :
    naiveSearchEOCD archive = some p ↔
      searchStart archive ≤ p ∧ p + ZIP_SIZE_EOCD_FIXED ≤ archive.length ∧
        signatureAt archive p = true ∧
        ∀ q, p < q → q + ZIP_SIZE_EOCD_FIXED ≤ archive.length → signatureAt archive q = false := by
  rw [naiveSearchEOCD, lastBelow_eq_some_iff, ZIP_SIZE_EOCD_FIXED, Bool.and_eq_true,
    decide_eq_true_eq]
  constructor
  · rintro ⟨hlt, ⟨hstart, hsig⟩, hlast⟩
    refine ⟨hstart, by omega, hsig, fun q hpq hq => ?_⟩
    rcases Bool.and_eq_false_iff.mp (hlast q hpq (by omega)) with hlow | hnot
    · exact absurd (Nat.le_trans hstart (Nat.le_of_lt hpq)) (of_decide_eq_false hlow)
    · exact hnot
  · rintro ⟨hstart, hroom, hsig, hlast⟩
    exact ⟨by omega, ⟨hstart, hsig⟩, fun q hpq hq =>
      Bool.and_eq_false_iff.mpr (.inr (hlast q hpq (by omega)))⟩

theorem offsetOfEOCD_of_ok {p : Nat} {info : EocdInfo} (hp : p < offLimit)
    (h : zipReadRecordAt archive p = .ok info) :
    info.offsetOfEOCD.toNat = p := by
  have hoffset : info.offsetOfEOCD = UInt64.ofNat p := by
    obtain ⟨eocd, -, h⟩ := bind_eq_ok.mp h
    split at h
    · cases h
      rfl
    · obtain ⟨result, -, h⟩ := bind_eq_ok.mp h
      cases h
      rfl
  rw [hoffset, toNat_ofNat_of_offLimit hp]

/-- The search is the naive search: it reads the record that one finds, reports its place, has no
record to report exactly when that one has none, and reads no byte outside of its buffer. -/
theorem zipSearchEOCD_eq_naive {archive : List UInt8} (hlim : archive.length < offLimit)
    (pos : Nat) :
    (zipSearchEOCD ⟨archive, pos⟩ =
      match naiveSearchEOCD archive with
      | none => .error .formatError
      | some p => zipReadRecordAt archive p) ∧
    (∀ info, zipSearchEOCD ⟨archive, pos⟩ = .ok info →
      naiveSearchEOCD archive = some info.offsetOfEOCD.toNat) ∧
    zipSearchEOCDChecked ⟨archive, pos⟩ = some (zipSearchEOCD ⟨archive, pos⟩) := by
  refine ⟨zipSearchEOCD_naive hlim pos, fun info hinfo => ?_, zipSearchEOCDChecked_eq hlim pos⟩
  rw [zipSearchEOCD_naive hlim pos] at hinfo
  cases hnaive : naiveSearchEOCD archive with
  | none =>
    rw [hnaive] at hinfo
    cases hinfo
  | some p =>
    rw [hnaive] at hinfo
    have hroom := (naiveSearchEOCD_eq_some_iff.mp hnaive).2.1
    rw [offsetOfEOCD_of_ok (by omega) hinfo]

/-- An archive without entries behind four bytes that begin like a record. -/
def signatureTwice : List UInt8 := [0x50, 0x4b, 0x05, 0x05] ++ eocdSignature ++ List.replicate 18 0

theorem zipSearchEOCD_eq_naive_signatureTwice :
    (zipSearchEOCD ⟨signatureTwice, 0⟩).toOption.map EocdInfo.offsetOfEOCD = some 4 ∧
      naiveSearchEOCD signatureTwice = some 4 := by
  have hrun : (zipSearchEOCD ⟨signatureTwice, 0⟩).toOption.map EocdInfo.offsetOfEOCD = some 4 := by
    decide +kernel
  obtain ⟨info, hinfo, hoffset⟩ := Option.map_eq_some_iff.mp hrun
  have hlim : signatureTwice.length < offLimit := by decide
  have hfound := (zipSearchEOCD_eq_naive hlim 0).2.1 info (toOption_eq_some.mp hinfo)
  rw [hoffset] at hfound
  exact ⟨hrun, hfound⟩

end FileApi.Compress.Zip
