import FileApi.Compress.Zip.NameEncoding
import FileApi.Misc.CString

/-!
# The two UTF-8 checks

Both accept sequences of characters, a character being a byte below `0x80` or a leading byte with
as many continuation bytes as it asks for. `IsUTF8Str` has characters of no more than six bytes
(`archive_utils.c:605`); `IsUtf8Encoded` takes whatever the leading byte says, which may be eight.
-/

namespace FileApi.Compress.Zip

/-- A byte that continues a character. -/
def IsContinuation (b : UInt8) : Prop := b &&& 0xc0 = 0x80

instance (b : UInt8) : Decidable (IsContinuation b) := inferInstanceAs (Decidable (_ = _))

/-- A sequence of characters of no more than `limit` bytes. -/
inductive CharSeq (limit : Nat) : List UInt8 → Prop
  | nil : CharSeq limit []
  | ascii {b : UInt8} {rest : List UInt8} : b &&& 0x80 = 0 → CharSeq limit rest →
      CharSeq limit (b :: rest)
  | char {lead : UInt8} {cont rest : List UInt8} : lead &&& 0x80 ≠ 0 → 2 ≤ leadingOnes 8 lead →
      leadingOnes 8 lead ≤ limit → cont.length + 1 = leadingOnes 8 lead →
      (∀ b ∈ cont, IsContinuation b) → CharSeq limit rest → CharSeq limit (lead :: (cont ++ rest))

/-! ## Bytes -/

theorem leadingOnes_le (bits : Nat) : ∀ b : UInt8, leadingOnes bits b ≤ bits := by
  induction bits with
  | zero => exact fun b => Nat.le_refl 0
  | succ bits ih =>
    intro b
    rw [leadingOnes]
    split
    · exact Nat.succ_le_succ (ih _)
    · exact Nat.zero_le _

theorem six_lt_leadingOnes {b : UInt8} : 6 < leadingOnes 8 b ↔ b = 0xfe ∨ b = 0xff := by
  have hall : ∀ n < 256, 6 < leadingOnes 8 (UInt8.ofNat n) ↔
      UInt8.ofNat n = 0xfe ∨ UInt8.ofNat n = 0xff := by decide +kernel
  have hb := hall b.toNat b.toNat_lt
  rwa [UInt8.ofNat_toNat] at hb

theorem isContinuation_ne {b : UInt8} (h : IsContinuation b) : b ≠ 0xfe ∧ b ≠ 0xff := by
  constructor
  · rintro rfl
    exact absurd h (by decide)
  · rintro rfl
    exact absurd h (by decide)

theorem ascii_ne {b : UInt8} (h : b &&& 0x80 = 0) : b ≠ 0xfe ∧ b ≠ 0xff := by
  constructor
  · rintro rfl
    exact absurd h (by decide)
  · rintro rfl
    exact absurd h (by decide)

/-! ## What the checks accept -/

/-- `CheckUTF8Str` in the middle of a character, with `nBytes` bytes to come. -/
theorem checkUTF8Str_iff (str : List UInt8) : ∀ nBytes, checkUTF8Str str nBytes = true ↔
    ∃ cont rest, str = cont ++ rest ∧ cont.length = nBytes ∧ (∀ b ∈ cont, IsContinuation b) ∧
      CharSeq 6 rest := by
  induction str with
  | nil =>
    intro nBytes
    rw [checkUTF8Str, beq_iff_eq]
    constructor
    · rintro rfl
      exact ⟨[], [], rfl, rfl, nofun, .nil⟩
    · rintro ⟨cont, rest, heq, hlen, -, -⟩
      rw [← hlen, (List.append_eq_nil_iff.mp heq.symm).1]
      rfl
  | cons ch str ih =>
    intro nBytes
    rw [checkUTF8Str, checkUTF8Byte]
    by_cases hzero : nBytes = 0
    · subst hzero
      rw [if_neg (fun h => h rfl)]
      by_cases hascii : ch &&& 0x80 = 0
      · -- a byte below `0x80`
        rw [if_neg (fun h => h hascii)]
        refine (ih 0).trans ⟨?_, ?_⟩
        · rintro ⟨cont, rest, rfl, hlen, -, hrest⟩
          rw [List.length_eq_zero_iff.mp hlen]
          exact ⟨[], _, rfl, rfl, nofun, .ascii hascii hrest⟩
        · rintro ⟨cont, rest, heq, hlen, -, hrest⟩
          obtain rfl := List.length_eq_zero_iff.mp hlen
          rw [List.nil_append] at heq
          subst heq
          cases hrest with
          | ascii _ hrest => exact ⟨[], _, rfl, rfl, nofun, hrest⟩
          | char hlead _ _ _ _ _ => exact absurd hascii hlead
      · rw [if_pos hascii]
        by_cases hnum : leadingOnes 8 ch < 2 ∨ leadingOnes 8 ch > 6
        · rw [if_pos hnum]
          refine ⟨nofun, ?_⟩
          rintro ⟨cont, rest, heq, hlen, -, hrest⟩
          obtain rfl := List.length_eq_zero_iff.mp hlen
          rw [List.nil_append] at heq
          subst heq
          cases hrest with
          | ascii hlead _ => exact absurd hlead hascii
          | char _ htwo hsix _ _ _ => omega
        · rw [if_neg hnum]
          refine (ih _).trans ⟨?_, ?_⟩
          · rintro ⟨cont, rest, rfl, hlen, hcont, hrest⟩
            exact ⟨[], _, rfl, rfl, nofun,
              .char hascii (by omega) (by omega) (by omega) hcont hrest⟩
          · rintro ⟨cont, rest, heq, hlen, -, hrest⟩
            obtain rfl := List.length_eq_zero_iff.mp hlen
            rw [List.nil_append] at heq
            subst heq
            cases hrest with
            | ascii hlead _ => exact absurd hlead hascii
            | char _ _ _ hlen hcont hrest => exact ⟨_, _, rfl, by omega, hcont, hrest⟩
    · -- a continuation byte is due
      rw [if_pos hzero]
      by_cases hcont : ch &&& 0xc0 = 0x80
      · rw [if_neg (fun h => h hcont)]
        refine (ih _).trans ⟨?_, ?_⟩
        · rintro ⟨cont, rest, rfl, hlen, hall, hrest⟩
          exact ⟨ch :: cont, rest, rfl, by rw [List.length_cons]; omega,
            List.forall_mem_cons.mpr ⟨hcont, hall⟩, hrest⟩
        · rintro ⟨cont, rest, heq, hlen, hall, hrest⟩
          cases cont with
          | nil => exact absurd hlen.symm hzero
          | cons b cont =>
            obtain ⟨rfl, rfl⟩ := List.cons.inj heq
            rw [List.length_cons] at hlen
            exact ⟨cont, rest, rfl, by omega, (List.forall_mem_cons.mp hall).2, hrest⟩
      · rw [if_pos hcont]
        refine ⟨nofun, ?_⟩
        rintro ⟨cont, rest, heq, hlen, hall, -⟩
        cases cont with
        | nil => exact absurd hlen.symm hzero
        | cons b cont =>
          obtain ⟨rfl, rfl⟩ := List.cons.inj heq
          exact absurd (List.forall_mem_cons.mp hall).1 hcont

theorem isUTF8Str_iff (str : List UInt8) : isUTF8Str str = true ↔ CharSeq 6 str := by
  refine (checkUTF8Str_iff str 0).trans ⟨?_, ?_⟩
  · rintro ⟨cont, rest, rfl, hlen, -, hrest⟩
    rw [List.length_eq_zero_iff.mp hlen]
    exact hrest
  · exact fun h => ⟨[], str, rfl, rfl, nofun, h⟩

/-- The loop of `IsUtf8Encoded`, with turns enough for the bytes that are left. -/
theorem isUtf8EncodedLoop_iff (fuel : Nat) : ∀ data : List UInt8, data.length ≤ fuel →
    (isUtf8EncodedLoop 1 fuel data = true ↔ CharSeq 8 data) := by
  induction fuel with
  | zero =>
    intro data hlen
    rw [List.length_eq_zero_iff.mp (Nat.le_zero.mp hlen), isUtf8EncodedLoop]
    exact ⟨fun _ => .nil, fun _ => rfl⟩
  | succ fuel ih =>
    intro data hlen
    cases data with
    | nil => exact ⟨fun _ => .nil, fun _ => by rw [isUtf8EncodedLoop]⟩
    | cons byte rest =>
      rw [List.length_cons] at hlen
      rw [isUtf8EncodedLoop]
      by_cases hascii : byte &&& 0x80 = 0
      · rw [if_pos hascii, ih rest (by omega)]
        refine ⟨.ascii hascii, fun h => ?_⟩
        cases h with
        | ascii _ hrest => exact hrest
        | char hlead _ _ _ _ _ => exact absurd hascii hlead
      · rw [if_neg hascii, utf8PreNum]
        have hle := leadingOnes_le 8 byte
        dsimp only
        constructor
        · intro h
          split at h
          · cases h
          · split at h
            · cases h
            · split at h
              · next hmin hnum hcont =>
                have htake : (rest.take (leadingOnes 8 byte - 1)).length + 1 =
                    leadingOnes 8 byte := by
                  rw [List.length_take]
                  omega
                have hall : ∀ b ∈ rest.take (leadingOnes 8 byte - 1), IsContinuation b :=
                  fun b hb => by simpa [IsContinuation] using List.all_eq_true.mp hcont b hb
                have hrest := (ih _ (by rw [List.length_drop]; omega)).mp h
                have hchar := CharSeq.char hascii (by omega) hle htake hall hrest
                rwa [List.take_append_drop] at hchar
              · cases h
        · intro h
          cases h with
          | ascii hlead _ => exact absurd hlead hascii
          | @char _ cont tail _ htwo _ hcontLen hcont hrest =>
            have hcontLen' : leadingOnes 8 byte - 1 = cont.length := by omega
            rw [List.length_append] at hlen ⊢
            rw [if_neg (by omega), if_neg (by omega), hcontLen', List.take_left, List.drop_left]
            rw [if_pos (List.all_eq_true.mpr fun b hb => by
              simpa [IsContinuation] using hcont b hb)]
            exact (ih tail (by omega)).mpr hrest

theorem isUtf8Encoded_iff (data : List UInt8) : isUtf8Encoded data false = true ↔ CharSeq 8 data :=
  isUtf8EncodedLoop_iff data.length data (Nat.le_refl _)

/-! ## Where they agree -/

theorem CharSeq.mono {limit limit' : Nat} (hle : limit ≤ limit') {str : List UInt8}
    (h : CharSeq limit str) : CharSeq limit' str := by
  induction h with
  | nil => exact .nil
  | ascii hascii _ ih => exact .ascii hascii ih
  | char hlead htwo hmax hlen hcont _ ih =>
    exact .char hlead htwo (Nat.le_trans hmax hle) hlen hcont ih

theorem CharSeq.not_mem {str : List UInt8} (h : CharSeq 6 str) : 0xfe ∉ str ∧ 0xff ∉ str := by
  induction h with
  | nil => exact ⟨List.not_mem_nil, List.not_mem_nil⟩
  | ascii hascii _ ih =>
    have hne := ascii_ne hascii
    exact ⟨List.not_mem_cons_of_ne_of_not_mem hne.1.symm ih.1,
      List.not_mem_cons_of_ne_of_not_mem hne.2.symm ih.2⟩
  | @char lead cont rest _ _ hsix _ hcont _ ih =>
    have hlead : ¬ (lead = 0xfe ∨ lead = 0xff) :=
      fun h => absurd (six_lt_leadingOnes.mpr h) (by omega)
    refine ⟨fun hmem => ?_, fun hmem => ?_⟩
    · rcases List.mem_cons.mp hmem with heq | hmem
      · exact hlead (.inl heq.symm)
      · rcases List.mem_append.mp hmem with hmem | hmem
        · exact (isContinuation_ne (hcont _ hmem)).1 rfl
        · exact ih.1 hmem
    · rcases List.mem_cons.mp hmem with heq | hmem
      · exact hlead (.inr heq.symm)
      · rcases List.mem_append.mp hmem with hmem | hmem
        · exact (isContinuation_ne (hcont _ hmem)).2 rfl
        · exact ih.2 hmem

theorem CharSeq.shorten {str : List UInt8} (h : CharSeq 8 str) (hfe : 0xfe ∉ str)
    (hff : 0xff ∉ str) : CharSeq 6 str := by
  induction h with
  | nil => exact .nil
  | ascii hascii _ ih =>
    exact .ascii hascii (ih (fun h => hfe (List.mem_cons_of_mem _ h))
      fun h => hff (List.mem_cons_of_mem _ h))
  | @char lead cont rest hlead htwo _ hlen hcont _ ih =>
    have hsix : leadingOnes 8 lead ≤ 6 := by
      by_contra hlt
      rcases six_lt_leadingOnes.mp (Nat.not_le.mp hlt) with rfl | rfl
      · exact hfe List.mem_cons_self
      · exact hff List.mem_cons_self
    refine .char hlead htwo hsix hlen hcont (ih (fun h => hfe ?_) fun h => hff ?_)
    · exact List.mem_cons_of_mem _ (List.mem_append_right _ h)
    · exact List.mem_cons_of_mem _ (List.mem_append_right _ h)

/-- The checks of the reader and the writer agree unless the name is a sequence of characters one
of which begins with `0xfe` or `0xff`. -/
theorem isUTF8Str_eq_isUtf8Encoded_iff (name : CString) :
    isUTF8Str name.bytes = isUtf8Encoded name.bytes false ↔
      (CharSeq 8 name.bytes → 0xfe ∉ name.bytes ∧ 0xff ∉ name.bytes) := by
  rw [Bool.eq_iff_iff, isUTF8Str_iff, isUtf8Encoded_iff]
  constructor
  · exact fun hiff hseq => (hiff.mpr hseq).not_mem
  · intro hno
    refine ⟨CharSeq.mono (by decide), fun hseq => ?_⟩
    obtain ⟨hfe, hff⟩ := hno hseq
    exact hseq.shorten hfe hff

/-- A character of seven bytes is flagged by the writer and is none to the reader. -/
theorem isUTF8Str_ne_isUtf8Encoded :
    isUTF8Str [0xfe, 0x80, 0x80, 0x80, 0x80, 0x80, 0x80] = false ∧
      isUtf8Encoded [0xfe, 0x80, 0x80, 0x80, 0x80, 0x80, 0x80] false = true := by
  decide +kernel

end FileApi.Compress.Zip
