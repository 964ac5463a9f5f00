import FileApi.ModFs.Proofs.FileMapping

/-!
# What a mapping does to its file

The file is made longer before it is mapped, in every mode, and it stays so if the mapping fails then.
-/

namespace FileApi.ModFs.FileMapping

open BoundedBuffer

variable {env : MmapEnv} {content file : List UInt8} {fd mode offset : Int} {size : UInt64}
  {mode' : MappingMode} {align : PageAlignResult} {m : FsFileMapping}

/-- A call with good arguments for a regular file that is too short, which can be made longer. -/
structure Extends (env : MmapEnv) (content : List UInt8) (fd mode offset : Int) (size : UInt64) :
    Prop where
  opened : 0 ≤ fd
  known : (mappingMode mode).isSome
  nonneg : 0 ≤ offset
  positive : 0 < size
  validated : env.validated = none
  regular : env.regular = true
  pageSize : 0 < env.pageSize
  fstat : env.fstat = none
  fits : offset + size.toNat ≤ int64Max
  short : (content.length : Int) < offset + size.toNat
  ftruncate : env.ftruncate = none

/-- What the file holds when it has been made longer. -/
def extended (content : List UInt8) (offset : Int) (size : UInt64) : List UInt8 :=
  content ++ List.replicate (offset.toNat + size.toNat - content.length) 0

/-! ## The steps -/

theorem Extends.validateMmapParams (h : Extends env content fd mode offset size) :
    ∃ mode', mappingMode mode = some mode' ∧
      FileMapping.validateMmapParams fd mode offset size = .ok mode' := by
  obtain ⟨mode', hmode⟩ := Option.isSome_iff_exists.mp h.known
  refine ⟨mode', hmode, ?_⟩
  unfold FileMapping.validateMmapParams
  rw [if_neg (Int.not_lt.mpr h.opened), hmode]
  dsimp only
  rw [if_neg (Int.not_lt.mpr h.nonneg), if_neg (UInt64.not_le.mpr h.positive)]

theorem Extends.validateFile (h : Extends env content fd mode offset size) :
    FileMapping.validateFile env = .ok () := by
  unfold FileMapping.validateFile
  rw [h.validated, h.regular]
  rfl

theorem Extends.alignToPage (h : Extends env content fd mode offset size) :
    ∃ align, FileMapping.alignToPage env offset size = some align := by
  have hpage := h.pageSize
  have hfits : offset + size.toNat ≤ 2 ^ 63 - 1 := h.fits
  have hadjustment := adjustment_toNat h.nonneg hpage
  have hmod := Int.emod_lt_of_pos offset hpage
  have hmod0 := Int.emod_nonneg offset (Int.ne_of_gt hpage)
  have hlong : env.pageSize ≤ 2 ^ 63 - 1 := env.isLong
  have hnonneg := h.nonneg
  unfold FileMapping.alignToPage
  rw [if_neg (Int.not_le.mpr hpage)]
  dsimp only
  refine ⟨_, if_neg ?_⟩
  rw [UInt64.lt_iff_toNat_lt, UInt64.toNat_sub_of_le _ _ (UInt64.le_iff_toNat_le.mpr ?_),
    UInt64.toNat_ofNat']
  · omega
  · rw [UInt64.toNat_ofNat']
    omega

theorem Extends.expandFileIfNeeded (h : Extends env content fd mode offset size)
    (halign : FileMapping.alignToPage env offset size = some align) :
    FileMapping.expandFileIfNeeded env content align.alignedOffset align.adjustedSize =
      .ok (extended content offset size) := by
  obtain ⟨-, haligned, hoffset, hsize⟩ := alignToPage_some h.nonneg halign
  have hfits := h.fits
  have hshort := h.short
  have hnonneg := h.nonneg
  unfold FileMapping.expandFileIfNeeded extended
  rw [h.fstat]
  dsimp only
  rw [if_neg (by omega), if_neg (by omega), if_neg (by omega), h.ftruncate]
  dsimp only
  have hend : (align.alignedOffset + align.adjustedSize.toNat).toNat = offset.toNat + size.toNat := by
    omega
  rw [hend]

/-! ## The whole call -/

theorem doMmap_eq (env : MmapEnv) (content : List UInt8) (fd mode offset : Int) (size : UInt64) :
    doMmap env content fd mode offset size =
      (doMmapFile env content fd mode offset size).1.map fun mapping =>
        (mapping, (doMmapFile env content fd mode offset size).2) := by
  unfold doMmap doMmapFile
  cases validateMmapParams fd mode offset size with
  | error err => rfl
  | ok mode =>
    cases validateFile env with
    | error err => rfl
    | ok u =>
      dsimp only [bind, Except.bind]
      cases alignToPage env offset size with
      | none => rfl
      | some align =>
        dsimp only
        cases expandFileIfNeeded env content align.alignedOffset align.adjustedSize with
        | error err => rfl
        | ok file =>
          cases env.mmap with
          | some errno => rfl
          | none =>
            dsimp only
            unfold constructor
            cases env.alloc <;> rfl

theorem doMmapFile_file (h : ¬ Extends env content fd mode offset size) :
    (doMmapFile env content fd mode offset size).2 = content := by
  unfold doMmapFile
  cases hvalid : validateMmapParams fd mode offset size with
  | error err => rfl
  | ok mode' =>
    cases hfile : validateFile env with
    | error err => rfl
    | ok u =>
      dsimp only
      cases halign : alignToPage env offset size with
      | none => rfl
      | some align =>
        dsimp only
        cases hexpand : expandFileIfNeeded env content align.alignedOffset align.adjustedSize with
        | error err => rfl
        | ok file =>
          have hsame : file = content := by
            obtain ⟨hfd, hmode, hoffset, hsize⟩ := validateMmapParams_ok hvalid
            obtain ⟨hvalidated, hregular⟩ := validateFile_ok hfile
            obtain ⟨hpage, haligned, hsum, hadjusted⟩ := alignToPage_some hoffset halign
            rcases expandFileIfNeeded_cases hregular hexpand with
              ⟨hsame, -⟩ | ⟨-, hfstat, hfits, hshort, hftruncate⟩
            · exact hsame
            refine absurd ?_ h
            exact ⟨hfd, by rw [hmode]; rfl, hoffset, hsize, hvalidated, hregular, hpage, hfstat,
              by omega, by omega, hftruncate⟩
          cases env.mmap with
          | some errno => exact hsame
          | none => exact hsame

theorem Extends.doMmapFile (h : Extends env content fd mode offset size) :
    (FileMapping.doMmapFile env content fd mode offset size).2 = extended content offset size ∧
      ((∃ m, (FileMapping.doMmapFile env content fd mode offset size).1 = .ok m) ↔
        env.mmap = none ∧ env.alloc = true) := by
  obtain ⟨mode', -, hvalid⟩ := h.validateMmapParams
  obtain ⟨align, halign⟩ := h.alignToPage
  unfold FileMapping.doMmapFile
  rw [hvalid, h.validateFile, halign]
  dsimp only
  rw [h.expandFileIfNeeded halign]
  dsimp only
  cases env.mmap with
  | some errno => exact ⟨rfl, iff_of_false nofun nofun⟩
  | none =>
    refine ⟨rfl, ?_⟩
    unfold constructor
    cases env.alloc with
    | true => exact iff_of_true ⟨_, rfl⟩ ⟨rfl, rfl⟩
    | false => exact iff_of_false nofun nofun

/-! ## The promise -/

/-- What a call promises: a failure leaves the file alone, a mapping shows the bytes that were asked
for in a file that is just long enough, and a mapping to read from does not change the size. -/
structure KeepsPromise (content : List UInt8) (mode offset : Int) (size : UInt64)
    (result : Except FsError FsFileMapping) (file : List UInt8) : Prop where
  failed : ∀ e, result = .error e → file = content
  covers : ∀ m, result = .ok m → Shows m.entity.adjustment.toNat size.toNat
    (ofItems ((file.drop offset.toNat).take size.toNat)) m
  length : ∀ m, result = .ok m → file.length = max content.length (offset.toNat + size.toNat)
  front : ∀ m, result = .ok m → content <+: file
  readOnly : mappingMode mode = some .readOnly → file.length = content.length

theorem doMmapFile_ok (h : (doMmapFile env content fd mode offset size).1 = .ok m) :
    content <+: (doMmapFile env content fd mode offset size).2 ∧
      offset.toNat + size.toNat ≤ (doMmapFile env content fd mode offset size).2.length ∧
      Shows m.entity.adjustment.toNat size.toNat (ofItems
        (((doMmapFile env content fd mode offset size).2.drop offset.toNat).take size.toNat)) m := by
  have hmade := doMmap_eq env content fd mode offset size
  rw [h] at hmade
  obtain ⟨hfront, -, hreaches, mode', -, hstands⟩ := doMmap_stands hmade
  exact ⟨hfront, hreaches, hstands.shows _ rfl⟩

theorem length_extended (h : Extends env content fd mode offset size) :
    (extended content offset size).length = offset.toNat + size.toNat ∧
      content.length < offset.toNat + size.toNat := by
  have hshort := h.short
  have hnonneg := h.nonneg
  rw [extended, List.length_append, List.length_replicate]
  omega

/-- The promise is kept exactly if a file that is made longer is mapped then, and not to read from. -/
theorem doMmap_keepsPromise_iff (env : MmapEnv) (content : List UInt8) (fd mode offset : Int)
    (size : UInt64) :
    KeepsPromise content mode offset size (doMmapFile env content fd mode offset size).1
        (doMmapFile env content fd mode offset size).2 ↔
      (Extends env content fd mode offset size →
        env.mmap = none ∧ env.alloc = true ∧ mappingMode mode ≠ some .readOnly) := by
  by_cases hext : Extends env content fd mode offset size
  · obtain ⟨hfile, hresult⟩ := hext.doMmapFile
    obtain ⟨hlength, hshort⟩ := length_extended hext
    constructor
    · intro hkeeps _
      have hmade : env.mmap = none ∧ env.alloc = true := by
        refine hresult.mp ?_
        cases hrun : (doMmapFile env content fd mode offset size).1 with
        | ok m => exact ⟨m, rfl⟩
        | error e =>
          have hsame := congrArg List.length (hkeeps.failed e hrun)
          rw [hfile] at hsame
          omega
      refine ⟨hmade.1, hmade.2, fun hmode => ?_⟩
      have hsame := hkeeps.readOnly hmode
      rw [hfile] at hsame
      omega
    · intro hcond
      obtain ⟨hmmap, halloc, hmode⟩ := hcond hext
      obtain ⟨made, hmade⟩ := hresult.mpr ⟨hmmap, halloc⟩
      refine ⟨fun e he => ?_, fun m hm => (doMmapFile_ok hm).2.2, fun m hm => ?_,
        fun m hm => (doMmapFile_ok hm).1, fun hread => absurd hread hmode⟩
      · rw [hmade] at he
        cases he
      · rw [hfile, hlength]
        omega
  · refine iff_of_true ?_ fun h => absurd h hext
    have hfile := doMmapFile_file hext
    refine ⟨fun _ _ => hfile, fun m hm => (doMmapFile_ok hm).2.2, fun m hm => ?_,
      fun m hm => (doMmapFile_ok hm).1, fun _ => by rw [hfile]⟩
    obtain ⟨-, hreaches, -⟩ := doMmapFile_ok hm
    rw [hfile] at hreaches ⊢
    omega

/-- A file of two bytes that is mapped to be read from has eight bytes then, also if it is not mapped
in the end. -/
theorem doMmap_breaks_promise :
    ¬ KeepsPromise [1, 2] 0 0 8 (doMmapFile smallPages [1, 2] 3 0 0 8).1
        (doMmapFile smallPages [1, 2] 3 0 0 8).2 ∧
      ¬ KeepsPromise [1, 2] 1 0 8
        (doMmapFile { smallPages with mmap := some .enomem } [1, 2] 3 1 0 8).1
        (doMmapFile { smallPages with mmap := some .enomem } [1, 2] 3 1 0 8).2 := by
  constructor
  · intro h
    exact absurd (h.readOnly rfl) (by decide)
  · intro h
    exact absurd (h.failed (.errno .enomem) rfl) (by decide)

end FileApi.ModFs.FileMapping
