import FileApi.ModFile.FileNExporter
import FileApi.ModFile.Proofs.FileSystem

/-!
# What `readArrayBuffer` gives

The count of the elements comes from the request and the size of the file, the elements from what was
read. In between the bytes are a string, which ends at the first zero byte.
-/

namespace FileApi.ModFile

open Compress FileTree Program Zip
open ModFs (FileVolume System)

variable {env : Env} {build : Build} {w w' : World} {url : PathName} {position length : Int}
  {info : ReadBuffer} {place : List PathName} {content bytes : List UInt8}

/-! ## Lists -/

theorem map_getElem_iff {β : Type} (l l' : List β) (n : Nat) :
    (List.range n).map (fun i => l[i]?) = l'.map some ↔ n = l'.length ∧ l' <+: l := by
  constructor
  · intro h
    have hlength : n = l'.length := by simpa using congrArg List.length h
    refine ⟨hlength, List.prefix_iff_getElem?.mpr fun i hi => ?_⟩
    have helement := congrArg (fun m => m[i]?) h
    have hrange : (List.range n)[i]? = some i := by
      rw [List.getElem?_range (hlength ▸ hi)]
    rw [List.getElem?_map, List.getElem?_map, hrange, List.getElem?_eq_getElem hi] at helement
    exact Option.some.inj helement
  · rintro ⟨rfl, h⟩
    refine List.ext_getElem? fun i => ?_
    by_cases hi : i < l'.length
    · have helement := List.prefix_iff_getElem?.mp h i hi
      rw [List.getElem?_map, List.getElem?_map, List.getElem?_range hi,
        List.getElem?_eq_getElem hi]
      exact congrArg some helement
    · rw [List.getElem?_eq_none (by simpa using hi), List.getElem?_eq_none (by simpa using hi)]

theorem cstr_cases (bytes : List UInt8) :
    bytes = cstr bytes ∨ ∃ rest, bytes = cstr bytes ++ 0 :: rest := by
  have hsplit := (List.takeWhile_append_dropWhile (p := (· ≠ 0)) (l := bytes)).symm
  cases hrest : bytes.dropWhile (· ≠ 0) with
  | nil =>
    rw [hrest, List.append_nil] at hsplit
    exact .inl hsplit
  | cons b rest =>
    have hzero : b = 0 := by
      have hne : bytes.dropWhile (· ≠ 0) ≠ [] := by
        rw [hrest]
        nofun
      have hhead := List.head_dropWhile_not (· ≠ (0 : UInt8)) hne
      simp only [hrest, List.head_cons] at hhead
      simpa using hhead
    rw [hrest, hzero] at hsplit
    exact .inr ⟨rest, hsplit⟩

theorem cstr_append_zeros (bytes : List UInt8) (n : Nat) :
    cstr (bytes ++ List.replicate n 0) = cstr bytes := by
  have hnone : (List.replicate n (0 : UInt8)).takeWhile (· ≠ 0) = [] := by
    cases n with
    | zero => rfl
    | succ n => simp [List.replicate_succ]
  rw [cstr, cstr, List.takeWhile_append, hnone, List.append_nil]
  split
  · next hall => exact ((List.takeWhile_prefix _).eq_of_length hall).symm
  · rfl

theorem prefix_cstr_iff (bytes : List UInt8) : bytes <+: cstr bytes ++ [0] ↔ 0 ∉ bytes.dropLast := by
  have hstring := noNul_cstr bytes
  rcases cstr_cases bytes with hall | ⟨rest, hrest⟩
  · refine iff_of_true ?_ fun hzero => hstring (hall ▸ List.dropLast_subset bytes hzero)
    nth_rewrite 1 [hall]
    exact List.prefix_append _ _
  · generalize cstr bytes = front at hstring hrest
    subst hrest
    rw [List.prefix_append_right_inj, List.cons_prefix_cons, List.prefix_nil]
    cases rest with
    | nil =>
      rw [List.dropLast_concat]
      exact iff_of_true ⟨rfl, rfl⟩ hstring
    | cons b rest =>
      refine iff_of_false (fun h => List.cons_ne_nil _ _ h.2) (not_not_intro ?_)
      rw [List.dropLast_append_of_ne_nil (List.cons_ne_nil _ _), List.dropLast_cons_cons]
      simp

/-! ## The step that reads -/

/-- What `read` gives of a file; it is the fourth call of the request. -/
def bytesRead (env : Env) (w : World) (content : List UInt8) (position length : Int) : List UInt8 :=
  let len := readLen content.length position length
  ((content.drop (lseekCur (readBegin content.length position))).take len.toNat).take
    (env.sends (w.clock + 3) len.toNat)

/-- The buffer, with the zeros that are left in it. -/
def bufferRead (env : Env) (w : World) (content : List UInt8) (position length : Int) : List UInt8 :=
  let got := bytesRead env w content position length
  got ++ List.replicate ((readLen content.length position length).toNat + 1 - got.length) 0

theorem readArrayBufferExec_ok (h : readArrayBufferExec env build url position length w = .ok info w')
    (hsuccess : info.outcome.result = SUCCESS)
    (hplace : env.sys.lookup w.volume url = .there place)
    (hfile : w.volume.tree place = some (.file content)) :
    0 ≤ readLen content.length position length ∧
      info.len = readLen content.length position length ∧
      info.contents = if build.wearable then bufferRead env w content position length
        else cstr (bufferRead env w content position length) := by
  have hfails : ∀ {errorType : Int} {contents : List UInt8} {s s' : World},
      (pure ⟨{ errorType := errorType }, 0, contents⟩ : Run ReadBuffer) s = .ok info s' → False := by
    intro errorType contents s s' h
    rw [← (Program.pure_eq_ok.mp h).1] at hsuccess
    cases hsuccess
  unfold readArrayBufferExec at h
  obtain ⟨real, w1, hreal, h⟩ := Program.bind_eq_ok.mp h
  cases Env.realpath_looks hreal
  split at h
  · exact (hfails h).elim
  · exact (hfails h).elim
  · next path =>
    obtain ⟨-, place', hplace', rfl, -⟩ := Env.realpath_ok hreal
    cases hplace.symm.trans hplace'
    have hpath : env.sys.lookup w.volume (ModFs.Copy.render place.reverse) = .there place :=
      ModFs.lookup_render hfile nofun
    obtain ⟨fdg, w2, hopen, h⟩ := Program.bind_eq_ok.mp h
    cases Env.openRead_looks hopen
    obtain ⟨result, w3, hstat, h⟩ := Program.bind_eq_ok.mp h
    cases Env.stat_looks hstat
    split at h
    · next fd buf =>
      obtain ⟨hfd, -⟩ := Env.openRead_ok hopen
      cases hpath.symm.trans hfd
      obtain ⟨-, hsize⟩ := Env.stat_file hstat hpath hfile
      obtain ⟨u, w4, halloc, h⟩ := Program.bind_eq_ok.mp h
      cases Env.makeUnique_ok halloc
      obtain ⟨got, w5, hread, h⟩ := Program.bind_eq_ok.mp h
      split at h
      · next bytes =>
        rw [hsize] at hread h
        obtain ⟨hcount, rfl⟩ := Env.read_ok hread hfile
        rw [← (Program.pure_eq_ok.mp h).1]
        exact ⟨hcount, rfl, rfl⟩
      · exact (hfails h).elim
    · exact (hfails h).elim

/-! ## The elements -/

/-- The bytes that are asked for. -/
def asked (content : List UInt8) (position length : Int) : List UInt8 :=
  let rest := content.drop (min position content.length).toNat
  if length = 0 then rest else rest.take length.toNat

theorem readBegin_eq (size position : Int) : readBegin size position = min position size := by
  unfold readBegin
  split <;> omega

theorem int32_spec (n : Int) : -2 ^ 31 ≤ int32 n ∧ int32 n < 2 ^ 31 ∧ ∃ k, n = int32 n + 2 ^ 32 * k := by
  rw [int32, Int.bmod_def]
  have hdiv := Int.mul_ediv_add_emod n (2 ^ 32)
  split
  · exact ⟨by omega, by omega, n / 2 ^ 32, by omega⟩
  · exact ⟨by omega, by omega, n / 2 ^ 32 + 1, by omega⟩

theorem asked_length_iff (hposition : -2 ^ 31 ≤ position) (hlength : -2 ^ 31 ≤ length)
    (hlength' : length < 2 ^ 31) (hlen : 0 ≤ readLen content.length position length) :
    (asked content position length).length = (readLen content.length position length).toNat ↔
      (length = 0 → 0 ≤ position ∧ content.length - min position content.length < 2 ^ 31) ∧
        (length ≠ 0 → max 0 (min position content.length) + length ≤ content.length) := by
  rw [readLen, readBegin_eq] at hlen ⊢
  by_cases hzero : length = 0
  · rw [if_pos hzero] at hlen ⊢
    obtain ⟨hlow, hhigh, k, hk⟩ := int32_spec (content.length - min position content.length)
    have hasked : (asked content position length).length =
        content.length - (min position content.length).toNat := by
      rw [asked, if_pos hzero, List.length_drop]
    rw [hasked, and_iff_left fun hne => absurd hzero hne]
    constructor
    · intro heq _
      omega
    · intro h
      obtain ⟨hposition', hfits⟩ := h hzero
      omega
  · rw [if_neg hzero] at hlen ⊢
    obtain ⟨hlow, hhigh, k, hk⟩ := int32_spec length
    have hasked : (asked content position length).length =
        min length.toNat (content.length - (min position content.length).toNat) := by
      rw [asked, if_neg hzero, List.length_take, List.length_drop]
    rw [hasked, and_iff_right fun hzero' => absurd hzero' hzero]
    constructor
    · intro heq _
      omega
    · intro h
      have hin := h hzero
      omega

theorem asked_prefix_content (content : List UInt8) (position length : Int) :
    asked content position length <+: content.drop (min position content.length).toNat := by
  rw [asked]
  split
  · exact List.prefix_rfl
  · exact List.take_prefix _ _

theorem bytesRead_eq_take (hcount : (asked content position length).length =
      (readLen content.length position length).toNat) :
    bytesRead env w content position length = (asked content position length).take
      (env.sends (w.clock + 3) (asked content position length).length) := by
  have hasked := List.prefix_iff_eq_take.mp (asked_prefix_content content position length)
  rw [bytesRead, ← hcount, lseekCur, readBegin_eq, ← hasked]

theorem charValue_iff (build : Build) (c : UInt8) :
    charValue build c = c.toNat ↔ (build.signedChar = true → c.toNat < 128) := by
  have hc := c.toNat_lt
  rw [charValue]
  cases build.signedChar with
  | false => exact iff_of_true rfl nofun
  | true =>
    rw [if_pos rfl, Int.bmod_def]
    constructor
    · intro h _
      split at h <;> omega
    · intro h
      have hsmall := h rfl
      split <;> omega

theorem values_prefix_iff {l : List UInt8} (h : bytes.length ≤ l.length → bytes <+: l) :
    (bytes.map fun b => (b.toNat : Int)) <+: l.map (charValue build) ↔
      bytes <+: l ∧ (build.signedChar = true → ∀ b ∈ bytes, b.toNat < 128) := by
  have hvalues : (bytes.map fun b => (b.toNat : Int)) = bytes.map (charValue build) ↔
      (build.signedChar = true → ∀ b ∈ bytes, b.toNat < 128) := by
    rw [List.map_inj_left]
    constructor
    · intro heq hsign b hb
      exact (charValue_iff build b).mp (heq b hb).symm hsign
    · intro hsmall b hb
      exact ((charValue_iff build b).mpr fun hsign => hsmall hsign b hb).symm
  constructor
  · intro hprefix
    have hbytes := h (by simpa using hprefix.length_le)
    refine ⟨hbytes, hvalues.mp ?_⟩
    rw [List.prefix_iff_eq_take.mp hprefix, List.length_map, ← List.map_take,
      ← List.prefix_iff_eq_take.mp hbytes]
  · rintro ⟨hbytes, hsmall⟩
    rw [hvalues.mpr hsmall]
    exact hbytes.map _

/-- The elements are the bytes read, and these are the ones asked for. -/
structure GivesBytes (build : Build) (info : ReadBuffer) (got wanted : List UInt8) : Prop where
  count : (elements build info).length = got.length
  equal : elements build info = wanted.map fun b => some (b.toNat : Int)

/-- When that is so: the position and the length are right for the file, the read is not short, and
the bytes are such that a string and a `char` can hold them. -/
structure Readable (env : Env) (build : Build) (w : World) (content : List UInt8)
    (position length : Int) : Prop where
  whole : length = 0 → 0 ≤ position ∧ content.length - min position content.length < 2 ^ 31
  within : length ≠ 0 → max 0 (min position content.length) + length ≤ content.length
  full : (asked content position length).length ≤
    env.sends (w.clock + 3) (asked content position length).length
  zeros : build.wearable = false → 0 ∉ (asked content position length).dropLast
  signs : build.signedChar = true → ∀ b ∈ asked content position length, b.toNat < 128

theorem elements_iff (hlen : info.len.toNat = bytes.length)
    (hcontents : info.contents = if build.wearable then bytes ++ [0] else cstr (bytes ++ [0])) :
    elements build info = bytes.map (fun b => some (b.toNat : Int)) ↔
      (build.wearable = false → 0 ∉ bytes.dropLast) ∧
        (build.signedChar = true → ∀ b ∈ bytes, b.toNat < 128) := by
  have helements : elements build info =
      (List.range bytes.length).map fun i => ((info.contents ++ [0]).map (charValue build))[i]? := by
    rw [elements, hlen]
    refine List.map_congr_left fun i _ => ?_
    rw [elementOf, List.getElem?_map]
  have hwanted : (bytes.map fun b => some (b.toNat : Int)) =
      (bytes.map fun b => (b.toNat : Int)).map some := by
    rw [List.map_map]
    rfl
  rw [helements, hwanted, map_getElem_iff, and_iff_right (by rw [List.length_map])]
  cases hwearable : build.wearable with
  | true =>
    have hall : bytes <+: info.contents ++ [0] := by
      rw [hcontents, hwearable, if_pos rfl, List.append_assoc]
      exact List.prefix_append _ _
    rw [values_prefix_iff fun _ => hall, and_iff_right hall, and_iff_right nofun]
  | false =>
    have hstring : info.contents = cstr bytes := by
      rw [hcontents, hwearable, if_neg Bool.false_ne_true]
      exact cstr_append_zeros bytes 1
    have hshort : bytes.length ≤ (cstr bytes ++ [0]).length → bytes <+: cstr bytes ++ [0] := by
      intro hlength
      rcases cstr_cases bytes with hall | ⟨rest, hrest⟩
      · nth_rewrite 1 [hall]
        exact List.prefix_append _ _
      · have hlengths := congrArg List.length hrest
        rw [List.length_append, List.length_cons] at hlengths
        rw [List.length_append, List.length_singleton] at hlength
        have hnil : rest = [] := List.length_eq_zero_iff.mp (by omega)
        subst hnil
        nth_rewrite 1 [hrest]
        exact List.prefix_rfl
    rw [hstring, values_prefix_iff hshort, prefix_cstr_iff]
    exact and_congr_left' ⟨fun hzeros _ => hzeros, fun hzeros => hzeros rfl⟩

/-- For a request that succeeds on a file, the array is what was asked for exactly if the bytes and
the request are readable. -/
theorem readArrayBuffer_gives (hposition : -2 ^ 31 ≤ position) (hlength : -2 ^ 31 ≤ length)
    (hlength' : length < 2 ^ 31)
    (h : readArrayBufferExec env build url position length w = .ok info w')
    (hsuccess : info.outcome.result = SUCCESS)
    (hplace : env.sys.lookup w.volume url = .there place)
    (hfile : w.volume.tree place = some (.file content)) :
    GivesBytes build info (bytesRead env w content position length) (asked content position length) ↔
      Readable env build w content position length := by
  obtain ⟨hlen, hinfo, hcontents⟩ := readArrayBufferExec_ok h hsuccess hplace hfile
  have hrequest := asked_length_iff hposition hlength hlength' hlen
  have hbuffer : (asked content position length).length =
        (readLen content.length position length).toNat →
      bytesRead env w content position length = asked content position length →
      bufferRead env w content position length = asked content position length ++ [0] := by
    intro hcount hread
    rw [bufferRead, hread, ← hcount, Nat.add_sub_cancel_left]
    rfl
  constructor
  · intro hgives
    have hcount : (asked content position length).length =
        (readLen content.length position length).toNat := by
      have hlengths := congrArg List.length hgives.equal
      rw [elements, List.length_map, List.length_range, List.length_map, hinfo] at hlengths
      exact hlengths.symm
    have hgot : (bytesRead env w content position length).length =
        (asked content position length).length := by
      rw [← hgives.count, hgives.equal, List.length_map]
    rw [bytesRead_eq_take hcount, List.length_take] at hgot
    have hfull := min_eq_right_iff.mp hgot
    have hread : bytesRead env w content position length = asked content position length :=
      (bytesRead_eq_take hcount).trans (List.take_of_length_le hfull)
    rw [hbuffer hcount hread] at hcontents
    obtain ⟨hzeros, hsigns⟩ := (elements_iff (by rw [hinfo, hcount]) hcontents).mp hgives.equal
    obtain ⟨hwhole, hwithin⟩ := hrequest.mp hcount
    exact ⟨hwhole, hwithin, hfull, hzeros, hsigns⟩
  · intro hreadable
    have hcount := hrequest.mpr ⟨hreadable.whole, hreadable.within⟩
    have hread : bytesRead env w content position length = asked content position length :=
      (bytesRead_eq_take hcount).trans (List.take_of_length_le hreadable.full)
    rw [hbuffer hcount hread] at hcontents
    have hequal := (elements_iff (by rw [hinfo, hcount]) hcontents).mpr
      ⟨hreadable.zeros, hreadable.signs⟩
    refine ⟨?_, hequal⟩
    rw [hequal, List.length_map, hread]

/-- A world with a file `/f` of these bytes. -/
def oneFile (bytes : List UInt8) : World := ⟨Volume.empty.put (ascii "f") [] (.file bytes), 0⟩

/-- Of the three bytes of `/f`, the string has only the first one and its terminator. -/
theorem readArrayBuffer_zero :
    ∃ info w', readArrayBufferExec {} ⟨false, false⟩ (ascii "/f") 0 0 (oneFile [1, 0, 2]) =
        .ok info w' ∧ info.outcome.result = SUCCESS ∧
      elements ⟨false, false⟩ info = [some 1, some 0, none] ∧
      ¬ GivesBytes ⟨false, false⟩ info (bytesRead {} (oneFile [1, 0, 2]) [1, 0, 2] 0 0)
        (asked [1, 0, 2] 0 0) := by
  refine ⟨⟨{ result := SUCCESS }, 3, [1]⟩, ⟨_, 4⟩, rfl, rfl, by decide, fun h => ?_⟩
  exact absurd h.equal (by decide)

theorem readArrayBuffer_gives_three :
    GivesBytes ⟨false, false⟩ ⟨{ result := SUCCESS }, 3, [1, 2, 3]⟩
      (bytesRead {} (oneFile [1, 2, 3]) [1, 2, 3] 0 0) (asked [1, 2, 3] 0 0) := by
  have hrun : readArrayBufferExec {} ⟨false, false⟩ (ascii "/f") 0 0 (oneFile [1, 2, 3]) =
      .ok ⟨{ result := SUCCESS }, 3, [1, 2, 3]⟩ ⟨(oneFile [1, 2, 3]).volume, 4⟩ := rfl
  exact (readArrayBuffer_gives (by decide) (by decide) (by decide) hrun rfl rfl rfl).mpr
    ⟨by decide, by decide, by decide, by decide, by decide⟩

end FileApi.ModFile
