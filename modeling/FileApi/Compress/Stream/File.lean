import FileApi.Misc.ByteFile
import FileApi.Misc.Except

/-!
# File and memory streams

`frameworks/errorcode.h` and the file stream of `stream/file/stream_file_posix.c`, seen as a
byte array with a cursor; the memory stream that buffers the central directory is used in the
same way. Lengths and positions are `int64_t`, so no position beyond `2^63 - 1` exists: a seek
to a negative offset and a write past the limit fail.
-/

namespace FileApi.Compress

/-- The negative result codes of `frameworks/errorcode.h`; `ARCHIVE_OK` is `Except.ok`. -/
inductive ArchiveErr where
  | paramError | streamError | dataError | memError | bufError | versionError | endOfList
  | endOfStream | formatError | internalError | crcError | cryptError | existError
  | passwordError | supportError | hashError | openError | closeError | seekError | tellError
  | readError | writeError | signError | symlinkError | mkdirError | cancelError
  | nameTooLongError | noSpaceError | fileNameTruncated | fullPathTooLong | epermError
  | eioError | eaccesError | enoentError | zlibError
  deriving DecidableEq

/-- `ARCHIVE_SEEK_SET`, `ARCHIVE_SEEK_CUR`, `ARCHIVE_SEEK_END`. -/
inductive SeekOrigin where
  | set | cur | fromEnd
  deriving DecidableEq

/-- One past the largest file position (`off_t`). -/
def offLimit : Nat := 2 ^ 63

/-- A `uint64_t` passed where an `int64_t` is expected. -/
def toInt64 (value : UInt64) : Int :=
  if value.toNat < offLimit then value.toNat else (value.toNat : Int) - 2 ^ 64

/-- `StreamRead` of a file stream: `fread` returns fewer bytes only at the end of the file. -/
def streamRead (f : ByteFile) (len : Nat) : List UInt8 × ByteFile := f.read len

/-- `StreamWrite` of a file stream: the caller compares the returned count with the length it asked for,
so a short write and a negative result are the same failure. -/
def streamWrite (f : ByteFile) (bytes : List UInt8) : Except ArchiveErr ByteFile :=
  if f.pos + bytes.length < offLimit then .ok (f.write bytes) else .error .writeError

/-- `StreamSeek` of a file stream. -/
def streamSeek (f : ByteFile) (offset : Int) (origin : SeekOrigin) :
    Except ArchiveErr ByteFile :=
  let target : Int := match origin with
    | .set => offset
    | .cur => f.pos + offset
    | .fromEnd => f.data.length + offset
  if 0 ≤ target ∧ target < offLimit then .ok (f.seekTo target.toNat) else .error .seekError

/-- `StreamTell` of a file stream. -/
def streamTell (f : ByteFile) : Nat := f.pos

theorem toInt64_of_lt {value : UInt64} (h : value.toNat < offLimit) :
    toInt64 value = value.toNat := by
  simp [toInt64, h]

theorem toNat_ofNat_of_offLimit {n : Nat} (h : n < offLimit) : (UInt64.ofNat n).toNat = n :=
  UInt64.toNat_ofNat_of_lt' (Nat.lt_trans h (by decide))

theorem ofNat_sub_ofNat {a b : Nat} (hab : a ≤ b) (hb : b < offLimit) :
    UInt64.ofNat b - UInt64.ofNat a = UInt64.ofNat (b - a) := by
  apply UInt64.toNat_inj.mp
  rw [UInt64.toNat_sub_of_le, toNat_ofNat_of_offLimit hb, toNat_ofNat_of_offLimit (by omega),
    toNat_ofNat_of_offLimit (by omega)]
  rw [UInt64.le_iff_toNat_le, toNat_ofNat_of_offLimit hb, toNat_ofNat_of_offLimit (by omega)]
  exact hab

variable {f : ByteFile}

theorem streamSeek_set {pos : Nat} (h : pos < offLimit) :
    streamSeek f pos .set = .ok (f.seekTo pos) := by
  simp only [streamSeek, Int.toNat_natCast]
  rw [if_pos ⟨by omega, by exact_mod_cast h⟩]

theorem streamSeek_set_eq {f g : ByteFile} {offset : Int}
    (h : streamSeek f offset .set = .ok g) : 0 ≤ offset ∧ g = f.seekTo offset.toNat := by
  simp only [streamSeek] at h
  split at h
  · next hb => exact ⟨hb.1, by simpa using h.symm⟩
  · cases h

theorem streamWrite_ok {f g : ByteFile} {bytes : List UInt8}
    (h : streamWrite f bytes = .ok g) :
    f.pos + bytes.length < offLimit ∧ g = f.write bytes := by
  simp only [streamWrite] at h
  split at h
  · next hb => exact ⟨hb, by simpa using h.symm⟩
  · cases h

theorem streamWrite_of_lt {bytes : List UInt8} (h : f.pos + bytes.length < offLimit) :
    streamWrite f bytes = .ok (f.write bytes) := if_pos h

/-- Two writes in a row are one write. The second one only needs to be understood behind the
first: there the cursor is at the end and below the limit. -/
theorem streamWrite_bind_then {β : Type} (hend : f.AtEnd) (a b : List UInt8)
    (k after : ByteFile → Except ArchiveErr β)
    (hk : ∀ g : ByteFile, g.AtEnd → g.pos < offLimit → g.pos = f.pos + a.length →
      k g = (streamWrite g b >>= after)) :
    (streamWrite f a >>= k) = (streamWrite f (a ++ b) >>= after) := by
  by_cases hfit : f.pos + a.length < offLimit
  · rw [streamWrite_of_lt hfit, ok_bind, hk _ (hend.write a) hfit rfl]
    have hjoin : (f.write a).write b = f.write (a ++ b) := by
      rw [ByteFile.write_atEnd (hend.write a), ByteFile.write_atEnd hend,
        ByteFile.write_atEnd hend]
      simp [Nat.add_assoc]
    simp only [streamWrite, ByteFile.write_pos, List.length_append, Nat.add_assoc, hjoin]
  · rw [streamWrite, if_neg hfit, streamWrite, if_neg (by simp only [List.length_append]; omega),
      error_bind, error_bind]

theorem streamWrite_bind (hend : f.AtEnd) (a b : List UInt8)
    (k : ByteFile → Except ArchiveErr ByteFile)
    (hk : ∀ g : ByteFile, g.AtEnd → g.pos < offLimit → k g = streamWrite g b) :
    (streamWrite f a >>= k) = streamWrite f (a ++ b) := by
  rw [streamWrite_bind_then hend a b k .ok]
  · cases streamWrite f (a ++ b) <;> rfl
  · intro g hgend hgpos _
    rw [hk g hgend hgpos]
    cases streamWrite g b <;> rfl

theorem streamWrite_nil (hend : f.AtEnd) (hpos : f.pos < offLimit) :
    streamWrite f [] = .ok f := by
  rw [streamWrite_of_lt (by simpa using hpos), ByteFile.write_atEnd hend, ← hend]
  simp

end FileApi.Compress
