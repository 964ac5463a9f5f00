import FileApi.Zlib.Deflate

/-!
# The bound of `deflate`

`compressBound`, in the arithmetic of 64 bits and without a limit, and what a caller may rely on who
has that much room: a stream never takes more, and a call with `Z_FINISH` comes to its end.
-/

namespace FileApi.Zlib

/-- The most that so many bytes take. -/
def worstCase (sourceLen : Nat) : Nat :=
  sourceLen + sourceLen / 4096 + sourceLen / 16384 + sourceLen / 33554432 + 13

/-- `compressBound`. -/
def compressBound (sourceLen : UInt64) : UInt64 :=
  sourceLen + (sourceLen >>> 12) + (sourceLen >>> 14) + (sourceLen >>> 25) + 13

theorem worstCase_lt {a b : Nat} (h : a < b) : worstCase a < worstCase b := by
  unfold worstCase
  omega

section

variable {D : Decoder}

/-- The streams of a source stay within the bound: what was given for the bytes that were taken, and
the rest of it where the room for the whole source is left. -/
structure Deflate.Bounded (Z : Deflate D) (source : List UInt8) : Prop where
  within : ∀ {s b out rest}, Z.Holds s b out → b ++ rest = source →
    out.length ≤ worstCase b.length
  ends : ∀ {s b out input room}, Z.Holds s b out → b ++ input = source →
    (Z.finishing s = true → input = []) → 0 < room →
    worstCase source.length ≤ out.length + room →
    (Z.deflate s input room .finish).ret = .streamEnd

/-- `Z_OK` is for progress along the source: input was taken or output given. -/
def Deflate.Progresses (Z : Deflate D) (source : List UInt8) : Prop :=
  ∀ {s b out input rest room flush}, Z.Holds s b out → b ++ input ++ rest = source →
    (flush = .finish → rest = []) → 0 < room → (Z.deflate s input room flush).ret = .ok →
    0 < (Z.deflate s input room flush).consumed ∨ 0 < (Z.deflate s input room flush).output.length

end

end FileApi.Zlib
