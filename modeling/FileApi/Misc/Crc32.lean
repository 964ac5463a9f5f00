import Mathlib.Data.List.Basic

/-!
# CRC-32

The reflected checksum of zlib's `crc32`: a running value is taken, so the checksum of a
concatenation is computed piece by piece.
-/

namespace FileApi

/-- One bit of the reflected polynomial division. -/
def crcBit (crc : UInt32) : UInt32 :=
  if crc &&& 1 = 1 then (crc >>> 1) ^^^ 0xEDB88320 else crc >>> 1

/-- One byte, low bit first. -/
def crcByte (crc : UInt32) (byte : UInt8) : UInt32 :=
  crcBit (crcBit (crcBit (crcBit (crcBit (crcBit (crcBit (crcBit (crc ^^^ byte.toUInt32))))))))

/-- `crc32(crc, buf, len)`. -/
def crc32 (crc : UInt32) (buf : List UInt8) : UInt32 := ~~~ (buf.foldl crcByte (~~~ crc))

@[simp] theorem crc32_nil (crc : UInt32) : crc32 crc [] = crc := by
  simp [crc32]

theorem crc32_append (crc : UInt32) (front back : List UInt8) :
    crc32 crc (front ++ back) = crc32 (crc32 crc front) back := by
  simp [crc32, List.foldl_append]

/-- The check value of the CRC-32 catalogue. -/
example : crc32 0 "123456789".toUTF8.toList = 0xCBF43926 := by decide +kernel

end FileApi
