import FileApi.Compress.Zip.Format

/-!
# Encoding checks of entry names

The two UTF-8 checks of `interface/inner_api/archive/src/archive_utils.c`: the writer asks
`IsUtf8Encoded(name, false)` before it sets the UTF-8 flag, the reader asks `IsUTF8Str` about
a name without that flag.
-/

namespace FileApi.Compress.Zip

/-- The number of leading one bits of a byte, looking at no more than `bits` of them:
the loops of `Utf8PreNum` and `CheckUTF8Byte`. -/
def leadingOnes : Nat → UInt8 → Nat
  | 0, _ => 0
  | bits + 1, ch => if ch &&& 0x80 ≠ 0 then leadingOnes bits (ch <<< 1) + 1 else 0

/-- `Utf8PreNum`. -/
def utf8PreNum (byte : UInt8) : Nat := leadingOnes 8 byte

/-- `CheckUTF8Byte`: the number of continuation bytes still expected, or `none` for an
invalid byte. -/
def checkUTF8Byte (ch : UInt8) (nBytes : Nat) : Option Nat :=
  if nBytes ≠ 0 then
    if ch &&& 0xc0 ≠ 0x80 then none else some (nBytes - 1)
  else if ch &&& 0x80 ≠ 0 then
    let nBytes := leadingOnes 8 ch
    if nBytes < 2 ∨ nBytes > 6 then none else some (nBytes - 1)
  else some 0

/-- `CheckUTF8Str`. -/
def checkUTF8Str : List UInt8 → Nat → Bool
  | [], nBytes => nBytes == 0
  | ch :: rest, nBytes =>
      match checkUTF8Byte ch nBytes with
      | none => false
      | some nBytes => checkUTF8Str rest nBytes

/-- `IsUTF8Str`. -/
def isUTF8Str (str : List UInt8) : Bool := checkUTF8Str str 0

/-- The loop of `IsUtf8Encoded`; every turn drops at least one byte, so `data.length` turns
are enough. -/
def isUtf8EncodedLoop (minPreNum : Nat) : Nat → List UInt8 → Bool
  | _, [] => true
  | 0, _ :: _ => true
  | fuel + 1, byte :: rest =>
      if byte &&& 0x80 = 0 then isUtf8EncodedLoop minPreNum fuel rest
      else
        let num := utf8PreNum byte
        if num ≤ minPreNum then false
        else if num > rest.length + 1 then false
        else if (rest.take (num - 1)).all (fun b => b &&& 0xc0 == 0x80) then
          isUtf8EncodedLoop minPreNum fuel (rest.drop (num - 1))
        else false

/-- `IsUtf8Encoded`. -/
def isUtf8Encoded (data : List UInt8) (skipTwoBytes : Bool) : Bool :=
  isUtf8EncodedLoop (if skipTwoBytes then 2 else 1) data.length data

end FileApi.Compress.Zip
