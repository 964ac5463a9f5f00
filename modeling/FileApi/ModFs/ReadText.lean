import FileApi.Misc.CString

/-!
# `readText`

`ReadTextCore::DoReadText` (`read_text_core.cpp:32-148`) and the N-API variants `ReadText::Sync` and
`ReadText::Async` (`read_text.cpp:34-265`). The file is a regular one that does not change; how the
calls of the system end is given.
-/

namespace FileApi.ModFs.ReadText

def EINVAL : Nat := 22
def ENOMEM : Nat := 12
def UINT_MAX : Int := 2 ^ 32 - 1

/-- How the calls end, which memory there is, and how many bytes a `read` transfers at most. -/
structure ReadEnv where
  encodingMemory : Bool := true
  openMemory : Bool := true
  opens : Option Nat := none
  fstat : Option Nat := none
  bufferMemory : Bool := true
  readMemory : Bool := true
  reads : Option Nat := none
  copyMemory : Bool := true
  transfers : Nat := 0x7ffff000
  transfers_le : transfers ≤ 0x7ffff000 := by decide

/-- A code, an exception of `std::string`, or a string that is made of a null pointer. -/
inductive Failure where
  | code (code : Int)
  | badAlloc
  | nullString
  deriving DecidableEq

/-! ## Arguments -/

structure ReadTextOptions where
  offset : Option Int := none
  length : Option Int := none
  encoding : Option (List UInt8) := none
  deriving DecidableEq

/-- `offset`, `hasLen` and `len`. -/
structure ReadTextArg where
  offset : Int := -1
  hasLen : Bool := false
  len : Int := 0
  deriving DecidableEq

def validOffset (offset : Int) : Bool := 0 ≤ offset

def validLength (len : Int) : Bool := 0 ≤ len ∧ len ≤ UINT_MAX

/-- `ValidReadTextArg`. -/
def validReadTextArg (env : ReadEnv) (options : Option ReadTextOptions) : Option ReadTextArg :=
  if env.encodingMemory then
    match options with
    | none => some {}
    | some op =>
        if op.offset.all validOffset ∧ op.length.all validLength ∧
            op.encoding.all (· = ascii "utf-8") then
          some ⟨op.offset.getD (-1), op.length.isSome, op.length.getD 0⟩
        else none
  else none

/-- A value of a property, as far as it is looked at; a number as the `int64_t` it is taken for. -/
inductive JsValue where
  | undefined
  | function
  | number (n : Int)
  | string (bytes : List UInt8)
  | other
  deriving DecidableEq

/-- The properties of the options; nothing else than an object has any. -/
structure JsOptions where
  offset : Option JsValue := none
  length : Option JsValue := none
  encoding : Option JsValue := none
  deriving DecidableEq

/-- `ToInt64`. -/
def JsValue.toInt64 : JsValue → Option Int
  | .number n => some n
  | _ => none

/-- `ToUTF8String` with a default, as the string that begins in its buffer. -/
def JsValue.toUTF8String (default : List UInt8) : JsValue → Option (List UInt8)
  | .undefined => some default
  | .function => some default
  | .string bytes => some (cstr bytes)
  | _ => none

/-- `HasProp` and not `napi_undefined`. -/
def given : Option JsValue → Option JsValue
  | some .undefined => none
  | value => value

/-- `GetReadTextArg`. -/
def getReadTextArg (env : ReadEnv) (op : JsOptions) : Except Failure ReadTextArg :=
  if env.encodingMemory then
    if (given op.offset).all fun value => value.toInt64.any validOffset then
      if (given op.length).all fun value => value.toInt64.any validLength then
        let arg : ReadTextArg :=
          ⟨((given op.offset).bind JsValue.toInt64).getD (-1), (given op.length).isSome,
            ((given op.length).bind JsValue.toInt64).getD 0⟩
        match op.encoding with
        | none => .ok arg
        | some value =>
            match value.toUTF8String (ascii "utf-8") with
            | none => .error .nullString
            | some encoding =>
                if encoding = ascii "utf-8" then .ok arg else .error (.code EINVAL)
      else .error (.code EINVAL)
    else .error (.code EINVAL)
  else .error (.code EINVAL)

/-! ## Reading -/

/-- `static_cast<unsigned int>`. -/
def toUnsignedInt (n : Nat) : Nat := n % 2 ^ 32

/-- `uv_fs_read` into a buffer of so many bytes, at an offset or at the beginning. -/
def uvFsRead (env : ReadEnv) (content : List UInt8) (offset : Int) (count : Nat) : List UInt8 :=
  ((content.drop offset.toNat).take count).take env.transfers

/-- `len` behind the comparison with `st_size`. -/
def ReadTextArg.clamped (arg : ReadTextArg) (size : Nat) : Nat :=
  if ¬ arg.hasLen ∨ size < arg.len then size else arg.len.toNat

/-- From `open` to `read`, with what becomes of an `errno` of a call of libuv: the buffer, and how
many bytes were read. -/
def readFile (env : ReadEnv) (uvError : Nat → Int) (content : List UInt8) (arg : ReadTextArg) :
    Except Failure (List UInt8 × Nat) := do
  if ¬ env.openMemory then throw (.code (uvError ENOMEM))
  if let some errno := env.opens then throw (.code (uvError errno))
  if let some errno := env.fstat then throw (.code errno)
  if content.length < arg.offset then throw (.code EINVAL)
  let len := arg.clamped content.length
  if ¬ env.bufferMemory then throw .badAlloc
  if ¬ env.readMemory then throw (.code (uvError ENOMEM))
  if let some errno := env.reads then throw (.code (uvError errno))
  let got := uvFsRead env content arg.offset (toUnsignedInt len)
  return (got ++ List.replicate (len - got.length) 0, got.length)

/-- `DoReadText`: an error of libuv is negative. -/
def doReadText (env : ReadEnv) (content : List UInt8) (options : Option ReadTextOptions) :
    Except Failure (List UInt8 × Nat) :=
  match validReadTextArg env options with
  | none => .error (.code EINVAL)
  | some arg => readFile env (fun errno => -errno) content arg

/-- `CreateUTF8String`: the bytes that are handed to `napi_create_string_utf8`, which makes the text of
them. -/
def createUTF8String (read : List UInt8 × Nat) : List UInt8 := read.1.take read.2

/-- `ReadText::Sync`. -/
def sync (env : ReadEnv) (content : List UInt8) (op : JsOptions) : Except Failure (List UInt8) := do
  let arg ← getReadTextArg env op
  let read ← readFile env (fun errno => -errno) content arg
  return createUTF8String read

/-- `ReadTextAsync`: an error of libuv is `errno`, and the buffer is copied. -/
def readTextAsync (env : ReadEnv) (content : List UInt8) (arg : ReadTextArg) :
    Except Failure (List UInt8 × Nat) := do
  let read ← readFile env (fun errno => errno) content arg
  if ¬ env.copyMemory then throw .badAlloc
  return read

/-- `ReadText::Async`. -/
def async (env : ReadEnv) (content : List UInt8) (op : JsOptions) : Except Failure (List UInt8) := do
  let arg ← getReadTextArg env op
  let read ← readTextAsync env content arg
  return createUTF8String read

end FileApi.ModFs.ReadText
