import FileApi.Misc.Lines

/-!
# `readLines`

`ReadLinesCore::DoReadLines` (`read_lines_core.cpp:25-103`), `FsReaderIterator::Next`
(`fs_reader_iterator.cpp:42-68`) and the reader under them (`adapter.rs:58-120`, `ffi.rs:24-53`): a
`BufReader` of the file, whose buffer takes 8 KiB. How the calls of the system end is given, and
with it what the file holds at each of them.
-/

namespace FileApi.ModFs.ReaderIterator

def EINTR : Nat := 4
def ENOMEM : Int := 12
def EINVAL : Int := 22
def UNKNOWN_ERR : Int := -1

/-- What a call of the system fails with; it is never zero. -/
@[ext]
structure OsError where
  code : Nat
  code_pos : 0 < code := by decide

instance : DecidableEq OsError := fun e e' =>
  decidable_of_iff (e.code = e'.code) OsError.ext_iff.symm

/-- How a `read` of the file ends: the file holds `content`, of which no more than `most + 1` bytes
are given, or the call fails. -/
inductive ReadEnd where
  | gives (content : List UInt8) (most : Nat)
  | fails (e : OsError)

/-! ## The reader -/

/-- `std::io::ErrorKind`, as far as it is told apart. -/
inductive ErrorKind where
  | notFound | permissionDenied | alreadyExists | invalidInput | invalidData | unknown
  deriving DecidableEq

/-- `std::io::Error`. -/
inductive IoError where
  | os (e : OsError)
  | kind (k : ErrorKind)
  deriving DecidableEq

/-- `error_control`: the `errno` that it sets. -/
def errorControl : IoError → Int
  | .os e => e.code
  | .kind .notFound => 2
  | .kind .permissionDenied => 13
  | .kind .alreadyExists => 17
  | .kind .invalidInput => 22
  | .kind .invalidData => 61
  | .kind .unknown => 13900042

theorem errorControl_ne_zero (e : IoError) : errorControl e ≠ 0 := by
  cases e with
  | os e => exact Int.natCast_ne_zero.mpr (Nat.ne_of_gt e.code_pos)
  | kind k => cases k <;> decide

/-- `BufReader<File>`: what the descriptor has given, as many bytes as its position, and what of it
is still in the buffer. -/
structure BufReader where
  given : List UInt8 := []
  buffer : List UInt8 := []
  deriving DecidableEq

def bufSize : Nat := 8192

/-- What a `read` into the buffer gives. -/
def available (given content : List UInt8) (most : Nat) : List UInt8 :=
  (content.drop given.length).take (min (most + 1) bufSize)

/-- What `read_until` ends with: the bytes that it has taken out of the buffer, an error, the reader
and `errno`. -/
structure Until where
  line : List UInt8
  error : Option OsError
  reader : BufReader
  errno : Int
  deriving DecidableEq

/-- The end of a call that has made all its reads. -/
def returns (reads : List ReadEnd) (u : Until) : Option Until := if reads.isEmpty then some u else none

/-- The loop of `read_until`, with the buffer empty. -/
def readMore (given : List UInt8) (errno : Int) (line : List UInt8) : List ReadEnd → Option Until
  | [] => none
  | .fails e :: reads =>
      if e.code = EINTR then readMore given e.code line reads
      else returns reads ⟨line, some e, ⟨given, []⟩, e.code⟩
  | .gives content most :: reads =>
      let bytes := available given content most
      if bytes.isEmpty then returns reads ⟨line, none, ⟨given, []⟩, errno⟩
      else
        let (front, rest) := splitLine bytes
        if front.getLast? = some newline then
          returns reads ⟨line ++ front, none, ⟨given ++ bytes, rest⟩, errno⟩
        else readMore (given ++ bytes) errno (line ++ front) reads

/-- `read_until` of a newline. -/
def readUntil (reader : BufReader) (errno : Int) (reads : List ReadEnd) : Option Until :=
  let (front, rest) := splitLine reader.buffer
  if front.getLast? = some newline then
    returns reads ⟨front, none, { reader with buffer := rest }, errno⟩
  else readMore reader.given errno front reads

/-- `read_line`: a failure goes before bytes that are no UTF-8, and the bytes are lost with either. -/
def readLine (u : Until) : Except IoError (List UInt8) :=
  match u.error with
  | some e => .error (.os e)
  | none => if validUtf8 u.line then .ok u.line else .error (.kind .invalidData)

/-- `Str`; the length is a `c_uint`. -/
structure Str where
  str : List UInt8
  len : Nat
  deriving DecidableEq

/-- `next_line`. -/
def nextLine (u : Until) : Except IoError (Option Str) := do
  let line ← readLine u
  let len := line.length % 2 ^ 32
  if 0 < len then return some ⟨line, len⟩ else return none

/-- `NextLine` of the foreign interface: the line or a null pointer, the reader and `errno`. -/
def ffiNextLine (reader : BufReader) (errno : Int) (reads : List ReadEnd) :
    Option (Option Str × BufReader × Int) :=
  (readUntil reader errno reads).map fun u =>
    match nextLine u with
    | .ok str => (str, u.reader, u.errno)
    | .error e => (none, u.reader, errorControl e)

/-! ## The iterator -/

/-- `FsResult` with the code that its error is made of; no other code than zero is no error. -/
structure FsResult (α : Type) where
  code : Int
  data : Option α
  deriving DecidableEq

def FsResult.success {α : Type} (data : α) : FsResult α := ⟨0, some data⟩

def FsResult.error {α : Type} (code : Int) : FsResult α := ⟨code, none⟩

def FsResult.isSuccess {α : Type} (r : FsResult α) : Bool := r.code = 0

structure ReaderIteratorResult where
  done : Bool
  value : List UInt8
  deriving DecidableEq

/-- The iterator is not null: `InstantiateReaderIterator` takes no other. -/
structure ReaderIteratorEntity where
  iterator : BufReader
  offset : Int
  deriving DecidableEq

structure FsReaderIterator where
  entity : Option ReaderIteratorEntity
  deriving DecidableEq

/-- `Next`. -/
def FsReaderIterator.next (it : FsReaderIterator) (errno : Int) (reads : List ReadEnd) :
    Option (FsResult ReaderIteratorResult × FsReaderIterator) :=
  match it.entity with
  | none => some (.error UNKNOWN_ERR, it)
  | some entity =>
      (ffiNextLine entity.iterator errno reads).map fun (str, reader, errno) =>
        if str.isNone ∧ entity.offset ≠ 0 then
          (.error errno, ⟨some { entity with iterator := reader }⟩)
        else
          let done : Bool := entity.offset = 0
          match str with
          | some str =>
              (.success ⟨done, str.str.take str.len⟩, ⟨some ⟨reader, entity.offset - str.len⟩⟩)
          | none => (.success ⟨done, []⟩, ⟨some { entity with iterator := reader }⟩)

/-- A call of `Next`: `errno` before it, and how its reads end. -/
structure NextCall where
  errno : Int
  reads : List ReadEnd

/-- A call that has been made. -/
structure Called where
  how : NextCall
  answer : FsResult ReaderIteratorResult

/-- An iterator with the calls that have been made of it. -/
structure Iterating where
  it : FsReaderIterator
  calls : List Called

/-- One more call, with the ends that its reads come to. -/
def step (s : Iterating) (call : NextCall) : Option Iterating :=
  (s.it.next call.errno call.reads).map fun (answer, it) => ⟨it, s.calls ++ [⟨call, answer⟩]⟩

/-! ## `DoReadLines` -/

/-- What `DoReadLines` meets: how the file is opened, the memory that there is, and the size or the
code that libuv comes back with. -/
structure OpenEnv where
  opens : Option OsError := none
  statMemory : Bool := true
  stat : Except OsError Nat
  memory : Bool := true

structure Options where
  encoding : List UInt8
  deriving DecidableEq

/-- `CheckOptionArg`, where "utf-8" is given in its bytes. -/
def checkOptionArg (option : Options) : Int :=
  if option.encoding ≠ [0x75, 0x74, 0x66, 0x2d, 0x38] then EINVAL else 0

/-- `ReaderIterator` and `reader_iterator`: the path has to be UTF-8. -/
def openReader (env : OpenEnv) (path : List UInt8) : Except IoError BufReader :=
  if ¬ validUtf8 path then .error (.kind .invalidInput)
  else
    match env.opens with
    | some e => .error (.os e)
    | none => .ok {}

/-- `GetFileSize`. -/
def getFileSize (env : OpenEnv) : Except Int Int :=
  if ¬ env.statMemory then .error ENOMEM
  else
    match env.stat with
    | .error e => .error (-e.code)
    | .ok size => .ok size

/-- `InstantiateReaderIterator`. -/
def instantiateReaderIterator (env : OpenEnv) (iterator : BufReader) (offset : Int) :
    FsResult FsReaderIterator :=
  if ¬ env.memory then .error UNKNOWN_ERR else .success ⟨some ⟨iterator, offset⟩⟩

/-- `DoReadLines`. -/
def doReadLines (env : OpenEnv) (path : List UInt8) (option : Option Options) :
    FsResult FsReaderIterator :=
  if (option.map checkOptionArg).getD 0 ≠ 0 then .error ((option.map checkOptionArg).getD 0)
  else
    match openReader env path with
    | .error e => .error (errorControl e)
    | .ok iterator =>
        match getFileSize env with
        | .error code => .error code
        | .ok offset => instantiateReaderIterator env iterator offset

end FileApi.ModFs.ReaderIterator
