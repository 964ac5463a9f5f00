import FileApi.Misc.Machine
import Mathlib.Logic.Function.Basic
import Mathlib.Data.List.Infix

/-!
# Atomic files

`FsAtomicFile` (`fs_atomicfile.cpp:87-195`). A file system is what each name holds; a name is its
characters. How a call of the library ends is given with the operation: it fails with an `errno`,
or does what it is documented to do. The caller writes to the name that `StartWrite` returned,
until the write is finished or failed.
-/

namespace FileApi.ModFs

abbrev FileName := List Char

abbrev Files := FileName → Option (List UInt8)

/-- The codes of an `FsResult`. -/
inductive FsErr where
  | enoent | eio | enomem | unknownErr
  | errno (e : Nat)
  deriving DecidableEq

/-- `TEMP_FILE_SUFFIX`. -/
def tempFileSuffix : List Char := ['_', 'X', 'X', 'X', 'X', 'X', 'X']

/-- What `mkstemp` replaces. -/
def mkstempXs : List Char := ['X', 'X', 'X', 'X', 'X', 'X']

structure FsAtomicFileEntity where
  baseFileName : FileName
  newFileName : FileName
  deriving DecidableEq

/-- How `mkstemp` ends: it picks a suffix, or fails and leaves one in the template. -/
inductive MkstempEnd where
  | picks (suffix : List Char)
  | fails (left : List Char)
  deriving DecidableEq

/-- `mkstemp`: whether it made a file, the template afterwards and the files; `none` if it cannot
end so. It does not pick the template itself, nor a name that is in use. -/
def mkstemp (files : Files) (template : FileName) (mkstempEnd : MkstempEnd) :
    Option (Bool × FileName × Files) :=
  let stem := template.take (template.length - mkstempXs.length)
  if ¬ mkstempXs <:+ template then some (false, template, files)
  else
    match mkstempEnd with
    | .fails left => if left.length = mkstempXs.length then some (false, stem ++ left, files) else none
    | .picks suffix =>
        if suffix.length = mkstempXs.length ∧ suffix ≠ mkstempXs ∧ files (stem ++ suffix) = none then
          some (true, stem ++ suffix, Function.update files (stem ++ suffix) (some []))
        else none

/-- How the calls of `ReadFully` end; `fread` may fail after some bytes. -/
structure ReadCalls where
  realpath : Option Nat := none
  fopen : Option Nat := none
  fileno : Bool := true
  fstat : Option Nat := none
  alloc : Bool := true
  fread : Option Nat := none
  deriving DecidableEq

/-- No call fails. -/
def ReadCalls.Succeed (calls : ReadCalls) : Prop := calls = {}

instance (calls : ReadCalls) : Decidable calls.Succeed := inferInstanceAs (Decidable (calls = {}))

/-- `ReadFileToBuffer`. -/
def readFileToBuffer (calls : ReadCalls) (content : List UInt8) : Except FsErr (List UInt8) :=
  if calls.fileno = false then .error .unknownErr
  else
    match calls.fstat with
    | some e => .error (.errno e)
    | none =>
        let fileSize := content.length
        if fileSize ≤ 0 then .error .eio
        else if calls.alloc = false then .error .enomem
        else
          let buffer := content.take ((calls.fread).getD fileSize)
          if buffer.length ≠ fileSize ∨ calls.fread.isSome then .error .eio else .ok buffer

/-- `ReadFully`. -/
def readFully (files : Files) (entity : FsAtomicFileEntity) (calls : ReadCalls) :
    Except FsErr (List UInt8) :=
  match calls.realpath, files entity.baseFileName with
  | some e, _ => .error (.errno e)
  | none, none => .error .enoent
  | none, some content =>
      match calls.fopen with
      | some e => .error (.errno e)
      | none => readFileToBuffer calls content

/-- The object, the files, the name the caller may write to, and the names `StartWrite` has
returned so far. -/
structure AtomicFileState where
  entity : FsAtomicFileEntity
  files : Files
  writing : Option FileName := none
  returned : List FileName := []

/-- `Constructor`. -/
def atomicFile (path : FileName) (files : Files) : AtomicFileState where
  entity := { baseFileName := path, newFileName := path ++ tempFileSuffix }
  files := files

/-- The operations, with how the calls below them end: `access` finds the parent or not, the
others fail with an `errno` or not. -/
inductive AtomicFileOp where
  | startWrite (access : Bool) (mkstempEnd : MkstempEnd)
  | write (content : List UInt8)
  | finishWrite (rename : Option Nat)
  | failWrite (remove : Option Nat)
  | readFully (calls : ReadCalls)
  deriving DecidableEq

/-- What an operation returns. -/
inductive AtomicFileResult where
  | done
  | path (name : FileName)
  | bytes (content : List UInt8)
  | error (err : FsErr)
  deriving DecidableEq

/-- `StartWrite`. -/
def startWrite (st : AtomicFileState) (access : Bool) (mkstempEnd : MkstempEnd) :
    Option (AtomicFileResult × AtomicFileState) :=
  if access = false then some (.error .enoent, st)
  else
    match mkstemp st.files st.entity.newFileName mkstempEnd with
    | none => none
    | some (false, template, files) =>
        some (.error .enoent, { st with entity.newFileName := template, files })
    | some (true, template, files) =>
        some (.path template, { st with
          entity.newFileName := template
          files
          writing := some template
          returned := template :: st.returned })

/-- The caller makes `content` of the temporary file. -/
def writeTemp (st : AtomicFileState) (content : List UInt8) :
    Option (AtomicFileResult × AtomicFileState) :=
  match st.writing with
  | none => none
  | some name => some (.done, { st with files := Function.update st.files name (some content) })

/-- The temporary name is built anew. -/
def resetNewFileName (entity : FsAtomicFileEntity) : FsAtomicFileEntity :=
  { entity with newFileName := entity.baseFileName ++ tempFileSuffix }

/-- `FinishWrite`. -/
def finishWrite (st : AtomicFileState) (rename : Option Nat) : AtomicFileResult × AtomicFileState :=
  match rename, st.files st.entity.newFileName with
  | some e, _ => (.error (.errno e), st)
  | none, none => (.error .enoent, st)
  | none, some content =>
      (.done, { st with
        entity := resetNewFileName st.entity
        files := Function.update (Function.update st.files st.entity.newFileName none)
          st.entity.baseFileName (some content)
        writing := none })

/-- `FailWrite`; `remove` of a file that is not there returns false. -/
def failWrite (st : AtomicFileState) (remove : Option Nat) : AtomicFileResult × AtomicFileState :=
  match remove, st.files st.entity.newFileName with
  | some e, _ => (.error (.errno e), st)
  | none, none => (.error .enoent, st)
  | none, some _ =>
      (.done, { st with
        entity := resetNewFileName st.entity
        files := Function.update st.files st.entity.newFileName none
        writing := none })

/-- One operation; `none` if its calls cannot end so. -/
def AtomicFileState.call (st : AtomicFileState) :
    AtomicFileOp → Option (AtomicFileResult × AtomicFileState)
  | .startWrite access mkstempEnd => startWrite st access mkstempEnd
  | .write content => writeTemp st content
  | .finishWrite rename => some (finishWrite st rename)
  | .failWrite remove => some (failWrite st remove)
  | .readFully calls =>
      match readFully st.files st.entity calls with
      | .ok content => some (.bytes content, st)
      | .error err => some (.error err, st)

def AtomicFileState.step (st : AtomicFileState) (op : AtomicFileOp) : Option AtomicFileState :=
  (st.call op).map Prod.snd

end FileApi.ModFs
