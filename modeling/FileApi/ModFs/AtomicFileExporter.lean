import FileApi.ModFs.AtomicFile

/-!
# The end of an atomic file's write, in both layers

`Delete` of `FsAtomicFile` (`fs_atomicfile.cpp:197-226`), the construction of an `FsError`
(`fs_error.cpp:295-334`), and `FinishWrite`, `FailWrite` and `Delete` of the exporter
(`atomicfile_n_exporter.cpp:402-534`). The exporter keeps a reference to the stream of a write;
whether the calls on it work is given with the call. The stream itself is closed by JavaScript.
-/

namespace FileApi.ModFs

/-- What a failing call puts in `errno`. -/
abbrev SysErrno := { e : Nat // 0 < e ∧ e ≤ 4095 }

def enoentCode : Nat := 2

/-! ## Error codes -/

/-- `FILEIO_SYS_CAP_TAG`. -/
def fileioSysCapTag : Nat := 13900000

/-- `E_UNKNOWN_ERROR`, to which `E_UKERR` leads too. -/
def eUnknownError : Nat := 13900042

/-- The rows of `errCodeTable` for the values of `errno`, with what is put behind the tag. -/
def errCodeTable : List (Nat × Nat) :=
  [(1, 1), (2, 2), (3, 3), (4, 4), (5, 5), (6, 6), (7, 7), (9, 8), (10, 9), (11, 10), (12, 11),
    (13, 12), (14, 13), (16, 14), (17, 15), (18, 16), (19, 17), (20, 18), (21, 19), (22, 20),
    (23, 21), (24, 22), (26, 23), (27, 24), (28, 25), (29, 26), (30, 27), (31, 28), (35, 29),
    (36, 30), (38, 31), (39, 32), (40, 33), (53, 35), (60, 36), (61, 37), (75, 38), (77, 39),
    (85, 40), (122, 41), (37, 43), (101, 44), (45, 45), (46, 46), (103, 46), (125, 49)]

/-- The error number of an `FsError`, and of an `NError`, that is made of a value of `errno`. -/
def fsErrorNo (errCode : Nat) : Nat :=
  if errCode = 0 then 0
  else
    match errCodeTable.lookup errCode with
    | some suffix => fileioSysCapTag + suffix
    | none => eUnknownError

/-- The error number that comes with an error. -/
def FsErr.errNo : FsErr → Nat
  | .enoent => fsErrorNo enoentCode
  | .eio => fsErrorNo 5
  | .enomem => fsErrorNo 12
  | .unknownErr => eUnknownError
  | .errno e => fsErrorNo e

/-- `GetError().GetErrNo()` of an `FsResult`. -/
def AtomicFileResult.errNo : AtomicFileResult → Nat
  | .error err => err.errNo
  | _ => 0

/-- `IsSuccess`: an error that is made of 0 is a success. -/
def AtomicFileResult.IsSuccess (r : AtomicFileResult) : Prop := r.errNo = 0

instance (r : AtomicFileResult) : Decidable r.IsSuccess := inferInstanceAs (Decidable (_ = _))

/-! ## Files -/

/-- What a path leads to; the empty one leads nowhere. -/
def held (files : Files) (name : FileName) : Option (List UInt8) :=
  if name = [] then none else files name

/-- `fs::exists` with the error code, which it clears unless it fails. -/
def fsExists (files : Files) (name : FileName) (fails : Option SysErrno) : Bool × Nat :=
  match fails with
  | some e => (false, e)
  | none => ((held files name).isSome, 0)

/-- `fs::remove` with the error code. A file that is not there is no error; it may have been taken
away since it was seen. -/
def fsRemove (files : Files) (name : FileName) (fails : Option SysErrno) : Bool × Nat × Files :=
  match fails with
  | some e =>
      if e.val = enoentCode then (false, 0, Function.update files name none) else (false, e, files)
  | none =>
      match held files name with
      | none => (false, 0, files)
      | some _ => (true, 0, Function.update files name none)

/-- How the calls of `Delete` on one of its files end. -/
structure RemovalEnds where
  exists_ : Option SysErrno := none
  remove : Option SysErrno := none
  deriving DecidableEq

/-- `fs::exists(name, fsErrcode) && !fs::remove(name, fsErrcode)`, the code and the files. -/
def existsNotRemoved (files : Files) (name : FileName) (ends : RemovalEnds) : Bool × Nat × Files :=
  match fsExists files name ends.exists_ with
  | (false, fsErrcode) => (false, fsErrcode, files)
  | (true, _) =>
      match fsRemove files name ends.remove with
      | (removed, fsErrcode, files) => (!removed, fsErrcode, files)

/-- The two removals of `Delete`: its `errFlag`, the code, which the second one has set, and the
files. -/
def removeBoth (st : AtomicFileState) (newEnds baseEnds : RemovalEnds) : Bool × Nat × Files :=
  let (newFlag, _, files) := existsNotRemoved st.files st.entity.newFileName newEnds
  let (baseFlag, fsErrcode, files) := existsNotRemoved files st.entity.baseFileName baseEnds
  (newFlag || baseFlag, fsErrcode, files)

/-- `newFileName.clear()` and `baseFileName.clear()`. -/
def FsAtomicFileEntity.cleared : FsAtomicFileEntity := ⟨[], []⟩

/-- `Delete`. -/
def deleteFiles (st : AtomicFileState) (newEnds baseEnds : RemovalEnds) :
    AtomicFileResult × AtomicFileState :=
  match removeBoth st newEnds baseEnds with
  | (true, fsErrcode, files) => (.error (.errno fsErrcode), { st with files })
  | (false, _, files) => (.done, { st with files, entity := .cleared })

/-! ## The exporter -/

/-- Whether `napi_get_reference_value` and `napi_delete_reference` work. -/
structure NapiEnds where
  getReference : Bool := true
  deleteReference : Bool := true
  deriving DecidableEq

/-- A call of the exporter throws an error number, or returns. -/
abbrev Thrown := Option Nat

namespace AtomicFileNExporter

/-- The end of a call that has done its work, when the reference is deleted. -/
def deleted (napi : NapiEnds) : Thrown :=
  if napi.deleteReference then none else some eUnknownError

/-- `FinishWrite`. -/
def finishWrite (st : AtomicFileState) (napi : NapiEnds) (rename : Option SysErrno) :
    Thrown × AtomicFileState :=
  if napi.getReference = false then (some eUnknownError, st)
  else
    match rename, st.files st.entity.newFileName with
    | some _, _ => (some eUnknownError, st)
    | none, none => (some eUnknownError, st)
    | none, some content =>
        (deleted napi, { st with
          entity := resetNewFileName st.entity
          files := Function.update (Function.update st.files st.entity.newFileName none)
            st.entity.baseFileName (some content)
          writing := none })

/-- `FailWrite`. -/
def failWrite (st : AtomicFileState) (napi : NapiEnds) (remove : Option SysErrno) :
    Thrown × AtomicFileState :=
  if napi.getReference = false then (some eUnknownError, st)
  else
    match remove, st.files st.entity.newFileName with
    | some _, _ => (some eUnknownError, st)
    | none, none => (some eUnknownError, st)
    | none, some _ =>
        (deleted napi, { st with
          entity := resetNewFileName st.entity
          files := Function.update st.files st.entity.newFileName none
          writing := none })

/-- `Delete`, which goes on when it has thrown. -/
def deleteFiles (st : AtomicFileState) (newEnds baseEnds : RemovalEnds) :
    Thrown × AtomicFileState :=
  match removeBoth st newEnds baseEnds with
  | (errFlag, fsErrcode, files) =>
      (if errFlag then some (fsErrorNo fsErrcode) else none, { st with files, entity := .cleared })

end AtomicFileNExporter

/-! ## Calls -/

/-- The calls that both layers have. -/
inductive WriteEnd where
  | finishWrite (rename : Option SysErrno)
  | failWrite (remove : Option SysErrno)
  | delete (newEnds baseEnds : RemovalEnds)
  deriving DecidableEq

/-- A call on the `FsAtomicFile`. -/
def AtomicFileState.endWrite (st : AtomicFileState) : WriteEnd → AtomicFileResult × AtomicFileState
  | .finishWrite rename => finishWrite st (rename.map Subtype.val)
  | .failWrite remove => failWrite st (remove.map Subtype.val)
  | .delete newEnds baseEnds => deleteFiles st newEnds baseEnds

/-- A call of the exporter. -/
def AtomicFileState.endWriteN (st : AtomicFileState) (napi : NapiEnds) :
    WriteEnd → Thrown × AtomicFileState
  | .finishWrite rename => AtomicFileNExporter.finishWrite st napi rename
  | .failWrite remove => AtomicFileNExporter.failWrite st napi remove
  | .delete newEnds baseEnds => AtomicFileNExporter.deleteFiles st newEnds baseEnds

end FileApi.ModFs
