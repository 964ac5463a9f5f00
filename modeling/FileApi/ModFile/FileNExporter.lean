import FileApi.Misc.CString
import FileApi.ModFile.FileSystem
import FileApi.ModFile.Uri

/-!
# The requests of `system.file`

The `Exec` and `Comp` steps of `file_n_exporter.cpp` for copy, move, delete, list, read and write. An
`Exec` step leaves a result and an error type, and the `Comp` step calls what the application gave it.
-/

namespace FileApi.ModFile

open Compress Program Zip

def SUCCESS : Int := 0
def FAILED : Int := -1
def FILE_IO_ERROR : Int := 300
def FILE_PATH_ERROR : Int := 301

/-- What an `int32_t` holds of a number. -/
def int32 (n : Int) : Int := n.bmod (2 ^ 32)

/-! ## Callbacks -/

/-- A call of one of the functions of the application. -/
inductive Answer (α : Type) where
  | success (obj : Option α)
  | fail (errorProp : String) (errorCode : Int)
  | complete
  deriving DecidableEq

/-- Which functions the application gave. -/
structure Callbacks where
  success : Bool
  fail : Bool
  complete : Bool
  deriving DecidableEq

section

variable {α : Type} (callbacks : Callbacks)

/-- `CallBackSuccess`. -/
def callBackSuccess (obj : Option α) : List (Answer α) :=
  if callbacks.success then [.success obj] else []

/-- `CallBackError`. -/
def callBackError (errorProp : String) (errorCode : Int) : List (Answer α) :=
  if callbacks.fail then [.fail errorProp errorCode] else []

/-- `CallComplete`. -/
def callComplete : List (Answer α) := if callbacks.complete then [.complete] else []

end

/-- `result` and `errorType` of the callback info. -/
structure Outcome where
  result : Int := FAILED
  errorType : Int := FILE_IO_ERROR
  deriving DecidableEq

/-- The `Comp` steps of copy, move, delete and the two reads: what to call for each error type. -/
def answerOutcome {α : Type} (failed : String) (callbacks : Callbacks) (outcome : Outcome)
    (obj : Option α) : List (Answer α) :=
  (if outcome.result = SUCCESS then callBackSuccess callbacks obj
    else if outcome.errorType = FILE_IO_ERROR then callBackError callbacks failed FILE_IO_ERROR
    else if outcome.errorType = FILE_PATH_ERROR then
      callBackError callbacks "file not exist" FILE_PATH_ERROR
    else []) ++ callComplete callbacks

/-- The `Comp` steps of the two writes. -/
def answerWrite (callbacks : Callbacks) (outcome : Outcome) : List (Answer Unit) :=
  (if outcome.result = SUCCESS then callBackSuccess callbacks none
    else if outcome.errorType = FILE_IO_ERROR then
      callBackError callbacks "write file failed" FILE_IO_ERROR
    else []) ++ callComplete callbacks

section

variable (env : Env)

/-- `GetRealPath`: the path is not touched if it fails. -/
abbrev getRealPath (path : PathName) : Run (Except Errno PathName) := env.realpath path

/-- The path behind `GetRealPath`. -/
def realOr (real : Except Errno PathName) (path : PathName) : PathName :=
  match real with
  | .ok absPath => absPath
  | .error _ => path

/-! ## Copy and move -/

/-- `FileCopy`. Its `ret` is a `bool`, so `FILE_IO_ERROR` makes it `true`, which is 1. -/
def fileCopy (srcPath dstPath : PathName) : Run Int := do
  let ret : Int := 1
  match ← getRealPath env srcPath with
  | .error _ => return ret
  | .ok src =>
      let first ← getRealPath env dstPath
      if first = .error .enoent then
        let sfd ← env.openRead src
        match ← env.stat src with
        | .error _ => return FILE_IO_ERROR
        | .ok attrSrc =>
            let dest := uriToAbsolute dstPath
            let ofd ← env.openWrite dest
            match sfd, ofd with
            | .ok sfd, .ok ofd =>
                match ← env.sendfile ofd sfd attrSrc.size with
                | .ok _ => return SUCCESS
                | .error _ =>
                    let _ ← env.remove dest
                    return ret
            | _, _ => return FILE_IO_ERROR
      else
        match ← getRealPath env (realOr first dstPath) with
        | .ok dest => return if dest = src then SUCCESS else FILE_IO_ERROR
        | .error _ => return ret

/-- `DirCopy`: only the directory itself. -/
def dirCopy (srcPath dstPath : PathName) : Run Int := do
  let real ← getRealPath env srcPath
  if real = .error .enoent then return FILE_PATH_ERROR
  else
    let src := realOr real srcPath
    let realDest ← getRealPath env dstPath
    if realDest = .error .enoent then
      match ← env.stat src with
      | .error _ => return FILE_IO_ERROR
      | .ok attrSrc =>
          if attrSrc.directory = false then return FILE_IO_ERROR
          else
            match ← env.mkdir (uriToAbsolute dstPath) with
            | .error _ => return FILE_IO_ERROR
            | .ok _ => return SUCCESS
    else return if realOr realDest dstPath = src then SUCCESS else FILE_IO_ERROR

/-- `CopyExec` and `MoveExec` up to `stat`, and the outcome of what is done with a file and with a
directory. -/
def withStat (url : PathName) (file directory : PathName → Run Int) : Run Outcome := do
  let real ← getRealPath env url
  if real = .error .enoent then return { errorType := FILE_PATH_ERROR }
  else
    let path := realOr real url
    match ← env.stat path with
    | .error _ => return { errorType := FILE_IO_ERROR }
    | .ok statbf =>
        let retval ← (if statbf.directory then directory else file) path
        return if retval = SUCCESS then { result := SUCCESS } else { errorType := retval }

def copyExec (url urlDst : PathName) : Run Outcome :=
  withStat env url (fun path => fileCopy env path urlDst) fun path => dirCopy env path urlDst

/-- One entry of the loop of `DirMove`; `again` is `DirMove`. -/
def dirMoveEntry (again : PathName → PathName → Run Int) (src dest : PathName)
    (entp : ModFs.DirEntry) : Run Int := do
  let srcBuf := src ++ [slash] ++ entp.name
  let dstBuf := dest ++ [slash] ++ entp.name
  match entp.type with
  | .directory => return if (← again srcBuf dstBuf) = SUCCESS then SUCCESS else FILE_IO_ERROR
  | .regular =>
      if (← fileCopy env srcBuf dstBuf) = SUCCESS then
        let _ ← env.remove srcBuf
        return SUCCESS
      else return FILE_IO_ERROR
  | .link => return SUCCESS

/-- The loop of `DirMove`, left at the first entry that fails. -/
def dirMoveEntries (again : PathName → PathName → Run Int) (src dest : PathName) :
    List ModFs.DirEntry → Run Int
  | [] => do
      let _ ← env.rmdir src
      return SUCCESS
  | entp :: rest => do
      if (← dirMoveEntry env again src dest entp) = SUCCESS then dirMoveEntries again src dest rest
      else return FILE_IO_ERROR

/-- `DirMove`. -/
def dirMove : Nat → PathName → PathName → Run Int
  | 0, _, _ => throw .fuel
  | fuel + 1, srcPath, dstPath => do
      let real ← getRealPath env srcPath
      if real = .error .enoent then return FILE_PATH_ERROR
      else
        let src := realOr real srcPath
        let res ← getRealPath env dstPath
        if res.toBool = true ∧ realOr res dstPath = src then return SUCCESS
        else if res ≠ .error .enoent then return FILE_PATH_ERROR
        else
          match ← env.stat src with
          | .error _ => return FILE_IO_ERROR
          | .ok attrSrc =>
              if attrSrc.directory = false then return FILE_IO_ERROR
              else
                let dest := uriToAbsolute dstPath
                match ← env.mkdir dest with
                | .error _ => return FILE_IO_ERROR
                | .ok _ =>
                    match ← env.opendir src with
                    | .error _ => return FILE_IO_ERROR
                    | .ok entries => dirMoveEntries env (dirMove fuel) src dest entries

/-- A file that is moved: it is copied, and then removed at its path. -/
def fileMove (path urlDst : PathName) : Run Int := do
  let retval ← fileCopy env path urlDst
  if retval = SUCCESS then
    let _ ← env.remove path
  return retval

def moveExec (fuel : Nat) (url urlDst : PathName) : Run Outcome :=
  withStat env url (fun path => fileMove env path urlDst) fun path => dirMove env fuel path urlDst

def copyComp (callbacks : Callbacks) (originDst : PathName) (outcome : Outcome) :
    List (Answer PathName) :=
  answerOutcome "copy file failed" callbacks outcome (some originDst)

def moveComp (callbacks : Callbacks) (originDst : PathName) (outcome : Outcome) :
    List (Answer PathName) :=
  answerOutcome "move file failed" callbacks outcome (some originDst)

/-! ## Delete -/

def deleteExec (url : PathName) : Run Outcome := do
  match ← getRealPath env url with
  | .error .enoent => return { errorType := FILE_PATH_ERROR }
  | .error _ => return { errorType := FILE_IO_ERROR }
  | .ok path =>
      match ← env.remove path with
      | .ok _ => return { result := SUCCESS, errorType := FAILED }
      | .error _ => return { errorType := FILE_IO_ERROR }

def deleteComp (callbacks : Callbacks) (outcome : Outcome) : List (Answer Unit) :=
  answerOutcome "delete file failed" callbacks outcome none

/-! ## List -/

structure FileInfo where
  length : Int
  lastModifiedTime : Int
  type : String
  uri : PathName
  deriving DecidableEq

/-- The entry of the list for a path; `junk` is what `tmp` holds if `stat` fails. -/
def fileInfo (junk : Stat) (ph : PathName) (r : Except Errno Stat) : FileInfo :=
  let tmp := match r with
    | .ok stat => stat
    | .error _ => junk
  { length := int32 tmp.size
    lastModifiedTime := tmp.mtime * 1000 + tmp.mtimeNsec.tdiv 1000000
    type := match r with
      | .ok stat => if stat.directory then "dir" else "file"
      | .error _ => ""
    uri := ph }

/-- The loop over the names. -/
def statAll : Nat → List PathName → Run (List FileInfo)
  | _, [] => return []
  | i, ph :: fileNames => do
      let r ← env.stat ph
      return fileInfo (env.junk i) ph r :: (← statAll (i + 1) fileNames)

/-- The callback info of `list`. -/
structure Listing where
  outcome : Outcome
  url : PathName
  fileList : List FileInfo := []
  deriving DecidableEq

def listExec (url : PathName) : Run Listing := do
  let statPath ← getRealPath env url
  match statPath with
  | .error .enoent => return ⟨{ errorType := FILE_PATH_ERROR }, url, []⟩
  | .error _ => return ⟨{ errorType := FILE_IO_ERROR }, url, []⟩
  | .ok path =>
      match ← env.stat path with
      | .error _ => return ⟨{ errorType := FILE_IO_ERROR }, url, []⟩
      | .ok buf =>
          if buf.directory = false then return ⟨{ result := SUCCESS, errorType := FAILED }, url, []⟩
          else
            match ← env.opendir path with
            | .error _ => return ⟨{ errorType := FILE_IO_ERROR }, path, []⟩
            | .ok entries =>
                let fileList ← statAll env 0 (entries.map fun entry => path ++ [slash] ++ entry.name)
                return ⟨{ result := SUCCESS, errorType := FAILED }, path, fileList⟩

/-- `ConvertUri`: the path with the directory it starts with replaced by the uri. -/
def convertUri (path originPath originUri : PathName) : PathName :=
  if originPath <:+: path then
    (if originUri.getLast? = some slash then originUri.dropLast else originUri) ++
      path.drop originPath.length
  else ascii "error"

def listComp (callbacks : Callbacks) (originUri : PathName) (info : Listing) :
    List (Answer (List FileInfo)) :=
  (if info.outcome.result = SUCCESS then
      callBackSuccess callbacks (some (info.fileList.map fun fi =>
        { fi with uri := convertUri fi.uri info.url originUri }))
    else if info.outcome.errorType = FILE_PATH_ERROR then
      callBackError callbacks "file not exist" FILE_PATH_ERROR
    else if info.outcome.errorType = FILE_IO_ERROR then
      callBackError callbacks "list file failed" FILE_IO_ERROR
    else []) ++ callComplete callbacks

/-! ## Write -/

/-- `WriteTextExec`: a path that is not there is taken as it is. -/
def writeTextExec (url text : PathName) (append : Bool) : Run Outcome := do
  let statPath ← getRealPath env url
  if statPath.toBool = true ∨ statPath = .error .enoent then
    let path := realOr statPath url
    match ← if append then env.openWrite path else env.openTrunc path with
    | .error _ => return {}
    | .ok fd =>
        match ← env.write fd (if append then none else some 0) text with
        | .ok _ => return { result := SUCCESS }
        | .error _ => return {}
  else return {}

def writeTextComp (callbacks : Callbacks) (outcome : Outcome) : List (Answer Unit) :=
  answerWrite callbacks outcome

/-- Where `lseek` with `SEEK_CUR` leads from the beginning: a negative position is not taken. -/
def lseekCur (position : Int) : Nat := position.toNat

/-- `WriteArrayBufferExec`. -/
def writeArrayBufferExec (url buf : PathName) (append : Bool) (position : Int) : Run Outcome := do
  let statPath ← getRealPath env url
  if statPath.toBool = true ∨ statPath = .error .enoent then
    let path := realOr statPath url
    match ← if append then env.openWrite path else env.openTrunc path with
    | .error _ => return {}
    | .ok fd =>
        match ← env.write fd (if append then none else some (lseekCur position)) buf with
        | .ok _ => return { result := SUCCESS }
        | .error _ => return {}
  else return {}

def writeArrayBufferComp (callbacks : Callbacks) (outcome : Outcome) : List (Answer Unit) :=
  answerWrite callbacks outcome

/-! ## Read -/

/-- The callback info of `readText`. -/
structure ReadText where
  outcome : Outcome
  contents : List UInt8 := []
  deriving DecidableEq

def readTextExec (url : PathName) : Run ReadText := do
  match ← getRealPath env url with
  | .error .enoent => return ⟨{ errorType := FILE_PATH_ERROR }, []⟩
  | .error _ => return ⟨{}, []⟩
  | .ok path =>
      let fdg ← env.openRead path
      let result ← env.stat path
      match fdg, result with
      | .ok fd, .ok buf =>
          env.makeUnique (buf.size + 1)
          match ← env.read fd 0 buf.size with
          | .ok bytes => return ⟨{ result := SUCCESS }, cstr bytes⟩
          | .error _ => return ⟨{}, []⟩
      | _, _ => return ⟨{}, []⟩

def readTextComp (callbacks : Callbacks) (info : ReadText) : List (Answer (List UInt8)) :=
  answerOutcome "read file failed" callbacks info.outcome (some info.contents)

/-- What the build decides: whether `WEARABLE_PRODUCT` is defined, and whether `char` has a sign. -/
structure Build where
  wearable : Bool
  signedChar : Bool
  deriving DecidableEq

/-- The callback info of `readArrayBuffer`: the buffer, or the string that begins in it. -/
structure ReadBuffer where
  outcome : Outcome
  len : Int := 0
  contents : List UInt8 := []
  deriving DecidableEq

/-- `begin` and `len`, from the size of the file. -/
def readBegin (size position : Int) : Int := if size < position then size else position

def readLen (size position length : Int) : Int :=
  int32 (if length = 0 then size - readBegin size position else length)

/-- `ReadArrayBufferExec`. The memory of `buffer` is zero before the bytes come. -/
def readArrayBufferExec (build : Build) (url : PathName) (position length : Int) :
    Run ReadBuffer := do
  match ← getRealPath env url with
  | .error .enoent => return ⟨{ errorType := FILE_PATH_ERROR }, 0, []⟩
  | .error _ => return ⟨{}, 0, []⟩
  | .ok path =>
      let fdg ← env.openRead path
      let result ← env.stat path
      match fdg, result with
      | .ok fd, .ok buf =>
          let len := readLen buf.size position length
          env.makeUnique (int32 (len + 1))
          match ← env.read fd (lseekCur (readBegin buf.size position)) len with
          | .ok bytes =>
              let buffer := bytes ++ List.replicate (len.toNat + 1 - bytes.length) 0
              return ⟨{ result := SUCCESS }, len, if build.wearable then buffer else cstr buffer⟩
          | .error _ => return ⟨{}, 0, []⟩
      | _, _ => return ⟨{}, 0, []⟩

/-- A `char` as an `int32_t`. -/
def charValue (build : Build) (c : UInt8) : Int :=
  if build.signedChar then (c.toNat : Int).bmod (2 ^ 8) else c.toNat

/-- An element of the contents. The string has its terminator behind its bytes, and what is behind
that is not its own. -/
def elementOf (build : Build) (contents : List UInt8) (i : Nat) : Option Int :=
  ((contents ++ [0])[i]?).map (charValue build)

/-- The loop of `ReadArrayBufferComp`. -/
def elements (build : Build) (info : ReadBuffer) : List (Option Int) :=
  (List.range info.len.toNat).map (elementOf build info.contents)

def readArrayBufferComp (build : Build) (callbacks : Callbacks) (info : ReadBuffer) :
    List (Answer (List (Option Int))) :=
  answerOutcome "read file failed" callbacks info.outcome (some (elements build info))

end

end FileApi.ModFile
