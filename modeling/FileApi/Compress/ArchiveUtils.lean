import FileApi.Compress.Os
import FileApi.Compress.Zip.Format

/-!
# Output paths

The path functions of `archive_utils.c` (34-548) and of the file stream
(`stream_file_posix.c:27-144`). A C string is its bytes without the terminator; `dirname` and
`snprintf_s` are those of the C library. The loop of `NormalizePath` is given without
`maxOutputLen` and with it; `NormalizePath` is static and its callers hand it names out of buffers
of `ZIP_FILE_NAME_LEN_MAX` bytes, so `maxOutputLen` is an `Int` and not an `int32_t`.
-/

namespace FileApi.Compress

open Program Zip

/-- `/` and `.`. -/
def slash : UInt8 := 0x2f
def dot : UInt8 := 0x2e

/-! ## `NormalizePath` -/

/-- The variables of the loop: whether `source` is still at the start, the bytes from `source` on,
and the output, its last byte first. -/
structure NormalizeState where
  atStart : Bool
  source : PathName
  output : PathName
  deriving DecidableEq

/-- `PathHandleDotDotSearchBack`: the output in front of the byte it stops at, and whether that
byte is a slash. -/
def pathHandleDotDotSearchBack : PathName → PathName × Bool
  | [] => ([], false)
  | [b] => ([], b = slash)
  | b :: rest => if b = slash then (rest, true) else pathHandleDotDotSearchBack rest

/-- `(*source)++` where there is output to wait for: a slash is not the first byte put out. -/
def skipFirst (source output : PathName) : PathName :=
  if source ≠ [] ∧ output = [] then source.tail else source

/-- `PathHandleDot`, with `check` behind the dot. -/
def pathHandleDot (st : NormalizeState) (check : PathName) : Option NormalizeState :=
  match check with
  | [] =>
      if st.atStart = false ∧ st.output ≠ [] then
        some ⟨false, [], st.source.headD 0 :: st.output⟩
      else none
  | b :: _ => if b = slash then some ⟨false, skipFirst check st.output, st.output⟩ else none

/-- `PathHandleDotDot`, with `check` behind the two dots. -/
def pathHandleDotDot (st : NormalizeState) (check : PathName) : Option NormalizeState :=
  if check = [] ∨ check.head? = some slash then
    let (output, atSlash) := pathHandleDotDotSearchBack st.output
    let source := skipFirst check output
    some ⟨false, source, if atSlash ∧ source = [] then slash :: output else output⟩
  else none

/-- `NormalizePathDot`, at `check`. -/
def normalizePathDot (st : NormalizeState) (check : PathName) : Option NormalizeState :=
  match check with
  | [] => none
  | b :: check =>
      if b ≠ dot then none
      else
        match pathHandleDot st check with
        | some st => some st
        | none =>
            match check with
            | [] => none
            | b :: check => if b ≠ dot then none else pathHandleDotDot st check

/-- One turn of the loop of `NormalizePath`, with `b` the byte at `source`. -/
def normalizeStep (st : NormalizeState) (b : UInt8) (rest : PathName) : NormalizeState :=
  let check := if b = slash then rest else st.source
  let copied : NormalizeState := ⟨false, rest, b :: st.output⟩
  if st.atStart ∨ st.output = [] ∨ b = slash then
    if check.head? = some slash then ⟨false, rest, st.output⟩
    else (normalizePathDot st check).getD copied
  else copied

/-- The loop of `NormalizePath`. Every turn takes at least a byte of the source. -/
def normalizeLoop : Nat → NormalizeState → NormalizeState
  | 0, st => st
  | fuel + 1, st =>
      match st.source with
      | [] => st
      | b :: rest => normalizeLoop fuel (normalizeStep st b rest)

/-- What a turn of the loop does to `maxOutputLen`: a byte that is put out takes one, and
`PathHandleDotDotSearchBack` gives back all it goes over but the first. -/
def maxOutputChange (st : NormalizeState) (b : UInt8) (rest : PathName) : Int :=
  let check := if b = slash then rest else st.source
  let searched : Int :=
    if st.output = [] then 0
    else st.output.length - 1 - (pathHandleDotDotSearchBack st.output).1.length
  if st.atStart ∨ st.output = [] ∨ b = slash then
    if check.head? = some slash then 0
    else if normalizePathDot st check = none then -1
    else
      match pathHandleDot st check.tail with
      | none => searched
      | some _ => if check.tail = [] then -1 else 0
  else -1

/-- The loop of `NormalizePath` with `maxOutputLen`. -/
def normalizeLoopMax : Nat → NormalizeState → Int → NormalizeState
  | 0, st, _ => st
  | fuel + 1, st, maxOutputLen =>
      match st.source with
      | [] => st
      | b :: rest =>
          if 1 < maxOutputLen then
            normalizeLoopMax fuel (normalizeStep st b rest)
              (maxOutputLen + maxOutputChange st b rest)
          else st

/-- `NormalizePath`; `none` for the empty string. -/
def normalizePath (path : PathName) : Option PathName :=
  if path = [] then none
  else some (normalizeLoop path.length ⟨true, path, []⟩).output.reverse

/-- `GetOutputFilePath`, with buffers of `ZIP_FILE_NAME_LEN_MAX` bytes. -/
def getOutputFilePath (fileName outDir : PathName) : Except ArchiveErr PathName :=
  match normalizePath fileName with
  | none => .error .internalError
  | some normalizedPath =>
      let completePath := outDir ++ slash :: normalizedPath
      if ZIP_FILE_NAME_LEN_MAX ≤ completePath.length then .error .fullPathTooLong
      else
        match normalizePath completePath with
        | none => .error .internalError
        | some completePath =>
            if ZIP_FILE_NAME_LEN_MAX ≤ completePath.length then .error .internalError
            else .ok completePath

/-! ## The parts of a path -/

/-- The bytes behind the last slash, and those in front of it if there is one. -/
def splitLastSlash (path : PathName) : Option PathName × PathName :=
  let fileName := (path.reverse.takeWhile (· ≠ slash)).reverse
  if slash ∈ path then (some (path.take (path.length - fileName.length - 1)), fileName)
  else (none, fileName)

/-- `GetParentDirectory`, into a buffer of `ZIP_FILE_NAME_LEN_MAX` bytes. -/
def getParentDirectory (filePath : PathName) : Option PathName :=
  if ZIP_FILE_NAME_LEN_MAX ≤ filePath.length then none
  else
    match (splitLastSlash filePath).1 with
    | none => some [dot]
    | some parentPath => some (if parentPath = [] then [dot] else parentPath)

/-- `GetFileName`. -/
def getFileName (filePath : PathName) : PathName := (splitLastSlash filePath).2

/-- `dirname`. -/
def dirname (path : PathName) : PathName :=
  let strip (p : PathName) : PathName := p.dropWhile (· = slash)
  match strip path.reverse with
  | [] => if path = [] then [dot] else [slash]
  | trimmed =>
      match trimmed.dropWhile (· ≠ slash) with
      | [] => [dot]
      | parent =>
          match strip parent with
          | [] => [slash]
          | parent => parent.reverse

/-- `ValidatePathPrefix`. -/
def validatePathPrefix (path base : PathName) : Bool :=
  base = [] ∨ base <+: path ∧
    (base.getLast? = some slash ∨ (path.drop base.length).head? = some slash ∨
      path.length = base.length)

section

variable {W H : Type} (os : Os W H)

/-! ## Directories -/

/-- The loop of `CreateDirectory`: `temp` is the part of the path in front of `p`. -/
def createDirectoryLoop : Nat → PathName → PathName → Run W Unit
  | 0, _, p => if p = [] then pure () else throw .fuel
  | fuel + 1, temp, p =>
      if p = [] then pure ()
      else do
        let name := p.takeWhile (· ≠ slash)
        let p := p.dropWhile (· ≠ slash)
        if ZIP_FILE_NAME_LEN_MAX - 1 < temp.length + name.length then
          throw (.error .nameTooLongError)
        let temp := temp ++ name
        if p ≠ [] ∧ ZIP_FILE_NAME_LEN_MAX - 1 ≤ temp.length then throw (.error .nameTooLongError)
        let (temp, p) := if p = [] then (temp, p) else (temp ++ [slash], p.tail)
        if 1 < temp.length then
          if ¬ (← call (os.isDirectory temp)) then
            match ← call (os.mkdir temp) with
            | .made => pure ()
            | .exists => pure ()
            | .nameTooLong => throw (.error .nameTooLongError)
            | .fails => throw (.error .paramError)
        createDirectoryLoop fuel temp p

/-- `CreateDirectory` without a base. -/
def createDirectory (path : PathName) : Run W Unit := do
  if ← call (os.isDirectory path) then pure ()
  else
    match path with
    | [] => pure ()
    | b :: rest =>
        if b = slash then createDirectoryLoop os path.length [slash] rest
        else createDirectoryLoop os path.length [] path

/-- `CreateParentDirectory` without a base. -/
def createParentDirectory (filePath : PathName) : Run W Unit :=
  if ZIP_FILE_NAME_LEN_MAX ≤ filePath.length then throw (.error .internalError)
  else
    match (splitLastSlash filePath).1 with
    | none => pure ()
    | some [] => pure ()
    | some parentPath => createDirectory os parentPath

/-! ## New names -/

/-- `TryNewFileNameCount` from `counter` on, which has `MAX_RENAME_COUNT` as its limit. -/
def tryNewFileNameCount (dir base ext : PathName) : Nat → Nat → Run W PathName
  | 0, _ => throw (.error .existError)
  | fuel + 1, counter => do
      let dir' := if dir.take 2 = [dot, slash] then dir.drop 2 else dir
      let number : PathName := (toString counter).toUTF8.toList
      let tempPath := dir' ++ base ++ [0x20, 0x28] ++ number ++ [0x29] ++ ext
      if ZIP_FILE_NAME_LEN_MAX ≤ tempPath.length then throw (.error .existError)
      else if ← call (os.access tempPath) then tryNewFileNameCount dir base ext fuel (counter + 1)
      else pure tempPath

/-- `GenerateNewFilename`. -/
def generateNewFilename (originalPath : PathName) : Run W PathName :=
  let (parent, filename) := splitLastSlash originalPath
  let dir := match parent with
    | none => [dot, slash]
    | some parent => parent ++ [slash]
  let stem := (filename.reverse.dropWhile (· ≠ dot)).reverse
  let (base, ext) :=
    if dot ∈ filename then (stem.dropLast, filename.drop (stem.length - 1)) else (filename, [])
  tryNewFileNameCount os dir base ext (1000 - 2) 2

/-! ## Links -/

/-- `GetSymlinkParentDir`, joined with the target; a target that starts at the root is itself. -/
def symlinkFullPath (targetPath entryName resolvedBaseDir : PathName) : PathName :=
  if targetPath.head? = some slash then targetPath
  else resolvedBaseDir ++ slash :: dirname entryName ++ slash :: targetPath

/-- `ValidateSymlinkTarget`; `PATH_MAX` bytes for each of the paths. -/
def validateSymlinkTarget (targetPath entryName outDir : PathName) :
    Run W (Except ArchiveErr Unit) :=
  if targetPath = [] then pure (.error .internalError)
  else do
    match ← call (os.realpath outDir) with
    | .error _ => pure (.error .internalError)
    | .ok resolvedBaseDir =>
        let fullPath := symlinkFullPath targetPath entryName resolvedBaseDir
        if ZIP_FILE_NAME_LEN_MAX ≤ fullPath.length then pure (.error .internalError)
        else
          match normalizePath fullPath with
          | none => pure (.error .internalError)
          | some normalizedPath =>
              if validatePathPrefix normalizedPath resolvedBaseDir then pure (.ok ())
              else pure (.error .symlinkError)

/-! ## The output stream -/

/-- `FileStreamOpen` with `OPEN_MODE_CREATE`. -/
def fileStreamOpen (path : PathName) : Run W H := do
  if ← call (os.access path) then discard (call (os.remove path))
  match getParentDirectory path with
  | none => throw (.error .openError)
  | some parentPath =>
      match ← call (os.realpath parentPath) with
      | .error errno => throw (.error (convertWriteErrno errno .openError))
      | .ok resolvedPath =>
          let fullPath := resolvedPath ++ slash :: getFileName path
          if ZIP_FILE_NAME_LEN_MAX ≤ fullPath.length then throw (.error .openError)
          else
            match ← call (os.fopen fullPath) with
            | .error errno => throw (.error (convertWriteErrno errno .openError))
            | .ok handle => pure handle

end

end FileApi.Compress
