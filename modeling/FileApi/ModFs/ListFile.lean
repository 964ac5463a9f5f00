import FileApi.Compress.ArchiveUtils
import FileApi.Misc.Errno

/-!
# Listing a directory

`listFile` (`listfile_core.cpp`), its extension with a filter object (`listfile_ext_core.cpp`) and
the one for Cangjie (`list_file.cpp`): the options, the filter that `scandir` calls, and the walk
into the directories. The three have the walk in common. `fails` is what `scandir` fails with, and
`fnmatch` is that of the C library. The `d_type` of an entry is its kind, and a filter only looks at
names and what `stat` says.
-/

namespace FileApi.ModFs.ListFile

open Compress

/-! ## Directories -/

/-- `d_type`. -/
inductive DType where
  | regular | directory | other
  deriving DecidableEq

structure Dirent where
  name : PathName
  type : DType
  deriving DecidableEq

/-- What `stat` says of a file. -/
structure FileInfo where
  size : Int
  mtime : Int
  deriving DecidableEq

/-- The entries of a directory in the order of `readdir`; `info` is `none` where `stat` fails. -/
inductive Listing where
  | nil
  | file (name : PathName) (info : Option FileInfo) (rest : Listing)
  | other (name : PathName) (info : Option FileInfo) (rest : Listing)
  | directory (name : PathName) (info : Option FileInfo) (entries rest : Listing)
  deriving DecidableEq

namespace Listing

def dirents : Listing → List (Dirent × Option FileInfo)
  | nil => []
  | file name info rest => (⟨name, .regular⟩, info) :: rest.dirents
  | other name info rest => (⟨name, .other⟩, info) :: rest.dirents
  | directory name info _ rest => (⟨name, .directory⟩, info) :: rest.dirents

def names (l : Listing) : List PathName := l.dirents.map fun d => d.1.name

end Listing

/-- `.` or `..`. -/
def isDots (name : PathName) : Bool := name = [dot] ∨ name = [dot, dot]

/-- Names have no slash, no two entries have one name, and only directories are called `.` or
`..`. -/
def Listing.WellFormed : Listing → Prop
  | nil => True
  | file name _ rest =>
      slash ∉ name ∧ isDots name = false ∧ name ∉ rest.names ∧ rest.WellFormed
  | other name _ rest =>
      slash ∉ name ∧ isDots name = false ∧ name ∉ rest.names ∧ rest.WellFormed
  | directory name _ entries rest =>
      slash ∉ name ∧ name ∉ rest.names ∧ entries.WellFormed ∧ rest.WellFormed

/-- A directory with all that is below it. -/
structure Directory where
  entries : Listing
  valid : entries.WellFormed

/-! ## Options -/

/-- A `double` by the comparisons that are made with it: with zero, with a time behind it, and, for
Cangjie, with the value that stands for none. -/
structure Moment where
  negative : Bool
  before : Int → Bool
  unset : Bool

/-- `DEFAULT_MODIFY_AFTER`. -/
def defaultModifyAfter : Moment := ⟨true, fun t => -1 < t, false⟩

/-- `DEFAULT_SIZE`. -/
def defaultSize : Int := -1

/-- `FileFilter`, as far as it is asked. -/
structure FileFilter where
  suffix : List PathName := []
  displayName : List PathName := []
  fileSizeOver : Int := defaultSize
  lastModifiedAfter : Moment := defaultModifyAfter

structure FsFilter where
  suffix : Option (List PathName) := none
  displayName : Option (List PathName) := none
  fileSizeOver : Option Int64 := none
  lastModifiedAfter : Option Moment := none

structure FsListFileOptions where
  recursion : Bool := false
  listNum : Option Int64 := some 0
  filter : Option FsFilter := none

/-- `ListFileExtOptions`; the filter object is asked with a name. -/
structure ListFileExtOptions where
  recursion : Bool := false
  listNum : Option Int64 := some 0
  fileFilter : Option (PathName → Bool) := none

structure CFilter where
  suffix : List PathName
  displayName : List PathName
  fileSizeOver : Int64
  lastModifiedAfter : Moment

structure CListFileOptions where
  recursion : Bool
  listNum : Int32
  filter : CFilter

/-- `MAX_SUFFIX_LENGTH`. -/
def maxSuffixLength : Nat := 256

/-- `isalnum`. -/
def isalnum (b : UInt8) : Bool :=
  0x30 ≤ b ∧ b ≤ 0x39 ∨ 0x41 ≤ b ∧ b ≤ 0x5a ∨ 0x61 ≤ b ∧ b ≤ 0x7a

/-- `CheckSuffix`. -/
def checkSuffix (suffixs : List PathName) : Bool :=
  suffixs.all fun suffix =>
    if suffix.length ≤ 1 ∨ maxSuffixLength < suffix.length then false
    else suffix.head? = some dot ∧ suffix.tail.all isalnum

/-- `ValidFileFilterParam`. -/
def validFileFilterParam (fsFilter : FsFilter) : Option FileFilter := do
  let suffix ← match fsFilter.suffix with
    | none => some []
    | some suffixs => if ¬ checkSuffix suffixs ∨ suffixs = [] then none else some suffixs
  let displayName ← match fsFilter.displayName with
    | none => some []
    | some displayNames => if displayNames = [] then none else some displayNames
  let fileSizeOver ← match fsFilter.fileSizeOver with
    | none => some defaultSize
    | some size => if size < 0 then none else some size.toInt
  let lastModifiedAfter ← match fsFilter.lastModifiedAfter with
    | none => some defaultModifyAfter
    | some moment => if moment.negative then none else some moment
  some ⟨suffix, displayName, fileSizeOver, lastModifiedAfter⟩

/-- `GetFileFilterParam`. -/
def getFileFilterParam (cFilter : CFilter) : Option FileFilter :=
  if cFilter.suffix ≠ [] ∧ ¬ checkSuffix cFilter.suffix then none
  else
    some
      { suffix := cFilter.suffix
        displayName := cFilter.displayName
        fileSizeOver := if cFilter.fileSizeOver ≠ -1 then cFilter.fileSizeOver.toInt else defaultSize
        lastModifiedAfter :=
          if cFilter.lastModifiedAfter.unset then defaultModifyAfter
          else cFilter.lastModifiedAfter }

/-! ## The filters -/

/-- The name from its last dot on. -/
def suffixOf (name : PathName) : Option PathName :=
  if dot ∈ name then some (dot :: (name.reverse.takeWhile (· ≠ dot)).reverse) else none

/-- `FilterSuffix`. -/
def filterSuffix (suffixs : List PathName) (filename : Dirent) : Bool :=
  if filename.type = .directory then true
  else
    match suffixOf filename.name with
    | none => false
    | some suffix => suffix ∈ suffixs

/-- `FilterDisplayname`. -/
def filterDisplayname (fnmatch : PathName → PathName → Bool) (displaynames : List PathName)
    (filename : Dirent) : Bool :=
  displaynames.any fun pattern => fnmatch pattern filename.name

/-- `FilterFilesizeOver`. -/
def filterFilesizeOver (fFileSizeOver : Int) (info : Option FileInfo) : Bool :=
  if fFileSizeOver < 0 then true
  else
    match info with
    | none => false
    | some info => fFileSizeOver < info.size

/-- `FilterLastModifyTime`. -/
def filterLastModifyTime (lastModifiedAfter : Moment) (info : Option FileInfo) : Bool :=
  if lastModifiedAfter.negative then true
  else
    match info with
    | none => false
    | some info => lastModifiedAfter.before info.mtime

/-- `FilterResult`, without its counter. -/
def filterResult (fnmatch : PathName → PathName → Bool) (filter : FileFilter)
    (filename : Dirent) (info : Option FileInfo) : Bool :=
  if ¬ filterSuffix filter.suffix filename ∧ filter.suffix ≠ [] then false
  else if ¬ filterDisplayname fnmatch filter.displayName filename ∧ filter.displayName ≠ [] then
    false
  else if ¬ filterFilesizeOver filter.fileSizeOver info then false
  else if ¬ filterLastModifyTime filter.lastModifiedAfter info then false
  else true

/-- `FilterResult` of the extension, without its counter, in the directory `path`. -/
def filterResultExt (fileFilter : Option (PathName → Bool)) (recursion : Bool)
    (originalPath path : PathName) (filename : Dirent) : Bool :=
  match fileFilter with
  | none => true
  | some matched =>
      matched
        (if recursion then
          if path = originalPath then slash :: filename.name
          else path.drop originalPath.length ++ slash :: filename.name
        else filename.name)

/-! ## The walk -/

/-- `OptionArgs`, but for the path and the counter; `result` is what `FilterResult` gives in a
directory. -/
structure OptionArgs where
  result : PathName → Dirent → Option FileInfo → Bool
  listNum : Int32
  recursion : Bool

section Walk

variable (args : OptionArgs)

/-- `FilterFunc` in the directory `path`, and `countNum` behind it. -/
def filterFunc (path : PathName) (countNum : Nat) (filename : Dirent) (info : Option FileInfo) :
    Bool × Nat :=
  if isDots filename.name then (false, countNum)
  else if (countNum : Int) < args.listNum.toInt ∨ args.listNum = 0 then
    if filename.type = .directory ∧ args.recursion then (true, countNum)
    else if args.result path filename info then (true, countNum + 1)
    else (false, countNum)
  else (false, countNum)

/-- Which entries the filter lets through, and `countNum` behind them. -/
def filterAll (path : PathName) : List (Dirent × Option FileInfo) → Nat → List Bool × Nat
  | [], countNum => ([], countNum)
  | (filename, info) :: rest, countNum =>
      let (matched, countNum) := filterFunc args path countNum filename info
      let (marks, countNum) := filterAll path rest countNum
      (matched :: marks, countNum)

variable (fails : PathName → Option Errno)

/-- `scandir` with the filter. -/
def scandir (path : PathName) (entries : Listing) (countNum : Nat) :
    Except Errno (List Bool × Nat) :=
  orFail (fails path) (.ok (filterAll args path entries.dirents countNum))

/-- `FilterFileRes`. -/
def filterFileRes (path : PathName) (entries : Listing) : Except Errno (List PathName) := do
  let (marks, _) ← scandir args fails path entries 0
  pure ((entries.names.zip marks).filterMap fun (name, matched) => if matched then some name else none)

/-- The loop of `RecursiveFunc` over the entries that `scandir` let through, in which it calls
itself. -/
def recursiveLoop : Listing → PathName → List Bool → Nat → Except Errno (List PathName × Nat)
  | .nil, _, _, countNum => pure ([], countNum)
  | .file name _ rest, path, marks, countNum => do
      let (dirents, countNum) ← recursiveLoop rest path marks.tail countNum
      pure (if marks.headD false then ((path ++ slash :: name) :: dirents, countNum)
        else (dirents, countNum))
  | .other _ _ rest, path, marks, countNum => recursiveLoop rest path marks.tail countNum
  | .directory name _ entries rest, path, marks, countNum =>
      if marks.headD false then do
        let (inner, countNum) ← scandir args fails (path ++ slash :: name) entries countNum
        let (below, countNum) ← recursiveLoop entries (path ++ slash :: name) inner countNum
        let (dirents, countNum) ← recursiveLoop rest path marks.tail countNum
        pure (below ++ dirents, countNum)
      else recursiveLoop rest path marks.tail countNum

/-- `RecursiveFunc`. -/
def recursiveFunc (path : PathName) (entries : Listing) (countNum : Nat) :
    Except Errno (List PathName × Nat) := do
  let (marks, countNum) ← scandir args fails path entries countNum
  recursiveLoop args fails entries path marks countNum

/-- What the three do with good options; the paths of a walk are cut behind `path`. -/
def listEntries (path : PathName) (entries : Listing) : Except Errno (List PathName) :=
  if args.recursion then do
    let (dirents, _) ← recursiveFunc args fails path entries 0
    pure (dirents.map fun name => name.drop path.length)
  else filterFileRes args fails path entries

end Walk

/-! ## The three functions -/

variable (fnmatch : PathName → PathName → Bool)

/-- The options behind `g_optionArgs.Clear()`. -/
def clearedArgs : OptionArgs := ⟨fun _ => filterResult fnmatch {}, 0, false⟩

/-- A `listNum` that is not negative, as the `int` it is put into. -/
def validListNum (listNum : Option Int64) : Option Int32 :=
  match listNum with
  | none => some 0
  | some listNum => if listNum < 0 then none else some listNum.toInt32

/-- `ValidOptionParam`. -/
def validOptionParam (opt : Option FsListFileOptions) : Option OptionArgs :=
  match opt with
  | none => some (clearedArgs fnmatch)
  | some op => do
      let listNum ← validListNum op.listNum
      let filter ← (op.filter.map validFileFilterParam).getD (some {})
      some ⟨fun _ => filterResult fnmatch filter, listNum, op.recursion⟩

/-- `ValidOptionParam` of the extension. -/
def validOptionParamExt (path : PathName) (options : Option ListFileExtOptions) :
    Option OptionArgs :=
  match options with
  | none => some ⟨fun _ _ _ => true, 0, false⟩
  | some op => do
      let listNum ← validListNum op.listNum
      some ⟨fun dir filename _ => filterResultExt op.fileFilter op.recursion path dir filename,
        listNum, op.recursion⟩

/-- The options as `ListFileImpl::ListFile` takes them. -/
def validCOptions (options : CListFileOptions) : Option OptionArgs :=
  if options.listNum < 0 then none
  else (getFileFilterParam options.filter).map fun filter =>
    ⟨fun _ => filterResult fnmatch filter, options.listNum, options.recursion⟩

/-- A call of `DoListFile`, of `DoListFileExt` or of `ListFileImpl::ListFile`. -/
inductive Request where
  | listFile (opt : Option FsListFileOptions)
  | listFileExt (options : Option ListFileExtOptions)
  | cjListFile (options : CListFileOptions)

namespace Request

def args (path : PathName) : Request → Option OptionArgs
  | listFile opt => validOptionParam fnmatch opt
  | listFileExt options => validOptionParamExt path options
  | cjListFile options => validCOptions fnmatch options

/-- The `listNum` that is asked for. -/
def listNum : Request → Int
  | listFile opt => ((opt.bind (·.listNum)).getD 0).toInt
  | listFileExt options => ((options.bind (·.listNum)).getD 0).toInt
  | cjListFile options => options.listNum.toInt

/-- The same request for all the files. -/
def unlimited : Request → Request
  | listFile opt => listFile (opt.map fun op => { op with listNum := some 0 })
  | listFileExt options => listFileExt (options.map fun op => { op with listNum := some 0 })
  | cjListFile options => cjListFile { options with listNum := 0 }

def run (fails : PathName → Option Errno) (path : PathName) (root : Directory)
    (request : Request) : Except Errno (List PathName) :=
  match request.args fnmatch path with
  | none => .error .einval
  | some args => listEntries args fails path root.entries

end Request

end FileApi.ModFs.ListFile
