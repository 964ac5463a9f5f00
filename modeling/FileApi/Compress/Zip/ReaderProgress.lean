import FileApi.Compress.Zip.ReaderExtract

/-!
# The progress of an extraction

`ZipReaderUpdateProgress` (`zip_reader.c:738-762`) and the functions that call it, this time with
the arithmetic: `ZipReaderSaveFile`, `ZipReaderExtractEntry` and `ZipReaderExtractAllFiles`
(`zip_reader.c:764-811`, `860-922`). What the handler is told is kept in the order of the calls,
the last one first, and so are the entries that are done. Without a handler `ZipReaderSaveFile` is
that of `ReaderExtract` (`zipReaderSaveFile_plain`).
-/

namespace FileApi.Compress.Zip.Progress

open Program Zlib

def PROGRESS_UPDATE_INTERVAL : UInt64 := 1024 * 1024
def PROGRESS_PERCENT : UInt64 := 100

/-- A call of the handler, with what it is about and the percentage it is told, or an entry that is
done. `headerSize` is the size of the local header with its name and extra field. -/
inductive ProgressEvent where
  | reported (totalIn compressedSize : UInt64) (headerSize : Nat) (percent : Int)
  | extracted (compressedSize : UInt64) (headerSize : Nat)
  deriving DecidableEq

/-- The fields of `struct ZipReaderExtractContext` behind the percentage: the two sums, and the
lengths in `localFileHeader`. `events` are those of the run so far, the last one first. -/
structure ReadProgress where
  progressPrevious : UInt64 := 0
  progressUpdated : UInt64 := 0
  fileNameLength : UInt16 := 0
  extraFieldLength : UInt16 := 0
  events : List ProgressEvent := []
  deriving DecidableEq

/-- `sizeof(struct LocalFileHeader)` and the two lengths. -/
def ReadProgress.headerSize (progress : ReadProgress) : Nat :=
  30 + progress.fileNameLength.toNat + progress.extraFieldLength.toNat

/-- The context beside the rest of the system. -/
structure Watched (W : Type) where
  world : W
  progress : ReadProgress := {}
  deriving DecidableEq

/-- A call that leaves the context alone. -/
def Watched.other {W α : Type} (f : W → α × W) (s : Watched W) : α × Watched W :=
  ((f s.world).1, { s with world := (f s.world).2 })

/-- The system beside a context. -/
def watchedOs {W H : Type} (os : Os W H) : Os (Watched W) H where
  isDirectory path := Watched.other (os.isDirectory path)
  stat path := Watched.other (os.stat path)
  access path := Watched.other (os.access path)
  isSymlink path := Watched.other (os.isSymlink path)
  mkdir path := Watched.other (os.mkdir path)
  remove path := Watched.other (os.remove path)
  unlink path := Watched.other (os.unlink path)
  symlink target path := Watched.other (os.symlink target path)
  realpath path := Watched.other (os.realpath path)
  fopen path := Watched.other (os.fopen path)
  fwrite handle bytes := Watched.other (os.fwrite handle bytes)
  fclose handle := Watched.other (os.fclose handle)
  cancels := Watched.other os.cancels

/-- `progressHandlerWithData`, which may be `NULL`: it is told a percentage, and says whether to
cancel. -/
abbrev ProgressHandler (W : Type) := Option (Int → W → Bool × W)

/-- The percentage: `uint64_t` arithmetic, narrowed to an `int`, and at most a hundred. -/
def progressOf (progressUpdated progressTotal : UInt64) : Int :=
  min (Int.bmod (progressUpdated * PROGRESS_PERCENT / progressTotal).toNat (2 ^ 32)) 100

section

variable {W H : Type} {D : Decoder} (I : Inflate D) (os : Os W H) (handler : ProgressHandler W)
  (fuel : Nat) (reader : ZipReader)

/-- `ZipReaderUpdateProgress`: whether it returns `OH_ARCHIVE_PROGRESS_CANCEL`. -/
def zipReaderUpdateProgress (entry : ZipReaderEntry) (totalIn : UInt64) (force : Bool)
    (s : Watched W) : Bool × Watched W :=
  let progressTotal := reader.offsetOfCentralDir
  match handler with
  | none => (false, s)
  | some progressHandlerWithData =>
      if progressTotal = 0 then (false, s)
      else
        let compressedSize := entry.entryInfo.compressedSize
        let headerSize := s.progress.headerSize
        let bytes :=
          (if totalIn > compressedSize then compressedSize else totalIn) + UInt64.ofNat headerSize
        let progressUpdated := s.progress.progressPrevious + bytes
        if progressUpdated - s.progress.progressUpdated > PROGRESS_UPDATE_INTERVAL ∨ force then
          let percent := progressOf progressUpdated progressTotal
          let event := .reported totalIn compressedSize headerSize percent
          let (cancel, world) := progressHandlerWithData percent s.world
          (cancel, ⟨world, { s.progress with
            progressUpdated, events := event :: s.progress.events }⟩)
        else (false, s)

/-- What `ZipReaderProcessLocalHeader` reads into `localFileHeader`. -/
def readLocalFileHeader (entry : ZipReaderEntry) (s : Watched W) : Watched W :=
  match zipSeekAndCheckLocalHeader reader.baseStream entry.entryInfo.relativeOffsetOfLocalHeader
      reader.offsetCorrection with
  | .error _ => s
  | .ok stream =>
      let bytes := (streamRead stream 30).1
      if bytes.length ≠ 30 then s
      else
        let header := LocalFileHeader.ofBytes bytes
        { s with progress := { s.progress with
            fileNameLength := header.fileNameLength, extraFieldLength := header.extraFieldLength } }

/-- `ZipReaderOpenEntry`. -/
def zipReaderOpenEntry (entry : ZipReaderEntry) (outPath : PathName) :
    Run (Watched W) (OpenEntry I.State × Option H) := do
  call fun s => ((), readLocalFileHeader reader entry s)
  Zip.zipReaderOpenEntry I (watchedOs os) reader entry outPath

variable {I}

/-- The loop of `ZipReaderSaveFile`. -/
def zipReaderSaveLoop (entry : ZipReaderEntry) (outDir newFilePath : PathName) (handle : H) :
    Nat → OpenEntry I.State → Run (Watched W) (OpenEntry I.State)
  | 0, _ => throw .fuel
  | turns + 1, st => do
      match ← liftFuel (zipReaderReadData fuel entry.entryInfo st) with
      | .error _ => closeEntryWith (watchedOs os) handle .readError
      | .ok (bytes, st) =>
          let write :=
            if bytes ≠ [] then zipReaderWriteData (watchedOs os) handle bytes st else pure st
          let st ← write
          if ← call (zipReaderUpdateProgress handler reader entry st.compressStream.totalIn false)
          then cancelEntry (watchedOs os) outDir newFilePath handle
          else if bytes ≠ [] then zipReaderSaveLoop entry outDir newFilePath handle turns st
          else pure st

/-- `ZipReaderSaveFile`. -/
def zipReaderSaveFile (entry : ZipReaderEntry) (outDir newFilePath : PathName) (handle : H)
    (st : OpenEntry I.State) : Run (Watched W) (OpenEntry I.State) := do
  if ← call (zipReaderUpdateProgress handler reader entry st.compressStream.totalIn true)
  then cancelEntry (watchedOs os) outDir newFilePath handle
  else
    let st ← zipReaderSaveLoop os handler fuel reader entry outDir newFilePath handle fuel st
    discard (call (zipReaderUpdateProgress handler reader entry st.compressStream.totalIn true))
    discard (call ((watchedOs os).fclose handle))
    liftStatus (zipReaderVerifyEntryCrc entry st)
    return st

variable (I)

/-- `ZipReaderExtractEntry`. -/
def zipReaderExtractEntry (entry : ZipReaderEntry) (outDir outPath : PathName) :
    Run (Watched W) Unit :=
  if zipReaderEntryIsDirectory entry ∧ ¬ zipReaderEntryIsSymlink entry.centralDirHeader then
    createDirectory (watchedOs os) outPath
  else do
    let newFilePath ← zipReaderAutoRenamePath (watchedOs os) outPath
    createParentDirectory (watchedOs os) newFilePath
    match ← zipReaderOpenEntry I os reader entry newFilePath with
    | (st, none) => zipReaderCreateSymlink (watchedOs os) fuel entry outDir newFilePath st
    | (st, some handle) =>
        discard (zipReaderSaveFile os handler fuel reader entry outDir newFilePath handle st)

/-- The entry is added to `progressPrevious`. -/
def addExtracted (entry : ZipReaderEntry) (s : Watched W) : Watched W :=
  let compressedSize := entry.entryInfo.compressedSize
  let headerSize := s.progress.headerSize
  { s with progress := { s.progress with
      progressPrevious := s.progress.progressPrevious + (compressedSize + UInt64.ofNat headerSize)
      events := .extracted compressedSize headerSize :: s.progress.events } }

/-- What `ZipReaderExtractAllFiles` does with one entry. -/
def zipReaderExtractOne (outDir : PathName) (entry : ZipReaderEntry) : Run (Watched W) Unit := do
  let outPath ← liftStatus (getOutputFilePath entry.entryInfo.name outDir)
  zipReaderExtractEntry I os handler fuel reader entry outDir outPath
  call fun s => ((), addExtracted entry s)

/-- The sums are set to zero; `localFileHeader` stays as it was. -/
def startProgress (s : Watched W) : Watched W :=
  { s with progress := { s.progress with
      progressPrevious := 0, progressUpdated := 0, events := [] } }

/-- `ZipReaderExtractAllFiles`. -/
def zipReaderExtractAllFiles (convert : List UInt8 → Option CString) (outDir : PathName) :
    Run (Watched W) (List ZipReaderEntry) := do
  call fun s => ((), startProgress s)
  Zip.zipReaderExtractAllFiles convert reader
    (zipReaderExtractOne I os handler fuel reader outDir)

end

end FileApi.Compress.Zip.Progress
