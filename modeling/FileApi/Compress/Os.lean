import FileApi.Compress.Stream.File
import FileApi.Misc.Program

/-!
# The calls of the outside world

What extraction asks of the system: the calls on paths, the output files, and the callback that
reports progress. A path is its bytes, without the terminator. The state `W` is whatever the
system keeps, and `H` a file that is open.
-/

namespace FileApi.Compress

abbrev PathName := List UInt8

instance : LawfulBEq PathName := inferInstanceAs (LawfulBEq (List UInt8))

/-- The values of `errno` that `ConvertWriteErrno` tells apart. -/
inductive Errno where
  | enospc | eperm | eio | eacces | enoent | enametoolong | other
  deriving DecidableEq

/-- `ConvertWriteErrno`. -/
def convertWriteErrno (errno : Errno) (default : ArchiveErr) : ArchiveErr :=
  match errno with
  | .enospc => .noSpaceError
  | .eperm => .epermError
  | .eio => .eioError
  | .eacces => .eaccesError
  | .enoent => .enoentError
  | .enametoolong => .nameTooLongError
  | .other => default

/-- What `mkdir` returns. -/
inductive MkdirResult where
  | made | exists | nameTooLong | fails
  deriving DecidableEq

/-- How a function is left early: with an error code, or with its loop not at an end. -/
inductive Stop where
  | error (err : ArchiveErr)
  | fuel
  deriving DecidableEq

structure Os (W H : Type) where
  /-- `stat` and `S_ISDIR`. -/
  isDirectory : PathName → W → Bool × W
  /-- `stat`. -/
  stat : PathName → W → Bool × W
  /-- `access` with `F_OK`. -/
  access : PathName → W → Bool × W
  /-- `lstat` and `S_ISLNK`. -/
  isSymlink : PathName → W → Bool × W
  mkdir : PathName → W → MkdirResult × W
  remove : PathName → W → Bool × W
  unlink : PathName → W → Bool × W
  /-- The target, and the path of the link. -/
  symlink : PathName → PathName → W → Bool × W
  realpath : PathName → W → Except Errno PathName × W
  /-- `fopen` with `wb`. -/
  fopen : PathName → W → Except Errno H × W
  /-- `none` if everything was taken. -/
  fwrite : H → List UInt8 → W → Option Errno × W
  fclose : H → W → Bool × W
  /-- `ZipReaderUpdateProgress`: whether it returns `OH_ARCHIVE_PROGRESS_CANCEL`. -/
  cancels : W → Bool × W

/-- What `stat` tells about a path. -/
structure FileStat where
  isDirectory : Bool
  size : UInt64
  deriving DecidableEq

/-- What `lstat` tells about a path; the time is in the form of DOS. -/
structure LinkStat where
  mode : UInt32
  isLink : Bool
  dosModDateTime : UInt32
  deriving DecidableEq

/-- What adding files asks of the system. -/
structure SourceOs (W H : Type) where
  stat : PathName → W → Option FileStat × W
  lstat : PathName → W → Option LinkStat × W
  readlink : PathName → W → Option PathName × W
  /-- `access` with `F_OK`. -/
  access : PathName → W → Bool × W
  /-- `opendir`, and the names `readdir` gives. -/
  readdir : PathName → W → Option (List PathName) × W
  realpath : PathName → W → Except Errno PathName × W
  /-- `fopen` with `rb`. -/
  fopen : PathName → W → Except Errno H × W
  fread : H → Nat → W → Except Errno (List UInt8) × W
  fclose : H → W → Bool × W
  /-- `ZipGetCurrentDosModeDateTime`. -/
  currentDosDateTime : W → UInt32 × W
  /-- `ZipWriterUpdateProgress`: whether it returns `OH_ARCHIVE_PROGRESS_CANCEL`. -/
  cancels : W → Bool × W

abbrev Run (W α : Type) := EStateM Stop W α

/-- The status of a function that does not touch the outside world. -/
def liftStatus {W α : Type} : Except ArchiveErr α → Run W α
  | .ok a => pure a
  | .error err => throw (.error err)

theorem liftStatus_eq_ok {W α : Type} {status : Except ArchiveErr α} {w : W} {w' : W} {a : α} :
    (liftStatus status : Run W α) w = .ok a w' ↔ status = .ok a ∧ w = w' := by
  cases status with
  | ok b =>
    constructor
    · rintro ⟨⟩
      exact ⟨rfl, rfl⟩
    · rintro ⟨⟨⟩, rfl⟩
      rfl
  | error err =>
    constructor
    · nofun
    · rintro ⟨⟨⟩, -⟩

theorem liftStatus_bind_eq_ok {W α β : Type} {status : Except ArchiveErr α} {f : α → Run W β}
    {w w' : W} {b : β} :
    (liftStatus status >>= f) w = .ok b w' ↔ ∃ a, status = .ok a ∧ f a w = .ok b w' := by
  cases status with
  | ok a =>
    constructor
    · exact fun h => ⟨a, rfl, h⟩
    · rintro ⟨_, ⟨⟩, h⟩
      exact h
  | error err =>
    constructor
    · nofun
    · rintro ⟨_, ⟨⟩, -⟩

/-- A program that does not get stuck in a loop, with the status it returns. -/
def status {W α : Type} (x : Run W α) : Run W (Except ArchiveErr α) := fun w =>
  match x w with
  | .ok a w' => .ok (.ok a) w'
  | .error (.error err) w' => .ok (.error err) w'
  | .error .fuel w' => .error .fuel w'

theorem status_eq_ok {W α : Type} {x : Run W α} {w w' : W} {a : α} :
    status x w = .ok (.ok a) w' ↔ x w = .ok a w' := by
  rw [status]
  cases x w with
  | ok b mid => simp
  | error stop mid =>
    cases stop with
    | error err => simp
    | fuel => simp

/-- What a loop with too little fuel does not return. -/
def liftFuel {W α : Type} : Option α → Run W α
  | some a => pure a
  | none => throw .fuel

theorem liftFuel_bind_eq_ok {W α β : Type} {result : Option α} {f : α → Run W β}
    {w w' : W} {b : β} :
    (liftFuel result >>= f) w = .ok b w' ↔ ∃ a, result = some a ∧ f a w = .ok b w' := by
  cases result with
  | some a =>
    constructor
    · exact fun h => ⟨a, rfl, h⟩
    · rintro ⟨_, ⟨⟩, h⟩
      exact h
  | none =>
    constructor
    · nofun
    · rintro ⟨_, ⟨⟩, -⟩

end FileApi.Compress
