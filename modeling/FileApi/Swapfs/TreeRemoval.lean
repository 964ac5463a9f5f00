import FileApi.ModFs.FileSystem
import FileApi.Swapfs.Control

/-!
# The removal of a session's tree

`RemoveSessionTree`, `RemoveEntryAt`, `RemoveTreeContentsAt` and `CleanupSessionEntry`
(`swapfs_session_cleaner.cpp:44-97`, `171-306`) on a volume with links. An open directory is its
place; a path is that of a C string. Every call fails as the environment says, and each is made at
most once for a path or a place. Of a removal all states are kept, so that one that is broken off
is a state on the way.
-/

namespace FileApi.Swapfs

open Compress FileTree ModFs

/-- `MAX_PATH_LENGTH`. -/
def maxPathLength : Nat := 4095

/-- `MAX_CLEANUP_DEPTH`. -/
def maxCleanupDepth : Nat := 16

/-- `SESSION_MARKER`: `.swapfs-session`. -/
def sessionMarker : PathName :=
  [0x2e, 0x73, 0x77, 0x61, 0x70, 0x66, 0x73, 0x2d, 0x73, 0x65, 0x73, 0x73, 0x69, 0x6f, 0x6e]

/-- `SESSION_PREFIX`: `session-`. -/
def sessionPrefix : PathName := [0x73, 0x65, 0x73, 0x73, 0x69, 0x6f, 0x6e, 0x2d]

/-- `CREATING_PREFIX`: `.creating-`. -/
def creatingPrefix : PathName := [0x2e, 0x63, 0x72, 0x65, 0x61, 0x74, 0x69, 0x6e, 0x67, 0x2d]

/-- `session.lock`. -/
def sessionLockName : PathName :=
  [0x73, 0x65, 0x73, 0x73, 0x69, 0x6f, 0x6e, 0x2e, 0x6c, 0x6f, 0x63, 0x6b]

/-- The calls on a path. -/
inductive PathCall where
  | realpath | lstat | unlink | openDir | rmdir
  deriving DecidableEq

/-- The calls on a directory that is open, or on an entry of it. -/
inductive DirCall where
  | dup | fdopendir | markerStat | stat | unlink | openDir | unlinkMarker | rmdir
  | sessionStat | openSession | sessionMarkerStat | openLock
  deriving DecidableEq

/-- What calls fail with; behind how many entries `readdir` fails, if it does; which locks cannot be
taken; and how many links are followed. -/
structure RemovalSystem where
  fails : PathCall → PathName → Option Errno := fun _ _ => none
  failsAt : DirCall → List PathName → Option Errno := fun _ _ => none
  stops : List PathName → Option Nat := fun _ => none
  locked : List PathName → Bool := fun _ => false
  limit : Nat := 0

/-- The volume, and the volumes it has been, the last one first. -/
structure Trail where
  now : FileVolume
  past : List FileVolume := []

def Trail.remove (t : Trail) (place : List PathName) : Trail :=
  ⟨t.now.removeTree place, t.now :: t.past⟩

/-! ## Paths -/

/-- `IsAbsolutePath`. -/
def isAbsolutePath (path : PathName) : Bool :=
  path.head? = some slash ∧ path.length ≤ maxPathLength

/-- `IsUnderRoot`. -/
def isUnderRoot (canonicalPath root : PathName) : Bool :=
  let canonicalRoot := (root.reverse.dropWhile (· = slash)).reverse
  if canonicalRoot = [] then false
  else canonicalPath = canonicalRoot ∨ canonicalRoot ++ [slash] <+: canonicalPath

/-- The path of a place without links. -/
def pathOf (place : List PathName) : PathName :=
  if place = [] then [slash] else place.reverse.flatMap (slash :: ·)

/-- Behind the last slash. -/
def lastName (path : PathName) : PathName := (path.reverse.takeWhile (· ≠ slash)).reverse

/-- In front of the last slash; a slash if there is nothing. -/
def parentOf (path : PathName) : PathName :=
  let front := (path.reverse.dropWhile (· ≠ slash)).reverse.dropLast
  if front = [] then [slash] else front

namespace RemovalSystem

variable (sys : RemovalSystem)

/-- `realpath`. -/
def realpath (v : FileVolume) (path : PathName) : Option PathName :=
  if (sys.fails .realpath path).isSome then none
  else
    match lookupAt v.tree [] sys.limit path with
    | .there place => some (pathOf place)
    | _ => none

/-- `ResolveRemovalPath`. -/
def resolveRemovalPath (v : FileVolume) (path safeRoot : PathName) : Option PathName :=
  if !isAbsolutePath path || !isAbsolutePath safeRoot then none
  else if path.getLast? = some slash then none
  else if lastName path = [dot] ∨ lastName path = [dot, dot] then none
  else
    match sys.realpath v safeRoot, sys.realpath v (parentOf path) with
    | some realRoot, some realParent =>
        if isUnderRoot realParent realRoot then some (realParent ++ slash :: lastName path) else none
    | _, _ => none

/-! ## Trees -/

/-- `unlinkat` of what is no directory. -/
def unlinkEntry (place : List PathName) (t : Trail) : Bool × Trail :=
  if (sys.failsAt .unlink place).isSome then (false, t) else (true, t.remove place)

/-- `unlinkat` of a directory. -/
def rmdirEntry (place : List PathName) (t : Trail) : Bool × Trail :=
  if (sys.failsAt .rmdir place).isSome ∨ t.now.children place ≠ [] then (false, t)
  else (true, t.remove place)

/-- `unlinkat` of the marker, which need not be there. -/
def unlinkMarker (dir : List PathName) (t : Trail) : Bool × Trail :=
  match sys.failsAt .unlinkMarker (sessionMarker :: dir) with
  | some errno => (errno = .enoent, t)
  | none =>
      match t.now.tree (sessionMarker :: dir) with
      | none => (true, t)
      | some .directory => (false, t)
      | some _ => (true, t.remove (sessionMarker :: dir))

/-- Whether there is a marker at a place, as `fstatat` says. -/
def keepMarker (dir : List PathName) (name : PathName) (v : FileVolume) : Bool :=
  name = sessionMarker && (sys.failsAt .markerStat (name :: dir)).isNone &&
    match v.tree (name :: dir) with
    | some (.file _) => true
    | _ => false

/-- The loop over the entries, with `RemoveEntryAt` for one of them. -/
def removeEntries (entryAt : PathName → Trail → Bool × Trail) (dir : List PathName) :
    List PathName → Bool × Trail → Bool × Trail
  | [], r => r
  | name :: rest, (removed, t) =>
      if sys.keepMarker dir name t.now then removeEntries entryAt dir rest (removed, t)
      else
        let r := entryAt name t
        removeEntries entryAt dir rest (removed && r.1, r.2)

/-- `RemoveTreeContentsAt`. -/
def removeTreeContentsAt (entryAt : PathName → Trail → Bool × Trail) (dir : List PathName)
    (t : Trail) : Bool × Trail :=
  if (sys.failsAt .dup dir).isSome ∨ (sys.failsAt .fdopendir dir).isSome then (false, t)
  else
    let names := t.now.children dir
    match sys.stops dir with
    | some n => (false, (removeEntries sys entryAt dir (names.take n) (true, t)).2)
    | none =>
        match removeEntries sys entryAt dir names (true, t) with
        | (false, t) => (false, t)
        | (true, t) => sys.unlinkMarker dir t

/-- `RemoveEntryAt`, with `MAX_CLEANUP_DEPTH + 1 - depth` levels left. -/
def removeEntryAt : Nat → List PathName → PathName → Trail → Bool × Trail
  | 0, _, _, t => (false, t)
  | levels + 1, parent, name, t =>
      if (sys.failsAt .stat (name :: parent)).isSome then (false, t)
      else
        match t.now.tree (name :: parent) with
        | none => (false, t)
        | some .directory =>
            if (sys.failsAt .openDir (name :: parent)).isSome then (false, t)
            else
              match sys.removeTreeContentsAt (removeEntryAt levels (name :: parent))
                (name :: parent) t with
              | (false, t) => (false, t)
              | (true, t) => sys.rmdirEntry (name :: parent) t
        | some _ => sys.unlinkEntry (name :: parent) t

/-- The place of a path without links at its end. -/
def placeOf (v : FileVolume) (path : PathName) : Option (List PathName) :=
  entryAt v.tree [] sys.limit path

/-- `rmdir`. -/
def rmdir (canonicalPath : PathName) (t : Trail) : Except SwapfsErr Unit × Trail :=
  if (sys.fails .rmdir canonicalPath).isSome then (.error .pathUnavailable, t)
  else
    match sys.placeOf t.now canonicalPath with
    | none => (.error .pathUnavailable, t)
    | some place =>
        if t.now.tree place = some .directory ∧ t.now.children place = [] then
          (.ok (), t.remove place)
        else (.error .pathUnavailable, t)

/-- `RemoveSessionTree`. -/
def removeSessionTree (path safeRoot : PathName) (t : Trail) : Except SwapfsErr Unit × Trail :=
  match sys.resolveRemovalPath t.now path safeRoot with
  | none => (.error .pathUnavailable, t)
  | some canonicalPath =>
      match sys.fails .lstat canonicalPath, sys.placeOf t.now canonicalPath with
      | some errno, _ => (if errno = .enoent then .ok () else .error .pathUnavailable, t)
      | none, none => (.error .pathUnavailable, t)
      | none, some place =>
          match t.now.tree place with
          | none => (.ok (), t)
          | some .directory =>
              if (sys.fails .openDir canonicalPath).isSome then (.error .pathUnavailable, t)
              else
                match sys.removeTreeContentsAt (sys.removeEntryAt maxCleanupDepth place) place t with
                | (false, t) => (.error .pathUnavailable, t)
                | (true, t) => sys.rmdir canonicalPath t
          | some _ =>
              if (sys.fails .unlink canonicalPath).isSome then (.error .pathUnavailable, t)
              else (.ok (), t.remove place)

/-! ## A later clean -/

/-- Whether `GetSessionStateAt` says `INACTIVE`; a `flock` that is interrupted is tried again. -/
def isInactive (session : List PathName) (v : FileVolume) : Bool :=
  match sys.failsAt .openLock (sessionLockName :: session) with
  | some errno => errno = .enoent
  | none =>
      match v.tree (sessionLockName :: session) with
      | none => true
      | some (.file _) => !sys.locked (sessionLockName :: session)
      | some _ => false

/-- Whether a session has its marker, as `fstatat` says. -/
def hasMarker (session : List PathName) (v : FileVolume) : Bool :=
  (sys.failsAt .sessionMarkerStat (sessionMarker :: session)).isNone &&
    match v.tree (sessionMarker :: session) with
    | some (.file _) => true
    | _ => false

/-- `CleanupSessionEntry`, in the swap root at `root`. -/
def cleanupSessionEntry (root : List PathName) (name : PathName) (t : Trail) : Bool × Trail :=
  let isSession := sessionPrefix.isPrefixOf name
  if !isSession && !creatingPrefix.isPrefixOf name then (false, t)
  else if (sys.failsAt .sessionStat (name :: root)).isSome ∨
      t.now.tree (name :: root) ≠ some .directory then (false, t)
  else if (sys.failsAt .openSession (name :: root)).isSome then (false, t)
  else if isSession && !sys.hasMarker (name :: root) t.now then (false, t)
  else if !sys.isInactive (name :: root) t.now then (false, t)
  else sys.removeEntryAt (maxCleanupDepth + 1) root name t

end RemovalSystem

end FileApi.Swapfs
