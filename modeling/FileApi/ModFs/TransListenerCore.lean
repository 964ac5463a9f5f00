import FileApi.Misc.Machine
import FileApi.Misc.Program
import FileApi.ModFs.FileSystem

/-!
# Remote copies

`CopyFileFromSoftBus` (`trans_listener_core.cpp:64-315`). A daemon puts what it receives into a
directory that is made for this copy, and calls `OnFileReceive`, `OnFinished` and `OnFailed` from
threads of its own, as often as it likes; then what is in the directory is copied to the sandbox
path, and the directory is removed. `remove_all` does not fail. The daemon puts nothing there any more
once it has called `OnFinished`.
-/

namespace FileApi.ModFs.TransListenerCore

open Compress

/-! ## What is received -/

/-- A regular file, and when it was written last. -/
structure TimedFile where
  bytes : List UInt8
  time : Nat
  deriving DecidableEq

inductive TimedNode where
  | directory
  | file (file : TimedFile)
  deriving DecidableEq

/-- What is in the directory of a copy, in the order in which a traversal comes to it. A place is the
names on the way to it, the last one first. -/
structure TempDir where
  entries : List (List PathName × TimedNode)
  nodup : (entries.map Prod.fst).Nodup
  named : ∀ entry ∈ entries, entry.1 ≠ []
  parent : ∀ name dir node, (name :: dir, node) ∈ entries → dir = [] ∨ (dir, .directory) ∈ entries

def TempDir.empty : TempDir := ⟨[], List.nodup_nil, nofun, nofun⟩

def TempDir.node (temp : TempDir) (place : List PathName) : Option TimedNode :=
  temp.entries.lookup place

/-- What is at the sandbox path and below it. -/
abbrev Target := List PathName → Option TimedNode

/-! ## The copy to the sandbox path -/

/-- What the calls of a copy fail with on a place, and what they leave there then; what time it is; and
what a name leads to that is not simply one in the directory of the copy. -/
structure CopyEnv where
  fails : List PathName → Option (Errno × Option TimedNode) := fun _ => none
  now : Nat := 0
  elsewhere : PathName → Option TimedNode := fun _ => none

section Copy

variable (env : CopyEnv)

/-- A call that writes a place. -/
def write (place : List PathName) (node : TimedNode) : EStateM Errno Target Unit := fun t =>
  match env.fails place with
  | some (errno, left) => .error errno (Function.update t place left)
  | none => .ok () (Function.update t place (some node))

/-- `filesystem::copy_file` with `update_existing`. -/
def copyFile (place : List PathName) (file : TimedFile) : EStateM Errno Target Unit := do
  match (← get) place with
  | none => write env place (.file ⟨file.bytes, env.now⟩)
  | some .directory => throw .einval
  | some (.file old) =>
      if old.time < file.time then write env place (.file ⟨file.bytes, env.now⟩)

/-- `filesystem::copy` with `recursive`, for one thing: a file goes into a directory that is there
under its name. -/
def copyEntry (entry : List PathName × TimedNode) : EStateM Errno Target Unit := do
  match entry.2, (← get) entry.1 with
  | .file file, some .directory => copyFile env (entry.1.headD [] :: entry.1) file
  | .file file, _ => copyFile env entry.1 file
  | .directory, none => write env entry.1 .directory
  | .directory, some .directory => pure ()
  | .directory, some (.file _) => throw .eisdir

/-- `filesystem::copy` with `recursive`, from one directory to another. -/
def copyEntries : List (List PathName × TimedNode) → EStateM Errno Target Unit
  | [] => pure ()
  | entry :: rest => do
      copyEntry env entry
      copyEntries rest

/-- `GetFileName`. -/
def getFileName (decode : PathName → PathName) (path : PathName) : PathName :=
  match path.reverse.span (· ≠ slash) with
  | (_, []) => []
  | (name, _ :: _) => decode (slash :: name.reverse)

/-- What `fileName` leads to behind the directory of the copy. -/
def received (temp : TempDir) (fileName : PathName) : Option TimedNode :=
  match fileName with
  | c :: name =>
      if c = slash ∧ name = [] then some .directory
      else if c = slash ∧ PlainName name then temp.node [name]
      else env.elsewhere fileName
  | [] => env.elsewhere fileName

/-- `CopyToSandBox`. -/
def copyToSandBox (fileName : PathName) (temp : TempDir) : EStateM Errno Target Unit := do
  match (← get) [] with
  | some .directory => copyEntries env temp.entries
  | there =>
      if fileName = [] then throw .eio
      else
        match received env temp fileName, there with
        | none, _ => throw .enoent
        | some (.file file), _ => copyFile env [] file
        -- without `recursive` a directory is not copied, and that is no error
        | some .directory, some (.file _) => throw .eisdir
        | some .directory, _ => pure ()

end Copy

/-! ## The threads -/

/-- What the uris say: the authority and the decoded path of the destination, and the path of the
source, with `SandboxHelper::Decode`. -/
structure CopyArgs where
  authority : PathName
  sandboxPath : PathName
  srcPath : PathName
  decode : PathName → PathName

def CopyArgs.fileName (args : CopyArgs) : PathName := getFileName args.decode args.srcPath

/-- `FILE_MANAGER_AUTHORITY`. -/
def fileManagerAuthority : PathName := [0x64, 0x6f, 0x63, 0x73]

/-- `MEDIA_AUTHORITY`. -/
def mediaAuthority : PathName := [0x6d, 0x65, 0x64, 0x69, 0x61]

/-- Whether the daemon puts the files where they belong itself. -/
def CopyArgs.isPublic (args : CopyArgs) : Prop :=
  args.authority = fileManagerAuthority ∨ args.authority = mediaAuthority

instance : DecidablePred CopyArgs.isPublic := fun _ => inferInstanceAs (Decidable (_ ∨ _))

/-- `copyResult`. -/
inductive CopyResult where
  | none | success | failed
  deriving DecidableEq

/-- `CopyEvent`. -/
structure CopyEvent where
  copyResult : CopyResult := .none
  errorCode : Int := 0
  deriving DecidableEq

/-- `OnFinished`, or `OnFailed` with its code. -/
inductive EndCall where
  | onFinished
  | onFailed (errorCode : Int)
  deriving DecidableEq

/-- What a call says of the copy. -/
def EndCall.copyEvent (event : CopyEvent) : EndCall → CopyEvent
  | .onFinished => { event with copyResult := .success }
  | .onFailed errorCode => ⟨.failed, errorCode⟩

/-- `softbusErr2ErrCodeTable`. -/
def softbusErr2ErrCodeTable : List (Int × Errno) :=
  [(-426114938, .other 1), (-426114937, .eio), (-426114936, .enomem), (-426114935, .other 101),
    (-426114934, .enoent), (-426114933, .eexist), (204, .ecanceled)]

/-- The result of `HandleCopyFailure`. -/
def copyFailure (errorCode : Int) : Errno := (softbusErr2ErrCodeTable.lookup errorCode).getD .eio

/-- What is returned behind `RmDir`. -/
inductive Ending where
  | failure
  | result (result : Option Errno)
  deriving DecidableEq

/-- Where `CopyFileFromSoftBus` stands. -/
inductive CopyPc where
  | creating
  | preparing
  /-- In `PrepareSession`. -/
  | calling
  | waiting
  | copying
  /-- In front of so many calls of `RmDir`, and one more. -/
  | removing (more : Nat) (ending : Ending)
  | returned (result : Option Errno)
  | thrown
  deriving DecidableEq

/-- The copying thread; what it has in common with those of the daemon; the calls of `OnFinished` and
`OnFailed` that have dropped the callback and do not yet have told so; and what the listener was told,
before the copy returned and after. -/
structure RemoteState where
  pc : CopyPc
  shared : Bool := false
  prepareFailed : Bool := false
  callback : Bool
  copyEvent : CopyEvent := {}
  calls : List EndCall := []
  finished : Bool := false
  created : Bool := false
  tempThere : Bool := false
  temp : TempDir := .empty
  dest : Target
  told : List (Nat × Nat) := []
  late : List (Nat × Nat) := []

def RemoteState.init (args : CopyArgs) (callback : Bool) (dest : Target) : RemoteState :=
  { pc := if args.isPublic then .preparing else .creating, callback := callback, dest := dest }

/-- What `create_directory` says. -/
inductive Created where
  | created
  | notCreated
  | fails (errno : Errno)
  deriving DecidableEq

inductive CopierMove where
  | createDirectory (outcome : Created)
  | prepareSession
  /-- `PrepareSession` returns, with an error or not. -/
  | prepared (fails : Bool)
  /-- `WaitForCopyResult` returns. -/
  | wakes
  /-- `exists` throws, of a name for the directory or of the sandbox path, or `is_directory` does. -/
  | throws
  | copyToSandBox (env : CopyEnv)
  /-- `RmDir`; whether `exists` fails. -/
  | rmDir (existsFails : Bool)

inductive DaemonMove where
  | puts (temp : TempDir)
  | onFileReceive (totalBytes processedBytes : Nat)
  /-- A call ends the copy: what it does with `callbackMutex_`. -/
  | endCall (call : EndCall)
  /-- What the call does with `cvMutex_`. -/
  | notify (call : EndCall)

inductive RemoteAction where
  | copier (move : CopierMove)
  | daemon (move : DaemonMove)

section Steps

variable (args : CopyArgs)

/-- `RmDir` and what comes behind it, or that at once where there is no directory. -/
def afterCopy (ending : Ending) (s : RemoteState) : RemoteState :=
  if args.isPublic then
    { s with pc := .returned (match ending with
        | .failure => some (copyFailure s.copyEvent.errorCode)
        | .result result => result) }
  else { s with pc := .removing 0 ending }

/-- A step of `CopyFileFromSoftBus`. -/
def copierStep (s : RemoteState) (move : CopierMove) : Option RemoteState :=
  match s.pc, move with
  | .creating, .throws => some { s with pc := .thrown }
  | .creating, .createDirectory outcome =>
      match outcome with
      | .fails _ => some { s with pc := .returned (some .eio) }
      -- the code of the error is then 0, so the session counts as prepared
      | .notCreated => some { s with pc := .waiting }
      | .created =>
          some { s with
            created := true
            tempThere := true
            pc := if slash ∈ args.sandboxPath then .preparing else .returned (some .eio) }
  | .preparing, .prepareSession => some { s with shared := true, pc := .calling }
  | .calling, .prepared fails =>
      if fails then some (afterCopy args (.result (some .eio)) { s with prepareFailed := true })
      else some { s with pc := .waiting }
  | .waiting, .wakes =>
      match s.copyEvent.copyResult with
      | .none => none
      | .failed => some (afterCopy args .failure s)
      | .success =>
          if args.isPublic then some { s with pc := .returned none } else some { s with pc := .copying }
  | .copying, .throws => some { s with pc := .thrown }
  | .copying, .copyToSandBox env =>
      match copyToSandBox env args.fileName s.temp s.dest with
      | .ok () dest => some { s with dest := dest, pc := .removing 0 (.result none) }
      | .error _ dest =>
          -- without a name of the source the directory is removed twice
          some { s with
            dest := dest
            pc := .removing (if args.fileName = [] then 1 else 0) (.result (some .eio)) }
  | .removing more ending, .rmDir existsFails =>
      let s := { s with tempThere := existsFails && s.tempThere }
      match more, ending with
      | more + 1, _ => some { s with pc := .removing more ending }
      | 0, .failure => some { s with pc := .returned (some (copyFailure s.copyEvent.errorCode)) }
      | 0, .result result => some { s with pc := .returned result }
  | _, _ => none

/-- A step of the daemon, once it has the listener. -/
def daemonStep (s : RemoteState) (move : DaemonMove) : Option RemoteState :=
  if ¬ s.shared then none
  else
    match move with
    | .puts temp => if s.tempThere ∧ ¬ s.finished then some { s with temp := temp } else none
    | .onFileReceive totalBytes processedBytes =>
        if ¬ s.callback then some s
        else
          match s.pc with
          | .returned _ => some { s with late := s.late ++ [(processedBytes, totalBytes)] }
          | _ => some { s with told := s.told ++ [(processedBytes, totalBytes)] }
    | .endCall call =>
        some { s with
          callback := false
          calls := call :: s.calls
          finished := s.finished || call = .onFinished }
    | .notify call =>
        if call ∈ s.calls then
          some { s with calls := s.calls.erase call, copyEvent := call.copyEvent s.copyEvent }
        else none

def remoteStep (s : RemoteState) : RemoteAction → Option RemoteState
  | .copier move => copierStep args s move
  | .daemon move => daemonStep s move

end Steps

end FileApi.ModFs.TransListenerCore
