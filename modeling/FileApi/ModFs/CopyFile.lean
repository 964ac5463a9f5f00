import FileApi.Compress.Posix
import FileApi.Misc.ByteFile
import Mathlib.Logic.Function.Basic

/-!
# `copyFile`

`CopyFileCore::DoCopyFile` (`copy_file_core.cpp:33-222`). A file is an inode: several paths may lead
to it, and descriptors may be open on it. How the calls end is given with the call; the position of
the source's descriptor does not matter, as `sendfile` is given an offset. A path that leads to no
file leads nowhere.
-/

namespace FileApi.ModFs.CopyFile

open Compress

/-- `MAX_SIZE`. -/
def maxSize : Nat := 0x7ffff000

/-- A code of an error, which is not 0. -/
abbrev ErrorCode := { e : Int // e ≠ 0 }

def enoentCode : Int := 2
def eioCode : Int := 5
def ebadfCode : Int := 9
def enomemCode : Int := 12
def eexistCode : Int := 17
def einvalCode : Int := 22

/-! ## Files -/

/-- The bytes of the files by their inodes, and the inodes that paths lead to. -/
structure InodeTable where
  names : PathName → Option Nat
  data : List (List UInt8)

structure OpenFile where
  inode : Nat
  pos : Nat := 0
  deriving DecidableEq

/-- `FileInfo`: a path or a descriptor. -/
inductive FileInfo where
  | path (path : PathName)
  | fd (file : OpenFile)
  deriving DecidableEq

namespace InodeTable

variable (t : InodeTable)

/-- The file that a path leads to. -/
def lookup (path : PathName) : Option Nat := (t.names path).filter (· < t.data.length)

/-- The bytes of a file. -/
def content (inode : Nat) : List UInt8 := (t.data[inode]?).getD []

def set (inode : Nat) (bytes : List UInt8) : InodeTable :=
  { t with data := t.data.set inode bytes }

/-- A new file with a path that leads to it. -/
def create (path : PathName) (bytes : List UInt8) : InodeTable :=
  ⟨Function.update t.names path (some t.data.length), t.data ++ [bytes]⟩

/-- Some bytes are written to a file at a position. -/
def write (file : OpenFile) (bytes : List UInt8) : InodeTable :=
  t.set file.inode ((⟨t.content file.inode, file.pos⟩ : ByteFile).write bytes).data

end InodeTable

/-! ## Calls -/

/-- How `filesystem::copy_file` ends; when it breaks off, it leaves some bytes in the target. -/
inductive CopyEnd where
  | works
  | fails (e : ErrorCode)
  | breaks (e : ErrorCode) (left : List UInt8)
  deriving DecidableEq

/-- How `uv_fs_sendfile` ends: with an error, or when it has moved so many bytes at most. -/
inductive SendfileEnd where
  | fails (ret : { e : Int // e < 0 })
  | moves (most : Nat)
  deriving DecidableEq

/-- How the calls end; a call on a request fails too if there is no memory for the request. -/
structure CopyFileEnds where
  copyFile : CopyEnd := .works
  openSrc : Option ErrorCode := none
  guardSrc : Bool := true
  fstat : Option ErrorCode := none
  openDest : Option ErrorCode := none
  guardDest : Bool := true
  ftruncate : Option ErrorCode := none
  lseek : Option ErrorCode := none
  sendRequest : Bool := true
  sends : Nat → SendfileEnd := fun _ => .moves maxSize

/-! ## Two paths -/

/-- `filesystem::copy_file` with `overwrite_existing`, which compares the two files. -/
def filesystemCopyFile (t : InodeTable) (src dest : PathName) (copyEnd : CopyEnd) :
    Int × InodeTable :=
  match t.lookup src with
  | none => (enoentCode, t)
  | some inode =>
      match t.lookup dest, copyEnd with
      | _, .fails e => (e, t)
      | some destInode, .works =>
          if destInode = inode then (eexistCode, t) else (0, t.set destInode (t.content inode))
      | some destInode, .breaks e left =>
          if destInode = inode then (eexistCode, t) else (e, t.set destInode left)
      | none, .works => (0, t.create dest (t.content inode))
      | none, .breaks e left => (e, t.create dest left)

/-- `IsAllPath`. -/
def isAllPath (t : InodeTable) (src dest : PathName) (ends : CopyFileEnds) : Int × InodeTable :=
  filesystemCopyFile t src dest ends.copyFile

/-! ## Descriptors -/

/-- The loop of `SendFileCore`: the `size` it ends with, or the error of `uv_fs_sendfile`. -/
def sendFileLoop (sends : Nat → SendfileEnd) (srcInode : Nat) (turn offset size : Nat)
    (dest : OpenFile) (t : InodeTable) : Except Int Nat × InodeTable :=
  if size = 0 then (.ok size, t)
  else
    match sends turn with
    | .fails ret => (.error ret, t)
    | .moves most =>
        let bytes := ((t.content srcInode).drop offset).take (min most (min maxSize size))
        let t := t.write dest bytes
        let ret := bytes.length
        if size < ret then (.error eioCode, t)
        else if ret = 0 then (.ok size, t)
        else
          sendFileLoop sends srcInode (turn + 1) (offset + ret) (size - ret)
            { dest with pos := dest.pos + ret } t
termination_by size
decreasing_by
  change size - bytes.length < size
  omega

/-- `SendFileCore`. -/
def sendFileCore (ends : CopyFileEnds) (srcInode : Nat) (dest : OpenFile) (size : Nat)
    (t : InodeTable) : Int × InodeTable :=
  if ends.sendRequest = false then (enomemCode, t)
  else
    match sendFileLoop ends.sends srcInode 0 0 size dest t with
    | (.error ret, t) => (ret, t)
    | (.ok size, t) => (if size ≠ 0 then eioCode else 0, t)

/-- `OpenCore` of the source, and what a descriptor of it is open on. -/
def openSrc (ends : CopyFileEnds) (t : InodeTable) : FileInfo → Except Int Nat
  | .fd file => .ok file.inode
  | .path path =>
      match ends.openSrc, t.lookup path with
      | some ret, _ => .error ret
      | none, none => .error (-enoentCode)
      | none, some inode => if ends.guardSrc then .ok inode else .error enomemCode

/-- `open` with `O_RDWR`, `O_CREAT` and `O_TRUNC`. -/
def openTruncated (t : InodeTable) (path : PathName) : Nat × InodeTable :=
  match t.lookup path with
  | some inode => (inode, t.set inode [])
  | none => (t.data.length, t.create path [])

/-- `OpenCore` of the target, or `TruncateCore` and `lseek`. -/
def openDest (ends : CopyFileEnds) (t : InodeTable) : FileInfo → Except Int OpenFile × InodeTable
  | .path path =>
      match ends.openDest with
      | some ret => (.error ret, t)
      | none =>
          let (inode, t) := openTruncated t path
          (if ends.guardDest then .ok ⟨inode, 0⟩ else .error enomemCode, t)
  | .fd file =>
      match ends.ftruncate with
      | some ret => (.error ret, t)
      | none =>
          if t.data.length ≤ file.inode then (.error (-ebadfCode), t)
          else
            let t := t.set file.inode []
            match ends.lseek with
            | some e => (.error e, t)
            | none => (.ok { file with pos := 0 }, t)

/-- `fstat`: the size of a file. -/
def fstatSize (ends : CopyFileEnds) (t : InodeTable) (inode : Nat) : Except Int Nat :=
  match ends.fstat with
  | some e => .error e
  | none => if t.data.length ≤ inode then .error ebadfCode else .ok (t.content inode).length

/-- `OpenFile`. -/
def openFile (ends : CopyFileEnds) (t : InodeTable) (srcFile destFile : FileInfo) :
    Int × InodeTable :=
  match openSrc ends t srcFile with
  | .error ret => (ret, t)
  | .ok srcInode =>
      match fstatSize ends t srcInode with
      | .error e => (e, t)
      | .ok size =>
          match openDest ends t destFile with
          | (.error ret, t) => (ret, t)
          | (.ok dest, t) => if size = 0 then (0, t) else sendFileCore ends srcInode dest size t

/-- `DoCopyFile`: the error, which is 0 for a success. -/
def doCopyFile (ends : CopyFileEnds) (t : InodeTable) (src dest : FileInfo) (mode : Option Int32) :
    Int × InodeTable :=
  if mode.getD 0 ≠ 0 then (einvalCode, t)
  else
    match src, dest with
    | .path srcPath, .path destPath => isAllPath t srcPath destPath ends
    | _, _ => openFile ends t src dest

end FileApi.ModFs.CopyFile
