import FileApi.Misc.ByteFile
import FileApi.Misc.Errno

/-!
# Streams

`FsStream::Write` and `FsStream::Read` (`fs_stream.cpp:40-220`) with `FsUtils::GetActualLen`. The file
is as the program sees it through its stream, what is still buffered included; how the calls of the
C library end is given.
-/

namespace FileApi.StreamRw

def UINT_MAX : Nat := 2 ^ 32 - 1

/-- `ReadOptions` and `WriteOptions`; the encoding is never given here. -/
structure IoOptions where
  offset : Option Int := none
  length : Option Int := none
  deriving DecidableEq

/-- How a transfer ends: whether the stream is still open, what `fseek` fails with, and how many bytes
`fread` or `fwrite` gets through before the device fails, if it does. -/
structure StreamEnd where
  opened : Bool := true
  fseek : Option Errno := none
  device : Option Nat := none
  deriving DecidableEq

/-- A `FILE`. -/
structure FsStream where
  file : ByteFile
  append : Bool := false
  deriving DecidableEq

/-- `GetActualLen`. -/
def getActualLen (bufLen bufOff : Nat) (length : Option Int) : Option Nat :=
  if bufLen < bufOff then none
  else
    let retLen := bufLen - bufOff
    match length with
    | none => some retLen
    | some opLength => if opLength < 0 ∨ retLen < opLength then none else some opLength.toNat

/-- `ValidReadArg` and `ValidWriteArg`: the length, and the offset or -1. -/
def validArg (bufLen : Nat) (options : IoOptions) : Option (Nat × Int) :=
  if UINT_MAX < bufLen then none
  else
    match getActualLen bufLen 0 options.length with
    | none => none
    | some retLen =>
        match options.offset with
        | none => some (retLen, -1)
        | some offset => if offset < 0 then none else some (retLen, offset)

/-- How many bytes get through. -/
def through (device : Option Nat) (len : Nat) : Nat := min (device.getD len) len

namespace FsStream

variable (s : FsStream)

/-- `fseek` to an offset, if there is one. -/
def seekTo (offset : Int) (e : StreamEnd) : Except Errno FsStream :=
  if 0 ≤ offset then
    match e.fseek with
    | some errno => .error errno
    | none => .ok { s with file := s.file.seekTo offset.toNat }
  else .ok s

/-- `fwrite`; nothing is done for no bytes. -/
def fwrite (bytes : List UInt8) : FsStream :=
  if bytes = [] then s
  else
    let file := if s.append then s.file.seekTo s.file.data.length else s.file
    { s with file := file.write bytes }

/-- `Write`: how many bytes are written. A short count is a success unless it is zero. -/
def write (buf : List UInt8) (options : IoOptions) (e : StreamEnd) : Except Errno Nat × FsStream :=
  if ¬ e.opened then (.error .eio, s)
  else
    match validArg buf.length options with
    | none => (.error .einval, s)
    | some (retLen, offset) =>
        match s.seekTo offset e with
        | .error errno => (.error errno, s)
        | .ok s =>
            let writeLen := through e.device retLen
            let s := s.fwrite (buf.take writeLen)
            if writeLen = 0 ∧ writeLen ≠ retLen then (.error .eio, s) else (.ok writeLen, s)

/-- `Read`: the bytes that are read. A count that is short before the end of the file is an error. -/
def read (bufLen : Nat) (options : IoOptions) (e : StreamEnd) :
    Except Errno (List UInt8) × FsStream :=
  if ¬ e.opened then (.error .eio, s)
  else
    match validArg bufLen options with
    | none => (.error .einval, s)
    | some (retLen, offset) =>
        match s.seekTo offset e with
        | .error errno => (.error errno, s)
        | .ok s =>
            let (buf, file) := s.file.read (through e.device retLen)
            let whole := (s.file.read retLen).1
            let s := { s with file := file }
            if buf.length < whole.length then (.error .eio, s) else (.ok buf, s)

end FsStream

end FileApi.StreamRw
