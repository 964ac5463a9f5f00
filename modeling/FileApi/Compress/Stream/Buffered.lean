import FileApi.Compress.Os
import FileApi.Compress.Stream.Out
import FileApi.Misc.Stdio

/-!
# File streams with a buffer

`stream_file_posix.c:157-180` with a `FILE` that buffers in front of a device: the stream of an
archive that is written, and the output files of an extraction. What `fclose` makes of the last
buffer is not looked at by `FileStreamClose`.
-/

namespace FileApi.Compress

/-- Where a seek goes; the end is that of the file with the buffer written out. -/
def seekTarget (f : Stdio) (offset : Int) : SeekOrigin → Int
  | .set => offset
  | .cur => f.tell + offset
  | .fromEnd => f.flush.2.file.data.length + offset

instance : StreamOps Stdio where
  write f bytes :=
    match f.write bytes with
    | (true, f) => (bytes.length, f)
    | (false, f) => (-1, f)
  seek f offset origin :=
    if 0 ≤ seekTarget f offset origin then f.seekTo (seekTarget f offset origin).toNat
    else (false, f)
  tell := Stdio.tell

/-- The output files of a run, in the order they were opened, beside the rest of the system. -/
structure OutFiles (W : Type) where
  world : W
  files : List Stdio := []

/-- The `n`-th file that is opened: the size of its buffer, and what its device does. -/
abbrev DeviceOf := Nat → Nat × (Nat → Nat)

/-- A call that leaves the files alone. -/
def OutFiles.other {W α : Type} (f : W → α × W) (s : OutFiles W) : α × OutFiles W :=
  ((f s.world).1, { s with world := (f s.world).2 })

/-- The system with files that are buffered; a file is named by its place in the list. -/
def bufferedOs {W H : Type} (os : Os W H) (device : DeviceOf) : Os (OutFiles W) Nat where
  isDirectory path := OutFiles.other (os.isDirectory path)
  stat path := OutFiles.other (os.stat path)
  access path := OutFiles.other (os.access path)
  isSymlink path := OutFiles.other (os.isSymlink path)
  mkdir path := OutFiles.other (os.mkdir path)
  remove path := OutFiles.other (os.remove path)
  unlink path := OutFiles.other (os.unlink path)
  symlink target path := OutFiles.other (os.symlink target path)
  realpath path := OutFiles.other (os.realpath path)
  cancels := OutFiles.other os.cancels
  fopen path s :=
    match os.fopen path s.world with
    | (.error errno, world) => (.error errno, { s with world })
    | (.ok _, world) =>
        let n := s.files.length
        (.ok n, ⟨world, s.files ++ [{ size := (device n).1, device := (device n).2 }]⟩)
  fwrite n bytes s :=
    match s.files[n]? with
    | none => (some .other, s)
    | some f =>
        let (ok, f) := f.write bytes
        (if ok then none else some .enospc, { s with files := s.files.set n f })
  fclose n s :=
    match s.files[n]? with
    | none => (false, s)
    | some f =>
        let (ok, f) := f.flush
        (ok, { s with files := s.files.set n f })

/-- `FileStreamClose`: the flush of `fclose` is made, and its result is not looked at. -/
def fileStreamClose (f : Stdio) : Stdio := f.flush.2

end FileApi.Compress
