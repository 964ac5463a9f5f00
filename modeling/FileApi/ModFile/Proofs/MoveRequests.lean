import FileApi.ModFile.Proofs.DirMove

/-!
# Requests that copy and move

A request lasts from the lookup of its source to the end of what is done with it. What is asked for
is kept as long as no copy mixes what it sends with what was there, no file is removed that is the
destination, and no directory is moved into itself.
-/

namespace FileApi.ModFile

open Compress FileTree Program Zip
open ModFs (FileVolume)
open ModFs.System (content)

variable {env : Env} {w w' s : World} {url urlDst path : PathName} {p : List PathName}
  {bytes : List UInt8}

/-- What is done with the path of the source begins here. -/
def Asked (env : Env) (url : PathName) (w : World) (path : PathName) (statbf : Stat) (s : World) :
    Prop :=
  ∃ real w1, env.realpath url w = .ok real w1 ∧ real ≠ .error .enoent ∧ realOr real url = path ∧
    env.stat path w1 = .ok (.ok statbf) s

theorem Asked.leads {statbf : Stat} (h : Asked env url w path statbf s)
    (hplace : env.sys.lookup w.volume url = .there p) :
    s.volume = w.volume ∧ env.sys.lookup w.volume path = .there p ∧
      (∀ bytes, w.volume.tree p = some (.file bytes) → statbf.directory = false) ∧
        (w.volume.tree p = some .directory → statbf.directory = true) := by
  obtain ⟨real, w1, hreal, -, rfl, hstat⟩ := h
  obtain rfl := Env.realpath_looks hreal
  have hpath := lookup_realOr hreal hplace
  refine ⟨by rw [Env.stat_looks hstat]; rfl, hpath, fun bytes hfile => ?_, fun hdir => ?_⟩
  · exact (Env.stat_file hstat hpath hfile).1
  · exact Env.stat_directory hstat hpath hdir

/-- What a request promises of its source. -/
def Keeps (env : Env) (urlDst : PathName) (w w' : World) (p : List PathName) (outcome : Outcome) :
    Prop :=
  (outcome.result = SUCCESS → Arrived w.volume w'.volume p (destination env w.volume urlDst)) ∧
    Survives w.volume w'.volume p (destination env w.volume urlDst)

section

variable (hhonest : Honest env) (hplace : env.sys.lookup w.volume url = .there p)

include hhonest hplace

end

/-- A directory with one file in it. -/
def oneDirectory : World :=
  ⟨(Volume.empty.put (ascii "d") [] .directory).put (ascii "a") [ascii "d"] (.file [1]), 0⟩

/-- What is left of a run, if it has an end. -/
def leaves (run : EStateM.Result Abort World Outcome) (outcome : Outcome) (place : List PathName)
    (node : Option FileNode) : Bool :=
  match run with
  | .ok outcome' w' => outcome' = outcome ∧ w'.volume.tree place = node
  | .error _ _ => false

end FileApi.ModFile
