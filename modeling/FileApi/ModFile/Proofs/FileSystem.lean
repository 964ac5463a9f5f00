import FileApi.ModFile.FileSystem
import FileApi.ModFs.Proofs.RenderedPath

/-!
# What the calls of `system.file` do

A call always returns. It fails and changes nothing, or it does what its manual page says where its
path leads.
-/

namespace FileApi.ModFile

open Compress FileTree Program Zip
open ModFs (DirEntry FileVolume System)

variable {env : Env} {w w' : World} {path : PathName} {place : List PathName} {α : Type}
  {call : FileCall} {f : Nat → FileVolume → Except Errno α × FileVolume}

/-- The world after a call that changed nothing. -/
def World.tick (w : World) : World := ⟨w.volume, w.clock + 1⟩

@[simp] theorem World.tick_volume (w : World) : w.tick.volume = w.volume := rfl

@[simp] theorem World.tick_clock (w : World) : w.tick.clock = w.clock + 1 := rfl

theorem Env.onPath_run (env : Env) (call : FileCall) (path : PathName)
    (f : Nat → FileVolume → Except Errno α × FileVolume) (w : World) :
    env.onPath call path f w = match env.failure w.clock call path with
      | some errno => .ok (.error errno) w.tick
      | none => .ok (f w.clock w.volume).1 ⟨(f w.clock w.volume).2, w.clock + 1⟩ := by
  rw [onPath, call_run]
  cases env.failure w.clock call path <;> rfl

theorem Env.onPath_ok {a : α} (h : env.onPath call path f w = .ok (.ok a) w') :
    path.length < PATH_MAX ∧ f w.clock w.volume = (.ok a, w'.volume) ∧ w'.clock = w.clock + 1 := by
  rw [onPath_run] at h
  split at h
  · cases h
  · next hfails =>
    rw [failure] at hfails
    split at hfails
    · cases hfails
    · next hlength =>
      rw [EStateM.Result.ok.injEq] at h
      obtain ⟨hresult, rfl⟩ := h
      exact ⟨Nat.not_le.mp hlength, Prod.ext hresult rfl, rfl⟩

theorem Env.onPath_triple {P : World → Prop} {Q : Except Errno α → World → Prop}
    {E : Abort → World → Prop} (hfail : ∀ w errno, P w → Q (.error errno) w.tick)
    (hwork : ∀ w, P w → path.length < PATH_MAX →
      Q (f w.clock w.volume).1 ⟨(f w.clock w.volume).2, w.clock + 1⟩) :
    Triple P (env.onPath call path f) Q E := by
  intro w hw
  rw [onPath_run]
  cases hfails : env.failure w.clock call path with
  | some errno => exact hfail w errno hw
  | none =>
    rw [failure] at hfails
    split at hfails
    · cases hfails
    · next hlength => exact hwork w hw (Nat.not_le.mp hlength)

theorem Env.onPath_looks {g : Nat → FileVolume → Except Errno α} {result : Except Errno α}
    (h : env.onPath call path (fun time v => (g time v, v)) w = .ok result w') : w' = w.tick := by
  rw [onPath_run] at h
  split at h
  · cases h
    rfl
  · cases h
    rfl

theorem Env.looks_returns (env : Env) (call : FileCall) (path : PathName)
    (g : Nat → FileVolume → Except Errno α) (w : World) :
    ∃ result, env.onPath call path (fun time v => (g time v, v)) w = .ok result w.tick := by
  rw [onPath_run]
  cases env.failure w.clock call path with
  | some errno => exact ⟨.error errno, rfl⟩
  | none => exact ⟨_, rfl⟩

/-! ## Calls that look -/

theorem Env.realpath_returns (env : Env) (path : PathName) (w : World) :
    ∃ result, env.realpath path w = .ok result w.tick := looks_returns env .realpath path _ w

theorem Env.stat_returns (env : Env) (path : PathName) (w : World) :
    ∃ result, env.stat path w = .ok result w.tick := looks_returns env .stat path _ w

theorem Env.openRead_returns (env : Env) (path : PathName) (w : World) :
    ∃ result, env.openRead path w = .ok result w.tick := looks_returns env .openRead path _ w

theorem Env.realpath_looks {result : Except Errno PathName}
    (h : env.realpath path w = .ok result w') : w' = w.tick := onPath_looks h

theorem Env.stat_looks {result : Except Errno Stat} (h : env.stat path w = .ok result w') :
    w' = w.tick := onPath_looks h

theorem Env.openRead_looks {result : Except Errno (List PathName)}
    (h : env.openRead path w = .ok result w') : w' = w.tick := onPath_looks h

theorem Env.realpath_ok {absPath : PathName} (h : env.realpath path w = .ok (.ok absPath) w') :
    path.length < PATH_MAX ∧ ∃ place, env.sys.lookup w.volume path = .there place ∧
      absPath = ModFs.Copy.render place.reverse ∧ absPath.length < PATH_MAX := by
  obtain ⟨hlength, hwork, -⟩ := onPath_ok h
  refine ⟨hlength, ?_⟩
  have hresult := (Prod.mk.inj hwork).1
  split at hresult
  · next place hplace =>
    dsimp only at hresult
    split at hresult
    · next habs =>
      cases hresult
      exact ⟨place, hplace, rfl, habs⟩
    · cases hresult
  · cases hresult
  · cases hresult

theorem Env.lookup_node {v : FileVolume} (h : env.sys.lookup v path = .there place) :
    ∃ node, v.tree place = some node ∧ ∀ target, node ≠ .link target := by
  have hne := ModFs.System.ne_nil_of_lookup h
  rw [ModFs.System.lookup_of_ne hne] at h
  refine walk_there v.tree_root v.sound.rooted ?_ h
  rw [Route.start]
  split
  · exact v.tree_root
  · exact v.tree_root

theorem Env.stat_file {bytes : List UInt8} {buf : Stat} (h : env.stat path w = .ok (.ok buf) w')
    (hplace : env.sys.lookup w.volume path = .there place)
    (hfile : w.volume.tree place = some (.file bytes)) :
    buf.directory = false ∧ buf.size = bytes.length := by
  obtain ⟨-, hwork, -⟩ := onPath_ok h
  have hresult := (Prod.mk.inj hwork).1
  rw [hplace] at hresult
  dsimp only at hresult
  rw [hfile] at hresult
  cases hresult
  exact ⟨rfl, rfl⟩

theorem Env.stat_directory {buf : Stat} (h : env.stat path w = .ok (.ok buf) w')
    (hplace : env.sys.lookup w.volume path = .there place)
    (hdir : w.volume.tree place = some .directory) : buf.directory = true := by
  obtain ⟨-, hwork, -⟩ := onPath_ok h
  have hresult := (Prod.mk.inj hwork).1
  rw [hplace] at hresult
  dsimp only at hresult
  rw [hdir] at hresult
  cases hresult
  rfl

theorem Env.openRead_ok (h : env.openRead path w = .ok (.ok place) w') :
    env.sys.lookup w.volume path = .there place ∧ (w.volume.tree place).isSome := by
  obtain ⟨-, hwork, -⟩ := onPath_ok h
  have hresult := (Prod.mk.inj hwork).1
  rw [System.openRead, sys, orFail_none] at hresult
  split at hresult
  · next found hfound =>
    split at hresult
    · next hthere =>
      cases hresult
      exact ⟨hfound, hthere⟩
    · cases hresult
  · cases hresult

theorem Env.read_ok {position : Nat} {count : Int} {bytes got : List UInt8}
    (h : env.read place position count w = .ok (.ok got) w')
    (hfile : w.volume.tree place = some (.file bytes)) :
    0 ≤ count ∧ got = ((bytes.drop position).take count.toNat).take
      (env.sends w.clock count.toNat) := by
  rw [read, onFile] at h
  obtain ⟨-, hwork, -⟩ := onPath_ok h
  have hresult := (Prod.mk.inj hwork).1
  rw [hfile] at hresult
  dsimp only at hresult
  split at hresult
  · cases hresult
  · next hcount =>
    cases hresult
    exact ⟨Int.not_lt.mp hcount, rfl⟩

theorem Env.makeUnique_ok {size : Int} {u : Unit} (h : env.makeUnique size w = .ok u w') :
    w' = w := by
  unfold makeUnique at h
  dsimp only at h
  split at h
  · cases h
    rfl
  · cases h

/-! ## Calls that change -/

open ModFs.System (Written content)

variable {errno : Errno}

theorem Env.onPath_error (h : env.onPath call path f w = .ok (.error errno) w') :
    w'.volume = w.volume ∨ f w.clock w.volume = (.error errno, w'.volume) := by
  rw [onPath_run] at h
  split at h
  · cases h
    exact .inl rfl
  · rw [EStateM.Result.ok.injEq] at h
    obtain ⟨hresult, rfl⟩ := h
    exact .inr (Prod.ext hresult rfl)

theorem Env.openWrite_ok (h : env.openWrite path w = .ok (.ok place) w') :
    env.sys.openWrite w.volume path = (.ok place, w'.volume) := (onPath_ok h).2.1

theorem Env.openWrite_error (h : env.openWrite path w = .ok (.error errno) w') :
    w'.volume = w.volume := by
  rcases onPath_error h with hsame | hwork
  · exact hsame
  · exact ModFs.System.openWrite_error hwork

theorem Env.sendfile_ok {out source : List PathName} {count : Int} {n : Nat}
    (h : env.sendfile out source count w = .ok (.ok n) w') {bytes : List UInt8}
    (hfile : w.volume.tree source = some (.file bytes)) :
    n = min (env.sends w.clock count.toNat) (min count.toNat bytes.length) ∧
      Written w.volume w'.volume out (bytes.take n ++ (content w.volume out).drop n) := by
  rw [sendfile, onFile] at h
  obtain ⟨-, hwork, -⟩ := onPath_ok h
  rw [hfile] at hwork
  split at hwork
  · next bytes' old heq hold =>
    cases heq
    obtain ⟨hn, hvolume⟩ := Prod.mk.inj hwork
    cases hn
    rw [List.length_take, List.length_take]
    refine ⟨rfl, ?_⟩
    have hwritten := (ModFs.System.filePlace_of_file hold).write
      ((bytes.take count.toNat).take (env.sends w.clock count.toNat) ++
        old.drop ((bytes.take count.toNat).take (env.sends w.clock count.toNat)).length)
    rw [hvolume, List.length_take, List.length_take] at hwritten
    have hsent : bytes.take (min (env.sends w.clock count.toNat) (min count.toNat bytes.length)) =
        (bytes.take count.toNat).take (env.sends w.clock count.toNat) := by
      rw [List.take_take, ← Nat.min_assoc, ← List.take_eq_take_min]
    rwa [hsent, content, hold]
  · cases (Prod.mk.inj hwork).1

theorem Env.rmdir_cases {result : Except Errno Unit} (h : env.rmdir path w = .ok result w') :
    w'.volume = w.volume ∨ ∃ e, env.sys.entry w.volume path = some e ∧
      w.volume.tree e = some .directory ∧
        ∀ q, w'.volume.tree q = if q = e then none else w.volume.tree q := by
  rw [rmdir, onPath_run] at h
  split at h
  · cases h
    exact .inl rfl
  · rw [EStateM.Result.ok.injEq] at h
    obtain ⟨-, rfl⟩ := h
    dsimp only
    split
    · next e hentry =>
      split
      · next hdir =>
        split
        · next hempty =>
          obtain ⟨name, dir, rfl, -, -⟩ := ModFs.System.entry_named hentry
          exact .inr ⟨_, hentry, hdir, ModFs.System.tree_remove_childless (List.cons_ne_nil _ _)
            (Volume.children_eq_nil_iff.mp hempty)⟩
        · exact .inl rfl
      · exact .inl rfl
    · exact .inl rfl

end FileApi.ModFile
