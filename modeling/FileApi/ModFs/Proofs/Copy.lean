import FileApi.ModFs.Copy
import FileApi.ModFs.Proofs.FileSystem

/-!
# What a copied file holds

The loop of `sendfile` comes to an end, and if it ends well it has moved all the bytes. The target
is opened without `O_TRUNC`, so what it held behind them stays.
-/

namespace FileApi.ModFs.Copy

open Compress FileTree FileApi.ModFs.System

/-! ## The loop -/

section Loop

variable {sends : Nat → Send} {source : List UInt8 → List UInt8} {src old : List UInt8}

/-- A target with the first bytes of the source in it. -/
def partly (src old : List UInt8) (k : Nat) : ByteFile := (⟨old, 0⟩ : ByteFile).write (src.take k)

theorem partly_data (src old : List UInt8) {k : Nat} (hk : k ≤ src.length) :
    (partly src old k).data = src.take k ++ old.drop k := by
  have hgap : (⟨old, 0⟩ : ByteFile).gap (src.take k) = [] := ByteFile.gap_of_le (Nat.zero_le _) _
  simp [partly, ByteFile.write, hgap, hk]

theorem partly_self (src : List UInt8) {k : Nat} (hk : k ≤ src.length) :
    (partly src src k).data = src := by
  rw [partly_data src src hk, List.take_append_drop]

theorem write_partly {offset count : Nat} :
    (partly src old offset).write ((src.drop offset).take count) =
      partly src old (offset + ((src.drop offset).take count).length) := by
  rw [partly, partly, ByteFile.write_write, List.take_add, List.length_take]
  congr 2
  rw [← List.take_take, List.take_length]

theorem sendFileLoop_spec (hsource : ∀ k ≤ src.length, source (partly src old k).data = src)
    {fuel offset : Nat} (turn : Nat) (hoffset : offset ≤ src.length)
    (hfuel : src.length - offset < fuel) :
    ∃ k ≤ src.length, (sendFileLoop sends source fuel turn offset (src.length - offset)
        (partly src old offset)).2 = partly src old k ∧
      (sendFileLoop sends source fuel turn offset (src.length - offset)
        (partly src old offset)).1 ≠ .error .fuel ∧
      ∀ size, (sendFileLoop sends source fuel turn offset (src.length - offset)
        (partly src old offset)).1 = .ok size → size = (src.length : Int) - k := by
  induction fuel generalizing turn offset with
  | zero => exact absurd hfuel (Nat.not_lt_zero _)
  | succ fuel ih =>
    rw [sendFileLoop, if_neg (by omega)]
    cases sends turn with
    | fails errno => exact ⟨offset, hoffset, rfl, nofun, nofun⟩
    | sends count cancelled =>
      dsimp only
      rw [hsource offset hoffset, write_partly]
      generalize hmoved : ((src.drop offset).take (min count maxSize)).length = moved
      have hle : moved ≤ src.length - offset := by
        rw [← hmoved, List.length_take, List.length_drop]
        omega
      have hsize : (src.length : Int) - offset - moved = src.length - (offset + moved : Nat) := by
        omega
      cases cancelled with
      | true => exact ⟨offset + moved, by omega, rfl, nofun, nofun⟩
      | false =>
        rw [if_neg Bool.false_ne_true]
        split
        · refine ⟨offset + moved, by omega, rfl, nofun, fun size h => ?_⟩
          rw [← hsize]
          exact (Except.ok.inj h).symm
        · rw [hsize]
          exact ih (turn + 1) (by omega) (by omega)

theorem sendFile_spec (sends : Nat → Send) (same : Bool) (src old : List UInt8)
    (hsame : same = true → old = src) :
    ∃ k ≤ src.length, (sendFile sends same src old).2 = src.take k ++ old.drop k ∧
      (sendFile sends same src old).1 ≠ .error .fuel ∧
      ((sendFile sends same src old).1 = .ok () → k = src.length) := by
  have hsource : ∀ k ≤ src.length,
      (fun data => if same then data else src) (partly src old k).data = src := by
    intro k hk
    cases same with
    | true =>
      rw [hsame rfl]
      exact partly_self src hk
    | false => rfl
  have hturns : src.length - 0 < src.length + 1 := Nat.lt_succ_self _
  obtain ⟨k, hk, hdest, hfuel, hsize⟩ :=
    @sendFileLoop_spec sends (fun data => if same then data else src) src old hsource _ _ 0
      (Nat.zero_le _) hturns
  have hstart : partly src old 0 = ⟨old, 0⟩ := by rw [partly, List.take_zero, ByteFile.write_nil]
  rw [hstart, Nat.cast_zero, Int.sub_zero] at hdest hfuel hsize
  refine ⟨k, hk, ?_⟩
  rw [sendFile, ← partly_data src old hk, ← hdest]
  generalize sendFileLoop sends (fun data => if same then data else src) (src.length + 1) 0 0
    src.length ⟨old, 0⟩ = result at hfuel hsize
  obtain ⟨stop | size, dest⟩ := result
  · exact ⟨rfl, fun h => hfuel (congrArg Except.error (Except.error.inj h)), by rintro ⟨⟩⟩
  · have hk' := hsize size rfl
    refine ⟨rfl, ?_, fun h => ?_⟩
    · dsimp only
      split <;> simp
    · dsimp only at h
      split at h
      · cases h
      · omega

end Loop

/-! ## One file -/

variable {env : CopyEnv} {v v' : FileVolume} {isMedia : Bool} {src dest : PathName}
  {srcFd destFd : List PathName}

theorem sendFileCore_ok (hdest : FilePlace v destFd)
    (h : sendFileCore env dest srcFd destFd v = .ok () v') :
    Written v v' destFd
      (content v srcFd ++ (content v destFd).drop (content v srcFd).length) := by
  unfold sendFileCore at h
  split at h
  · cases h
  · obtain ⟨k, -, hdata, -, hall⟩ := sendFile_spec (env.sends dest) (srcFd = destFd)
      (content v srcFd) (content v destFd) fun heq => by rw [of_decide_eq_true heq]
    split at h
    · next bytes hsend =>
      cases h
      rw [hsend] at hdata hall
      rw [hall rfl, List.take_length] at hdata
      rw [← hdata]
      exact hdest.write bytes
    · cases h

theorem copyFile_ok (h : copyFile env isMedia src dest v = .ok () v') :
    ∃ srcFd destFd, openSrcFile env isMedia src v = .ok srcFd ∧
      Written v v' destFd
        (content v srcFd ++ (content v destFd).drop (content v srcFd).length) ∧
      env.sys.lookup v' dest = .there destFd ∧
      ((∃ bytes, v.tree destFd = some (.file bytes)) ∧ env.sys.lookup v dest = .there destFd ∨
        v.tree destFd = none ∧ env.sys.lookup v dest = .missing destFd) := by
  obtain ⟨srcFd, mid, hask, hrest⟩ := Program.bind_eq_ok.mp h
  obtain ⟨hopen, rfl⟩ := ask_ok.mp hask
  obtain ⟨destFd, opened, hwrite, hsend⟩ := Program.bind_eq_ok.mp hrest
  obtain ⟨hopened, hthere, hold⟩ := openWrite_ok (act_ok.mp hwrite)
  have hsame : ∀ place, content opened place = content mid place := by
    intro place
    by_cases heq : place = destFd
    · rw [heq, hopened.content]
    · rw [content, content, hopened, if_neg heq]
  have hsent := sendFileCore_ok hopened.filePlace hsend
  rw [hsame, hsame] at hsent
  refine ⟨srcFd, destFd, hopen, hopened.trans hsent, ?_, hold⟩
  rw [hsent.lookup (by rw [hopened, if_pos rfl])]
  exact hthere

/-! ## A copy of a file -/

theorem found_written {sys : System} {place : List PathName} {bytes : List UInt8}
    (h : Written v v' place bytes) (hpath : sys.lookup v' dest = .there place) :
    sys.found v' dest = some (.file bytes) := by
  rw [found_of_lookup hpath, h, if_pos rfl]

theorem checkOrCreatePath_ok (h : checkOrCreatePath env dest v = .ok () v') :
    (∀ place node, v.tree place = some node → v'.tree place = some node) ∧
      ((env.sys.found v dest).isSome → v' = v) ∧
        (env.sys.found v dest = none → env.sys.found v' dest = some (.file [])) := by
  obtain ⟨there, mid, hask, hrest⟩ := Program.bind_eq_ok.mp h
  obtain ⟨hexists, rfl⟩ := ask_ok.mp hask
  have hthere := exists_eq_ok hexists
  cases there with
  | true =>
    obtain ⟨-, rfl⟩ := Program.pure_eq_ok.mp hrest
    exact ⟨fun _ _ h => h, fun _ => rfl, fun hnone => by rw [hnone] at hthere; cases hthere⟩
  | false =>
    obtain ⟨destFd, opened, hwrite, hdone⟩ := Program.bind_eq_ok.mp hrest
    obtain ⟨-, rfl⟩ := Program.pure_eq_ok.mp hdone
    obtain ⟨hopened, hlookup, hold⟩ := openWrite_ok (act_ok.mp hwrite)
    have hnone : env.sys.found mid dest = none := by
      simpa using hthere.symm
    have hfree : mid.tree destFd = none := by
      rcases hold with ⟨⟨bytes, hfile⟩, hlookup⟩ | ⟨hfree, -⟩
      · rw [found_of_lookup hlookup, hfile] at hnone
        cases hnone
      · exact hfree
    refine ⟨fun place node hnode => ?_, fun hsome => ?_, fun _ => ?_⟩
    · rw [hopened, if_neg]
      · exact hnode
      · rintro rfl
        rw [hfree] at hnode
        cases hnode
    · rw [hnone] at hsome
      cases hsome
    · rw [found_written hopened hlookup, content, hfree]

theorem openSrcFile_mono {place : List PathName}
    (hmore : ∀ q node, v.tree q = some node → v'.tree q = some node)
    (h : openSrcFile env isMedia src v = .ok place) :
    openSrcFile env isMedia src v' = .ok place := by
  unfold openSrcFile at h ⊢
  cases isMedia with
  | true => exact h
  | false =>
    rw [if_neg Bool.false_ne_true] at h ⊢
    unfold openRead at h ⊢
    cases hfails : env.sys.fails .openRead src with
    | some errno =>
      rw [hfails] at h
      cases h
    | none =>
      rw [hfails, orFail_none] at h
      rw [orFail_none]
      split at h
      · next found hfound =>
        split at h
        · next hsome =>
          cases h
          obtain ⟨node, hnode⟩ := Option.isSome_iff_exists.mp hsome
          have hpath : src ≠ [] := ne_nil_of_lookup hfound
          have hfound' : env.sys.lookup v' src = .there place := by
            rw [lookup_of_ne hpath] at hfound ⊢
            exact walk_mono hmore hfound
          rw [hfound']
          dsimp only
          rw [hmore _ _ hnode]
          rfl
        · cases h
      · cases h

variable {fuel : Nat} {infos : FsFileInfos}

theorem doCopy_ok {hasListener : Bool}
    (h : doCopy env fuel src dest isMedia hasListener v = .ok () v') :
    execLocal env fuel (createFileInfos env v src dest isMedia hasListener) v = .ok () v' := by
  obtain ⟨v₀, mid, hget, hrest⟩ := Program.bind_eq_ok.mp h
  cases hget
  obtain ⟨u, mid', hexec, hdone⟩ := Program.bind_eq_ok.mp hrest
  obtain ⟨-, rfl⟩ := ask_ok.mp hdone
  exact hexec

theorem execLocal_ok (h : execLocal env fuel infos v = .ok () v') :
    ∃ mid, prepareFile env infos v = .ok () mid ∧ execCopy env fuel infos mid = .ok () v' := by
  obtain ⟨u, mid, hprepare, hrest⟩ := Program.bind_eq_ok.mp h
  obtain ⟨u', mid', hsubscribe, hcopy⟩ := Program.bind_eq_ok.mp hrest
  refine ⟨mid, hprepare, ?_⟩
  have hsame : mid' = mid := by
    unfold subscribeLocalListener at hsubscribe
    split at hsubscribe
    · exact (ask_ok.mp hsubscribe).2
    · exact (Program.pure_eq_ok.mp hsubscribe).2.symm
  rw [← hsame]
  exact hcopy

theorem execLocal_file (hfile : infos.isFile = true)
    (h : execLocal env fuel infos v = .ok () v') :
    ∃ mid, checkOrCreatePath env infos.destPath v = .ok () mid ∧
      copyFile env infos.isMedia infos.srcPath infos.destPath mid = .ok () v' := by
  obtain ⟨mid, hprepare, hcopy⟩ := execLocal_ok h
  rw [prepareFile, if_pos hfile] at hprepare
  split at hprepare
  · cases hprepare
  · refine ⟨mid, hprepare, ?_⟩
    obtain ⟨v₀, mid', hget, hrest⟩ := Program.bind_eq_ok.mp hcopy
    cases hget
    split at hrest
    · exact hrest
    · split at hrest
      · next hno => exact absurd hfile hno.1
      · cases hrest

theorem lookup_withSlash {sys : System} {path : PathName} {place : List PathName}
    (hpath : sys.lookup v path = .there place) (hdir : v.tree place = some .directory) :
    sys.lookup v (withSlash path) = .there place := by
  unfold withSlash
  split
  · exact lookup_slash hpath hdir
  · exact hpath

theorem execLocal_directory (hfile : infos.isFile = false)
    (h : execLocal env fuel infos v = .ok () v') :
    env.sys.isDirectory v infos.destPath = true ∧
      copyDirFunc env infos.isMedia fuel (withSlash infos.srcPath) (withSlash infos.destPath) v =
        .ok () v' := by
  obtain ⟨mid, hprepare, hcopy⟩ := execLocal_ok h
  rw [prepareFile, hfile, if_neg Bool.false_ne_true] at hprepare
  obtain ⟨-, rfl⟩ := Program.pure_eq_ok.mp hprepare
  obtain ⟨v₀, mid', hget, hrest⟩ := Program.bind_eq_ok.mp hcopy
  cases hget
  split at hrest
  · next hno => rw [hfile] at hno; exact absurd hno.1 Bool.false_ne_true
  · split at hrest
    · next hdir => exact ⟨hdir.2, hrest⟩
    · cases hrest

/-- A copy of a file that ends well leaves the bytes of the source in the target, with nothing
behind them, exactly if no longer file was there. -/
theorem doCopy_file_iff {hasListener : Bool} {bytes : List UInt8}
    (hopen : openSrcFile env isMedia (getRealPath src) v = .ok srcFd)
    (hbytes : v.tree srcFd = some (.file bytes))
    (hdest : env.sys.found v (getRealPath dest) ≠ some .directory)
    (h : doCopy env fuel src dest isMedia hasListener v = .ok () v') :
    env.sys.found v' (getRealPath dest) = some (.file bytes) ↔
      ∀ old, env.sys.found v (getRealPath dest) = some (.file old) →
        old.length ≤ bytes.length := by
  have hexec := doCopy_ok h
  cases hfile : (createFileInfos env v src dest isMedia hasListener).isFile with
  | false =>
    obtain ⟨hdir, -⟩ := execLocal_directory hfile hexec
    unfold System.isDirectory at hdir
    split at hdir
    · next hfound =>
      cases hfails : env.sys.fails .status
          (createFileInfos env v src dest isMedia hasListener).destPath with
      | some errno =>
        rw [hfails] at hfound
        cases hfound
      | none =>
        rw [hfails] at hfound
        exact absurd (Except.ok.inj hfound) hdest
    · cases hdir
  | true =>
    obtain ⟨mid, hcheck, hcopy⟩ := execLocal_file hfile hexec
    obtain ⟨hmore, hsame, hnew⟩ := checkOrCreatePath_ok hcheck
    obtain ⟨srcFd', destFd, hopen', hwritten, hlookup, hold⟩ := copyFile_ok hcopy
    have heq : srcFd' = srcFd :=
      Except.ok.inj (hopen'.symm.trans (openSrcFile_mono hmore hopen))
    subst heq
    have hcontent : content mid srcFd' = bytes := by rw [content, hmore _ _ hbytes]
    rw [hcontent] at hwritten
    have hfound := found_written hwritten hlookup
    have hgoal : env.sys.found v' (getRealPath dest) = some (.file bytes) ↔
        (content mid destFd).length ≤ bytes.length := by
      rw [show env.sys.found v' (getRealPath dest) = _ from hfound, Option.some_inj,
        FileTree.Node.file.injEq, List.append_right_eq_self, List.drop_eq_nil_iff]
    rw [hgoal]
    cases hthere : env.sys.found v (getRealPath dest) with
    | none =>
      have hempty : content mid destFd = [] := by
        have hnew : env.sys.found mid (getRealPath dest) = some (.file []) := hnew hthere
        rcases hold with ⟨⟨old, hold⟩, hpath⟩ | ⟨hnone, -⟩
        · have hpath : env.sys.lookup mid (getRealPath dest) = .there destFd := hpath
          rw [found_of_lookup hpath] at hnew
          rw [content, hnew]
        · rw [content, hnone]
      rw [hempty]
      exact iff_of_true (Nat.zero_le _) (by rintro _ ⟨⟩)
    | some node =>
      have hmid : mid = v := hsame (by
        show (env.sys.found v (getRealPath dest)).isSome = true
        rw [hthere]
        rfl)
      subst hmid
      have hfoundOld : env.sys.found mid (getRealPath dest) = mid.tree destFd := by
        rcases hold with ⟨-, hpath⟩ | ⟨-, hpath⟩
        · exact found_of_lookup hpath
        · have hpath : env.sys.lookup mid (getRealPath dest) = .missing destFd := hpath
          rw [found, hpath] at hthere
          cases hthere
      rw [hthere] at hfoundOld
      constructor
      · rintro hle old ⟨⟩
        rwa [content, ← hfoundOld] at hle
      · intro hle
        rcases hold with ⟨⟨old, hold⟩, -⟩ | ⟨hnone, -⟩
        · rw [content, hold]
          rw [hold] at hfoundOld
          exact hle old hfoundOld
        · rw [content, hnone]
          exact Nat.zero_le _

/-! ### Two files -/

/-- `/s` with `hi` and `/d` with `old`. -/
def twoFiles : FileVolume :=
  (Volume.empty.put [0x73] [] (.file [0x68, 0x69])).put [0x64] [] (.file [0x6f, 0x6c, 0x64])

/-- An environment in which nothing fails. -/
def quiet : CopyEnv where
  sys := {}
  sends := fun _ _ => .sends 2 false

/-- `/d` is copied to `/s`. -/
theorem doCopy_file_twoFiles :
    ∃ v', doCopy quiet 0 [slash, 0x64] [slash, 0x73] false false twoFiles = .ok () v' ∧
      quiet.sys.found v' [slash, 0x73] = some (.file [0x6f, 0x6c, 0x64]) := by
  obtain ⟨v', h⟩ : ∃ v', doCopy quiet 0 [slash, 0x64] [slash, 0x73] false false twoFiles =
    .ok () v' := ⟨_, rfl⟩
  have hold : quiet.sys.found twoFiles (getRealPath [slash, 0x73]) =
    some (.file [0x68, 0x69]) := by decide
  have hopen : openSrcFile quiet false (getRealPath [slash, 0x64]) twoFiles = .ok [[0x64]] := by
    decide
  refine ⟨v', h, (doCopy_file_iff hopen (by decide) (by decide) h).mpr fun old heq => ?_⟩
  rw [hold] at heq
  cases heq
  decide

/-- `/s` is copied to `/d`, which is longer. -/
theorem doCopy_file_not_whole :
    ∃ v', doCopy quiet 0 [slash, 0x73] [slash, 0x64] false false twoFiles = .ok () v' ∧
      quiet.sys.found twoFiles [slash, 0x73] = some (.file [0x68, 0x69]) ∧
      quiet.sys.found v' [slash, 0x64] ≠ some (.file [0x68, 0x69]) :=
  ⟨_, rfl, by decide, by decide⟩

end FileApi.ModFs.Copy
