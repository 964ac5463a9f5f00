import FileApi.Swapfs.Proofs.Readers

/-!
# Data integrity

The file of an entry holds the bytes of the one `SwapOut` with its key until the one call that
removes the entry has unlinked it, and a call that reads it keeps every remover away.
-/

namespace FileApi.Swapfs

open Pool Keyed Machine

/-! ## The data directory -/

/-- Names stand for files that are there, and a file has one name. -/
structure Disk.Ok (d : Disk) : Prop where
  bounded : ∀ p f, d.names p = some f → f < d.files.length
  injective : ∀ p q f, d.names p = some f → d.names q = some f → p = q

namespace Disk

variable {d d' : Disk} {p q : SwapFile}

theorem lookup_of_names (h : d'.names q = d.names q)
    (hfiles : ∀ f, d.names q = some f → d'.files[f]? = d.files[f]?) :
    d'.lookup q = d.lookup q := by
  unfold lookup
  rw [h]
  cases hq : d.names q with
  | none => rfl
  | some f => simp [hfiles f hq]

theorem create_spec (ok : d.Ok) (p : SwapFile) :
    (d.create p).2.Ok ∧ (d.create p).2.lookup p = some ((d.create p).1, []) ∧
    ∀ q, q ≠ p → (d.create p).2.lookup q = d.lookup q := by
  unfold create
  split
  · next f hp =>
    have hlt := ok.bounded p f hp
    refine ⟨⟨?_, ok.injective⟩, ?_, ?_⟩
    · simpa using ok.bounded
    · simp [lookup, hp, hlt]
    · intro q hq
      refine lookup_of_names rfl fun g hg => ?_
      have hne : f ≠ g := fun h => hq (ok.injective q p g hg (h ▸ hp))
      simp [hne]
  · next hp =>
    refine ⟨⟨?_, ?_⟩, ?_, ?_⟩
    · intro q f hq
      by_cases h : q = p
      · subst h
        simp only [Function.update_self, Option.some.injEq] at hq
        simp [← hq]
      · simp only [Function.update_of_ne h] at hq
        have hlt := ok.bounded q f hq
        rw [List.length_append]
        omega
    · intro q r f hq hr
      by_cases h : q = p <;> by_cases h' : r = p
      · rw [h, h']
      · subst h
        simp only [Function.update_self, Option.some.injEq, Function.update_of_ne h'] at hq hr
        have hlt := ok.bounded r f hr
        omega
      · subst h'
        simp only [Function.update_self, Option.some.injEq, Function.update_of_ne h] at hq hr
        have hlt := ok.bounded q f hq
        omega
      · simp only [Function.update_of_ne h, Function.update_of_ne h'] at hq hr
        exact ok.injective q r f hq hr
    · simp [lookup]
    · intro q hq
      refine lookup_of_names (Function.update_of_ne hq _ _) fun f hf => ?_
      exact List.getElem?_append_left (ok.bounded q f hf)

theorem names_of_lookup {f : Nat} {content : List UInt8} (h : d.lookup p = some (f, content)) :
    d.names p = some f ∧ d.files[f]? = some content := by
  unfold lookup at h
  cases hp : d.names p with
  | none => simp [hp] at h
  | some g =>
    simp only [hp, Option.bind_some, Option.map_eq_some_iff, Prod.mk.injEq] at h
    obtain ⟨bytes, hbytes, rfl, rfl⟩ := h
    exact ⟨rfl, hbytes⟩

theorem append_spec (ok : d.Ok) {f : Nat} {content : List UInt8} (bytes : List UInt8)
    (h : d.lookup p = some (f, content)) :
    (d.append f bytes).Ok ∧ (d.append f bytes).lookup p = some (f, content ++ bytes) ∧
    ∀ q, q ≠ p → (d.append f bytes).lookup q = d.lookup q := by
  obtain ⟨hp, hf⟩ := names_of_lookup h
  refine ⟨⟨?_, ok.injective⟩, ?_, ?_⟩
  · simpa [append] using ok.bounded
  · simp [lookup, append, hp, hf]
  · intro q hq
    refine lookup_of_names rfl fun g hg => ?_
    have hne : f ≠ g := fun h => hq (ok.injective q p g hg (h ▸ hp))
    simp [append, hne]

theorem rename_spec (ok : d.Ok) (hpq : p ≠ q) (h : d.rename p q = some d') :
    d'.Ok ∧ d'.lookup q = d.lookup p ∧ d'.lookup p = none ∧
    ∀ r, r ≠ p → r ≠ q → d'.lookup r = d.lookup r := by
  unfold rename at h
  split at h
  · cases h
  next f hp =>
  cases h
  -- the target has the file of the source, and nobody else has it
  have hback : ∀ r g, Function.update (Function.update d.names q (some f)) p none r = some g →
      r ≠ p ∧ d.names (if r = q then p else r) = some g := by
    intro r g hr
    by_cases hrp : r = p
    · subst hrp
      simp at hr
    · rw [Function.update_of_ne hrp] at hr
      by_cases hrq : r = q
      · subst hrq
        rw [Function.update_self] at hr
        exact ⟨hrp, by rw [if_pos rfl, hp, hr]⟩
      · rw [Function.update_of_ne hrq] at hr
        exact ⟨hrp, by rw [if_neg hrq, hr]⟩
  refine ⟨⟨?_, ?_⟩, ?_, ?_, ?_⟩
  · intro r g hr
    exact ok.bounded _ g (hback r g hr).2
  · intro r r' g hr hr'
    obtain ⟨hne, hr⟩ := hback r g hr
    obtain ⟨hne', hr'⟩ := hback r' g hr'
    have hsame := ok.injective _ _ g hr hr'
    by_cases h : r = q <;> by_cases h' : r' = q
    · rw [h, h']
    · rw [if_pos h, if_neg h'] at hsame
      exact absurd hsame.symm hne'
    · rw [if_neg h, if_pos h'] at hsame
      exact absurd hsame hne
    · rwa [if_neg h, if_neg h'] at hsame
  · simp only [lookup, Function.update_of_ne (Ne.symm hpq), Function.update_self, hp]
  · simp [lookup]
  · intro r hrp hrq
    simp only [lookup, Function.update_of_ne hrp, Function.update_of_ne hrq]

theorem unlink_spec (ok : d.Ok) (h : d.unlink p = some d') :
    d'.Ok ∧ d'.lookup p = none ∧ ∀ q, q ≠ p → d'.lookup q = d.lookup q := by
  unfold unlink at h
  split at h
  · cases h
  cases h
  have hback : ∀ r g, Function.update d.names p none r = some g → d.names r = some g := by
    intro r g hr
    by_cases hrp : r = p
    · subst hrp
      simp at hr
    · rwa [Function.update_of_ne hrp] at hr
  refine ⟨⟨fun r g hr => ok.bounded r g (hback r g hr), ?_⟩, ?_, ?_⟩
  · exact fun r r' g hr hr' => ok.injective r r' g (hback r g hr) (hback r' g hr')
  · simp [lookup]
  · intro q hq
    simp only [lookup, Function.update_of_ne hq]

end Disk

/-! ## The files of the calls -/

/-- Some `SwapOut` has committed this key with this request. -/
def Committed (calls : List Call) (k : UInt64) (r : SwapOutRequest) : Prop :=
  ∃ c ∈ calls, c.committed = some (k, r)

/-- What the call knows of its file: a writer has written a first part of its buffer to the
temporary file, a reader has read a first part of the file of its entry. -/
def FileOk (disk : Disk) (calls : List Call) : Call → Prop
  | .swapOut r k (.write fd written) => disk.lookup (.tmp k) = some (fd, r.buffer.take written)
  | .swapOut r k .fsync => ∃ fd, disk.lookup (.tmp k) = some (fd, r.buffer)
  | .swapOut r k .rename => ∃ fd, disk.lookup (.tmp k) = some (fd, r.buffer)
  | .swapOut r k .commit => ∃ fd, disk.lookup (.swap k) = some (fd, r.buffer)
  | .swapOut _ k (.endOperation (.ok k')) => k' = k
  | .swapOut _ k (.done (.ok k')) => k' = k
  | .swapIn request (.openSwap entry) => entry.keyId = request.keyId ∧
      ∃ r, Committed calls request.keyId r ∧ r.bufferSize = entry.dataSize
  | .swapIn request (.read entry _ fd got) =>
      ∃ r, Committed calls request.keyId r ∧ r.bufferSize = entry.dataSize ∧
        disk.lookup (.swap request.keyId) = some (fd, r.buffer) ∧ got = r.buffer.take got.length
  | .swapIn request (.finish (.ok got)) => ∃ r, Committed calls request.keyId r ∧ r.buffer = got
  | .swapIn request (.unlink _ (.ok got)) => ∃ r, Committed calls request.keyId r ∧ r.buffer = got
  | .swapIn request (.finishRemoval _ _ (.ok got)) =>
      ∃ r, Committed calls request.keyId r ∧ r.buffer = got
  | .swapIn request (.endOperation (.ok got)) =>
      ∃ r, Committed calls request.keyId r ∧ r.buffer = got
  | .swapIn request (.done (.ok got)) => ∃ r, Committed calls request.keyId r ∧ r.buffer = got
  | _ => True

/-- The keys whose files the call has unlinked. -/
def Call.unlinked : Call → List UInt64
  | .swapIn request (.finishRemoval _ true _) => [request.keyId]
  | .removeData _ (.finalize entry (.ok _)) => [entry.keyId]
  | .removeAllData (.unlink _ removed _) => (removed.filter Prod.snd).map fun r => r.1.keyId
  | .removeAllData (.finalize removed _) => (removed.filter Prod.snd).map fun r => r.1.keyId
  | _ => []

/-- The file of a key holds the buffer of its `SwapOut`. -/
def Stored (disk : Disk) (calls : List Call) (k : UInt64) : Prop :=
  ∃ r fd, Committed calls k r ∧ disk.lookup (.swap k) = some (fd, r.buffer)

/-- The files of a state. -/
structure FilesInv (s : State) : Prop where
  disk : s.disk.Ok
  files : ∀ c ∈ s.calls, FileOk s.disk s.calls c
  stored : ∀ k, (findEntry s k).isSome → (∀ c ∈ s.calls, k ∉ c.unlinked) →
    Stored s.disk s.calls k

/-! ## What a step does to the files -/

variable {calls : List Call}

section Files

variable {s s' : State} {outcome : Outcome} {c c' : Call}

theorem refreshBegin_disk {now : Int} {start : Option UInt64}
    (h : refreshBegin s now = some (s', start)) : s'.disk = s.disk := by
  rcases refreshBegin_cases h with ⟨rfl, -⟩ | ⟨-, rfl, -⟩
  · rfl
  · rfl

theorem finalizeEntry_disk (s : State) (k size : UInt64) (removed : Bool) :
    (finalizeEntry s k size removed).disk = s.disk := by
  unfold finalizeEntry
  split
  · rfl
  · split
    · rfl
    · rfl

theorem finalizeEntries_disk (removed : List (SwapKeyEntry × Bool)) : ∀ s : State,
    (removed.foldl (fun s r => finalizeEntry s r.1.keyId r.1.dataSize r.2) s).disk = s.disk := by
  induction removed with
  | nil => exact fun s => rfl
  | cons r removed ih => exact fun s => (ih _).trans (finalizeEntry_disk s _ _ _)

/-- What a section does to the files: a `SwapOut` touches the files of its key, a remover the
file of an entry it removes. -/
structure DiskStep (d d' : Disk) (c c' : Call) : Prop where
  ok : d'.Ok
  tmp : ∀ k, d'.lookup (.tmp k) = d.lookup (.tmp k) ∨ c.key = some k
  swap : ∀ k, d'.lookup (.swap k) = d.lookup (.swap k) ∨ c.key = some k ∧ c.committed = none ∨
    k ∈ c.removing ∧ k ∈ c'.unlinked

theorem DiskStep.refl {d : Disk} (ok : d.Ok) : DiskStep d d c c' :=
  ⟨ok, fun _ => .inl rfl, fun _ => .inl rfl⟩

variable {k : UInt64}

theorem DiskStep.onTmp {d d' : Disk} (ok : d'.Ok) (hkey : c.key = some k)
    (h : ∀ q, q ≠ .tmp k → d'.lookup q = d.lookup q) : DiskStep d d' c c' := by
  refine ⟨ok, fun k' => ?_, fun k' => .inl (h _ nofun)⟩
  by_cases hk : k' = k
  · subst hk
    exact .inr hkey
  · exact .inl (h _ fun heq => hk (SwapFile.tmp.inj heq))

theorem DiskStep.onSwap {d d' : Disk} (ok : d'.Ok) (hremoving : k ∈ c.removing)
    (hunlinked : k ∈ c'.unlinked) (h : ∀ q, q ≠ .swap k → d'.lookup q = d.lookup q) :
    DiskStep d d' c c' := by
  refine ⟨ok, fun k' => .inl (h _ nofun), fun k' => ?_⟩
  by_cases hk : k' = k
  · subst hk
    exact .inr (.inr ⟨hremoving, hunlinked⟩)
  · exact .inl (h _ fun heq => hk (SwapFile.swap.inj heq))

theorem stepSwapOut_disk {request : SwapOutRequest} {keyId : UInt64} {pc pc' : OutPc}
    (ok : s.disk.Ok)
    (hfile : ∀ fd n, pc = .write fd n → ∃ bytes, s.disk.lookup (.tmp keyId) = some (fd, bytes))
    (h : stepSwapOut s request keyId pc outcome = some (s', pc')) :
    DiskStep s.disk s'.disk (.swapOut request keyId pc) (.swapOut request keyId pc') := by
  unfold stepSwapOut at h
  split at h
  case h_1 =>
    obtain ⟨⟨s₁, start⟩, hbegin, hr⟩ := Option.map_eq_some_iff.mp h
    have hdisk := refreshBegin_disk hbegin
    cases start <;> cases hr <;> rw [hdisk] <;> exact .refl ok
  case h_3 => split at h <;> cases h <;> exact .refl ok
  case h_4 =>
    cases h
    obtain ⟨hok, -, hframe⟩ := Disk.create_spec ok (.tmp keyId)
    exact .onTmp hok rfl hframe
  case h_6 =>
    split at h
    · cases h; exact .refl ok
    split at h
    · cases h
    · cases h
      obtain ⟨bytes, hlookup⟩ := hfile _ _ rfl
      obtain ⟨hok, -, hframe⟩ := Disk.append_spec ok _ hlookup
      exact .onTmp hok rfl hframe
  case h_10 =>
    obtain ⟨disk, hrename, hr⟩ := Option.map_eq_some_iff.mp h
    cases hr
    obtain ⟨hok, -, -, hframe⟩ := Disk.rename_spec ok (by nofun) hrename
    refine ⟨hok, fun k => ?_, fun k => ?_⟩
    · by_cases hk : k = keyId
      · exact .inr (congrArg some hk.symm)
      · exact .inl (hframe _ (fun heq => hk (SwapFile.tmp.inj heq)) nofun)
    · by_cases hk : k = keyId
      · exact .inr (.inl ⟨congrArg some hk.symm, rfl⟩)
      · exact .inl (hframe _ nofun fun heq => hk (SwapFile.swap.inj heq))
  case h_12 =>
    obtain ⟨disk, hunlink, hr⟩ := Option.map_eq_some_iff.mp h
    cases hr
    obtain ⟨hok, -, hframe⟩ := Disk.unlink_spec ok hunlink
    exact .onTmp hok rfl hframe
  all_goals first | (cases h; exact .refl ok) | cases h

theorem stepSwapIn_disk {request : SwapInRequest} {pc pc' : InPc} (ok : s.disk.Ok)
    (h : stepSwapIn s request pc outcome = some (s', pc')) :
    DiskStep s.disk s'.disk (.swapIn request pc) (.swapIn request pc') := by
  unfold stepSwapIn at h
  split at h
  case h_1 =>
    have hr := Option.some.inj h
    unfold lookupKeyForSwapIn at hr
    split at hr
    · cases hr; exact .refl ok
    split at hr
    · cases hr; exact .refl ok
    · cases hr; exact .refl ok
  case h_2 =>
    split at h
    · cases h; exact .refl ok
    split at h
    · cases h; exact .refl ok
    split at h
    · cases h
    split at h
    · cases h
    · cases h; exact .refl ok
  case h_4 =>
    split at h
    · cases h
    simp only at h
    split at h
    · cases h
    split at h
    · cases h; exact .refl ok
    split at h
    · cases h; exact .refl ok
    · cases h; exact .refl ok
  case h_6 =>
    have hr := Option.some.inj h
    unfold finishSwapIn at hr
    split at hr
    · cases hr; exact .refl ok
    simp only at hr
    split at hr
    · cases hr; exact .refl ok
    · cases hr; exact .refl ok
  case h_7 =>
    obtain ⟨disk, hunlink, hr⟩ := Option.map_eq_some_iff.mp h
    cases hr
    obtain ⟨hok, -, hframe⟩ := Disk.unlink_spec ok hunlink
    exact .onSwap hok (List.mem_singleton_self _) (List.mem_singleton_self _) hframe
  case h_9 => cases h; rw [finalizeEntry_disk]; exact .refl ok
  all_goals first | (cases h; exact .refl ok) | cases h

theorem stepCall_disk (ok : s.disk.Ok)
    (hfile : ∀ r k fd n, c = .swapOut r k (.write fd n) →
      ∃ bytes, s.disk.lookup (.tmp k) = some (fd, bytes))
    (h : stepCall s outcome c = some (s', c')) : DiskStep s.disk s'.disk c c' := by
  cases callStep h with
  | @swapOut request keyId pc pc' hstep =>
    exact stepSwapOut_disk ok (fun fd n hpc => hfile request keyId fd n (hpc ▸ rfl)) hstep
  | swapIn hstep =>
    exact stepSwapIn_disk ok hstep
  | removeData hstep =>
    unfold stepRemoveData at hstep
    split at hstep
    case h_1 =>
      obtain ⟨disk, hunlink, hr⟩ := Option.map_eq_some_iff.mp hstep
      cases hr
      obtain ⟨hok, -, hframe⟩ := Disk.unlink_spec ok hunlink
      exact .onSwap hok (List.mem_singleton_self _) (List.mem_singleton_self _) hframe
    case h_3 => cases hstep; rw [finalizeEntry_disk]; exact .refl ok
    all_goals first | (cases hstep; exact .refl ok) | cases hstep
  | removeAllData hstep =>
    unfold stepRemoveAllData at hstep
    split at hstep
    case h_2 =>
      obtain ⟨disk, hunlink, hr⟩ := Option.map_eq_some_iff.mp hstep
      cases hr
      obtain ⟨hok, -, hframe⟩ := Disk.unlink_spec ok hunlink
      refine .onSwap hok ?_ ?_ hframe
      · simp [Call.removing, Call.copies]
      · simp [Call.unlinked]
    case h_4 => cases hstep; rw [finalizeEntries_disk]; exact .refl ok
    all_goals first | (cases hstep; exact .refl ok) | cases hstep
  | getStats hstep =>
    unfold stepGetStats at hstep
    split at hstep
    case h_1 =>
      obtain ⟨⟨s₁, start⟩, hbegin, hr⟩ := Option.map_eq_some_iff.mp hstep
      have hdisk := refreshBegin_disk hbegin
      cases start <;> cases hr <;> rw [hdisk] <;> exact .refl ok
    all_goals first | (cases hstep; exact .refl ok) | cases hstep

/-! ### The call itself -/

theorem FileOk.writer {d : Disk} (hfile : FileOk d calls c) (r : SwapOutRequest) (k : UInt64)
    (fd n : Nat) (hc : c = .swapOut r k (.write fd n)) :
    ∃ bytes, d.lookup (.tmp k) = some (fd, bytes) := by
  subst hc
  exact ⟨_, hfile⟩

theorem Call.committed_of_step (h : stepCall s outcome c = some (s', c'))
    {x : UInt64 × SwapOutRequest} (hx : c.committed = some x) : c'.committed = some x := by
  unfold Call.committed at hx
  split at hx
  · obtain ⟨⟨s₁, pc'⟩, hstep, hr⟩ := Option.map_eq_some_iff.mp h
    cases hr
    cases outcome with
    | ok =>
      cases hstep
      exact hx
    | _ => cases hstep
  · cases outcome <;> cases h
  · cases hx

theorem FileOk.mono {d d' : Disk} {calls calls' : List Call} (hfile : FileOk d calls c)
    (hcommitted : ∀ k r, Committed calls k r → Committed calls' k r)
    (htmp : ∀ k, c.key = some k → d'.lookup (.tmp k) = d.lookup (.tmp k))
    (hswap : ∀ k, c.key = some k ∧ c.committed = none ∨ c.reading = some k →
      d'.lookup (.swap k) = d.lookup (.swap k)) : FileOk d' calls' c := by
  unfold FileOk at hfile ⊢
  split at hfile
  · rw [htmp _ rfl]
    exact hfile
  · rw [htmp _ rfl]
    exact hfile
  · rw [htmp _ rfl]
    exact hfile
  · rw [hswap _ (.inl ⟨rfl, rfl⟩)]
    exact hfile
  · exact hfile
  · exact hfile
  · obtain ⟨hkey, r, hr, hsize⟩ := hfile
    exact ⟨hkey, r, hcommitted _ r hr, hsize⟩
  · obtain ⟨r, hr, hsize, hlookup, hgot⟩ := hfile
    exact ⟨r, hcommitted _ r hr, hsize, (hswap _ (.inr rfl)).trans hlookup, hgot⟩
  case h_14 => trivial
  all_goals
    obtain ⟨r, hr, hgot⟩ := hfile
    exact ⟨r, hcommitted _ r hr, hgot⟩

/-- A `SwapOut` keeps its file. -/
theorem stepSwapOut_fileOk {request : SwapOutRequest} {keyId : UInt64} {pc pc' : OutPc}
    (ok : s.disk.Ok) (hfile : FileOk s.disk s.calls (.swapOut request keyId pc))
    (h : stepSwapOut s request keyId pc outcome = some (s', pc')) :
    FileOk s'.disk calls (.swapOut request keyId pc') := by
  unfold stepSwapOut at h
  split at h
  case h_1 =>
    obtain ⟨⟨s₁, start⟩, hbegin, hr⟩ := Option.map_eq_some_iff.mp h
    cases start <;> cases hr <;> trivial
  case h_3 => split at h <;> cases h <;> trivial
  case h_4 =>
    cases h
    exact (Disk.create_spec ok (.tmp keyId)).2.1
  case h_6 fd written n =>
    split at h
    · cases h; trivial
    split at h
    · cases h
    next hle =>
    cases h
    have hlookup := (Disk.append_spec ok ((request.buffer.drop written).take n) hfile).2.1
    rw [← List.take_add] at hlookup
    split
    · next hall =>
      refine ⟨fd, hlookup.trans ?_⟩
      rw [hall, List.take_length]
    · exact hlookup
  case h_8 => cases h; exact hfile
  case h_10 =>
    obtain ⟨disk, hrename, hr⟩ := Option.map_eq_some_iff.mp h
    cases hr
    obtain ⟨fd, hlookup⟩ := hfile
    exact ⟨fd, (Disk.rename_spec ok (by nofun) hrename).2.1.trans hlookup⟩
  case h_12 =>
    obtain ⟨disk, hunlink, hr⟩ := Option.map_eq_some_iff.mp h
    cases hr; trivial
  case h_15 => cases h; exact rfl
  case h_16 result =>
    cases h
    cases result with
    | ok key => exact hfile
    | error err => trivial
  all_goals first | (cases h; trivial) | cases h

/-- A `SwapIn` reads the buffer of the `SwapOut` with its key. -/
theorem stepSwapIn_fileOk {request : SwapInRequest} {pc pc' : InPc}
    (hfile : FileOk s.disk s.calls (.swapIn request pc))
    (hcommitted : ∀ k r, Committed s.calls k r → Committed calls k r)
    (hentry : ∀ e, findEntry s request.keyId = some e →
      ∃ r, Committed s.calls request.keyId r ∧ r.bufferSize = e.dataSize)
    (hstored : (Call.swapIn request pc).reading = some request.keyId →
      ∃ fd, ∀ r, Committed s.calls request.keyId r →
        s.disk.lookup (.swap request.keyId) = some (fd, r.buffer))
    (h : stepSwapIn s request pc outcome = some (s', pc')) :
    FileOk s'.disk calls (.swapIn request pc') := by
  unfold stepSwapIn at h
  split at h
  case h_1 =>
    have hr := Option.some.inj h
    unfold lookupKeyForSwapIn at hr
    split at hr
    · cases hr; trivial
    next e hfind =>
    split at hr
    · cases hr; trivial
    · cases hr
      split
      · trivial
      · obtain ⟨r, hr, hsize⟩ := hentry e hfind
        exact ⟨(find_mem hfind).2, r, hcommitted _ r hr, hsize⟩
  case h_2 entry uring =>
    split at h
    · cases h; trivial
    split at h
    · cases h; trivial
    split at h
    · cases h
    split at h
    · cases h
    next fd hnames =>
    cases h
    obtain ⟨hkey, r, hr, hsize⟩ := hfile
    obtain ⟨fd', hlookup⟩ := hstored rfl
    have hnames' := (Disk.names_of_lookup (hlookup r hr)).1
    rw [hkey, hnames'] at hnames
    cases hnames
    exact ⟨r, hcommitted _ r hr, hsize, hlookup r hr, by simp⟩
  case h_4 entry uring fd got n =>
    obtain ⟨r, hr, hsize, hlookup, hgot⟩ := hfile
    split at h
    · cases h
    next content hcontent =>
    simp only at h
    split at h
    · cases h
    next hguard =>
    rw [not_or, not_or, not_not] at hguard
    -- the bytes read so far and the new ones are the first part of the buffer
    have hbuffer : content = r.buffer :=
      Option.some.inj (hcontent.symm.trans (Disk.names_of_lookup hlookup).2)
    have hnext : got ++ (content.drop got.length).take n = r.buffer.take (got.length + n) := by
      rw [List.take_add, ← hgot, hbuffer]
    have hlen : (got ++ (content.drop got.length).take n).length = got.length + n := by
      rw [List.length_append, hguard.1]
    split at h
    · next hall =>
      cases h
      refine ⟨r, hcommitted _ r hr, ?_⟩
      have htotal : r.buffer.length = got.length + n := by
        rw [hall, ← hsize, SwapOutRequest.bufferSize, UInt64.toNat_ofNat', Nat.mod_eq_of_lt r.fits]
      rw [hnext, ← htotal, List.take_length]
    split at h
    · cases h; trivial
    · cases h
      refine ⟨r, hcommitted _ r hr, hsize, hlookup, ?_⟩
      rw [hlen]
      exact hnext
  case h_6 result =>
    have hr := Option.some.inj h
    have hresult : ∀ got, result = .ok got → ∃ r, Committed calls request.keyId r ∧ r.buffer = got := by
      rintro got rfl
      obtain ⟨r, hr, hgot⟩ := hfile
      exact ⟨r, hcommitted _ r hr, hgot⟩
    unfold finishSwapIn at hr
    split at hr
    · cases hr
      cases result with
      | ok got => exact hresult got rfl
      | error err => trivial
    simp only at hr
    split at hr
    all_goals
      cases hr
      cases result with
      | ok got => exact hresult got rfl
      | error err => trivial
  case h_7 removedSize result =>
    obtain ⟨disk, hunlink, hr⟩ := Option.map_eq_some_iff.mp h
    cases hr
    cases result with
    | ok got =>
      obtain ⟨r, hr, hgot⟩ := hfile
      exact ⟨r, hcommitted _ r hr, hgot⟩
    | error err => trivial
  case h_8 removedSize result err =>
    cases h
    cases result with
    | ok got =>
      obtain ⟨r, hr, hgot⟩ := hfile
      exact ⟨r, hcommitted _ r hr, hgot⟩
    | error err => trivial
  case h_9 removedSize removed result =>
    cases h
    cases result with
    | ok got =>
      obtain ⟨r, hr, hgot⟩ := hfile
      exact ⟨r, hcommitted _ r hr, hgot⟩
    | error err => trivial
  case h_10 result =>
    cases h
    cases result with
    | ok got =>
      obtain ⟨r, hr, hgot⟩ := hfile
      exact ⟨r, hcommitted _ r hr, hgot⟩
    | error err => trivial
  all_goals first | (cases h; trivial) | cases h

/-! ### The other calls and the entries -/

variable {i : Nat}

theorem Committed.move (hc : s.calls[i]? = some c) (h : stepCall s outcome c = some (s', c'))
    (k : UInt64) (r : SwapOutRequest) (hr : Committed s.calls k r) :
    Committed (s.calls.set i c') k r :=
  exists_mem_set hc (fun hx => Call.committed_of_step h hx) hr

theorem KeysOk.entry_of_removing (ok : KeysOk s.entries s.calls) (hc : s.calls[i]? = some c)
    (hk : k ∈ c.removing) : (findEntry s k).isSome := by
  cases hfind : findEntry s k with
  | some e => rfl
  | none =>
    have hzero := ((ok k).absent hfind).2
    have hle := le_total (Call.removes k) hc
    have hpos : 0 < c.removes k := List.count_pos_iff.mpr hk
    omega

theorem KeysOk.entry_of_reading (ok : KeysOk s.entries s.calls) (hc : s.calls[i]? = some c)
    (hk : c.reading = some k) : (findEntry s k).isSome := by
  cases hfind : findEntry s k with
  | some e => rfl
  | none =>
    have hzero := ((ok k).absent hfind).1
    have hle := le_total (Call.reads k) hc
    rw [Call.reads, if_pos hk] at hle
    omega

theorem KeysOk.not_removing (ok : KeysOk s.entries s.calls)
    (hreads : 0 < total (Call.reads k) s.calls) (hc : c ∈ s.calls) : k ∉ c.removing := by
  intro hk
  obtain ⟨i, hi⟩ := List.mem_iff_getElem?.mp hc
  have hle := le_total (Call.removes k) hi
  have hpos : 0 < c.removes k := List.count_pos_iff.mpr hk
  have hexclusive := (ok k).exclusive
  omega

theorem Call.removing_of_unlinked (h : k ∈ c.unlinked) : k ∈ c.removing := by
  unfold Call.unlinked at h
  split at h
  · exact h
  · exact h
  · next todo removed err =>
    obtain ⟨r, hr, rfl⟩ := List.mem_map.mp h
    have hmem : r ∈ removed := List.mem_of_mem_filter hr
    simp only [Call.removing, Call.copies, List.map_append, List.map_map, List.mem_append]
    exact .inr (List.mem_map.mpr ⟨r, hmem, rfl⟩)
  · next removed err =>
    obtain ⟨r, hr, rfl⟩ := List.mem_map.mp h
    have hmem : r ∈ removed := List.mem_of_mem_filter hr
    simp only [Call.removing, Call.copies, List.map_map]
    exact List.mem_map.mpr ⟨r, hmem, rfl⟩
  · cases h

theorem FilesInv.stored_of_reading (inv : FilesInv s) (ok : KeysOk s.entries s.calls)
    (hnodup : (s.calls.filterMap Call.key).Nodup) (hc : s.calls[i]? = some c)
    (hk : c.reading = some k) :
    ∃ fd, ∀ r, Committed s.calls k r → s.disk.lookup (.swap k) = some (fd, r.buffer) := by
  have hreads : 0 < total (Call.reads k) s.calls := by
    have hle := le_total (Call.reads k) hc
    rw [Call.reads, if_pos hk] at hle
    omega
  obtain ⟨r, fd, ⟨d, hd, hr⟩, hlookup⟩ := inv.stored k (ok.entry_of_reading hc hk)
    fun d hd hmem => ok.not_removing hreads hd (Call.removing_of_unlinked hmem)
  refine ⟨fd, fun r' hr' => ?_⟩
  obtain ⟨d', hd', hr'⟩ := hr'
  have hmade := Call.made_of_committed hr
  have hmade' := Call.made_of_committed hr'
  obtain rfl := made_unique hnodup hd hd' hmade hmade'
  obtain rfl : r = r' := (Prod.mk.inj (Option.some.inj (hmade.symm.trans hmade'))).2
  exact hlookup

theorem Call.key_of_made {r : SwapOutRequest} (h : c.made = some (k, r)) :
    c.key = some k := by
  rw [Call.key, h]
  rfl

theorem Call.made_of_key (h : c.key = some k) : ∃ r, c.made = some (k, r) := by
  obtain ⟨⟨k', r⟩, hmade, rfl⟩ := Option.map_eq_some_iff.mp h
  exact ⟨r, hmade⟩

theorem DiskStep.frame {d : Call} {j : Nat} (hstep : DiskStep s.disk s'.disk c c')
    (inv : FilesInv s) (ok : KeysOk s.entries s.calls) (prov : Provenance s.entries s.calls)
    (hnodup : (s.calls.filterMap Call.key).Nodup) (hc : s.calls[i]? = some c)
    (hd : s.calls[j]? = some d) (hij : j ≠ i)
    (hcommitted : ∀ k r, Committed s.calls k r → Committed calls k r) : FileOk s'.disk calls d := by
  have hother : ∀ k, d.key = some k → c.key ≠ some k :=
    fun k hdk hck => hij (index_unique hnodup hd hc hdk hck)
  refine (inv.files d (List.mem_of_getElem? hd)).mono hcommitted (fun k hk => ?_) fun k hk => ?_
  · rcases hstep.tmp k with hsame | hck
    · exact hsame
    · exact absurd hck (hother k hk)
  · rcases hstep.swap k with hsame | ⟨hck, hnone⟩ | ⟨hremoving, -⟩
    · exact hsame
    · rcases hk with ⟨hdk, -⟩ | hreading
      · exact absurd hck (hother k hdk)
      · -- the key of a `SwapOut` that is not committed has no entry
        obtain ⟨r, hmade⟩ := Call.made_of_key hck
        have habsent := prov.absent hnodup (List.mem_of_getElem? hc) hmade hnone
        have hentry := ok.entry_of_reading hd hreading
        rw [findEntry, habsent] at hentry
        cases hentry
    · rcases hk with ⟨hdk, hnone⟩ | hreading
      · obtain ⟨r, hmade⟩ := Call.made_of_key hdk
        have habsent := prov.absent hnodup (List.mem_of_getElem? hd) hmade hnone
        have hentry := ok.entry_of_removing hc hremoving
        rw [findEntry, habsent] at hentry
        cases hentry
      · have hreads : 0 < total (Call.reads k) s.calls := by
          have hle := le_total (Call.reads k) hd
          rw [Call.reads, if_pos hreading] at hle
          omega
        exact absurd hremoving (ok.not_removing hreads (List.mem_of_getElem? hc))

theorem findEntry_finalizeEntries_none (removed : List (SwapKeyEntry × Bool)) :
    ∀ s : State, (findEntry s k = none ∨ ∃ r ∈ removed, r.1.keyId = k ∧ r.2 = true) →
    findEntry (removed.foldl (fun s r => finalizeEntry s r.1.keyId r.1.dataSize r.2) s) k = none := by
  induction removed with
  | nil =>
    rintro s (hnone | ⟨r, hr, -⟩)
    · exact hnone
    · cases hr
  | cons r removed ih =>
    intro s h
    refine ih _ ?_
    rw [findEntry_finalizeEntry]
    by_cases hk : k = r.1.keyId
    · rw [if_pos hk]
      split
      · exact .inl rfl
      next hkept =>
      rcases h with hnone | ⟨r', hr', hkey, hremoved⟩
      · rw [← hk, hnone]
        exact .inl rfl
      · rcases List.mem_cons.mp hr' with rfl | hr'
        · exact absurd hremoved hkept
        · exact .inr ⟨r', hr', hkey, hremoved⟩
    · rw [if_neg hk]
      rcases h with hnone | ⟨r', hr', hkey, hremoved⟩
      · exact .inl hnone
      · rcases List.mem_cons.mp hr' with rfl | hr'
        · exact absurd hkey.symm hk
        · exact .inr ⟨r', hr', hkey, hremoved⟩

theorem Effect.entry {entries : List SwapKeyEntry} (effect : Effect s c entries c')
    (hfresh : ∀ r k, c = .swapOut r k .commit → findEntry s k = none)
    (h : (find SwapKeyEntry.keyId entries k).isSome) :
    (findEntry s k).isSome ∨ ∃ r, c = .swapOut r k .commit := by
  cases effect with
  | quiet => exact .inl h
  | commit request keyId =>
    have hnone := hfresh request keyId rfl
    rw [put_of_absent hnone, find_append_singleton hnone] at h
    by_cases hk : k = keyId
    · subst hk
      exact .inr ⟨request, rfl⟩
    · rw [if_neg hk] at h
      exact .inl h
  | acquire =>
    rw [find_modify (by exact fun _ => rfl), Option.isSome_map] at h
    exact .inl h
  | release =>
    rw [find_modify (by exact fun _ => rfl), Option.isSome_map] at h
    exact .inl h
  | releaseLast =>
    rw [find_modify (by exact fun _ => rfl), Option.isSome_map] at h
    exact .inl h
  | lost => exact .inl h
  | finalize removed =>
    left
    cases hfind : findEntry s k with
    | some e => rfl
    | none =>
      have hnone := findEntry_finalizeEntries_none removed s (.inl hfind)
      rw [findEntry] at hnone
      rw [hnone] at h
      cases h

/-- A file that was unlinked stays unlinked until the entry is gone. -/
theorem unlinked_of_step (h : stepCall s outcome c = some (s', c')) (hk : k ∈ c.unlinked) :
    k ∈ c'.unlinked ∨ findEntry s' k = none := by
  unfold Call.unlinked at hk
  split at hk
  · next request size result =>
    cases outcome with
    | ok =>
      cases h
      obtain rfl := List.mem_singleton.mp hk
      right
      rw [findEntry_finalizeEntry, if_pos rfl]
      rfl
    | _ => cases h
  · next key entry u =>
    cases outcome with
    | ok =>
      cases h
      obtain rfl := List.mem_singleton.mp hk
      right
      rw [findEntry_finalizeEntry, if_pos rfl]
      rfl
    | _ => cases h
  · next todo removed err =>
    left
    obtain ⟨⟨s₁, pc'⟩, hstep, hr⟩ := Option.map_eq_some_iff.mp h
    cases hr
    cases todo with
    | nil =>
      cases outcome with
      | ok =>
        cases hstep
        exact hk
      | _ => cases hstep
    | cons entry todo =>
      cases outcome with
      | ok =>
        obtain ⟨disk, -, hr⟩ := Option.map_eq_some_iff.mp hstep
        cases hr
        simp only [Call.unlinked, List.filter_append, List.map_append, List.mem_append]
        exact .inl hk
      | error err' =>
        cases hstep
        simp only [Call.unlinked, List.filter_append, List.map_append, List.mem_append]
        exact .inl hk
      | _ => cases hstep
  · next removed err =>
    cases outcome with
    | ok =>
      cases h
      obtain ⟨r, hr, rfl⟩ := List.mem_map.mp hk
      right
      have hmem := List.mem_filter.mp hr
      exact findEntry_finalizeEntries_none removed s (.inr ⟨r, hmem.1, rfl, hmem.2⟩)
    | _ => cases h
  · cases hk

/-- A step of a call keeps the files. -/
theorem stepCall_filesInv (inv : FilesInv s) (ok : KeysOk s.entries s.calls)
    (prov : Provenance s.entries s.calls) (hnodup : (s.calls.filterMap Call.key).Nodup)
    (hc : s.calls[i]? = some c) (h : stepCall s outcome c = some (s', c')) :
    FilesInv { s' with calls := s.calls.set i c' } := by
  have hmem := List.mem_of_getElem? hc
  have hi : i < s.calls.length := (List.getElem?_eq_some_iff.mp hc).1
  have hdisk := stepCall_disk inv.disk (inv.files c hmem).writer h
  have hcommitted := fun k r => Committed.move hc h k r
  refine ⟨hdisk.ok, ?_, ?_⟩
  · refine forall_mem_set_of_ne (fun j d hij hd => ?_) ?_
    · exact hdisk.frame inv ok prov hnodup hc hd hij hcommitted
    · have hmine := inv.files c hmem
      cases callStep h with
      | @swapOut request keyId pc pc' hstep =>
        show FileOk s'.disk (s.calls.set i (.swapOut request keyId pc')) (.swapOut request keyId pc')
        exact stepSwapOut_fileOk inv.disk hmine hstep
      | @swapIn request pc pc' hstep =>
        show FileOk s'.disk (s.calls.set i (.swapIn request pc')) (.swapIn request pc')
        refine stepSwapIn_fileOk hmine hcommitted (fun e hfind => ?_)
          (fun hreading => inv.stored_of_reading ok hnodup hc hreading) hstep
        obtain ⟨he, hkey⟩ := find_mem hfind
        obtain ⟨d, hd, r, hr, hsize⟩ := prov.owned e he
        rw [hkey] at hr
        exact ⟨r, ⟨d, hd, hr⟩, hsize⟩
      | _ => trivial
  · intro k hentry hunlinked
    have hfresh : ∀ r k, c = .swapOut r k .commit → findEntry s k = none := by
      rintro r k rfl
      exact prov.absent hnodup hmem rfl rfl
    have hmine : k ∉ c'.unlinked := hunlinked c' (List.mem_set hi c')
    rcases (stepCall_effect h).entry hfresh hentry with hold | ⟨r, rfl⟩
    · -- the entry was there, and its file is not touched
      have hstill : ∀ d ∈ s.calls, k ∉ d.unlinked := by
        intro d hd hk
        obtain ⟨j, hj⟩ := List.mem_iff_getElem?.mp hd
        by_cases hij : j = i
        · subst hij
          obtain rfl : c = d := Option.some.inj (hc.symm.trans hj)
          rcases unlinked_of_step h hk with hk | hnone
          · exact hmine hk
          · simp only [findEntry] at hnone hentry
            rw [hnone] at hentry
            cases hentry
        · refine hunlinked d (List.mem_iff_getElem?.mpr ⟨j, ?_⟩) hk
          rw [List.getElem?_set_ne (Ne.symm hij)]
          exact hj
      obtain ⟨r, fd, hr, hlookup⟩ := inv.stored k hold hstill
      refine ⟨r, fd, hcommitted k r hr, ?_⟩
      rcases hdisk.swap k with hsame | ⟨hkey, hnone⟩ | ⟨-, hk⟩
      · exact hsame.trans hlookup
      · obtain ⟨r', hmade⟩ := Call.made_of_key hkey
        have habsent := prov.absent hnodup hmem hmade hnone
        rw [findEntry, habsent] at hold
        cases hold
      · exact absurd hk hmine
    · cases outcome with
      | ok =>
        cases h
        obtain ⟨fd, hlookup⟩ := inv.files _ hmem
        exact ⟨r, fd, ⟨_, List.mem_set hi _, rfl⟩, hlookup⟩
      | _ => cases h

/-- A first section touches no file. -/
theorem start_files (s : State) (request : Request) :
    (start s request).1.disk = s.disk ∧ (start s request).2.unlinked = [] ∧
    (∀ d calls, FileOk d calls (start s request).2) ∧
    ∀ k, (findEntry (start s request).1 k).isSome → (findEntry s k).isSome := by
  have hrefused : ∀ err, (∀ d calls, FileOk d calls (.refused err)) := fun _ _ _ => trivial
  cases request with
  | swapOut request =>
    simp only [start, startSwapOut]
    split
    · exact ⟨rfl, rfl, hrefused _, fun _ h => h⟩
    split
    · exact ⟨rfl, rfl, hrefused _, fun _ h => h⟩
    split
    · exact ⟨rfl, rfl, hrefused _, fun _ h => h⟩
    · exact ⟨rfl, rfl, fun _ _ => trivial, fun _ h => h⟩
  | swapIn request =>
    simp only [start, startSwapIn]
    split
    · exact ⟨rfl, rfl, hrefused _, fun _ h => h⟩
    · refine ⟨rfl, ?_, ?_, fun _ h => h⟩
      · split <;> rfl
      · intro d calls
        split <;> trivial
  | removeData keyId =>
    simp only [start, startRemoveData]
    split
    · exact ⟨rfl, rfl, hrefused _, fun _ h => h⟩
    split
    · exact ⟨rfl, rfl, hrefused _, fun _ h => h⟩
    split
    · exact ⟨rfl, rfl, hrefused _, fun _ h => h⟩
    have hmarked : ∀ k, (find SwapKeyEntry.keyId (modify SwapKeyEntry.keyId s.entries keyId
        fun e => { e with status := .removing }) k).isSome → (findEntry s k).isSome := by
      intro k hk
      rwa [find_modify (by exact fun _ => rfl), Option.isSome_map] at hk
    split
    · exact ⟨rfl, rfl, fun _ _ => trivial, hmarked⟩
    · exact ⟨rfl, rfl, fun _ _ => trivial, hmarked⟩
  | removeAllData =>
    simp only [start, startRemoveAllData]
    split
    · exact ⟨rfl, rfl, hrefused _, fun _ h => h⟩
    split
    · exact ⟨rfl, rfl, fun _ _ => trivial, fun _ h => h⟩
    · refine ⟨rfl, rfl, fun _ _ => trivial, fun k hk => ?_⟩
      rwa [findEntry, find_map_removing, Option.isSome_map] at hk
  | getStats => exact ⟨rfl, rfl, fun _ _ => trivial, fun _ h => h⟩

theorem start_filesInv (inv : FilesInv s) (request : Request) :
    FilesInv { (start s request).1 with calls := s.calls ++ [(start s request).2] } := by
  obtain ⟨hdisk, hunlinked, hfile, hentry⟩ := start_files s request
  have hcommitted : ∀ k r, Committed s.calls k r →
      Committed (s.calls ++ [(start s request).2]) k r :=
    fun k r ⟨d, hd, hr⟩ => ⟨d, List.mem_append_left _ hd, hr⟩
  refine ⟨hdisk ▸ inv.disk, forall_mem_append_singleton (fun d hd => ?_) (hfile _ _), ?_⟩
  · refine (inv.files d hd).mono hcommitted (fun k _ => ?_) fun k _ => ?_
    · rw [hdisk]
    · rw [hdisk]
  · intro k hk hnone
    obtain ⟨r, fd, hr, hlookup⟩ := inv.stored k (hentry k hk)
      fun d hd => hnone d (List.mem_append_left _ hd)
    refine ⟨r, fd, hcommitted k r hr, ?_⟩
    rw [hdisk]
    exact hlookup

end Files

/-! ## Every run -/

/-- A `SwapOut` that returns a key, or is about to. -/
def Call.returns : Call → Option (UInt64 × SwapOutRequest)
  | .swapOut request _ (.endOperation (.ok keyId)) => some (keyId, request)
  | .swapOut request _ (.done (.ok keyId)) => some (keyId, request)
  | _ => none

/-- Data integrity of a state: what a `SwapIn` put into the buffer is the buffer of the one
`SwapOut` that returned its key, and the next step leaves the files of the entries that are read
alone. -/
structure DataIntegrity (s : State) : Prop where
  swapIn : ∀ request got, .swapIn request (.done (.ok got)) ∈ s.calls →
    ∃ c ∈ s.calls, ∃ r, c.returns = some (request.keyId, r) ∧ r.buffer = got
  swapOut : ∀ (i j : Nat) (c d : Call) (k : UInt64) (r r' : SwapOutRequest),
    s.calls[i]? = some c → s.calls[j]? = some d → c.returns = some (k, r) →
    d.returns = some (k, r') → i = j
  kept : ∀ a t, step s a = some t → ∀ e ∈ s.entries, 0 < e.readCount →
    ∃ file, s.disk.lookup (.swap e.keyId) = some file ∧ t.disk.lookup (.swap e.keyId) = some file

/-- The invariants of a run. -/
structure IntegrityInv (limit : UInt64) (s : State) : Prop where
  readers : ReadersInv limit s
  files : s.issued ≤ 2 ^ 64 → FilesInv s

theorem init_integrityInv (useDirectIo : Bool) (available limit : UInt64) (intervalMs : UInt32)
    (now : Int) :
    IntegrityInv (configuredLimit limit)
      (init useDirectIo (Control.initWithAvailableSpace available limit intervalMs now)) :=
  ⟨init_readersInv useDirectIo available limit intervalMs now,
    fun _ => ⟨⟨nofun, nofun⟩, nofun, nofun⟩⟩

theorem step_integrityInv {limit : UInt64} (s : State) (a : Action) (t : State)
    (inv : IntegrityInv limit s) (hfew : FewInFlight s) (h : step s a = some t) :
    IntegrityInv limit t := by
  refine ⟨step_readersInv inv.readers hfew h, fun hissued => ?_⟩
  have hissued' := Nat.le_trans (step_keysInv inv.readers.quota.keys h).2 hissued
  have hnodup := inv.readers.quota.keys.nodup hissued'
  obtain ⟨prov, -⟩ := inv.readers.quota.accounts hissued'
  have ok := inv.readers.keys hissued'
  have hfiles := inv.files hissued'
  rcases step_cases h with ⟨request, -, rfl⟩ | ⟨i, outcome, c, s', c', -, hc, hstep, rfl⟩
  · exact start_filesInv hfiles request
  · exact stepCall_filesInv hfiles ok prov hnodup hc hstep

theorem Call.returns_eq_committed {d : Disk} {c : Call} (hfile : FileOk d calls c) :
    c.returns = c.committed := by
  cases c with
  | swapOut request keyId pc =>
    cases pc with
    | endOperation result =>
      cases result with
      | ok key =>
        obtain rfl : key = keyId := hfile
        rfl
      | error err => rfl
    | done result =>
      cases result with
      | ok key =>
        obtain rfl : key = keyId := hfile
        rfl
      | error err => rfl
    | _ => rfl
  | _ => rfl

theorem IntegrityInv.dataIntegrity {limit : UInt64} {s : State} (inv : IntegrityInv limit s)
    (hissued : s.issued ≤ 2 ^ 64) : DataIntegrity s := by
  have hnodup := inv.readers.quota.keys.nodup hissued
  obtain ⟨prov, ledger⟩ := inv.readers.quota.accounts hissued
  have ok := inv.readers.keys hissued
  have hfiles := inv.files hissued
  refine ⟨?_, ?_, ?_⟩
  · intro request got hmem
    obtain ⟨r, ⟨c, hc, hr⟩, hgot⟩ := hfiles.files _ hmem
    refine ⟨c, hc, r, ?_, hgot⟩
    rw [Call.returns_eq_committed (hfiles.files c hc), hr]
  · intro i j c d k r r' hc hd hr hr'
    rw [Call.returns_eq_committed (hfiles.files c (List.mem_of_getElem? hc))] at hr
    rw [Call.returns_eq_committed (hfiles.files d (List.mem_of_getElem? hd))] at hr'
    exact index_unique hnodup hc hd (Call.key_of_made (Call.made_of_committed hr))
      (Call.key_of_made (Call.made_of_committed hr'))
  · intro a t h e he hread
    have hfind : findEntry s e.keyId = some e := find_of_mem ledger.distinct he
    have hreads : 0 < total (Call.reads e.keyId) s.calls := by
      refine Nat.pos_of_ne_zero fun hzero => ?_
      have hcount := (ok e.keyId).readCount e hfind
      rw [hzero] at hcount
      rw [hcount] at hread
      exact absurd hread (by decide)
    obtain ⟨r, fd, -, hlookup⟩ := hfiles.stored e.keyId (by rw [hfind]; rfl)
      fun c hc hk => ok.not_removing hreads hc (Call.removing_of_unlinked hk)
    refine ⟨_, hlookup, ?_⟩
    rcases step_cases h with ⟨request, -, rfl⟩ | ⟨i, outcome, c, s', c', -, hc, hstep, rfl⟩
    · rw [(start_files s request).1]
      exact hlookup
    · have hmem := List.mem_of_getElem? hc
      rcases (stepCall_disk hfiles.disk (hfiles.files c hmem).writer hstep).swap e.keyId with
        hsame | ⟨hkey, hnone⟩ | ⟨hremoving, -⟩
      · exact hsame.trans hlookup
      · obtain ⟨r', hmade⟩ := Call.made_of_key hkey
        have habsent := prov.absent hnodup hmem hmade hnone
        exact absurd (hfind.symm.trans habsent) nofun
      · exact absurd hremoving (ok.not_removing hreads hmem)

/-- Every state of every run in which fewer calls are in flight than `activeOps_` can count, and
no key was handed out twice. -/
theorem dataIntegrity_of_run {useDirectIo : Bool} {available limit : UInt64} {intervalMs : UInt32}
    {now : Int} {as : List Action} {s : State}
    (hrun : run step (init useDirectIo
      (Control.initWithAvailableSpace available limit intervalMs now)) as = some s)
    (hfew : StepsOk step (fun s _ => FewInFlight s) (init useDirectIo
      (Control.initWithAvailableSpace available limit intervalMs now)) as)
    (hissued : s.issued < 2 ^ 64 - 1) : DataIntegrity s := by
  have inv := run_invariant step_integrityInv
    (init_integrityInv useDirectIo available limit intervalMs now) hfew hrun
  exact inv.dataIntegrity (by omega)

/-- The byte of `oneEntry` is swapped in. -/
def swapInSteps (i : Nat) : List Action :=
  alone i (.swapIn ⟨1, 0, 1⟩) [.ok, .opened false, .bytes 1, .ok, .ok]

def oneRead : State :=
  { oneEntry with calls := oneEntry.calls ++ [Call.swapIn ⟨1, 0, 1⟩ (.done (.ok [7]))] }

theorem run_oneRead :
    run step (init false smallControl) (swapOutSteps 0 ++ swapInSteps 1) = some oneRead := rfl

theorem dataIntegrity_of_run_oneRead :
    run step (init false smallControl) (swapOutSteps 0 ++ swapInSteps 1) = some oneRead ∧
    oneRead.issued < 2 ^ 64 - 1 ∧ DataIntegrity oneRead :=
  ⟨run_oneRead, by decide,
    dataIntegrity_of_run run_oneRead (stepsOk_fewInFlight _ _ (by decide)) (by decide)⟩

/-! ### Too many calls -/

/-- The entry of `oneEntry` while a call reads it. -/
def beingRead (activeOps : UInt32) (calls : List Call) : State :=
  { oneEntry with entries := [{ keyId := 1, dataSize := 1, readCount := 1 }], activeOps, calls }

def firstReader : List Call :=
  oneEntry.calls ++
    [Call.swapIn ⟨1, 0, 1⟩ (.read { keyId := 1, dataSize := 1, readCount := 1 } false 0 [])]

theorem run_beingRead :
    run step (init false smallControl)
        (swapOutSteps 0 ++ alone 1 (.swapIn ⟨1, 0, 1⟩) [.ok, .opened false]) =
      some (beingRead 1 firstReader) := rfl

theorem run_startSwapIn (n : Nat) : ∀ (ops : UInt32) (l : List Call),
    run step (beingRead ops l) (List.replicate n (.start (.swapIn ⟨2, 0, 1⟩))) =
      some (beingRead (ops + UInt32.ofNat n) (l ++ List.replicate n (.swapIn ⟨2, 0, 1⟩ .lookup))) := by
  induction n with
  | zero =>
    intro ops l
    simp [run]
  | succ n ih =>
    intro ops l
    have hfirst : step (beingRead ops l) (.start (.swapIn ⟨2, 0, 1⟩)) =
        some (beingRead (ops + 1) (l ++ [.swapIn ⟨2, 0, 1⟩ .lookup])) := rfl
    rw [List.replicate_succ, run, hfirst, Option.bind_some, ih, List.append_assoc,
      List.replicate_succ, UInt32.ofNat_add, UInt32.add_assoc, UInt32.add_comm 1,
      UInt32.ofNat_one]
    rfl

/-- The same entry, taken by a `RemoveAllData`. -/
def collected (calls : List Call) : State :=
  { beingRead 1 (calls ++ [.removeAllData
      (.unlink [{ keyId := 1, dataSize := 1, readCount := 1 }] [] none)]) with
    entries := [{ keyId := 1, dataSize := 1, status := .removing, readCount := 1 }]
    removeAllInProgress := true }

theorem collected_not_dataIntegrity (l : List Call) : ¬ DataIntegrity (collected l) := by
  intro hintegrity
  have hkept := hintegrity.kept (.go l.length .ok)
  simp only [step, collected, beingRead, List.getElem?_concat_length] at hkept
  obtain ⟨file, -, hgone⟩ := hkept _ rfl _ (List.mem_singleton_self _) (by decide)
  cases hgone

/-- `activeOps_` comes round while a call reads, and `RemoveAllData` unlinks its file. -/
theorem manyCalls_not_dataIntegrity :
    ∃ as s, run step (init false smallControl) as = some s ∧ s.issued < 2 ^ 64 - 1 ∧
      ¬ DataIntegrity s := by
  generalize hmany : 2 ^ 32 - 1 = n
  have hround : (1 : UInt32) + UInt32.ofNat n = 0 := by
    rw [← hmany]
    decide
  have hstarts := run_startSwapIn n 1 firstReader
  rw [hround] at hstarts
  generalize hl : firstReader ++ List.replicate n (.swapIn ⟨2, 0, 1⟩ .lookup) = l at hstarts
  have hcollect : step (beingRead 0 l) (.start .removeAllData) = some (collected l) := rfl
  refine ⟨(swapOutSteps 0 ++ alone 1 (.swapIn ⟨1, 0, 1⟩) [.ok, .opened false]) ++
    (List.replicate n (.start (.swapIn ⟨2, 0, 1⟩)) ++ [.start .removeAllData]), collected l, ?_, ?_,
    collected_not_dataIntegrity l⟩
  · rw [run_append, run_beingRead, Option.bind_some, run_append, hstarts, Option.bind_some, run,
      hcollect]
    rfl
  · have hkeys : (List.replicate n (Call.swapIn ⟨2, 0, 1⟩ .lookup)).filterMap Call.key = [] := by
      refine List.filterMap_eq_nil_iff.mpr fun c hc => ?_
      rw [List.eq_of_mem_replicate hc]
      rfl
    simp only [State.issued, collected, beingRead, ← hl, List.filterMap_append, hkeys]
    decide

end FileApi.Swapfs
