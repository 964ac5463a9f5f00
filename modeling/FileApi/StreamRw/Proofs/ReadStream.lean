import FileApi.Misc.Machine
import FileApi.StreamRw.Proofs.FsStream
import FileApi.StreamRw.StreamRw

/-!
# What a read stream pushes

The chunks are the bytes of the range from the start on. The end marker comes with each call that asks
for more than is left.
-/

namespace FileApi.StreamRw

variable {content : List UInt8} {start stop : Option Int} {s s' : ReadStream} {size : Nat}
  {e : ReadEnd}

/-- The bytes of the file from the start up to the end. -/
def range (content : List UInt8) (start stop : Option Int) : List UInt8 :=
  (match stop with
    | none => content
    | some stop => content.take stop.toNat).drop (start.getD 0).toNat

/-- The bytes of the chunks among what was pushed. -/
def chunks (pushed : List (Option (List UInt8))) : List UInt8 := pushed.flatMap (·.getD [])

theorem chunks_append (pushed more : List (Option (List UInt8))) :
    chunks (pushed ++ more) = chunks pushed ++ chunks more := List.flatMap_append

/-! ## One read -/

theorem FsStream.read_ok {f f' : FsStream} {bufLen : Nat} {offset : Int} {got : List UInt8}
    {e : StreamEnd} (h : f.read bufLen ⟨some offset, some bufLen⟩ e = (.ok got, f')) :
    0 ≤ offset ∧ got = (f.file.data.drop offset.toNat).take bufLen ∧ f'.file.data = f.file.data := by
  have hreaches := read_reaches h
  rw [hreaches.read] at h
  obtain ⟨hresult, rfl⟩ := Prod.mk.inj h
  split at hresult
  · cases hresult
  · next hwhole =>
    refine ⟨hreaches.nonneg, ?_, rfl⟩
    rw [← Except.ok.inj hresult]
    have hle : through e.device bufLen ≤ bufLen := Nat.min_le_right _ _
    rw [List.length_take, List.length_take] at hwhole
    rw [List.take_eq_take_iff]
    omega

theorem FsStream.read_file (f : FsStream) (bufLen : Nat) (options : IoOptions) (e : StreamEnd) :
    (f.read bufLen options e).2.file.data = f.file.data := by
  unfold FsStream.read
  split
  · rfl
  · split
    · rfl
    · next retLen offset hvalid =>
      have hseek : ∀ f', f.seekTo offset e = .ok f' → f'.file.data = f.file.data := by
        intro f' h
        unfold FsStream.seekTo at h
        split at h
        · split at h
          · cases h
          · cases h
            rfl
        · cases h
          rfl
      split
      · rfl
      · next f' hf' =>
        dsimp only
        split
        · exact hseek f' hf'
        · exact hseek f' hf'

/-- What a read pushes that was for so many bytes, of a call for so many. -/
def readPushes (got : List UInt8) (readSize size : Nat) : List (Option (List UInt8)) :=
  (if got = [] then [] else [some got]) ++
    if got.length ≠ readSize ∨ got.length < size then [none] else []

/-- The read of a call is rejected, or it gives what is there. -/
theorem ReadStream.readChunk_cases (s : ReadStream) (readSize size : Nat) (e : ReadEnd) :
    ∃ stream, stream.file.data = s.stream.file.data ∧
      ((∃ offset, s.readChunk readSize size e =
          { s with offset := offset, stream := stream, rejected := true }) ∨
        ∃ got, 0 ≤ s.offset ∧ got = (s.stream.file.data.drop s.offset.toNat).take readSize ∧
          s.readChunk readSize size e =
            { s with
              offset := s.offset + got.length
              stream := stream
              pushed := s.pushed ++ readPushes got readSize size
              bytesRead := s.bytesRead + got.length }) := by
  unfold ReadStream.readChunk
  by_cases hmemory : e.memory = true
  · rw [if_neg (not_not_intro hmemory)]
    dsimp only
    cases hread : s.stream.read readSize ⟨some s.offset, some readSize⟩ e.toStreamEnd with
    | mk result stream =>
      have hfile := s.stream.read_file readSize ⟨some s.offset, some readSize⟩ e.toStreamEnd
      rw [hread] at hfile
      refine ⟨stream, hfile, ?_⟩
      cases result with
      | error errno => exact .inl ⟨_, rfl⟩
      | ok got =>
        obtain ⟨hnonneg, hgot, -⟩ := FsStream.read_ok hread
        refine .inr ⟨got, hnonneg, hgot, ?_⟩
        have hle : got.length ≤ readSize := by
          rw [hgot]
          exact List.length_take_le _ _
        have hback : s.offset + readSize - readSize + got.length = s.offset + got.length := by omega
        have hpos : 0 < got.length ↔ got ≠ [] := List.length_pos_iff
        unfold readPushes
        dsimp only
        by_cases hmore : got.length ≠ readSize ∨ got.length < size
        · rw [if_pos hmore, if_pos hmore]
          by_cases hempty : got = []
          · rw [if_pos hempty, if_neg (mt hpos.mp (not_not_intro hempty))]
            subst hempty
            simp only [ReadStream.push, hback]
            rfl
          · rw [if_neg hempty, if_pos (hpos.mpr hempty)]
            simp only [ReadStream.push, hback, List.append_assoc]
        · have hfull : readSize = got.length := by
            by_contra hne
            exact hmore (.inl (Ne.symm hne))
          subst hfull
          rw [if_neg hmore, if_neg hmore, List.append_nil]
          by_cases hempty : got = []
          · rw [if_pos hempty, if_neg (mt hpos.mp (not_not_intro hempty)), List.append_nil]
            subst hempty
            rfl
          · rw [if_neg hempty, if_pos (hpos.mpr hempty)]
            rfl
  · rw [if_pos hmemory]
    exact ⟨s.stream, rfl, .inl ⟨s.offset, rfl⟩⟩

/-! ## What is left -/

/-- What is left of the range. -/
def rest (content : List UInt8) (start stop : Option Int) (s : ReadStream) : List UInt8 :=
  (range content start stop).drop (chunks s.pushed).length

/-- What a call pushes that asks for some bytes: what is left of them, and the end marker if they are
more than what is left. -/
def pushes (content : List UInt8) (start stop : Option Int) (s : ReadStream) (size : Nat) :
    List (Option (List UInt8)) :=
  (if (rest content start stop s).take size = [] then []
    else [some ((rest content start stop s).take size)]) ++
    if (rest content start stop s).length < size ∨ ∃ last, stop = some last ∧ last < start.getD 0 then
      [none]
    else []

/-- A stream that has pushed the first bytes of the range, and stands behind them. -/
structure Delivers (content : List UInt8) (start stop : Option Int) (s : ReadStream) : Prop where
  front : chunks s.pushed <+: range content start stop
  marker : ∀ i, s.pushed[i]? = some none → chunks (s.pushed.take i) = range content start stop
  count : s.bytesRead = (chunks s.pushed).length
  stands : s.rejected = false → s.offset = start.getD 0 + (chunks s.pushed).length
  nonneg : 0 < (chunks s.pushed).length → 0 ≤ start.getD 0
  last : s.stop = stop
  file : s.stream.file.data = content

theorem Delivers.append_rest (h : Delivers content start stop s) :
    chunks s.pushed ++ rest content start stop s = range content start stop :=
  List.prefix_iff_eq_append.mp h.front

theorem length_range_some (content : List UInt8) (start : Option Int) (last : Int) :
    (range content start (some last)).length =
      min last.toNat content.length - (start.getD 0).toNat := by
  rw [range, List.length_drop, List.length_take]

theorem Delivers.behind {last : Int} (h : Delivers content start (some last) s)
    (hbehind : last < start.getD 0 + (chunks s.pushed).length) :
    last < start.getD 0 ∧ rest content start (some last) s = [] := by
  have hlength := congrArg List.length h.append_rest
  rw [List.length_append, length_range_some] at hlength
  have hnonneg := h.nonneg
  have hlast : last < start.getD 0 := by
    rcases Nat.eq_zero_or_pos (chunks s.pushed).length with hzero | hpos
    · omega
    · have := hnonneg hpos
      omega
  exact ⟨hlast, List.length_eq_zero_iff.mp (by omega)⟩

theorem Delivers.rest_eq (h : Delivers content start stop s)
    (hoffset : 0 ≤ start.getD 0 + (chunks s.pushed).length) :
    rest content start stop s =
      match stop with
      | none => content.drop (start.getD 0 + (chunks s.pushed).length).toNat
      | some last => (content.drop (start.getD 0 + (chunks s.pushed).length).toNat).take
          (last - (start.getD 0 + (chunks s.pushed).length)).toNat := by
  have hnonneg := h.nonneg
  have hsum : (start.getD 0 + (chunks s.pushed).length).toNat =
      (start.getD 0).toNat + (chunks s.pushed).length := by omega
  unfold rest range
  rw [hsum]
  cases stop with
  | none => exact List.drop_drop
  | some last =>
    dsimp only
    rw [List.drop_drop, List.drop_take]
    congr 1
    omega

theorem Delivers.readSize {last : Int} (h : Delivers content start (some last) s)
    (hoffset : 0 ≤ start.getD 0 + (chunks s.pushed).length) (size : Nat) :
    let off : Int := start.getD 0 + (chunks s.pushed).length
    let readSize := if last < off + size then (last - off).toNat else size
    (content.drop off.toNat).take readSize = (rest content start (some last) s).take size ∧
      (readSize = size ∨ (rest content start (some last) s).length ≤ readSize ∧ readSize < size) := by
  dsimp only
  rw [h.rest_eq hoffset]
  dsimp only
  rw [List.take_take]
  split
  · next hlt =>
    have hle : (last - (start.getD 0 + (chunks s.pushed).length)).toNat ≤ size := by omega
    rw [Nat.min_eq_right hle]
    refine ⟨rfl, ?_⟩
    rcases Nat.eq_or_lt_of_le hle with heq | hsmall
    · exact .inl heq
    · exact .inr ⟨List.length_take_le _ _, hsmall⟩
  · next hge =>
    rw [Nat.min_eq_left (by omega)]
    exact ⟨rfl, .inl rfl⟩

theorem readPushes_eq {got left : List UInt8} {readSize : Nat} (hgot : got = left.take size)
    (hsize : readSize = size ∨ left.length ≤ readSize ∧ readSize < size) :
    readPushes got readSize size =
      (if left.take size = [] then [] else [some (left.take size)]) ++
        if left.length < size then [none] else [] := by
  have hlength : got.length = min size left.length := by rw [hgot, List.length_take]
  have hiff : got.length ≠ readSize ∨ got.length < size ↔ left.length < size := by omega
  unfold readPushes
  rw [if_congr hiff rfl rfl, hgot]

/-! ## Calls -/

/-- The state behind a call: it is rejected and pushes nothing, or it pushes what it should. -/
def Answers (content : List UInt8) (start stop : Option Int) (s : ReadStream) (size : Nat)
    (s' : ReadStream) : Prop :=
  ∃ stream, stream.file.data = content ∧
    ((∃ offset, s' = { s with offset := offset, stream := stream, rejected := true }) ∨
      ((rest content start stop s).take size ≠ [] → 0 ≤ start.getD 0) ∧
      s' =
        { s with
          offset := s.offset + ((rest content start stop s).take size).length
          stream := stream
          pushed := s.pushed ++ pushes content start stop s size
          bytesRead := s.bytesRead + ((rest content start stop s).take size).length })

theorem Delivers.readChunk (h : Delivers content start stop s) (hs : s.rejected = false)
    {readSize : Nat} (e : ReadEnd)
    (hread : 0 ≤ start.getD 0 + ((chunks s.pushed).length : Int) →
      (content.drop (start.getD 0 + (chunks s.pushed).length).toNat).take readSize =
          (rest content start stop s).take size ∧
        (readSize = size ∨ (rest content start stop s).length ≤ readSize ∧ readSize < size))
    (hstop : ¬ ∃ last, stop = some last ∧ last < start.getD 0) :
    Answers content start stop s size (s.readChunk readSize size e) := by
  have hoff := h.stands hs
  obtain ⟨stream, hfile, hcases⟩ := s.readChunk_cases readSize size e
  refine ⟨stream, hfile.trans h.file, ?_⟩
  rcases hcases with hrejected | ⟨got, hnonneg, hgot, hrun⟩
  · exact .inl hrejected
  · rw [hoff] at hnonneg
    rw [h.file, hoff] at hgot
    obtain ⟨hleft, hsize⟩ := hread hnonneg
    have hall := hgot.trans hleft
    have hpushes : readPushes got readSize size = pushes content start stop s size := by
      rw [readPushes_eq hall hsize, pushes, if_congr (or_iff_left hstop) rfl rfl]
    refine .inr ⟨fun hne => ?_, ?_⟩
    · rcases Nat.eq_zero_or_pos (chunks s.pushed).length with hzero | hpos
      · omega
      · exact h.nonneg hpos
    · rw [hrun, hpushes, hall]

theorem doRead_none (hstop : s.stop = none) : s.doRead size e = s.readChunk size size e := by
  unfold ReadStream.doRead
  rw [hstop]

theorem doRead_some {last : Int} (hstop : s.stop = some last) :
    s.doRead size e = if last < s.offset then s.push none
      else s.readChunk (if last < s.offset + size then (last - s.offset).toNat else size) size e := by
  unfold ReadStream.doRead
  rw [hstop]

theorem Delivers.doRead (h : Delivers content start stop s) (hs : s.rejected = false) (size : Nat)
    (e : ReadEnd) : Answers content start stop s size (s.doRead size e) := by
  have hoff := h.stands hs
  cases stop with
  | none =>
    rw [doRead_none h.last]
    refine h.readChunk hs e (fun hnonneg => ⟨?_, .inl rfl⟩) ?_
    · rw [h.rest_eq hnonneg]
    · rintro ⟨last, ⟨⟩, -⟩
  | some last =>
    rw [doRead_some h.last]
    split
    · next hbehind =>
      rw [hoff] at hbehind
      obtain ⟨hlast, hrest⟩ := h.behind hbehind
      have hpushes : pushes content start (some last) s size = [none] := by
        rw [pushes, hrest, List.take_nil, if_pos rfl, if_pos (.inr ⟨last, rfl, hlast⟩),
          List.nil_append]
      refine ⟨s.stream, h.file, .inr ⟨fun hne => ?_, ?_⟩⟩
      · rw [hrest, List.take_nil] at hne
        exact absurd rfl hne
      · rw [hpushes, hrest, List.take_nil, List.length_nil, Nat.add_zero, Int.natCast_zero,
          Int.add_zero]
        rfl
    · next hnot =>
      rw [hoff] at hnot ⊢
      refine h.readChunk hs e (fun hnonneg => h.readSize hnonneg size) ?_
      rintro ⟨last', ⟨⟩, hlast⟩
      omega

theorem Delivers.create (content : List UInt8) (start stop : Option Int) :
    Delivers content start stop (ReadStream.create content start stop) where
  front := List.nil_prefix
  marker := nofun
  count := rfl
  stands := fun _ => (Int.add_zero _).symm
  nonneg := fun h => absurd h (Nat.lt_irrefl 0)
  last := rfl
  file := rfl

theorem chunks_pushes (content : List UInt8) (start stop : Option Int) (s : ReadStream) (size : Nat) :
    chunks (pushes content start stop s size) = (rest content start stop s).take size := by
  unfold pushes
  rw [chunks_append]
  split <;> split <;> simp_all [chunks]

/-- The end marker stands behind the bytes that a call pushes, and only if they were less than what
it asked for. -/
theorem pushes_marker {i : Nat} (h : (pushes content start stop s size)[i]? = some none) :
    chunks ((pushes content start stop s size).take i) = (rest content start stop s).take size ∧
      ((rest content start stop s).length < size ∨ ∃ last, stop = some last ∧ last < start.getD 0) := by
  unfold pushes at h ⊢
  by_cases hmore : (rest content start stop s).length < size ∨
      ∃ last, stop = some last ∧ last < start.getD 0
  · refine ⟨?_, hmore⟩
    rw [if_pos hmore] at h ⊢
    by_cases hempty : (rest content start stop s).take size = []
    · rw [if_pos hempty] at h ⊢
      rw [hempty]
      cases i with
      | zero => rfl
      | succ i => cases h
    · rw [if_neg hempty] at h ⊢
      match i, h with
      | 1, _ => exact List.append_nil _
  · rw [if_neg hmore, List.append_nil] at h
    split at h
    · cases h
    · match i, h with
      | 0, h => cases h

theorem Delivers.whole (h : Delivers content start stop s)
    (hmore : (rest content start stop s).length < size ∨
      ∃ last, stop = some last ∧ last < start.getD 0) :
    chunks s.pushed ++ (rest content start stop s).take size = range content start stop := by
  rcases hmore with hshort | ⟨last, rfl, hlast⟩
  · rw [List.take_of_length_le (Nat.le_of_lt hshort), h.append_rest]
  · have hrest := (h.behind (by omega)).2
    have hall := h.append_rest
    rw [hrest] at hall ⊢
    rw [List.take_nil, hall]

theorem Delivers.answers (h : Delivers content start stop s) (hs : s.rejected = false)
    (hanswers : Answers content start stop s size s') : Delivers content start stop s' := by
  obtain ⟨stream, hfile, ⟨offset, rfl⟩ | ⟨hnonneg, rfl⟩⟩ := hanswers
  · exact ⟨h.front, h.marker, h.count, nofun, h.nonneg, h.last, hfile⟩
  · have hchunks : chunks (s.pushed ++ pushes content start stop s size) =
        chunks s.pushed ++ (rest content start stop s).take size := by
      rw [chunks_append, chunks_pushes]
    have hlength := congrArg List.length hchunks
    rw [List.length_append] at hlength
    refine ⟨?_, fun i hi => ?_, ?_, fun _ => ?_, fun hpos => ?_, h.last, hfile⟩
    · rw [hchunks, ← h.append_rest]
      exact (List.prefix_append_right_inj _).mpr (List.take_prefix _ _)
    · dsimp only at hi ⊢
      by_cases hold : i < s.pushed.length
      · rw [List.getElem?_append_left hold] at hi
        rw [List.take_append_of_le_length (Nat.le_of_lt hold)]
        exact h.marker i hi
      · have hle := Nat.not_lt.mp hold
        rw [List.getElem?_append_right hle] at hi
        obtain ⟨htake, hmore⟩ := pushes_marker hi
        rw [List.take_append, List.take_of_length_le hle, chunks_append, htake]
        exact h.whole hmore
    · rw [hlength, h.count]
    · rw [hlength, h.stands hs]
      push_cast
      omega
    · dsimp only at hpos
      rw [hlength] at hpos
      rcases Nat.eq_zero_or_pos (chunks s.pushed).length with hzero | hk
      · exact hnonneg (List.length_pos_iff.mp (by omega))
      · exact h.nonneg hk

/-! ## Runs -/

variable {call : Nat × ReadEnd}

theorem step_eq (h : s.step call = some s') :
    s.rejected = false ∧ s' = s.doRead call.1 call.2 := by
  unfold ReadStream.step at h
  split at h
  · cases h
  · next hs => exact ⟨Bool.not_eq_true _ ▸ hs, (Option.some.inj h).symm⟩

theorem Delivers.step (h : Delivers content start stop s) (hstep : s.step call = some s') :
    Delivers content start stop s' := by
  obtain ⟨hs, rfl⟩ := step_eq hstep
  exact h.answers hs (h.doRead hs call.1 call.2)

theorem Delivers.pushed (h : Delivers content start stop s) (hstep : s.step call = some s')
    (hresolved : s'.rejected = false) :
    s'.pushed = s.pushed ++ pushes content start stop s call.1 := by
  obtain ⟨hs, rfl⟩ := step_eq hstep
  obtain ⟨stream, -, ⟨offset, hrun⟩ | ⟨-, hrun⟩⟩ := h.doRead hs call.1 call.2
  · rw [hrun] at hresolved
    cases hresolved
  · rw [hrun]

theorem count_pushes (content : List UInt8) (start stop : Option Int) (s : ReadStream) (size : Nat) :
    (pushes content start stop s size).count none ≤ 1 := by
  unfold pushes
  rw [List.count_append]
  split <;> split <;> simp

theorem Delivers.count_marker (h : Delivers content start stop s) (hstep : s.step call = some s')
    (hnone : none ∉ s.pushed) : s'.pushed.count none ≤ 1 := by
  have hzero := List.count_eq_zero.mpr hnone
  have hone := count_pushes content start stop s call.1
  obtain ⟨hs, rfl⟩ := step_eq hstep
  obtain ⟨stream, -, ⟨offset, hrun⟩ | ⟨-, hrun⟩⟩ := h.doRead hs call.1 call.2
  · rw [hrun]
    exact hzero ▸ Nat.zero_le 1
  · rw [hrun]
    dsimp only
    rw [List.count_append]
    omega

/-- In every run the chunks in front of an end marker are the range, and all chunks are its first
bytes, which are counted. A call that resolves pushes what it asked for of what is left, and the end
marker exactly if that is less or the end is in front of the start. It comes once if no call follows
it. -/
theorem readStream_delivers (content : List UInt8) (start stop : Option Int)
    (calls : List (Nat × ReadEnd)) (s : ReadStream)
    (hrun : Machine.run ReadStream.step (ReadStream.create content start stop) calls = some s) :
    (∀ before after, s.pushed = before ++ none :: after → chunks before = range content start stop) ∧
      chunks s.pushed <+: range content start stop ∧ s.bytesRead = (chunks s.pushed).length ∧
      (∀ call s', s.step call = some s' → s'.rejected = false →
        s'.pushed = s.pushed ++ pushes content start stop s call.1) ∧
      (Machine.StepsOk ReadStream.step (fun s _ => none ∉ s.pushed)
        (ReadStream.create content start stop) calls → s.pushed.count none ≤ 1) := by
  have h : Delivers content start stop s :=
    Machine.run_invariant (fun s call t h (_ : True) hstep => h.step hstep) (.create _ _ _)
      (Machine.stepsOk_true _ _) hrun
  refine ⟨fun before after hpushed => ?_, h.front, h.count, fun call s' => h.pushed, fun hok => ?_⟩
  · have hmarker := h.marker before.length (by simp [hpushed])
    rwa [hpushed, List.take_left] at hmarker
  · have hinv : Delivers content start stop s ∧ s.pushed.count none ≤ 1 :=
      Machine.run_invariant
        (fun s call t (hs : Delivers content start stop s ∧ s.pushed.count none ≤ 1) hnone hstep =>
          ⟨hs.1.step hstep, hs.1.count_marker hstep hnone⟩)
        ⟨.create _ _ _, Nat.zero_le 1⟩ hok hrun
    exact hinv.2

theorem readStream_delivers_three :
    ∃ s, Machine.run ReadStream.step (ReadStream.create [1, 2, 3, 4, 5] (some 1) (some 4))
        [(2, {}), (2, {})] = some s ∧ s.pushed = [some [2, 3], some [4], none] ∧
      s.bytesRead = (chunks s.pushed).length ∧ s.pushed.count none ≤ 1 := by
  have hrun : Machine.run ReadStream.step (ReadStream.create [1, 2, 3, 4, 5] (some 1) (some 4))
      [(2, {}), (2, {})] = some
        { bytesRead := 3, offset := 4, stop := some 4, stream := ⟨⟨[1, 2, 3, 4, 5], 4⟩, false⟩,
          pushed := [some [2, 3], some [4], none] } := by decide
  have h := readStream_delivers _ _ _ _ _ hrun
  exact ⟨_, hrun, rfl, h.2.2.1, h.2.2.2.2 (by decide)⟩

/-- A second call behind the end of the file pushes the end marker a second time. -/
theorem readStream_ends_twice :
    ∃ s, Machine.run ReadStream.step (ReadStream.create [1, 2] none none) [(5, {}), (5, {})] =
      some s ∧ s.pushed = [some [1, 2], none, none] := by
  refine ⟨⟨2, 2, none, ⟨⟨[1, 2], 2⟩, false⟩, [some [1, 2], none, none], false⟩, ?_, rfl⟩
  decide

end FileApi.StreamRw
