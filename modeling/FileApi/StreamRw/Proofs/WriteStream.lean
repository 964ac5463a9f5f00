import FileApi.Misc.Machine
import FileApi.StreamRw.Proofs.FsStream
import FileApi.StreamRw.StreamRw

/-!
# What a write stream does with its chunks

A chunk that is written whole is behind the ones before it, and its callback is called. One that is
written in part counts as written, and behind one that is rejected there is no callback.
-/

namespace FileApi.StreamRw

variable {content : List UInt8} {start : Option Int} {mode : Option Nat} {w w' : Writing}
  {chunk : List UInt8} {e : StreamEnd}

/-! ## What is claimed -/

/-- All callbacks so far were called once, without an error. -/
def AllDone (w : Writing) : Prop := ∀ callbacks ∈ w.callbacks, callbacks = [.done]

/-- The file has the chunks from the start on, and they are counted. -/
structure HasChunks (start : Option Int) (w : Writing) : Prop where
  bytes : w.stream.stream.file.data.drop (start.getD 0).toNat = w.chunks.flatten
  count : w.stream.bytesWritten = w.chunks.flatten.length

/-- The callback of a chunk is called once, and without an error only if the chunk is written whole;
and if all callbacks were called so, the file has the chunks. -/
def ChunkMeets (start : Option Int) (w : Writing) (call : List UInt8 × StreamEnd) : Prop :=
  ∀ w', w.step call = some w' →
    (∃ callback, w'.callbacks = w.callbacks ++ [[callback]] ∧
      (callback = .done → w'.stream.bytesWritten = w.stream.bytesWritten + call.1.length)) ∧
    (AllDone w' → HasChunks start w')

/-- The write below is a full one: the stream is open, the chunk is not too large, the offset is not
negative, `fseek` succeeds, and all bytes get through. -/
def WrittenWhole (w : Writing) (call : List UInt8 × StreamEnd) : Prop :=
  Reaches call.2 call.1.length w.stream.offset ∧ through call.2.device call.1.length = call.1.length

instance (e : StreamEnd) (bufLen : Nat) (offset : Int) : Decidable (Reaches e bufLen offset) :=
  decidable_of_iff (e.opened = true ∧ bufLen ≤ UINT_MAX ∧ 0 ≤ offset ∧ e.fseek = none)
    ⟨fun h => ⟨h.1, h.2.1, h.2.2.1, h.2.2.2⟩, fun h => ⟨h.opened, h.fits, h.nonneg, h.fseek⟩⟩

instance (w : Writing) (call : List UInt8 × StreamEnd) : Decidable (WrittenWhole w call) :=
  inferInstanceAs (Decidable (_ ∧ _))

/-! ## One write -/

/-- A stream of a file that has been emptied, and has the chunks behind the start now. -/
structure Behind (start : Option Int) (w : Writing) : Prop where
  append : w.stream.stream.append = false
  data : w.stream.stream.file.data =
    if w.chunks.flatten = [] then []
    else List.replicate (start.getD 0).toNat 0 ++ w.chunks.flatten
  count : w.stream.bytesWritten = w.chunks.flatten.length
  offset : w.stream.offset = start.getD 0 + w.chunks.flatten.length
  nonneg : w.chunks.flatten ≠ [] → 0 ≤ start.getD 0
  done : AllDone w

theorem Behind.hasChunks (h : Behind start w) : HasChunks start w := by
  refine ⟨?_, h.count⟩
  rw [h.data]
  split
  · next hempty => rw [hempty, List.drop_nil]
  · exact List.drop_left' List.length_replicate

theorem write_behind (start : Nat) (front : List UInt8) {bytes : List UInt8} (hbytes : bytes ≠ []) :
    ((ByteFile.mk (if front = [] then [] else List.replicate start 0 ++ front)
      (start + front.length)).write bytes).data = List.replicate start 0 ++ (front ++ bytes) := by
  by_cases hfront : front = []
  · rw [if_pos hfront, hfront]
    simp [ByteFile.write, ByteFile.gap, hbytes]
  · rw [if_neg hfront, ByteFile.write_atEnd, List.append_assoc]
    rw [ByteFile.AtEnd, List.length_append, List.length_replicate]

theorem not_waiting (h : AllDone w) : [] ∉ w.callbacks := fun hmem => nomatch h [] hmem

/-- A full write puts the chunk behind the others. -/
theorem Behind.step (h : Behind start w) (hwhole : WrittenWhole w (chunk, e)) :
    ∃ w', w.step (chunk, e) = some w' ∧ Behind start w' ∧ w'.chunks = w.chunks ++ [chunk] ∧
      w'.callbacks = w.callbacks ++ [[.done]] := by
  obtain ⟨hreaches, hall⟩ := hwhole
  have hnonneg := hreaches.nonneg
  rw [h.offset] at hnonneg
  have hstart : 0 ≤ start.getD 0 := by
    by_cases hempty : w.chunks.flatten = []
    · rw [hempty] at hnonneg
      simpa using hnonneg
    · exact h.nonneg hempty
  have hwrite := hreaches.write w.stream.stream
  dsimp only at hall hwrite
  rw [hall, if_neg fun hand => hand.2 hand.1, List.take_length] at hwrite
  have hstep : w.step (chunk, e) = some
      ⟨{ bytesWritten := w.stream.bytesWritten + chunk.length
         offset := w.stream.offset + chunk.length
         stream := ({ w.stream.stream with
           file := w.stream.stream.file.seekTo w.stream.offset.toNat } : FsStream).fwrite chunk },
        w.chunks ++ [chunk], w.callbacks ++ [[.done]]⟩ := by
    rw [Writing.step, if_neg (not_waiting h.done), WriteStream.doWrite, hwrite]
  have hflatten : (w.chunks ++ [chunk]).flatten = w.chunks.flatten ++ chunk := by
    rw [List.flatten_append, List.flatten_singleton]
  refine ⟨_, hstep, ⟨?_, ?_, ?_, ?_, fun _ => hstart, ?_⟩, rfl, rfl⟩
  · dsimp only
    unfold FsStream.fwrite
    split
    · exact h.append
    · exact h.append
  · dsimp only
    rw [hflatten]
    unfold FsStream.fwrite
    by_cases hchunk : chunk = []
    · rw [if_pos hchunk, hchunk, List.append_nil]
      exact h.data
    · rw [if_neg hchunk, if_neg (List.append_ne_nil_of_right_ne_nil _ hchunk)]
      have hpos : w.stream.offset.toNat = (start.getD 0).toNat + w.chunks.flatten.length := by
        rw [h.offset]
        omega
      dsimp only
      rw [h.append, if_neg Bool.false_ne_true, ByteFile.seekTo, h.data, hpos]
      exact write_behind _ _ hchunk
  · dsimp only
    rw [hflatten, List.length_append, h.count]
  · dsimp only
    rw [hflatten, List.length_append, h.offset]
    push_cast
    omega
  · intro callbacks hmem
    rcases List.mem_append.mp hmem with hmem | hmem
    · exact h.done callbacks hmem
    · exact List.mem_singleton.mp hmem

theorem doWrite_not_whole (s : WriteStream)
    (h : ¬ (Reaches e chunk.length s.offset ∧ through e.device chunk.length = chunk.length)) :
    (s.doWrite chunk e).1 = [] ∨
      (s.doWrite chunk e).1 = [.done] ∧
        (s.doWrite chunk e).2.bytesWritten < s.bytesWritten + chunk.length := by
  unfold WriteStream.doWrite
  cases hwrite : s.stream.write chunk ⟨some s.offset, none⟩ e with
  | mk result stream =>
    cases result with
    | error errno => exact .inl rfl
    | ok writeIn =>
      have hreaches := write_reaches hwrite
      rw [hreaches.write] at hwrite
      have hresult := (Prod.mk.inj hwrite).1
      split at hresult
      · cases hresult
      · cases hresult
        have hne : through e.device chunk.length ≠ chunk.length := fun heq => h ⟨hreaches, heq⟩
        have hle : through e.device chunk.length ≤ chunk.length := Nat.min_le_right _ _
        refine .inr ⟨rfl, ?_⟩
        dsimp only
        omega

theorem Behind.meets_iff (h : Behind start w) (call : List UInt8 × StreamEnd) :
    ChunkMeets start w call ↔ WrittenWhole w call := by
  obtain ⟨chunk, e⟩ := call
  constructor
  · intro hmeets
    by_contra hnot
    have hstep : w.step (chunk, e) = some ⟨(w.stream.doWrite chunk e).2, w.chunks ++ [chunk],
        w.callbacks ++ [(w.stream.doWrite chunk e).1]⟩ := if_neg (not_waiting h.done)
    obtain ⟨⟨callback, hcallbacks, hdone⟩, -⟩ := hmeets _ hstep
    have hone : (w.stream.doWrite chunk e).1 = [callback] :=
      List.singleton_inj.mp (List.append_cancel_left hcallbacks)
    rcases doWrite_not_whole w.stream hnot with hnone | ⟨hshort, hless⟩
    · rw [hnone] at hone
      cases hone
    · rw [hshort] at hone
      cases hone
      have hwritten := hdone rfl
      exact absurd hwritten (Nat.ne_of_lt hless)
  · intro hwhole w' hstep
    obtain ⟨w'', hstep', hbehind, hchunks, hcallbacks⟩ := h.step hwhole
    cases hstep.symm.trans hstep'
    refine ⟨⟨.done, hcallbacks, fun _ => ?_⟩, fun _ => hbehind.hasChunks⟩
    rw [hbehind.count, hchunks, List.flatten_append, List.flatten_singleton, List.length_append,
      h.count]

/-! ## Runs -/

/-- A write stream of a file with some content. -/
def begin (content : List UInt8) (start : Option Int) (mode : Option Nat) : Writing where
  stream := WriteStream.create content start mode

theorem behind_begin (content : List UInt8) (start : Option Int)
    (hmode : convertOpenMode mode = .w ∨ convertOpenMode mode = .wPlus) :
    Behind start (begin content start mode) := by
  have hopen : fopen content (convertOpenMode mode) = ⟨⟨[], 0⟩, false⟩ := by
    rcases hmode with hmode | hmode
    · rw [hmode]
      rfl
    · rw [hmode]
      rfl
  have hstream : (begin content start mode).stream.stream = ⟨⟨[], 0⟩, false⟩ := hopen
  refine ⟨?_, ?_, rfl, (Int.add_zero _).symm, fun hne => absurd rfl hne, nofun⟩
  · rw [hstream]
  · rw [hstream]
    rfl

/-- In modes that empty the file, all chunks of a run are handled as claimed exactly if every write
below is a full one. -/
theorem writeStream_run_iff (content : List UInt8) (start : Option Int) (mode : Option Nat)
    (hmode : convertOpenMode mode = .w ∨ convertOpenMode mode = .wPlus)
    (calls : List (List UInt8 × StreamEnd)) :
    Machine.StepsOk Writing.step (ChunkMeets start) (begin content start mode) calls ↔
      Machine.StepsOk Writing.step WrittenWhole (begin content start mode) calls := by
  refine Machine.stepsOk_congr (fun w call w' (h : Behind start w) hwhole hstep => ?_)
    (fun w call h => h.meets_iff call) (behind_begin content start hmode)
  obtain ⟨w'', hstep', hbehind, -⟩ := h.step hwhole
  cases hstep.symm.trans hstep'
  exact hbehind

theorem writeStream_run_two :
    Machine.StepsOk Writing.step (ChunkMeets (some 2)) (begin [9] (some 2) none)
      [([1, 2], {}), ([3], {})] :=
  (writeStream_run_iff [9] (some 2) none (.inl rfl) _).mpr (by decide)

/-- Of two bytes one gets through, and the callback is called as if both had; none gets through, and
the callback is not called. -/
theorem writeStream_loses :
    ¬ Machine.StepsOk Writing.step (ChunkMeets none) (begin [] none none)
        [([1, 2], { device := some 1 })] ∧
      ¬ Machine.StepsOk Writing.step (ChunkMeets none) (begin [] none none)
        [([1, 2], { device := some 0 })] := by
  have h : Behind none (begin [] none none) := behind_begin [] none (.inl rfl)
  constructor
  · rintro ⟨hmeets, -⟩
    exact absurd ((h.meets_iff _).mp hmeets) (by decide)
  · rintro ⟨hmeets, -⟩
    exact absurd ((h.meets_iff _).mp hmeets) (by decide)

end FileApi.StreamRw
