import FileApi.Misc.ByteFile

/-!
# A buffer in front of a device

A buffered file: bytes are collected and handed to the device when the buffer is full, before a
seek and at the close. The device takes as many bytes of a write as it likes, and a write it does
not take whole has failed; the buffer is given up then. Beside the file stand the byte array that
would hold every byte that was handed over, and the calls that were answered with a failure.
-/

namespace FileApi

/-- What a buffered file is asked for. -/
inductive StdioCall where
  | write (bytes : List UInt8)
  | seek (pos : Nat)
  deriving DecidableEq

/-- A buffered file. `device n` is how many bytes the device takes of its `n`-th write. -/
structure Stdio where
  size : Nat
  device : Nat → Nat
  writes : Nat := 0
  /-- What the device holds, and where its next write goes. -/
  file : ByteFile := ⟨[], 0⟩
  buffer : List UInt8 := []
  /-- Every byte that was handed over, at its place. -/
  handed : ByteFile := ⟨[], 0⟩
  /-- The calls in which a write of the device failed. -/
  refused : List StdioCall := []
  /-- The bytes that were handed over, were due to go to the device, and were not taken. -/
  lost : List UInt8 := []

namespace Stdio

/-- The device takes the whole buffer in its next write, if there is something in it. -/
def TakesBuffer (f : Stdio) : Prop := f.buffer.length ≤ f.device f.writes

instance (f : Stdio) : Decidable f.TakesBuffer := inferInstanceAs (Decidable (_ ≤ _))

/-- The buffer goes to the device. -/
def flush (f : Stdio) : Bool × Stdio :=
  if f.buffer = [] then (true, f)
  else
    (f.TakesBuffer,
      { f with
        writes := f.writes + 1
        file := f.file.write (f.buffer.take (f.device f.writes))
        buffer := []
        lost := f.lost ++ f.buffer.drop (f.device f.writes) })

/-- `bytes` are added to the buffer. -/
def put (f : Stdio) (bytes : List UInt8) : Stdio :=
  { f with buffer := f.buffer ++ bytes, handed := f.handed.write bytes }

/-- A call that flushed the buffer is refused if the flush has failed. -/
def answer (call : StdioCall) : Bool × Stdio → Bool × Stdio
  | (true, f) => (true, f)
  | (false, f) => (false, { f with refused := f.refused ++ [call] })

/-- Bytes are buffered, or go to the device with what was buffered before. -/
def write (f : Stdio) (bytes : List UInt8) : Bool × Stdio :=
  if bytes = [] then (true, f)
  else if (f.buffer ++ bytes).length ≤ f.size then (true, f.put bytes)
  else answer (.write bytes) (f.put bytes).flush

def seekTo (f : Stdio) (pos : Nat) : Bool × Stdio :=
  match answer (.seek pos) f.flush with
  | (true, f) => (true, { f with file := f.file.seekTo pos, handed := f.handed.seekTo pos })
  | (false, f) => (false, f)

def tell (f : Stdio) : Nat := f.file.pos + f.buffer.length

/-- What was handed over is what the device holds together with the buffer. -/
def Whole (f : Stdio) : Prop :=
  f.handed = if f.buffer = [] then f.file else f.file.write f.buffer

/-- The file is the byte array that took everything, and no byte was lost on the way. -/
structure HoldsAll (f : Stdio) : Prop where
  lost : f.lost = []
  data : f.file.data = f.handed.data

/-- Bytes are lost exactly in calls that are refused, and without one nothing is missing. -/
structure Sound (f : Stdio) : Prop where
  lost : f.lost = [] ↔ f.refused = []
  whole : f.refused = [] → f.Whole

variable {f f' : Stdio} {bytes : List UInt8}

theorem Sound.fresh (size : Nat) (device : Nat → Nat) : Sound { size, device } :=
  ⟨iff_of_true rfl rfl, fun _ => rfl⟩

/-! ## One flush -/

/-- A flush leaves the calls as they are. If the device takes the whole buffer nothing is lost and
nothing is missing behind it, and otherwise a byte is lost. -/
inductive Flushed (f : Stdio) : Bool → Stdio → Prop where
  | whole {g : Stdio} (takes : f.TakesBuffer) (empty : g.buffer = [])
      (refused : g.refused = f.refused) (lost : g.lost = f.lost) (whole : f.Whole → g.Whole) :
      Flushed f true g
  | short {g : Stdio} (takes : ¬ f.TakesBuffer) (refused : g.refused = f.refused)
      (lost : g.lost ≠ []) : Flushed f false g

theorem flush_flushed (f : Stdio) : Flushed f f.flush.1 f.flush.2 := by
  by_cases hempty : f.buffer = []
  · rw [Stdio.flush, if_pos hempty]
    refine .whole ?_ hempty rfl rfl id
    rw [TakesBuffer, hempty]
    exact Nat.zero_le _
  · rw [Stdio.flush, if_neg hempty]
    by_cases htakes : f.TakesBuffer
    · dsimp only
      rw [decide_eq_true htakes]
      refine .whole htakes rfl rfl ?_ fun hwhole => ?_
      · rw [List.drop_of_length_le htakes, List.append_nil]
      · rw [Whole, if_neg hempty] at hwhole
        rw [Whole, if_pos rfl, List.take_of_length_le htakes]
        exact hwhole
    · dsimp only
      rw [decide_eq_false htakes]
      refine .short htakes rfl fun hnone => htakes ?_
      exact List.drop_eq_nil_iff.mp (List.append_eq_nil_iff.mp hnone).2

/-- A buffered file that is flushed holds everything exactly if no call was refused and the device
takes the buffer. -/
theorem Sound.holdsAll_flush (hsound : f.Sound) :
    f.flush.2.HoldsAll ↔ f.refused = [] ∧ f.TakesBuffer := by
  have hflushed := f.flush_flushed
  generalize f.flush = r at hflushed ⊢
  rcases r with ⟨ok, g⟩
  cases hflushed with
  | whole htakes hempty _ hlost hwhole =>
    constructor
    · exact fun hall => ⟨hsound.lost.mp (hlost.symm.trans hall.lost), htakes⟩
    · intro hgood
      have hthere := hwhole (hsound.whole hgood.1)
      rw [Whole, if_pos hempty] at hthere
      exact ⟨hlost.trans (hsound.lost.mpr hgood.1), by rw [hthere]⟩
  | short htakes _ hlost => exact iff_of_false (fun hall => hlost hall.lost) fun h => htakes h.2

theorem Flushed.answer {ok : Bool} {g : Stdio} (hsound : f.Sound) (h : Flushed f ok g)
    (call : StdioCall) : (Stdio.answer call (ok, g)).2.Sound := by
  cases h with
  | whole _ _ hrefused hlost hwhole =>
    show g.Sound
    exact ⟨by rw [hlost, hrefused, hsound.lost],
      fun hgood => hwhole (hsound.whole (hrefused.symm.trans hgood))⟩
  | short _ _ hlost =>
    have hsome : g.refused ++ [call] ≠ [] := List.append_ne_nil_of_right_ne_nil _ nofun
    exact ⟨iff_of_false hlost hsome, fun hnone => absurd hnone hsome⟩

/-! ## Writes and seeks -/

theorem Sound.put (hsound : f.Sound) (hbytes : bytes ≠ []) : (f.put bytes).Sound := by
  refine ⟨hsound.lost, fun hgood => ?_⟩
  have hwhole := hsound.whole hgood
  rw [Whole] at hwhole ⊢
  have hsome : (f.put bytes).buffer ≠ [] := List.append_ne_nil_of_right_ne_nil _ hbytes
  rw [if_neg hsome]
  show f.handed.write bytes = f.file.write (f.buffer ++ bytes)
  rw [hwhole]
  by_cases hempty : f.buffer = []
  · rw [if_pos hempty, hempty, List.nil_append]
  · rw [if_neg hempty, ByteFile.write_write]

theorem Flushed.refused {ok : Bool} {g : Stdio} (h : Flushed f ok g) (call : StdioCall) :
    (Stdio.answer call (ok, g)).2.refused = f.refused ∨
      ok = false ∧ (Stdio.answer call (ok, g)).2.refused = f.refused ++ [call] := by
  cases h with
  | whole _ _ hrefused => exact .inl hrefused
  | short _ hrefused => exact .inr ⟨rfl, congrArg (· ++ [call]) hrefused⟩

theorem answer_fst (call : StdioCall) (r : Bool × Stdio) : (answer call r).1 = r.1 := by
  rcases r with ⟨ok, g⟩
  cases ok with
  | true => rfl
  | false => rfl

theorem Sound.write (hsound : f.Sound) (bytes : List UInt8) :
    (f.write bytes).2.Sound ∧ ((f.write bytes).2.refused = f.refused ∨
      (f.write bytes).1 = false ∧ (f.write bytes).2.refused = f.refused ++ [.write bytes]) := by
  rw [Stdio.write]
  by_cases hbytes : bytes = []
  · rw [if_pos hbytes]
    exact ⟨hsound, .inl rfl⟩
  · rw [if_neg hbytes]
    have hput := hsound.put hbytes
    split
    · exact ⟨hput, .inl rfl⟩
    · have hflushed := (f.put bytes).flush_flushed
      rw [answer_fst]
      exact ⟨hflushed.answer hput _, hflushed.refused _⟩

theorem Sound.seekTo (hsound : f.Sound) (pos : Nat) :
    (f.seekTo pos).2.Sound ∧ ((f.seekTo pos).1 = true → (f.seekTo pos).2.refused = f.refused) := by
  have hflushed := f.flush_flushed
  have hafter := hflushed.answer hsound (.seek pos)
  rw [Stdio.seekTo]
  generalize f.flush = r at hflushed hafter ⊢
  rcases r with ⟨ok, g⟩
  cases hflushed with
  | whole _ hempty hrefused =>
    refine ⟨⟨hafter.lost, fun hgood => ?_⟩, fun _ => hrefused⟩
    have hwhole : g.Whole := hafter.whole hgood
    have hnone : g.buffer = [] := hempty
    rw [Whole, if_pos hnone] at hwhole
    show g.handed.seekTo pos = if g.buffer = [] then g.file.seekTo pos else _
    rw [if_pos hnone, hwhole]
  | short => exact ⟨hafter, nofun⟩

end Stdio

end FileApi
