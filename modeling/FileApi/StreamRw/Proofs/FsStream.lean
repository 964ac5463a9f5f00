import FileApi.StreamRw.FsStream

/-!
# Transfers at an offset

A transfer at an offset gets to the file if the arguments are good, the stream is open and `fseek`
succeeds.
-/

namespace FileApi.StreamRw

variable {s s' : FsStream} {e : StreamEnd} {bufLen retLen count : Nat} {offset arg : Int}
  {buf got : List UInt8} {length : Option Int}

/-- A transfer of so many bytes at an offset gets to the file. -/
structure Reaches (e : StreamEnd) (bufLen : Nat) (offset : Int) : Prop where
  opened : e.opened = true
  fits : bufLen ≤ UINT_MAX
  nonneg : 0 ≤ offset
  fseek : e.fseek = none

theorem getActualLen_none (bufLen : Nat) : getActualLen bufLen 0 none = some bufLen := rfl

theorem getActualLen_some (bufLen : Nat) : getActualLen bufLen 0 (some bufLen) = some bufLen := by
  unfold getActualLen
  rw [if_neg (Nat.not_lt_zero bufLen)]
  dsimp only
  rw [if_neg (by omega)]
  rfl

theorem validArg_whole (h : getActualLen bufLen 0 length = some bufLen) :
    validArg bufLen ⟨some offset, length⟩ =
      if UINT_MAX < bufLen ∨ offset < 0 then none else some (bufLen, offset) := by
  unfold validArg
  by_cases hlarge : UINT_MAX < bufLen
  · rw [if_pos hlarge, if_pos (.inl hlarge)]
  · rw [if_neg hlarge, h]
    by_cases hneg : offset < 0
    · rw [if_pos (.inr hneg)]
      exact if_pos hneg
    · rw [if_neg (not_or.mpr ⟨hlarge, hneg⟩)]
      exact if_neg hneg

theorem Reaches.validArg (h : Reaches e bufLen offset)
    (hlength : getActualLen bufLen 0 length = some bufLen) :
    StreamRw.validArg bufLen ⟨some offset, length⟩ = some (bufLen, offset) := by
  rw [validArg_whole hlength, if_neg]
  exact not_or.mpr ⟨Nat.not_lt.mpr h.fits, Int.not_lt.mpr h.nonneg⟩

theorem Reaches.seekTo (h : Reaches e bufLen offset) (s : FsStream) :
    s.seekTo offset e = .ok { s with file := s.file.seekTo offset.toNat } := by
  rw [FsStream.seekTo, if_pos h.nonneg, h.fseek]

/-- A transfer that has valid arguments, and a stream that is where it wants to be, reaches the
file. -/
theorem reaches_of_ok (hopened : e.opened = true)
    (hlength : getActualLen bufLen 0 length = some bufLen)
    (hvalid : validArg bufLen ⟨some offset, length⟩ = some (retLen, arg))
    (hseek : s.seekTo arg e = .ok s') : Reaches e bufLen offset := by
  rw [validArg_whole hlength] at hvalid
  split at hvalid
  · cases hvalid
  · next hgood =>
    cases hvalid
    have hnonneg := Int.not_lt.mp (not_or.mp hgood).2
    refine ⟨hopened, Nat.not_lt.mp (not_or.mp hgood).1, hnonneg, ?_⟩
    rw [FsStream.seekTo, if_pos hnonneg] at hseek
    split at hseek
    · cases hseek
    · next hfseek => exact hfseek

theorem Reaches.read (h : Reaches e bufLen offset) (s : FsStream) :
    s.read bufLen ⟨some offset, some bufLen⟩ e =
      (if ((s.file.data.drop offset.toNat).take (through e.device bufLen)).length <
          ((s.file.data.drop offset.toNat).take bufLen).length then .error .eio
        else .ok ((s.file.data.drop offset.toNat).take (through e.device bufLen)),
        { s with file := ((s.file.seekTo offset.toNat).read (through e.device bufLen)).2 }) := by
  unfold FsStream.read
  rw [if_neg (not_not_intro h.opened), h.validArg (getActualLen_some bufLen)]
  dsimp only
  rw [h.seekTo]
  by_cases hshort : ((s.file.data.drop offset.toNat).take (through e.device bufLen)).length <
      ((s.file.data.drop offset.toNat).take bufLen).length
  · rw [if_pos hshort]
    exact if_pos hshort
  · rw [if_neg hshort]
    exact if_neg hshort

theorem Reaches.write (h : Reaches e buf.length offset) (s : FsStream) :
    s.write buf ⟨some offset, none⟩ e =
      (if through e.device buf.length = 0 ∧ buf.length ≠ 0 then .error .eio
        else .ok (through e.device buf.length),
        ({ s with file := s.file.seekTo offset.toNat } : FsStream).fwrite
          (buf.take (through e.device buf.length))) := by
  unfold FsStream.write
  rw [if_neg (not_not_intro h.opened), h.validArg (getActualLen_none _)]
  dsimp only
  rw [h.seekTo]
  dsimp only
  by_cases hzero : through e.device buf.length = 0
  · rw [hzero]
    by_cases hlength : buf.length = 0
    · rw [if_neg fun hand => hand.2 hlength.symm, if_neg fun hand => hand.2 hlength]
    · rw [if_pos ⟨rfl, Ne.symm hlength⟩, if_pos ⟨rfl, hlength⟩]
  · rw [if_neg fun hand => hzero hand.1, if_neg fun hand => hzero hand.1]

theorem read_reaches (h : s.read bufLen ⟨some offset, some bufLen⟩ e = (.ok got, s')) :
    Reaches e bufLen offset := by
  unfold FsStream.read at h
  split at h
  · cases h
  · next hopened =>
    split at h
    · cases h
    · next hvalid =>
      split at h
      · cases h
      · next hseek =>
        exact reaches_of_ok (not_not.mp hopened) (getActualLen_some bufLen) hvalid hseek

theorem write_reaches (h : s.write buf ⟨some offset, none⟩ e = (.ok count, s')) :
    Reaches e buf.length offset := by
  unfold FsStream.write at h
  split at h
  · cases h
  · next hopened =>
    split at h
    · cases h
    · next hvalid =>
      split at h
      · cases h
      · next hseek =>
        exact reaches_of_ok (not_not.mp hopened) (getActualLen_none _) hvalid hseek

end FileApi.StreamRw
