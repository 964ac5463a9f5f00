import FileApi.Misc.Except
import FileApi.ModFs.ReadText

/-!
# What `readText` gives

The buffer is as long as was asked for, or as the file. What is read into it is less if its length
does not fit into an `unsigned int`, or if one `read` does not transfer so much.
-/

namespace FileApi.ModFs.ReadText

variable {env : ReadEnv} {content text : List UInt8} {arg : ReadTextArg}
  {options : Option ReadTextOptions} {op : JsOptions} {offset length : Option Int}

/-- A call of one of the variants. -/
inductive Call where
  | core (options : Option ReadTextOptions)
  | sync (op : JsOptions)
  | async (op : JsOptions)

namespace Call

/-- The text it gives. -/
def run (env : ReadEnv) (content : List UInt8) : Call → Except Failure (List UInt8)
  | core options => (doReadText env content options).map createUTF8String
  | sync op => ReadText.sync env content op
  | async op => ReadText.async env content op

/-- The offset it asks for. -/
def askedOffset : Call → Option Int
  | core options => options.bind (·.offset)
  | sync op => (given op.offset).bind JsValue.toInt64
  | async op => (given op.offset).bind JsValue.toInt64

/-- The length it asks for. -/
def askedLength : Call → Option Int
  | core options => options.bind (·.length)
  | sync op => (given op.length).bind JsValue.toInt64
  | async op => (given op.length).bind JsValue.toInt64

end Call

/-- The bytes from the offset on, as many as asked for and as there are. -/
def requested (content : List UInt8) (offset length : Option Int) : List UInt8 :=
  (content.drop (offset.getD 0).toNat).take (length.getD content.length).toNat

/-- What is asked for is not more than the length of the buffer as an `unsigned int`, and not more
than one `read` transfers. -/
structure Whole (env : ReadEnv) (content : List UInt8) (offset length : Option Int) : Prop where
  narrowed : (requested content offset length).length ≤
    toUnsignedInt (min (length.getD content.length).toNat content.length)
  transferred : (requested content offset length).length ≤ env.transfers

/-! ## Arguments -/

/-- The arguments that an offset and a length make. -/
structure Takes (arg : ReadTextArg) (offset length : Option Int) : Prop where
  start : arg.offset = offset.getD (-1)
  hasLen : arg.hasLen = length.isSome
  len : arg.len = length.getD 0
  validStart : offset.all validOffset = true
  validLen : length.all validLength = true

theorem validReadTextArg_some (h : validReadTextArg env options = some arg) :
    Takes arg (options.bind (·.offset)) (options.bind (·.length)) := by
  unfold validReadTextArg at h
  split at h
  · split at h
    · cases h
      exact ⟨rfl, rfl, rfl, rfl, rfl⟩
    · split at h
      · next hvalid =>
        cases h
        exact ⟨rfl, rfl, rfl, hvalid.1, hvalid.2.1⟩
      · cases h
  · cases h

theorem given_bind {value : Option JsValue} {valid : Int → Bool}
    (h : (given value).all (fun value => value.toInt64.any valid) = true) :
    (given value).isSome = ((given value).bind JsValue.toInt64).isSome ∧
      ((given value).bind JsValue.toInt64).all valid = true := by
  cases hgiven : given value with
  | none => exact ⟨rfl, rfl⟩
  | some value =>
    rw [hgiven] at h
    cases hnumber : value.toInt64 with
    | none =>
      rw [Option.all_some, hnumber] at h
      cases h
    | some n =>
      rw [Option.all_some, hnumber] at h
      rw [Option.bind_some, hnumber]
      exact ⟨rfl, h⟩

theorem getReadTextArg_ok (h : getReadTextArg env op = .ok arg) :
    Takes arg ((given op.offset).bind JsValue.toInt64) ((given op.length).bind JsValue.toInt64) := by
  unfold getReadTextArg at h
  split at h
  · split at h
    · next hoffset =>
      split at h
      · next hlength =>
        obtain ⟨-, hvalidOffset⟩ := given_bind hoffset
        obtain ⟨hisSome, hvalidLength⟩ := given_bind hlength
        have harg : arg = ⟨((given op.offset).bind JsValue.toInt64).getD (-1),
            (given op.length).isSome, ((given op.length).bind JsValue.toInt64).getD 0⟩ := by
          dsimp only at h
          split at h
          · cases h
            rfl
          · split at h
            · cases h
            · split at h
              · cases h
                rfl
              · cases h
        subst harg
        exact ⟨rfl, hisSome, rfl, hvalidOffset, hvalidLength⟩
      · cases h
    · cases h
  · cases h

theorem Takes.offset_toNat (h : Takes arg offset length) :
    arg.offset.toNat = (offset.getD 0).toNat := by
  rw [h.start]
  cases offset <;> rfl

theorem Takes.clamped (h : Takes arg offset length) (size : Nat) :
    arg.clamped size = min (length.getD size).toNat size := by
  have hvalid := h.validLen
  unfold ReadTextArg.clamped
  rw [h.hasLen, h.len]
  cases length with
  | none => simp
  | some len =>
    rw [Option.all_some, ReadText.validLength, decide_eq_true_eq] at hvalid
    simp only [Option.isSome_some, not_true, false_or, Option.getD_some]
    split <;> omega

/-! ## Reading -/

/-- What one `read` gives for the arguments. -/
def gotten (env : ReadEnv) (content : List UInt8) (arg : ReadTextArg) : List UInt8 :=
  uvFsRead env content arg.offset (toUnsignedInt (arg.clamped content.length))

theorem readFile_ok {uvError : Nat → Int} {read : List UInt8 × Nat}
    (h : readFile env uvError content arg = .ok read) :
    createUTF8String read = gotten env content arg := by
  unfold readFile at h
  dsimp only [bind, Except.bind, pure, Except.pure, throw, throwThe, MonadExceptOf.throw] at h
  repeat' split at h
  all_goals cases h
  rw [createUTF8String, List.take_left]
  rfl

theorem Call.run_ok {call : Call} (h : call.run env content = .ok text) :
    ∃ arg, Takes arg call.askedOffset call.askedLength ∧ text = gotten env content arg := by
  cases call with
  | core options =>
    obtain ⟨read, hread, rfl⟩ := map_eq_ok.mp h
    rw [doReadText] at hread
    cases harg : validReadTextArg env options with
    | none =>
      rw [harg] at hread
      cases hread
    | some arg =>
      rw [harg] at hread
      exact ⟨arg, validReadTextArg_some harg, readFile_ok hread⟩
  | sync op =>
    obtain ⟨arg, harg, h⟩ := bind_eq_ok.mp h
    obtain ⟨read, hread, h⟩ := bind_eq_ok.mp h
    cases h
    exact ⟨arg, getReadTextArg_ok harg, readFile_ok hread⟩
  | async op =>
    obtain ⟨arg, harg, h⟩ := bind_eq_ok.mp h
    obtain ⟨read, hread, h⟩ := bind_eq_ok.mp h
    cases h
    obtain ⟨read', hread', hcopy⟩ := bind_eq_ok.mp hread
    have hsame : read' = read := by
      dsimp only [bind, Except.bind, pure, Except.pure, throw, throwThe, MonadExceptOf.throw] at hcopy
      split at hcopy
      · cases hcopy
      · cases hcopy
        rfl
    exact ⟨arg, getReadTextArg_ok harg, readFile_ok (hsame ▸ hread')⟩

theorem gotten_eq_iff (h : Takes arg offset length) :
    gotten env content arg = requested content offset length ↔ Whole env content offset length := by
  rw [gotten, uvFsRead, h.offset_toNat, h.clamped, List.take_take]
  have hlength : (requested content offset length).length =
      min (length.getD content.length).toNat (content.length - (offset.getD 0).toNat) := by
    rw [requested, List.length_take, List.length_drop]
  have hiff : Whole env content offset length ↔ _ ∧ _ :=
    ⟨fun hw => ⟨hw.narrowed, hw.transferred⟩, fun hw => ⟨hw.1, hw.2⟩⟩
  rw [hiff, hlength, requested, List.take_eq_take_iff, List.length_drop]
  have hnarrow : toUnsignedInt (min (length.getD content.length).toNat content.length) ≤
      min (length.getD content.length).toNat content.length := Nat.mod_le _ _
  omega

/-- The text is what was asked for exactly if that fits into the buffer as libuv takes it and into one
`read`; and all variants give the same text for the same request. -/
theorem readText_gives_iff {call : Call} (h : call.run env content = .ok text) :
    (text = requested content call.askedOffset call.askedLength ↔
        Whole env content call.askedOffset call.askedLength) ∧
      ∀ other : Call, ∀ text', other.run env content = .ok text' →
        other.askedOffset.getD 0 = call.askedOffset.getD 0 → other.askedLength = call.askedLength →
          text' = text := by
  obtain ⟨arg, harg, rfl⟩ := Call.run_ok h
  refine ⟨gotten_eq_iff harg, fun other text' h' hoffset hlength => ?_⟩
  obtain ⟨arg', harg', rfl⟩ := Call.run_ok h'
  rw [gotten, gotten, uvFsRead, uvFsRead, harg.offset_toNat, harg'.offset_toNat, harg.clamped,
    harg'.clamped, hoffset, hlength]

theorem readText_gives_two :
    (Call.core (some { offset := some 1 })).run {} [1, 2, 3] = .ok [2, 3] ∧
      [2, 3] = requested [1, 2, 3] (some 1) none ∧
      (Call.async { offset := some (.number 1), length := some .undefined }).run {} [1, 2, 3] =
        .ok [2, 3] := by
  have hrun : (Call.core (some { offset := some 1 })).run {} [1, 2, 3] = .ok [2, 3] := rfl
  exact ⟨hrun, (readText_gives_iff hrun).1.mpr ⟨by decide, by decide⟩, rfl⟩

theorem large_empty (content : List UInt8) (hlength : content.length = 2 ^ 32) :
    (Call.core none).run {} content = .ok [] ∧ requested content none none ≠ [] := by
  have hsize : ¬ (content.length : Int) < -1 := by omega
  have hnarrow : toUnsignedInt (ReadTextArg.clamped {} content.length) = 0 := by
    rw [hlength]
    decide
  constructor
  · have hread : readFile {} (fun errno => -errno) content {} =
        .ok (List.replicate (ReadTextArg.clamped {} content.length) 0, 0) := by
      unfold readFile
      dsimp only [bind, Except.bind, pure, Except.pure, throw, throwThe, MonadExceptOf.throw]
      rw [if_neg (by decide), if_neg hsize, if_neg (by decide), if_neg (by decide), hnarrow,
        uvFsRead, List.take_zero, List.take_nil]
      rfl
    have htext : (Call.core none).run {} content =
        (readFile {} (fun errno => -errno) content {}).map createUTF8String := rfl
    rw [htext, hread]
    rfl
  · intro hempty
    have hcount := congrArg List.length hempty
    rw [requested, List.length_take, List.length_drop, hlength] at hcount
    exact absurd hcount (by decide)

theorem readText_large_empty :
    ∃ content text, (Call.core none).run {} content = .ok text ∧ text ≠ requested content none none := by
  have h := large_empty (List.replicate (2 ^ 32) 0) List.length_replicate
  exact ⟨_, [], h.1, fun heq => h.2 heq.symm⟩

end FileApi.ModFs.ReadText
