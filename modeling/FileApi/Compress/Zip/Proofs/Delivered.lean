import FileApi.Compress.Zip.Proofs.Save
import FileApi.Zlib.Framed

/-!
# Reading an entry to its end

The bytes of an entry that are still to come, for an entry that is stored and for one that is
deflated. Every read gives the first of them, and an empty read means that none are left. So a file
whose writes succeed has the whole content when the entry is saved.
-/

namespace FileApi.Compress

open Zlib

variable {D : Decoder} {I : Inflate D}

/-! ## The deflate stream -/

/-- The stream of an entry was read as far as `given`, and `rest` of it is still to be taken; behind
it in the archive is `behind`. -/
structure Inflating (I : Inflate D) (payload behind given rest : List UInt8)
    (st : DeflateRead I.State) : Prop where
  holds : ∃ p, payload = p ++ rest ∧ I.Holds st.zstream p (given ++ st.output)
  sound : given ++ st.output <+: D.out payload
  ahead : st.nextIn ++ st.base.data.drop st.base.pos = rest ++ behind

variable {payload behind given rest : List UInt8} {st : DeflateRead I.State}

theorem Inflating.fill (h : Inflating I payload behind given rest st) (hbehind : behind ≠ []) :
    Inflating I payload behind given rest st.fill ∧ st.fill.nextIn ≠ [] ∧
      st.fill.output = st.output := by
  unfold DeflateRead.fill
  split
  · next hempty =>
    have hahead := h.ahead
    rw [hempty, List.nil_append] at hahead
    have hmore : st.base.data.drop st.base.pos ≠ [] := by
      rw [hahead]
      simp [hbehind]
    refine ⟨⟨h.holds, h.sound, ?_⟩, ?_, rfl⟩
    · show (st.base.data.drop st.base.pos).take Zip.ZIP_BUF_INTERNAL ++ st.base.data.drop
        (st.base.pos + ((st.base.data.drop st.base.pos).take Zip.ZIP_BUF_INTERNAL).length) = _
      rw [← List.drop_drop, List.prefix_iff_eq_append.mp (List.take_prefix _ _), hahead]
    · show (st.base.data.drop st.base.pos).take Zip.ZIP_BUF_INTERNAL ≠ []
      simp [hmore, Zip.ZIP_BUF_INTERNAL]
  · next hinput => exact ⟨h, hinput, rfl⟩

/-- The loop of `DeflateStreamRead` ends with a full buffer or at the end of the stream. The
induction is on the fuel: each turn takes input of the stream or gives some of its output. -/
theorem deflateReadLoop_inflating (hframed : I.Framed) (hprompt : I.Prompt)
    (hcomplete : D.complete payload) (hbehind : behind ≠ []) {size : Nat} (fuel : Nat) :
    ∀ {rest : List UInt8} {st : DeflateRead I.State},
      Inflating I payload behind given rest st → st.output.length < size →
      rest.length + (D.out payload).length < fuel + (given ++ st.output).length →
      ∃ ret rest' st', deflateReadLoop size fuel st = some (ret, st') ∧
        (ret = .ok ∨ ret = .streamEnd) ∧ Inflating I payload behind given rest' st' ∧
        (st'.output.length < size → given ++ st'.output = D.out payload) := by
  induction fuel with
  | zero =>
    intro rest st h _ hfuel
    have := h.sound.length_le
    omega
  | succ fuel ih =>
    intro rest st h hroom hfuel
    obtain ⟨hfilled, hinput, houtput⟩ := h.fill hbehind
    rw [deflateReadLoop]
    dsimp only
    set filled := st.fill with hst
    obtain ⟨p, hp, hholds⟩ := hfilled.holds
    have hroom' : 0 < size - filled.output.length := by
      rw [houtput]
      omega
    rw [hp] at hcomplete
    obtain ⟨taken, left, ⟨more, hmore⟩, hcall⟩ := hframed.call hprompt hholds hroom' hcomplete hinput
      (hfilled.ahead ▸ List.prefix_append _ _)
    set r := I.inflate filled.zstream filled.nextIn (size - filled.output.length) with hr
    have hdrop : filled.nextIn.drop r.consumed ++ filled.base.data.drop filled.base.pos =
        left ++ behind := by
      have hahead := hfilled.ahead
      rw [hcall.split, ← hmore, List.append_assoc, List.append_assoc] at hahead
      rw [← hmore, hcall.consumed, List.drop_left]
      exact List.append_cancel_left hahead
    have hnext : Inflating I payload behind given left { filled with
        zstream := r.state, nextIn := filled.nextIn.drop r.consumed
        output := filled.output ++ r.output } := by
      refine ⟨⟨p ++ taken, ?_, ?_⟩, ?_, hdrop⟩
      · rw [hp, hcall.split, List.append_assoc]
      · rw [← List.append_assoc]
        exact hcall.holds
      · rw [← List.append_assoc, hp]
        exact hcall.sound
    have hall : r.ret = .streamEnd → given ++ (filled.output ++ r.output) = D.out payload := by
      intro hend
      rw [← List.append_assoc, hp]
      exact hcall.ended hend
    split
    · next hgoes =>
      refine ih hnext hgoes.1 ?_
      have hprogress := hcall.progress.resolve_right (by rw [hgoes.2]; decide)
      have hlength := congrArg List.length hcall.split
      simp only [List.length_append] at hfuel hlength ⊢
      rw [houtput]
      omega
    · next hstops =>
      refine ⟨r.ret, left, _, rfl, hcall.ret, hnext, ?_⟩
      intro hless
      exact hall (hcall.ret.resolve_left fun hok => hstops ⟨hless, hok⟩)

namespace Zip

open Program

/-! ## The entry -/

/-- The content of an entry that is still to come, in at most `turns` turns of a loop. -/
inductive Unread (I : Inflate D) (info : ZipReaderEntryInfo) (turns : Nat) :
    OpenEntry I.State → List UInt8 → Prop where
  | none {st : OpenEntry I.State}
      (empty : info.compressedSize = 0 ∨ info.uncompressedSize = 0) : Unread I info turns st []
  | stored {st : OpenEntry I.State} {todo behind : List UInt8} {totalIn : UInt64}
      (some : ¬ (info.compressedSize = 0 ∨ info.uncompressedSize = 0))
      (stream : st.compressStream = .raw info.compressedSize totalIn)
      (ahead : st.base.data.drop st.base.pos = todo ++ behind)
      (left : totalIn.toNat + todo.length = info.compressedSize.toNat) : Unread I info turns st todo
  | deflated {st : OpenEntry I.State} {payload behind given rest todo : List UInt8}
      {zstream : I.State} {nextIn : List UInt8} {totalIn : UInt64}
      (some : ¬ (info.compressedSize = 0 ∨ info.uncompressedSize = 0))
      (stream : st.compressStream = .deflate zstream nextIn totalIn)
      (complete : D.complete payload) (more : behind ≠ [])
      (inflating : Inflating I payload behind given rest ⟨st.base, zstream, nextIn, totalIn, []⟩)
      (left : D.out payload = given ++ todo)
      (enough : payload.length + (D.out payload).length < turns) : Unread I info turns st todo

variable {info : ZipReaderEntryInfo} {turns : Nat} {st : OpenEntry I.State} {todo : List UInt8}

/-- One read gives the first bytes, or there are none left. -/
theorem Unread.read (hframed : I.Framed) (hprompt : I.Prompt) (h : Unread I info turns st todo) :
    ∃ bytes rest st', zipReaderReadData turns info st = some (.ok (bytes, st')) ∧
      todo = bytes ++ rest ∧ Unread I info turns st' rest ∧ (bytes = [] → rest = []) ∧
      st'.written = st.written := by
  cases h with
  | none hempty =>
    refine ⟨[], [], st, ?_, rfl, .none hempty, fun _ => rfl, rfl⟩
    rw [zipReaderReadData, if_pos hempty]
  | @stored _ behind totalIn hsome hstream hahead hleft =>
    have hbound := info.compressedSize.toNat_lt
    have hrest : (info.compressedSize - totalIn).toNat = todo.length := by
      rw [UInt64.toNat_sub_of_le _ _ (by rw [UInt64.le_iff_toNat_le]; omega)]
      omega
    have hpositive : 0 < info.compressedSize := by
      rw [UInt64.pos_iff_ne_zero]
      exact fun hzero => hsome (.inl hzero)
    set size := rawReadSize info.compressedSize totalIn ZIP_BUF_INTERNAL with hsize
    have hbounds : size ≤ todo.length ∧ (todo ≠ [] → 0 < size) := by
      rw [hsize, rawReadSize, hrest, ZIP_BUF_INTERNAL]
      have hlength := @List.length_pos_iff _ todo
      by_cases hless : todo.length < 65536
      · rw [if_pos ⟨hpositive, hless⟩]
        exact ⟨Nat.le_refl _, hlength.mpr⟩
      · rw [if_neg (fun h => hless h.2)]
        exact ⟨by omega, fun _ => by decide⟩
    have hread : (st.base.data.drop st.base.pos).take size = todo.take size := by
      rw [hahead, List.take_append_of_le_length hbounds.1]
    have hlength : (todo.take size).length = size := List.length_take_of_le hbounds.1
    have hnext : Unread I info turns { st with
        base := (streamRead st.base size).2
        compressStream := .raw info.compressedSize (totalIn + UInt64.ofNat size)
        entryCrc := crc32 st.entryCrc (todo.take size) } (todo.drop size) := by
      refine @Unread.stored D I info turns _ _ behind _ hsome rfl ?_ ?_
      · show st.base.data.drop (st.base.pos + ((st.base.data.drop st.base.pos).take size).length) = _
        rw [hread, hlength, ← List.drop_drop, hahead, List.drop_append_of_le_length hbounds.1]
      · rw [UInt64.toNat_add, UInt64.toNat_ofNat', List.length_drop]
        omega
    refine ⟨todo.take size, todo.drop size, _, ?_, (List.take_append_drop _ _).symm, hnext, ?_, rfl⟩
    · rw [zipReaderReadData, if_neg hsome, hstream, CompressStream.read, rawStreamRead, ← hsize]
      simp only [streamRead, ByteFile.read, hread, hlength, Option.map_some, Except.map]
    · intro hnone
      rw [hnone, List.length_nil] at hlength
      by_contra hne
      have hpos := hbounds.2 (by rintro rfl; exact hne List.drop_nil)
      omega
  | @deflated payload behind given rest _ zstream nextIn totalIn hsome hstream hcomplete hmore
      hinflating hleft henough =>
    have hfuel : rest.length + (D.out payload).length < turns + (given ++ []).length := by
      obtain ⟨p, hp, -⟩ := hinflating.holds
      have := congrArg List.length hp
      rw [List.length_append] at this
      omega
    obtain ⟨ret, rest', st', hloop, hret, hinflated, hfull⟩ := @deflateReadLoop_inflating D I
      payload behind given hframed hprompt hcomplete hmore ZIP_BUF_INTERNAL turns rest _ hinflating
      (show 0 < ZIP_BUF_INTERNAL by decide) hfuel
    obtain ⟨left, hsplit⟩ : st'.output <+: todo := by
      have hsound := hinflated.sound
      rw [hleft] at hsound
      exact (List.prefix_append_right_inj given).mp hsound
    have hnext : Unread I info turns { st with
        base := st'.base
        compressStream := .deflate st'.zstream st'.nextIn st'.totalIn
        entryCrc := crc32 st.entryCrc st'.output } left := by
      have hread : Inflating I payload behind (given ++ st'.output) rest'
          ⟨st'.base, st'.zstream, st'.nextIn, st'.totalIn, []⟩ := by
        refine ⟨?_, ?_, hinflated.ahead⟩
        · rw [List.append_nil]
          exact hinflated.holds
        · rw [List.append_nil]
          exact hinflated.sound
      refine .deflated hsome rfl hcomplete hmore hread ?_ henough
      rw [hleft, ← hsplit, List.append_assoc]
    have hgood : ¬ (ret ≠ .ok ∧ ret ≠ .streamEnd) := by
      rintro ⟨hok, hend⟩
      exact hret.elim hok hend
    refine ⟨st'.output, left, _, ?_, hsplit.symm, hnext, ?_, rfl⟩
    · rw [zipReaderReadData, if_neg hsome, hstream, CompressStream.read, deflateStreamRead, hloop]
      simp only [Option.map_some, if_neg hgood, Except.map]
    · intro hnone
      have hall := hfull (by rw [hnone]; decide)
      rw [hleft, ← hsplit, ← List.append_assoc] at hall
      exact List.self_eq_append_right.mp hall

/-! ## The file -/

section

variable {W H : Type} {os : Os W H} {entry : ZipReaderEntry} {handle : H}

/-- A file that takes all that is written to it, and nobody cancels. -/
structure Os.Takes (os : Os W H) (handle : H) : Prop where
  fwrite : ∀ bytes w, (os.fwrite handle bytes w).1 = none
  goesOn : ∀ w, (os.cancels w).1 = false

/-- The loop of `ZipReaderSaveFile` writes what is still to come. -/
theorem zipReaderSaveLoop_unread (hframed : I.Framed) (hprompt : I.Prompt)
    (htakes : Os.Takes os handle) {fuel : Nat} (turns : Nat) :
    ∀ {st : OpenEntry I.State} {todo : List UInt8} {w : W},
      Unread I entry.entryInfo fuel st todo → todo.length < turns →
      ∀ outDir newFilePath, ∃ st' w', zipReaderSaveLoop os fuel entry outDir newFilePath handle turns st w =
        .ok st' w' ∧ st'.written = st.written ++ todo := by
  induction turns with
  | zero =>
    intro st todo w _ hturns _ _
    cases hturns
  | succ turns ih =>
    intro st todo w h hturns outDir newFilePath
    obtain ⟨bytes, rest, st', hread, rfl, hnext, hlast, hwritten⟩ := h.read hframed hprompt
    have hfuel : (liftFuel (zipReaderReadData fuel entry.entryInfo st) : Run W _) w =
        .ok (.ok (bytes, st')) w := by
      rw [hread]
      rfl
    rw [zipReaderSaveLoop, Program.bind_ok hfuel]
    by_cases hbytes : bytes = []
    · obtain rfl := hbytes
      obtain rfl := hlast rfl
      have hgoes := htakes.goesOn w
      refine ⟨st', (os.cancels w).2, ?_, by rw [hwritten, List.append_nil, List.append_nil]⟩
      simp only [ne_eq, not_true_eq_false, if_false]
      rw [Program.bind_ok (Program.pure_run st' w), Program.bind_ok (Program.call_run os.cancels w),
        hgoes]
      rfl
    · have hwrite : zipReaderWriteData os handle bytes st' w =
          .ok { st' with written := st'.written ++ bytes } (os.fwrite handle bytes w).2 := by
        rw [zipReaderWriteData, Program.bind_ok (Program.call_run _ w), htakes.fwrite]
        rfl
      have hgoes := htakes.goesOn (os.fwrite handle bytes w).2
      have hmore : Unread I entry.entryInfo fuel { st' with written := st'.written ++ bytes }
          rest := by
        cases hnext with
        | none hempty => exact .none hempty
        | stored hsome hstream hahead hleft => exact .stored hsome hstream hahead hleft
        | deflated hsome hstream hcomplete hbehind hinflating hleft henough =>
          exact .deflated hsome hstream hcomplete hbehind hinflating hleft henough
      have hfewer : rest.length < turns := by
        have := List.length_pos_iff.mpr hbytes
        rw [List.length_append] at hturns
        omega
      obtain ⟨last, w', hloop, hall⟩ := ih (w := (os.cancels (os.fwrite handle bytes w).2).2)
        hmore hfewer outDir newFilePath
      refine ⟨last, w', ?_, ?_⟩
      · simp only [ne_eq, hbytes, not_false_eq_true, if_true]
        rw [Program.bind_ok hwrite, Program.bind_ok (Program.call_run os.cancels _), hgoes]
        exact hloop
      · rw [hall, hwritten, List.append_assoc]

/-- An entry whose content is `content` is opened, and saved whole. -/
def Delivers (I : Inflate D) (reader : ZipReader) (entry : ZipReaderEntry) (content : List UInt8)
    (fuel : Nat) : Prop :=
  ∀ (W H : Type) (os : Os W H) (outDir path : PathName) (handle : H) (w mid : W),
    Os.Takes os handle → fileStreamOpen os path w = .ok handle mid →
    ∃ st st' w', zipReaderOpenEntry I os reader entry path w = .ok (st, some handle) mid ∧
      zipReaderSaveFile os fuel entry outDir path handle st mid = .ok st' w' ∧
      st'.written = content

theorem delivers_of_unread (hframed : I.Framed) (hprompt : I.Prompt) {reader : ZipReader}
    {base : ByteFile} {stream : CompressStream I.State} {content : List UInt8} {fuel : Nat}
    (hlink : zipReaderEntryIsSymlink entry.centralDirHeader = false)
    (hbase : zipReaderProcessLocalHeader reader entry = .ok base)
    (hstream : zipReaderCompressStream I entry.entryInfo = .ok stream)
    (hunread : Unread I entry.entryInfo fuel ⟨base, stream, 0, []⟩ content)
    (hcrc : entry.centralDirHeader.crc32 = crc32 0 content) (hfuel : content.length < fuel) :
    Delivers I reader entry content fuel := by
  intro W H os outDir path handle w mid htakes hopen
  have hgoes := htakes.goesOn mid
  have hsaved := zipReaderSaveLoop_unread (w := (os.cancels mid).2) hframed hprompt htakes fuel
    hunread hfuel
  obtain ⟨st', w', hloop, hwritten⟩ := hsaved outDir path
  have hchecked : zipReaderVerifyEntryCrc entry st' = .ok () := by
    have hsame := (zipReaderSaveLoop_ok fuel hloop).crc (crc32_nil 0).symm
    rw [zipReaderVerifyEntryCrc, if_neg]
    rintro ⟨-, hne⟩
    rw [hsame, hwritten, hcrc] at hne
    exact hne rfl
  refine ⟨⟨base, stream, 0, []⟩, st', (os.fclose handle (os.cancels w').2).2, ?_, ?_, hwritten⟩
  · rw [zipReaderOpenEntry, hbase, hstream, hlink]
    exact Program.bind_ok hopen
  · rw [zipReaderSaveFile, Program.bind_ok (Program.call_run os.cancels mid), hgoes]
    refine (Program.bind_ok hloop).trans ?_
    rw [hchecked]
    rfl

end

end Zip

end FileApi.Compress
