import FileApi.Misc.Machine
import FileApi.ModFs.ReaderIterator

/-!
# Every line once

The values of `readLines` are the lines that its reader has taken from the file, and the end is where
the recorded size is reached. The end of the file in front of that is told by the null pointer that a
failure is told by, and `errno` says which it was; nothing has set it there, so that with an `errno`
of zero the call is a success that has no line.
-/

namespace FileApi.ModFs.ReaderIterator

/-- How the loop of `read_until` comes to its end. -/
inductive Reading : List UInt8 → Int → List UInt8 → List ReadEnd → Until → Prop
  | interrupted {given line : List UInt8} {errno : Int} {e : OsError} {reads : List ReadEnd}
      {u : Until} (he : e.code = EINTR) (rest : Reading given e.code line reads u) :
      Reading given errno line (.fails e :: reads) u
  | failed {given line : List UInt8} {errno : Int} {e : OsError} (he : e.code ≠ EINTR) :
      Reading given errno line [.fails e] ⟨line, some e, ⟨given, []⟩, e.code⟩
  | ended {given line content : List UInt8} {errno : Int} {most : Nat}
      (h : content.length ≤ given.length) :
      Reading given errno line [.gives content most] ⟨line, none, ⟨given, []⟩, errno⟩
  | found {given line content text rest : List UInt8} {errno : Int} {most : Nat}
      (htext : newline ∉ text) (h : available given content most = text ++ newline :: rest) :
      Reading given errno line [.gives content most]
        ⟨line ++ (text ++ [newline]), none, ⟨given ++ available given content most, rest⟩, errno⟩
  | more {given line content : List UInt8} {errno : Int} {most : Nat} {reads : List ReadEnd}
      {u : Until} (h : available given content most ≠ [])
      (hline : newline ∉ available given content most)
      (rest : Reading (given ++ available given content most) errno
        (line ++ available given content most) reads u) :
      Reading given errno line (.gives content most :: reads) u

variable {given line front : List UInt8} {errno : Int} {reads : List ReadEnd} {u : Until}
  {content : List UInt8} {most : Nat}

/-! ## Reading a line -/

theorem returns_some {v : Until} (h : returns reads u = some v) : reads = [] ∧ u = v := by
  rw [returns] at h
  split at h
  · next hnil => exact ⟨List.isEmpty_iff.mp hnil, Option.some.inj h⟩
  · cases h

theorem available_eq_nil : available given content most = [] ↔ content.length ≤ given.length := by
  rw [available, List.take_eq_nil_iff, List.drop_eq_nil_iff]
  exact or_iff_right (by simp [bufSize])

theorem available_prefix_content (h : given <+: content) (most : Nat) :
    given ++ available given content most <+: content := by
  obtain ⟨rest, rfl⟩ := h
  rw [available, List.drop_left]
  exact (List.prefix_append_right_inj given).mpr (List.take_prefix _ rest)

theorem getLast?_ne_newline (h : newline ∉ line) : line.getLast? ≠ some newline :=
  fun hlast => h (List.mem_of_getLast? hlast)

theorem readMore_reading (h : readMore given errno line reads = some u) :
    Reading given errno line reads u := by
  induction reads generalizing given errno line with
  | nil => cases h
  | cons a reads ih =>
    cases a with
    | fails e =>
      rw [readMore] at h
      split at h
      · next he => exact .interrupted he (ih h)
      · next he =>
        obtain ⟨rfl, rfl⟩ := returns_some h
        exact .failed he
    | gives content most =>
      rw [readMore] at h
      simp only [List.isEmpty_iff] at h
      split at h
      · next hend =>
        obtain ⟨rfl, rfl⟩ := returns_some h
        exact .ended (available_eq_nil.mp hend)
      · next hbytes =>
        obtain ⟨text, htext, hfront⟩ | ⟨hmem, hwhole⟩ := splitLine_cases (available given content most)
        · have happend := splitLine_append (available given content most)
          rw [hfront] at h happend
          rw [if_pos List.getLast?_concat] at h
          obtain ⟨rfl, rfl⟩ := returns_some h
          exact .found htext (happend.symm.trans (List.append_assoc ..))
        · rw [hwhole, if_neg (getLast?_ne_newline hmem)] at h
          exact .more hbytes hmem (ih h)

theorem Reading.bytes (h : Reading given errno line reads u) :
    ∃ fresh, u.reader.given = given ++ fresh ∧ u.line ++ u.reader.buffer = line ++ fresh := by
  induction h with
  | interrupted _ _ ih => exact ih
  | failed _ => exact ⟨[], (List.append_nil _).symm, rfl⟩
  | ended _ => exact ⟨[], (List.append_nil _).symm, rfl⟩
  | found _ h => exact ⟨_, rfl, by rw [h]; simp⟩
  | more _ _ _ ih =>
    obtain ⟨fresh, hgiven, hline⟩ := ih
    exact ⟨_ ++ fresh, hgiven.trans (List.append_assoc ..), hline.trans (List.append_assoc ..)⟩

theorem Reading.oneLine (h : Reading given errno line reads u) (hline : newline ∉ line) :
    newline ∉ u.line.dropLast := by
  induction h with
  | interrupted _ _ ih => exact ih hline
  | failed _ => exact fun hmem => hline (List.dropLast_subset _ hmem)
  | ended _ => exact fun hmem => hline (List.dropLast_subset _ hmem)
  | found htext _ =>
    rw [← List.append_assoc, List.dropLast_concat, List.mem_append]
    exact not_or.mpr ⟨hline, htext⟩
  | more _ hmem _ ih => exact ih (by rw [List.mem_append]; exact not_or.mpr ⟨hline, hmem⟩)

/-- The reads stop at a failure, or where the file is found to end. -/
def Stops (position : Nat) (reads : List ReadEnd) : Prop :=
  ∃ a, reads.getLast? = some a ∧
    match a with
    | .gives content _ => content.length ≤ position
    | .fails _ => True

theorem Stops.cons {position : Nat} {a : ReadEnd} (h : Stops position reads) :
    Stops position (a :: reads) := by
  obtain ⟨last, hlast, hstop⟩ := h
  refine ⟨last, ?_, hstop⟩
  cases reads with
  | nil => cases hlast
  | cons b reads => rwa [List.getLast?_cons_cons]

theorem Reading.stops (h : Reading given errno line reads u) :
    u.line.getLast? = some newline ∨ u.reader.buffer = [] ∧ Stops u.reader.given.length reads := by
  induction h with
  | interrupted _ _ ih => exact ih.imp_right fun h => ⟨h.1, h.2.cons⟩
  | failed _ => exact .inr ⟨rfl, _, rfl, trivial⟩
  | ended h => exact .inr ⟨rfl, _, rfl, h⟩
  | found _ _ => exact .inl (by rw [← List.append_assoc, List.getLast?_concat])
  | more _ _ _ ih => exact ih.imp_right fun h => ⟨h.1, h.2.cons⟩

theorem Reading.errno_eq_zero (h : Reading given errno line reads u) (herror : u.error = none)
    (hzero : u.errno = 0) : errno = 0 := by
  induction h with
  | interrupted he _ ih =>
    have := ih herror hzero
    rw [he] at this
    exact absurd this (by decide)
  | failed _ => cases herror
  | ended _ => exact hzero
  | found _ _ => exact hzero
  | more _ _ _ ih => exact ih herror hzero

theorem Reading.length_le (h : Reading given errno line reads u) : line.length ≤ u.line.length := by
  induction h with
  | interrupted _ _ ih => exact ih
  | failed _ => exact Nat.le_refl _
  | ended _ => exact Nat.le_refl _
  | found _ _ =>
    rw [List.length_append]
    exact Nat.le_add_right _ _
  | more _ _ _ ih =>
    rw [List.length_append] at ih
    exact Nat.le_of_add_right_le ih

theorem Reading.silent (h : Reading given errno line reads u) (hline : u.line = [])
    (herror : u.error = none) (hzero : u.errno = 0) :
    ∃ content most, reads = [.gives content most] ∧ content.length ≤ given.length := by
  cases h with
  | interrupted he rest =>
    have := rest.errno_eq_zero herror hzero
    rw [he] at this
    exact absurd this (by decide)
  | failed _ => cases herror
  | ended h => exact ⟨_, _, rfl, h⟩
  | found _ _ => simp at hline
  | more hbytes _ rest =>
    have hle := rest.length_le
    rw [hline, List.length_append] at hle
    exact absurd (List.length_eq_zero_iff.mp (Nat.eq_zero_of_add_eq_zero_left (Nat.le_zero.mp hle)))
      hbytes

/-- All the reads are of this content. -/
def ReadsOf (content : List UInt8) (reads : List ReadEnd) : Prop :=
  ∀ a ∈ reads, ∃ most, a = .gives content most

theorem Reading.steady (h : Reading given errno line reads u) (hreads : ReadsOf content reads)
    (hgiven : given <+: content) : u.error = none ∧ u.reader.given <+: content := by
  induction h with
  | interrupted _ _ _ => exact nomatch hreads _ List.mem_cons_self
  | failed _ => exact nomatch hreads _ List.mem_cons_self
  | ended _ => exact ⟨rfl, hgiven⟩
  | found _ _ =>
    obtain ⟨_, heq⟩ := hreads _ List.mem_cons_self
    cases heq
    exact ⟨rfl, available_prefix_content hgiven _⟩
  | more _ _ _ ih =>
    obtain ⟨_, heq⟩ := hreads _ List.mem_cons_self
    cases heq
    exact ih (fun a ha => hreads a (List.mem_cons_of_mem _ ha)) (available_prefix_content hgiven _)

/-- What `read_until` does with a reader. -/
structure Taken (reader : BufReader) (errno : Int) (reads : List ReadEnd) (u : Until) : Prop where
  bytes : ∃ fresh, u.reader.given = reader.given ++ fresh ∧
    u.line ++ u.reader.buffer = reader.buffer ++ fresh
  oneLine : newline ∉ u.line.dropLast
  stops : u.line.getLast? = some newline ∨
    u.reader.buffer = [] ∧ Stops u.reader.given.length reads
  silent : u.line = [] → u.error = none → u.errno = 0 → errno = 0 ∧ reader.buffer = [] ∧
    ∃ content most, reads = [.gives content most] ∧ content.length ≤ reader.given.length
  steady : ∀ content, ReadsOf content reads → reader.given <+: content →
    u.error = none ∧ u.reader.given <+: content

variable {reader : BufReader}

theorem Reading.taken (hbuffer : newline ∉ reader.buffer)
    (h : Reading reader.given errno reader.buffer reads u) : Taken reader errno reads u where
  bytes := h.bytes
  oneLine := h.oneLine hbuffer
  stops := h.stops
  silent hline herror hzero := by
    have hle := h.length_le
    rw [hline] at hle
    exact ⟨h.errno_eq_zero herror hzero, List.length_eq_zero_iff.mp (Nat.le_zero.mp hle),
      h.silent hline herror hzero⟩
  steady _ hreads hgiven := h.steady hreads hgiven

theorem readUntil_taken (h : readUntil reader errno reads = some u) :
    Taken reader errno reads u := by
  rw [readUntil] at h
  have happend := splitLine_append reader.buffer
  obtain ⟨text, htext, hfront⟩ | ⟨hmem, hwhole⟩ := splitLine_cases reader.buffer
  · rw [hfront] at happend
    simp only [hfront, List.getLast?_concat, if_true] at h
    obtain ⟨rfl, rfl⟩ := returns_some h
    exact {
      bytes := ⟨[], (List.append_nil _).symm, happend.trans (List.append_nil _).symm⟩
      oneLine := by rwa [List.dropLast_concat]
      stops := .inl List.getLast?_concat
      silent := fun hline => absurd hline (by simp)
      steady := fun _ _ hgiven => ⟨rfl, hgiven⟩ }
  · simp only [hwhole, if_neg (getLast?_ne_newline hmem)] at h
    exact (readMore_reading h).taken hmem

theorem readUntil_end (hbuffer : reader.buffer = []) (hend : content.length ≤ reader.given.length) :
    readUntil reader errno [.gives content most] = some ⟨[], none, reader, errno⟩ := by
  obtain ⟨given, buffer⟩ := reader
  obtain rfl : buffer = [] := hbuffer
  simp only [readUntil, splitLine, readMore, available_eq_nil.mpr hend]
  rfl

/-! ## A call -/

/-- What a call answers and what it leaves of the countdown. -/
inductive Nexts (e : ReaderIteratorEntity) (u : Until) : FsResult ReaderIteratorResult → Int → Prop
  | line (herror : u.error = none) (hvalid : validUtf8 u.line = true) (hline : u.line ≠ []) :
      Nexts e u (.success ⟨e.offset = 0, u.line⟩) (e.offset - u.line.length)
  | finished (hover : e.offset = 0) : Nexts e u (.success ⟨true, []⟩) e.offset
  | ended (hoffset : e.offset ≠ 0) (herror : u.error = none) (hline : u.line = []) :
      Nexts e u (.error u.errno) e.offset
  | failed {code : Int} (hoffset : e.offset ≠ 0) (hcode : code ≠ 0)
      (hfail : u.error = none → validUtf8 u.line = false) : Nexts e u (.error code) e.offset

theorem nextLine_cases (hshort : u.line.length < 2 ^ 32) :
    (u.error = none ∧ validUtf8 u.line = true ∧ u.line ≠ [] ∧
      nextLine u = .ok (some ⟨u.line, u.line.length⟩)) ∨
    (u.error = none ∧ u.line = [] ∧ nextLine u = .ok none) ∨
    ∃ e, nextLine u = .error e ∧ (u.error = none → validUtf8 u.line = false) := by
  rw [nextLine, readLine]
  cases herror : u.error with
  | some e => exact .inr (.inr ⟨_, rfl, nofun⟩)
  | none =>
    cases hvalid : validUtf8 u.line with
    | false => exact .inr (.inr ⟨_, rfl, fun _ => rfl⟩)
    | true =>
      cases hline : u.line with
      | nil => exact .inr (.inl ⟨rfl, rfl, rfl⟩)
      | cons b bs =>
        refine .inl ⟨rfl, rfl, nofun, ?_⟩
        rw [hline] at hshort
        have hpos : 0 < (b :: bs).length % 2 ^ 32 := by
          rw [Nat.mod_eq_of_lt hshort]
          exact Nat.succ_pos _
        simp only [if_true, bind, Except.bind, if_pos hpos]
        rw [Nat.mod_eq_of_lt hshort]
        rfl

theorem next_nexts {it it' : FsReaderIterator} {e : ReaderIteratorEntity}
    {answer : FsResult ReaderIteratorResult} (hentity : it.entity = some e)
    (hshort : ∀ u, readUntil e.iterator errno reads = some u → u.line.length < 2 ^ 32)
    (h : it.next errno reads = some (answer, it')) :
    ∃ u offset, readUntil e.iterator errno reads = some u ∧ it'.entity = some ⟨u.reader, offset⟩ ∧
      Nexts e u answer offset := by
  rw [FsReaderIterator.next, hentity] at h
  simp only [ffiNextLine, Option.map_map, Option.map_eq_some_iff, Function.comp_apply] at h
  obtain ⟨u, hu, h⟩ := h
  obtain ⟨herror, hvalid, hline, hnext⟩ | ⟨herror, hline, hnext⟩ | ⟨failure, hnext, hfail⟩ :=
    nextLine_cases (hshort u hu)
  · rw [hnext] at h
    simp only [Option.isNone_some, Bool.false_eq_true, false_and, if_false, List.take_length] at h
    cases h
    exact ⟨u, _, hu, rfl, .line herror hvalid hline⟩
  · rw [hnext] at h
    by_cases hoffset : e.offset = 0
    · simp only [hoffset, ne_eq, not_true, and_false, if_false, decide_true] at h
      cases h
      exact ⟨u, _, hu, rfl, hoffset ▸ .finished hoffset⟩
    · simp only [Option.isNone_none, ne_eq, hoffset, not_false_eq_true, and_self, if_true] at h
      cases h
      exact ⟨u, _, hu, rfl, .ended hoffset herror hline⟩
  · rw [hnext] at h
    by_cases hoffset : e.offset = 0
    · simp only [hoffset, ne_eq, not_true, and_false, if_false, decide_true] at h
      cases h
      exact ⟨u, _, hu, rfl, hoffset ▸ .finished hoffset⟩
    · simp only [Option.isNone_none, ne_eq, hoffset, not_false_eq_true, and_self, if_true] at h
      cases h
      exact ⟨u, _, hu, rfl, .failed hoffset (errorControl_ne_zero failure) hfail⟩

/-! ## Runs -/

/-- The values that calls have returned. -/
def values (calls : List Called) : List (List UInt8) :=
  calls.filterMap fun c => c.answer.data.map (·.value)

/-- How many bytes calls have returned. -/
def returned (calls : List Called) : Nat := (values calls).flatten.length

/-- What a call has to do with the line that is behind the bytes in front. -/
structure Tells (size : Nat) (calls : List Called) (front line : List UInt8) (c : Called) : Prop where
  oneLine : newline ∉ line.dropLast
  whole : line.getLast? = some newline ∨ Stops (front.length + line.length) c.how.reads
  value : ∀ r, c.answer.data = some r → r.value = line ∨ r.done = true ∧ r.value = []
  lost : c.answer.data = none → line = [] ∨ c.answer.isSuccess = false
  done : ∀ r, c.answer.data = some r → r.done = true → returned calls = size
  error : returned calls < size → c.answer.isSuccess = true →
    ∃ r, c.answer.data = some r ∧ r.value = line ∧ line ≠ []

/-- The bytes in front fall into one line for each of the calls. -/
inductive Told (size : Nat) : List UInt8 → List Called → Prop
  | begin : Told size [] []
  | call {front line : List UInt8} {calls : List Called} {c : Called} (h : Told size front calls)
      (tells : Tells size calls front line c) : Told size (front ++ line) (calls ++ [c])

/-- The calls read nothing but this content. -/
def Unchanging (content : List UInt8) (calls : List Called) : Prop :=
  ∀ c ∈ calls, ReadsOf content c.how.reads

/-- A call has been answered with `done`. -/
def Finished (calls : List Called) : Prop :=
  ∃ c ∈ calls, ∃ r, c.answer.data = some r ∧ r.done = true

/-- The values are on their way to be the whole content, and are it in the end, to which it takes no
more calls than one for each byte and one. -/
structure Whole (content : List UInt8) (calls : List Called) : Prop where
  success : ∀ c ∈ calls, c.answer.isSuccess = true
  front : (values calls).flatten <+: content
  done : Finished calls → (values calls).flatten = content
  enough : content.length < calls.length → Finished calls

/-- What is promised of the calls of an iterator that was made for so many bytes. -/
structure KeepsPromise (size : Nat) (s : Iterating) : Prop where
  told : ∃ e front, s.it.entity = some e ∧ front ++ e.iterator.buffer = e.iterator.given ∧
    Told size front s.calls
  whole : ∀ content, content.length = size → validUtf8 content = true →
    Unchanging content s.calls → Whole content s.calls

/-- The call finds the end of the file at once, with bytes to come by the countdown and nothing in
`errno`. -/
def EndsSilently (s : Iterating) (call : NextCall) : Prop :=
  ∃ e, s.it.entity = some e ∧ 0 < e.offset ∧ e.iterator.buffer = [] ∧ call.errno = 0 ∧
    ∃ content most, call.reads = [.gives content most] ∧
      content.length ≤ e.iterator.given.length

/-- The line of the call is shorter than 4 GiB. -/
def ShortLine (s : Iterating) (call : NextCall) : Prop :=
  ∀ e u, s.it.entity = some e → readUntil e.iterator call.errno call.reads = some u →
    u.line.length < 2 ^ 32

/-- The calls of a file that does not change, with the bytes in front that have been handed out. -/
structure Steady (content front given : List UInt8) (calls : List Called) : Prop where
  values : (values calls).flatten = front
  given : given <+: content
  rest : validUtf8 (content.drop front.length) = true
  success : ∀ c ∈ calls, c.answer.isSuccess = true
  done : Finished calls → front = content
  enough : calls.length ≤ front.length ∨ Finished calls

/-- Between two calls. -/
structure Going (size : Nat) (e : ReaderIteratorEntity) (front : List UInt8) (s : Iterating) :
    Prop where
  entity : s.it.entity = some e
  given : front ++ e.iterator.buffer = e.iterator.given
  told : Told size front s.calls
  offset : e.offset = size - returned s.calls
  steady : ∀ content, content.length = size → validUtf8 content = true →
    Unchanging content s.calls → Steady content front e.iterator.given s.calls

variable {size : Nat} {e : ReaderIteratorEntity} {s t : Iterating} {calls : List Called}
  {answer : FsResult ReaderIteratorResult} {offset : Int}

theorem values_error (calls : List Called) (how : NextCall) (code : Int) :
    values (calls ++ [⟨how, .error code⟩]) = values calls := by
  rw [values, List.filterMap_append]
  exact List.append_nil _

theorem values_success (calls : List Called) (how : NextCall) (r : ReaderIteratorResult) :
    values (calls ++ [⟨how, .success r⟩]) = values calls ++ [r.value] := by
  rw [values, List.filterMap_append]
  rfl

theorem finished_append (calls : List Called) (c : Called) :
    Finished (calls ++ [c]) ↔ Finished calls ∨ ∃ r, c.answer.data = some r ∧ r.done = true := by
  simp only [Finished, List.mem_append, List.mem_singleton, or_and_right, exists_or, exists_eq_left]

theorem Taken.append_buffer (h : Taken reader errno reads u)
    (hfront : front ++ reader.buffer = reader.given) :
    front ++ u.line ++ u.reader.buffer = u.reader.given := by
  obtain ⟨fresh, hgiven, hline⟩ := h.bytes
  rw [List.append_assoc, hline, hgiven, ← hfront, List.append_assoc]

theorem Taken.last (h : Taken reader errno reads u) (hfront : front ++ reader.buffer = reader.given)
    (hreads : ReadsOf content reads) :
    u.line.getLast? = some newline ∨ content.length ≤ (front ++ u.line).length := by
  refine h.stops.imp_right fun ⟨hbuffer, last, hlast, hstop⟩ => ?_
  obtain ⟨most, rfl⟩ := hreads last (List.mem_of_getLast? hlast)
  have hgiven := h.append_buffer hfront
  rw [hbuffer, List.append_nil] at hgiven
  rw [hgiven]
  exact hstop

variable {how : NextCall}

theorem Steady.step (h : Steady content front e.iterator.given calls)
    (hfront : front ++ e.iterator.buffer = e.iterator.given)
    (hoffset : e.offset = content.length - returned calls)
    (htaken : Taken e.iterator how.errno how.reads u) (hreads : ReadsOf content how.reads)
    (hnext : Nexts e u answer offset) :
    Steady content (front ++ u.line) u.reader.given (calls ++ [⟨how, answer⟩]) := by
  obtain ⟨hnone, hgiven⟩ := htaken.steady content hreads h.given
  have hprefix : front ++ u.line <+: content := by
    refine .trans ?_ hgiven
    rw [← htaken.append_buffer hfront]
    exact List.prefix_append _ _
  have hlength : returned calls = front.length := by rw [returned, h.values]
  obtain ⟨rest, hrest⟩ := hprefix
  have hdrop : content.drop front.length = u.line ++ rest := by
    rw [← hrest, List.append_assoc, List.drop_left]
  have hlast : u.line.getLast? = some newline ∨ rest = [] := by
    refine (htaken.last hfront hreads).imp_right fun hle => ?_
    rw [← hrest, @List.length_append _ (front ++ u.line) rest] at hle
    exact List.length_eq_zero_iff.mp (by omega)
  obtain ⟨hvalid, hvalid'⟩ := validUtf8_line (hdrop ▸ h.rest) hlast
  have hdrop' : content.drop (front ++ u.line).length = rest := by rw [← hrest, List.drop_left]
  have hover : e.offset = 0 → u.line = [] ∧ rest = [] := by
    intro hzero
    rw [hoffset, hlength, ← hrest] at hzero
    simp only [List.length_append] at hzero
    exact ⟨List.length_eq_zero_iff.mp (by omega), List.length_eq_zero_iff.mp (by omega)⟩
  have hdone : Finished calls → rest = [] := by
    intro hfinished
    have hall := congrArg List.length ((h.done hfinished).trans hrest.symm)
    simp only [List.length_append] at hall
    exact List.length_eq_zero_iff.mp (by omega)
  cases hnext with
  | line _ _ hline =>
    refine ⟨?_, hgiven, by rwa [hdrop'], ?_, ?_, ?_⟩
    · rw [values_success, List.flatten_append, h.values, List.flatten_singleton]
    · exact List.forall_mem_append.mpr ⟨h.success, List.forall_mem_singleton.mpr rfl⟩
    · rw [finished_append]
      rintro (hfinished | ⟨r, hr, hzero⟩)
      · rw [← hrest, hdone hfinished, List.append_nil]
      · cases hr
        exact absurd (hover (of_decide_eq_true hzero)).1 hline
    · rw [finished_append, List.length_append, List.length_append]
      have hpos := List.length_pos_iff.mpr hline
      exact h.enough.imp (fun hle => Nat.add_le_add hle hpos) .inl
  | finished hzero =>
    obtain ⟨hline, hrest'⟩ := hover hzero
    refine ⟨?_, hgiven, by rwa [hdrop'], ?_, fun _ => ?_, ?_⟩
    · rw [values_success, List.flatten_append, h.values, List.flatten_singleton, hline]
    · exact List.forall_mem_append.mpr ⟨h.success, List.forall_mem_singleton.mpr rfl⟩
    · rw [← hrest, hrest', List.append_nil]
    · exact .inr ((finished_append _ _).mpr (.inr ⟨_, rfl, rfl⟩))
  | ended hne _ hline =>
    obtain hnewline | hrest' := hlast
    · rw [hline] at hnewline
      cases hnewline
    · rw [hoffset, hlength, ← hrest, hline, hrest'] at hne
      exact absurd (by simp) hne
  | failed _ _ hfail => exact absurd hvalid (by rw [hfail hnone]; decide)

theorem Going.keepsPromise (h : Going size e front s) : KeepsPromise size s where
  told := ⟨e, front, h.entity, h.given, h.told⟩
  whole content hsize hvalid hreads := by
    have hsteady := h.steady content hsize hvalid hreads
    have hfront : front <+: content := List.IsPrefix.trans ⟨_, h.given⟩ hsteady.given
    exact {
      success := hsteady.success
      front := hsteady.values.symm ▸ hfront
      done := fun hfinished => hsteady.values.trans (hsteady.done hfinished)
      enough := fun hlt => hsteady.enough.resolve_left fun hle => by
        have := hfront.length_le
        omega }

theorem Going.tells (h : Going size e front s) (htaken : Taken e.iterator how.errno how.reads u)
    (hnext : Nexts e u answer offset) (hnot : ¬ EndsSilently s how) :
    Tells size s.calls front u.line ⟨how, answer⟩ := by
  have hoffset := h.offset
  have hwhole : u.line.getLast? = some newline ∨
      Stops (front.length + u.line.length) how.reads := by
    refine htaken.stops.imp_right fun ⟨hbuffer, hstops⟩ => ?_
    have hgiven := htaken.append_buffer h.given
    rw [hbuffer, List.append_nil] at hgiven
    rwa [← List.length_append, hgiven]
  cases hnext with
  | line _ _ hline =>
    refine ⟨htaken.oneLine, hwhole, ?_, nofun, ?_, fun _ _ => ⟨_, rfl, rfl, hline⟩⟩
    · rintro r ⟨⟩
      exact .inl rfl
    · rintro r ⟨⟩ hzero
      have := of_decide_eq_true hzero
      omega
  | finished hzero =>
    refine ⟨htaken.oneLine, hwhole, ?_, nofun, ?_, fun hlt => ?_⟩
    · rintro r ⟨⟩
      exact .inr ⟨rfl, rfl⟩
    · intro _ _ _
      omega
    · omega
  | ended hne herror hline =>
    refine ⟨htaken.oneLine, hwhole, nofun, fun _ => .inl hline, nofun, fun hlt hsuccess => ?_⟩
    obtain ⟨herrno, hbuffer, hreads⟩ :=
      htaken.silent hline herror (of_decide_eq_true hsuccess)
    exact absurd ⟨e, h.entity, by omega, hbuffer, herrno, hreads⟩ hnot
  | failed hne hcode _ =>
    exact ⟨htaken.oneLine, hwhole, nofun, fun _ => .inr (decide_eq_false hcode), nofun,
      fun _ hsuccess => absurd (of_decide_eq_true hsuccess) hcode⟩

theorem Nexts.offset_eq (h : Nexts e u answer offset) (hoffset : e.offset = size - returned calls)
    (how : NextCall) : offset = size - returned (calls ++ [⟨how, answer⟩]) := by
  cases h with
  | line _ _ _ =>
    rw [returned] at hoffset
    rw [returned, values_success, List.flatten_append, List.flatten_singleton, List.length_append,
      Int.natCast_add, ← Int.sub_sub, hoffset]
  | finished _ =>
    rw [returned, values_success, List.flatten_append, List.length_append]
    exact hoffset
  | ended _ _ _ => rwa [returned, values_error]
  | failed _ _ _ => rwa [returned, values_error]

theorem step_some (h : step s how = some t) :
    ∃ answer, s.it.next how.errno how.reads = some (answer, t.it) ∧
      t.calls = s.calls ++ [⟨how, answer⟩] := by
  obtain ⟨⟨answer, it⟩, hnext, rfl⟩ := Option.map_eq_some_iff.mp h
  exact ⟨answer, hnext, rfl⟩

theorem Going.step (h : Going size e front s) (hshort : ShortLine s how)
    (hnot : ¬ EndsSilently s how) (hstep : step s how = some t) :
    ∃ e' front', Going size e' front' t := by
  obtain ⟨answer, hnext, hcalls⟩ := step_some hstep
  obtain ⟨u, offset, hread, hentity, hnexts⟩ :=
    next_nexts h.entity (fun u => hshort e u h.entity) hnext
  have htaken := readUntil_taken hread
  refine ⟨⟨u.reader, offset⟩, front ++ u.line, ?_⟩
  exact {
    entity := hentity
    given := htaken.append_buffer h.given
    told := by
      rw [hcalls]
      exact .call h.told (h.tells htaken hnexts hnot)
    offset := by
      rw [hcalls]
      exact hnexts.offset_eq h.offset how
    steady := by
      intro content hsize hvalid hreads
      rw [hcalls] at hreads ⊢
      obtain ⟨hbefore, hlast⟩ := List.forall_mem_append.mp hreads
      have hoffset := h.offset
      rw [← hsize] at hoffset
      exact (h.steady content hsize hvalid hbefore).step h.given hoffset htaken
        (hlast _ (List.mem_singleton_self _)) hnexts }

theorem told_append {c : Called} (h : Told size front (calls ++ [c])) :
    ∃ front line, Tells size calls front line c := by
  generalize hall : calls ++ [c] = all at h
  cases h with
  | begin => simp at hall
  | call h tells =>
    obtain ⟨rfl, hc⟩ := List.append_inj' hall rfl
    cases hc
    exact ⟨_, _, tells⟩

theorem step_endsSilently (h : EndsSilently s how) :
    ∃ t, step s how = some t ∧ t.calls = s.calls ++ [⟨how, .error 0⟩] := by
  obtain ⟨e, hentity, hpos, hbuffer, herrno, content, most, hreads, hend⟩ := h
  have hread : readUntil e.iterator how.errno [.gives content most] =
      some ⟨[], none, e.iterator, how.errno⟩ := readUntil_end hbuffer hend
  rw [← hreads] at hread
  have hnext : nextLine ⟨[], none, e.iterator, how.errno⟩ = .ok none := by
    rw [nextLine, readLine]
    simp only [validUtf8_nil, if_true]
    rfl
  rw [step, FsReaderIterator.next, hentity]
  simp only [ffiNextLine, hread, Option.map_some, hnext]
  rw [if_pos ⟨rfl, Int.ne_of_gt hpos⟩, herrno]
  exact ⟨_, rfl, rfl⟩

theorem Going.keeps_iff (h : Going size e front s) (hshort : ShortLine s how) :
    (∀ t, ReaderIterator.step s how = some t → KeepsPromise size t) ↔ ¬ EndsSilently s how := by
  constructor
  · intro hkeeps hsilent
    obtain ⟨t, hstep, hcalls⟩ := step_endsSilently hsilent
    obtain ⟨_, _, _, _, htold⟩ := (hkeeps t hstep).told
    rw [hcalls] at htold
    obtain ⟨_, _, tells⟩ := told_append htold
    obtain ⟨e', hentity, hpos, -⟩ := hsilent
    obtain rfl : e = e' := Option.some.inj (h.entity.symm.trans hentity)
    have hoffset := h.offset
    obtain ⟨r, hr, -⟩ := tells.error (by omega) rfl
    cases hr
  · intro hnot t hstep
    obtain ⟨e', front', hgoing⟩ := h.step hshort hnot hstep
    exact hgoing.keepsPromise

theorem going_begin (size : Nat) : Going size ⟨{}, size⟩ [] ⟨⟨some ⟨{}, size⟩⟩, []⟩ where
  entity := rfl
  given := rfl
  told := .begin
  offset := (Int.sub_zero _).symm
  steady _ _ hvalid _ := {
    values := rfl
    given := List.nil_prefix
    rest := hvalid
    success := fun _ hc => absurd hc List.not_mem_nil
    done := fun ⟨_, hc, _⟩ => absurd hc List.not_mem_nil
    enough := .inl (Nat.le_refl 0) }

theorem openReader_ok {env : OpenEnv} {path : List UInt8} {iterator : BufReader}
    (h : openReader env path = .ok iterator) : iterator = {} := by
  rw [openReader] at h
  split at h
  · cases h
  · split at h
    · cases h
    · exact (Except.ok.inj h).symm

theorem getFileSize_ok {env : OpenEnv} {offset : Int} (h : getFileSize env = .ok offset)
    (hsize : env.stat = .ok size) : offset = size := by
  rw [getFileSize, hsize] at h
  split at h
  · cases h
  · exact (Except.ok.inj h).symm

theorem doReadLines_data {env : OpenEnv} {path : List UInt8} {option : Option Options}
    {it : FsReaderIterator} (hmade : (doReadLines env path option).data = some it)
    (hsize : env.stat = .ok size) : it = ⟨some ⟨{}, size⟩⟩ := by
  rw [doReadLines] at hmade
  split at hmade
  · cases hmade
  · split at hmade
    · cases hmade
    · next iterator hopen =>
      split at hmade
      · cases hmade
      · next offset hoffset =>
        rw [instantiateReaderIterator, openReader_ok hopen, getFileSize_ok hoffset hsize] at hmade
        split at hmade
        · cases hmade
        · exact (Option.some.inj hmade).symm

/-- All calls of an iterator keep what is promised exactly if none comes upon the end of the file
silently. -/
theorem readLines_run_iff {env : OpenEnv} {path : List UInt8} {option : Option Options}
    {it : FsReaderIterator} (hmade : (doReadLines env path option).data = some it)
    (hsize : env.stat = .ok size) {calls : List NextCall}
    (hshort : Machine.StepsOk step ShortLine ⟨it, []⟩ calls) :
    Machine.StepsOk step (fun s call => ∀ t, step s call = some t → KeepsPromise size t) ⟨it, []⟩
        calls ↔
      Machine.StepsOk step (fun s call => ¬ EndsSilently s call) ⟨it, []⟩ calls := by
  rw [doReadLines_data hmade hsize] at hshort ⊢
  refine Machine.stepsOk_congr_of
    (fun s call t (h : ∃ e front, Going size e front s) hshort hnot hstep => ?_)
    (fun s call h hshort => ?_) ⟨_, _, going_begin size⟩ hshort
  · obtain ⟨e, front, h⟩ := h
    exact h.step hshort hnot hstep
  · obtain ⟨e, front, h⟩ := h
    exact h.keeps_iff hshort

theorem doReadLines_opens (size : Nat) :
    (doReadLines { stat := .ok size } [0x2f, 0x66] none).data = some ⟨some ⟨{}, size⟩⟩ := by
  have hpath : validUtf8 [0x2f, 0x66] = true := validUtf8_iff.mpr ⟨['/', 'f'], rfl⟩
  simp only [doReadLines, openReader, hpath]
  rfl

/-- The text `h`, a newline and `i`, read byte by byte and then more at once. -/
def twoLines : List NextCall :=
  let content := [0x68, 0x0a, 0x69]
  [⟨0, [.gives content 0, .gives content 0]⟩, ⟨0, [.gives content 8, .gives content 8]⟩,
    ⟨0, [.gives content 8]⟩]

theorem shortLine {s : Iterating} {call : NextCall} {e : ReaderIteratorEntity} {u : Until}
    (hentity : s.it.entity = some e)
    (hread : readUntil e.iterator call.errno call.reads = some u) (h : u.line.length < 2 ^ 32) :
    ShortLine s call := by
  intro e' u' hentity' hread'
  cases hentity.symm.trans hentity'
  cases hread.symm.trans hread'
  exact h

/-- The lines come one by one, and the call behind them is done. -/
theorem readLines_run_twoLines :
    Machine.StepsOk step (fun s call => ∀ t, step s call = some t → KeepsPromise 3 t)
      ⟨⟨some ⟨{}, 3⟩⟩, []⟩ twoLines := by
  have hshort : Machine.StepsOk step ShortLine ⟨⟨some ⟨{}, 3⟩⟩, []⟩ twoLines :=
    .cons (shortLine rfl rfl (by decide)) rfl <|
      .cons (shortLine rfl rfl (by decide)) rfl <|
      .cons (shortLine rfl rfl (by decide)) rfl .nil
  refine (readLines_run_iff (doReadLines_opens 3) rfl hshort).mpr ?_
  refine .cons ?_ rfl <| .cons ?_ rfl <| .cons ?_ rfl .nil
  · rintro ⟨e, -, -, -, -, content, most, hreads, -⟩
    cases hreads
  · rintro ⟨e, -, -, -, -, content, most, hreads, -⟩
    cases hreads
  · rintro ⟨e, ⟨⟩, hpos, -⟩
    exact absurd hpos (by decide)

/-- The file of two bytes is emptied before the first call, which is a success without a value. -/
theorem readLines_silent :
    (doReadLines { stat := .ok 2 } [0x2f, 0x66] none).data = some ⟨some ⟨{}, 2⟩⟩ ∧
      ¬ Machine.StepsOk step (fun s call => ∀ t, step s call = some t → KeepsPromise 2 t)
        ⟨⟨some ⟨{}, 2⟩⟩, []⟩ [⟨0, [.gives [] 0]⟩] := by
  refine ⟨doReadLines_opens 2, fun ⟨hkeeps, _⟩ => ?_⟩
  have hsilent : EndsSilently ⟨⟨some ⟨{}, 2⟩⟩, []⟩ ⟨0, [.gives [] 0]⟩ :=
    ⟨_, rfl, by decide, rfl, rfl, _, _, rfl, Nat.le_refl 0⟩
  refine ((going_begin 2).keeps_iff ?_).mp hkeeps hsilent
  rintro e u ⟨⟩ hread
  obtain rfl : Until.mk [] none {} 0 = u := Option.some.inj hread
  decide

end FileApi.ModFs.ReaderIterator
