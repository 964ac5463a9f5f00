import FileApi.Swapfs.ReadEngines

/-!
# Where the two read engines agree

What the ring engine delivers, the other one delivers too. It takes one completion as it is, where
the other one goes on: a short read is an error for it, and an errno of a missing file has another
code.
-/

namespace FileApi.Swapfs

open Machine

theorem mapErrno_io_eq_key (err : Int) :
    mapErrno err .ioOperation = mapErrno err .keyOperation ↔ err ≠ ENOENT ∧ err ≠ ENOTDIR := by
  constructor
  · intro h
    constructor
    · rintro rfl
      cases h
    · rintro rfl
      cases h
  · rintro ⟨hnoent, hnotdir⟩
    simp only [mapErrno, hnoent, hnotdir, false_or, if_false]

/-! ## `ReadFull` -/

/-- What stops a read that fails: the end of the file, or an errno that is no interruption. -/
inductive Stops : Answer → SwapfsErr → Prop where
  | endOfFile : Stops (.bytes 0) .ioError
  | error (err : Int) (h : err ≠ EINTR) : Stops (.error err) (mapErrno err .keyOperation)

/-- The answers, when there are no more than were asked for, end with the one that stopped the
read, or with one that moved bytes. -/
theorem readFull_spec {content : List UInt8} {size : Nat} {answers : List Answer} :
    ∀ {got : List UInt8} {v : Except SwapfsErr (List UInt8)}, got = content.take got.length →
      got.length ≤ size → readFull content size got answers = some (v, []) →
      (∃ a err, answers.getLast? = some a ∧ Stops a err ∧ v = .error err) ∨
      v = .ok (content.take size) ∧ ∀ a, answers.getLast? = some a → ∃ n, a = .bytes n ∧ n ≠ 0 := by
  induction answers with
  | nil =>
    intro got v hgot hle h
    rw [readFull.eq_def] at h
    split at h
    next hall =>
      cases h
      right
      have hlength : got.length = size := by omega
      exact ⟨by rw [hgot, hlength], nofun⟩
    · cases h
  | cons answer rest ih =>
    intro got v hgot hle h
    rw [readFull.eq_def] at h
    split at h
    · cases h
    next hmore =>
    simp only at h
    split at h
    case isFalse => cases h
    next hlegal =>
    -- the answers behind this one are not empty when the read goes on
    have hlast : ∀ {a : Answer}, rest.getLast? = some a → (answer :: rest).getLast? = some a := by
      intro a ha
      rw [List.getLast?_cons, ha]
      rfl
    cases answer with
    | error err =>
      simp only at h
      split at h
      next hintr =>
        rcases ih hgot hle h with ⟨a, e, ha, hstops, hv⟩ | ⟨hv, hmoved⟩
        · exact .inl ⟨a, e, hlast ha, hstops, hv⟩
        · cases rest with
          | nil =>
            rw [readFull.eq_def, if_neg hmore] at h
            cases h
          | cons next rest =>
            refine .inr ⟨hv, fun a ha => hmoved a ?_⟩
            rwa [List.getLast?_cons_cons] at ha
      next hintr =>
        cases h
        exact .inl ⟨.error err, _, rfl, .error err hintr, rfl⟩
    | bytes n =>
      obtain ⟨hn, -, hcontent, -⟩ := hlegal
      simp only at h
      split at h
      next hzero =>
        cases h
        subst hzero
        exact .inl ⟨.bytes 0, .ioError, rfl, .endOfFile, rfl⟩
      next hzero =>
        have hgot' : got ++ (content.drop got.length).take n = content.take (got.length + n) := by
          rw [List.take_add, ← hgot]
        have hlength : (got ++ (content.drop got.length).take n).length = got.length + n := by
          rw [List.length_append, List.length_take, List.length_drop]
          omega
        rcases ih (by rw [hlength]; exact hgot') (by omega) h with ⟨a, e, ha, hstops, hv⟩ |
          ⟨hv, hmoved⟩
        · exact .inl ⟨a, e, hlast ha, hstops, hv⟩
        · refine .inr ⟨hv, fun a ha => ?_⟩
          cases rest with
          | nil =>
            obtain rfl : Answer.bytes n = a := by simpa using ha
            exact ⟨n, rfl, hzero⟩
          | cons next rest =>
            rw [List.getLast?_cons_cons] at ha
            exact hmoved a ha

theorem readFull_whole {content : List UInt8} {size n : Nat} {rest : List Answer}
    {v : Except SwapfsErr (List UInt8)} (hsize : size ≠ 0) (hle : size ≤ n)
    (h : readFull content size [] (.bytes n :: rest) = some (v, [])) :
    v = .ok (content.take size) := by
  rw [readFull.eq_def, if_neg (by simpa using hsize)] at h
  simp only at h
  split at h
  case isFalse => cases h
  next hlegal =>
  obtain ⟨hn, -, hcontent, -⟩ := hlegal
  simp only [List.length_nil, Nat.sub_zero] at hn hcontent
  obtain rfl : size = n := by omega
  simp only [hsize, if_false, List.length_nil, List.drop_zero, List.nil_append] at h
  have hall : size ≤ (content.take size).length := by
    rw [List.length_take]
    omega
  cases rest with
  | nil =>
    rw [readFull.eq_def, if_pos hall] at h
    cases h
    rfl
  | cons next rest =>
    rw [readFull.eq_def, if_pos hall] at h
    cases h

/-! ## The ring engine -/

/-- The step of the ring engine with its counter. -/
def ringStep (r : ReadRequest) (s : UringPc × UInt64) (response : Response) :
    Option (UringPc × UInt64) := stepRead r s.2 s.1 response

/-- The first answer, as the completion gives it. -/
def Kernel.completion (k : Kernel) (r : ReadRequest) (a : Answer) : Prop :=
  k.answers.head?.map (Answer.cut (ringLength r)) = some a ∧ a.legal k.content 0 (ringLength r)

/-- A read that has come so far is aligned, and its file could be opened; a success is the one of
the completion. -/
def Delivers (k : Kernel) (r : ReadRequest) : UringPc → Prop
  | .isAvailable => True
  | .acquireSlot => isDioAligned r.address r.size = true
  | .openFile _ => isDioAligned r.address r.size = true
  | .getSqe _ => isDioAligned r.address r.size = true ∧ k.opened = .ok ()
  | .submit _ _ => isDioAligned r.address r.size = true ∧ k.opened = .ok ()
  | .waitCqe _ _ _ => isDioAligned r.address r.size = true ∧ k.opened = .ok ()
  | .cancel _ _ _ _ => isDioAligned r.address r.size = true ∧ k.opened = .ok ()
  | .rebuild _ result => result = .ok () → isDioAligned r.address r.size = true ∧
      k.opened = .ok () ∧ ∃ a, k.completion r a ∧ a.res = r.size.toNat
  | .release _ result => result = .ok () → isDioAligned r.address r.size = true ∧
      k.opened = .ok () ∧ ∃ a, k.completion r a ∧ a.res = r.size.toNat
  | .done result => result = .ok () → isDioAligned r.address r.size = true ∧
      k.opened = .ok () ∧ ∃ a, k.completion r a ∧ a.res = r.size.toNat

variable {r : ReadRequest}

theorem completed_ok {state : WaitState} {res : Int} (h : completed r state res = .ok ()) :
    res = r.size.toNat := by
  unfold completed at h
  split at h
  · cases h
  · split at h
    · cases h
    · split at h
      · omega
      · cases h

theorem stepRead_delivers {k : Kernel} {pc pc' : UringPc} {next next' : UInt64}
    {response : Response} (inv : Delivers k r pc) (hresponds : k.responds r pc response)
    (h : stepRead r next pc response = some (pc', next')) : Delivers k r pc' := by
  unfold stepRead at h
  split at h
  · obtain ⟨rfl, -⟩ := Prod.mk.inj (Option.some.inj h)
    split
    · exact nofun
    · split
      · exact nofun
      · next haligned =>
        show isDioAligned r.address r.size = true
        simpa using haligned
  · cases h; exact nofun
  · cases h; exact inv
  · cases h; exact nofun
  · cases h; exact ⟨inv, hresponds⟩
  · cases h; exact inv
  · cases h; exact nofun
  · obtain ⟨rfl, -⟩ := Prod.mk.inj (Option.some.inj h)
    split
    · exact inv
    · split
      · exact nofun
      · split
        · exact inv
        · exact inv
  · split at h
    · cases h; exact inv
    · simp only at h
      split at h
      · cases h; exact inv
      · cases h; exact inv
  · obtain ⟨rfl, -⟩ := Prod.mk.inj (Option.some.inj h)
    split
    · exact inv
    · exact inv
  · next slot id state userData res =>
    obtain ⟨rfl, -⟩ := Prod.mk.inj (Option.some.inj h)
    have hmine : userData = id → completed r state res = .ok () →
        isDioAligned r.address r.size = true ∧ k.opened = .ok () ∧
          ∃ a, k.completion r a ∧ a.res = r.size.toNat := by
      intro hid hok
      obtain ⟨a, hhead, hlegal, hres⟩ := hresponds hid
      exact ⟨inv.1, inv.2, a, ⟨hhead, hlegal⟩, hres ▸ completed_ok hok⟩
    split
    · exact inv
    next hid =>
    split
    · exact hmine (not_not.mp hid)
    · exact hmine (not_not.mp hid)
  · cases h; exact inv
  · cases h; exact inv
  · cases h

/-- The ring makes no trouble: there is a slot and an entry for the request, it is submitted, and
the wait for its completion is interrupted at most. -/
def Response.clean : UringPc → Response → Prop
  | .isAvailable, .flag available => available = true
  | .acquireSlot, .slot k => k.isSome
  | .getSqe _, .flag found => found = true
  | .submit _ _, .ret value => value = 1 ∨ value = -EINTR
  | .waitCqe _ _ _, .ret value => value = -EINTR
  | .waitCqe _ id _, .cqe userData _ => userData = id
  | _, _ => True

/-- The result of a read without trouble. -/
inductive RingResult (k : Kernel) (r : ReadRequest) : Except SwapfsErr Unit → Prop where
  | dioAlign (h : isDioAligned r.address r.size = false) : RingResult k r (.error .dioAlign)
  | openError (err : Int) (haligned : isDioAligned r.address r.size = true)
      (h : k.opened = .error err) : RingResult k r (.error (mapErrno err .ioOperation))
  | completed (a : Answer) (haligned : isDioAligned r.address r.size = true)
      (hopened : k.opened = .ok ()) (h : k.completion r a) : RingResult k r (completed r {} a.res)

/-- Where a read without trouble can be. -/
def Untroubled (k : Kernel) (r : ReadRequest) : UringPc → Prop
  | .waitCqe _ _ state => state = {}
  | .cancel _ _ _ _ => False
  | .rebuild _ _ => False
  | .release _ result => RingResult k r result
  | .done result => RingResult k r result
  | _ => True

theorem stepRead_untroubled {k : Kernel} {pc pc' : UringPc} {next next' : UInt64}
    {response : Response} (delivers : Delivers k r pc) (inv : Untroubled k r pc)
    (hresponds : k.responds r pc response) (hclean : response.clean pc)
    (h : stepRead r next pc response = some (pc', next')) : Untroubled k r pc' := by
  unfold stepRead at h
  split at h
  · obtain ⟨rfl, -⟩ := Prod.mk.inj (Option.some.inj h)
    simp only [Response.clean] at hclean
    subst hclean
    split
    · next hflag => cases hflag
    · split
      · next haligned => exact .dioAlign (by simpa using haligned)
      · trivial
  · cases hclean
  · cases h; trivial
  · cases h
    exact .openError _ delivers hresponds
  · cases h; trivial
  · cases h; trivial
  · cases hclean
  · obtain ⟨rfl, -⟩ := Prod.mk.inj (Option.some.inj h)
    rcases hclean with rfl | rfl
    · exact rfl
    · trivial
  · rw [if_pos (show _ = -EINTR from hclean)] at h
    cases h; exact inv
  · cases inv
  · next slot id state userData res =>
    obtain ⟨rfl, -⟩ := Prod.mk.inj (Option.some.inj h)
    simp only [Response.clean] at hclean
    simp only [Untroubled] at inv
    subst hclean inv
    obtain ⟨a, hhead, hlegal, rfl⟩ := hresponds rfl
    rw [if_neg (by simp), if_neg (by simp)]
    exact .completed a delivers.1 delivers.2 ⟨hhead, hlegal⟩
  · cases inv
  · cases h; exact inv
  · cases h

theorem run_ringStep {inv : UringPc → Prop} {ok : UringPc × UInt64 → Response → Prop}
    (hstep : ∀ pc pc' next next' response, inv pc → ok (pc, next) response →
      stepRead r next pc response = some (pc', next') → inv pc') {start id : UInt64}
    {responses : List Response} {pc pc' : UringPc} (h : inv pc)
    (hok : StepsOk (ringStep r) ok (pc, start) responses)
    (hrun : run (ringStep r) (pc, start) responses = some (pc', id)) : inv pc' := by
  have hpair : ∀ s response t, inv s.1 → ok s response → ringStep r s response = some t → inv t.1 :=
    fun s response t hinv hresponse ht => hstep s.1 t.1 s.2 t.2 response hinv hresponse ht
  exact run_invariant hpair h hok hrun

/-! ## Both engines -/

/-- The synchronous read ends with the code of an I/O error. -/
def EndsInIoError (answers : List Answer) : Prop :=
  answers.getLast? = some (.bytes 0) ∨
    ∃ err, answers.getLast? = some (.error err) ∧ mapErrno err .keyOperation = .ioError

/-- Where the engines agree: an errno has one code for both, and the first answer is all there is
to read, or both come to an I/O error. -/
def AgreeWhen (k : Kernel) (r : ReadRequest) : Prop :=
  match k.opened, k.answers.head? with
  | .error err, _ => err ≠ ENOENT ∧ err ≠ ENOTDIR
  | .ok (), some (.error err) => err ≠ ENOENT ∧ err ≠ ENOTDIR
  | .ok (), some (.bytes n) => n = r.size.toNat ∨ EndsInIoError k.answers
  | .ok (), none => True

section Engines

variable {k : Kernel} {r : ReadRequest} {v : Except SwapfsErr (List UInt8)}

theorem syncRead_open (hsize : r.size ≠ 0) (haligned : isDioAligned r.address r.size = true)
    (hopened : k.opened = .ok ()) (h : syncRead k r = some (v, [])) :
    readFull k.content r.size.toNat [] k.answers = some (v, []) := by
  rw [syncRead, if_neg hsize, if_neg (by simp [haligned]), hopened] at h
  exact h

theorem toNat_ne_zero_of_ne {size : UInt64} (h : size ≠ 0) : size.toNat ≠ 0 :=
  fun hzero => h (UInt64.toNat_inj.mp hzero)

theorem syncRead_of_completion {a : Answer} (hsize : r.size ≠ 0)
    (haligned : isDioAligned r.address r.size = true) (hopened : k.opened = .ok ())
    (hcompletion : k.completion r a) (hres : a.res = r.size.toNat)
    (h : syncRead k r = some (v, [])) : v = .ok (k.content.take r.size.toNat) := by
  have hread := syncRead_open hsize haligned hopened h
  have hne := toNat_ne_zero_of_ne hsize
  obtain ⟨hhead, hlegal⟩ := hcompletion
  cases hanswers : k.answers with
  | nil => simp [hanswers] at hhead
  | cons first rest =>
    rw [hanswers] at hread hhead
    obtain rfl : first.cut (ringLength r) = a := by simpa using hhead
    cases first with
    | error err =>
      simp only [Answer.cut, Answer.legal, Answer.res] at hlegal hres
      omega
    | bytes n =>
      simp only [Answer.cut, Answer.res] at hres
      exact readFull_whole hne (by omega) hread

/-- Without trouble of the ring, for what one read can move. -/
theorem agree_iff {u : Except SwapfsErr Unit} (hsize : r.size ≠ 0)
    (hfits : r.size.toNat ≤ maxRwCount) (hintr : k.answers.head? ≠ some (.error EINTR))
    (hring : RingResult k r u) (h : syncRead k r = some (v, [])) :
    v = k.delivered r u ↔ (isDioAligned r.address r.size = true → AgreeWhen k r) := by
  have hne := toNat_ne_zero_of_ne hsize
  cases hring with
  | dioAlign hunaligned =>
    rw [syncRead, if_neg hsize, if_pos (by simp [hunaligned])] at h
    obtain ⟨rfl, -⟩ := Prod.mk.inj (Option.some.inj h)
    simp [Kernel.delivered, Except.map, hunaligned]
  | openError err haligned hopened =>
    rw [syncRead, if_neg hsize, if_neg (by simp [haligned]), hopened] at h
    obtain ⟨rfl, -⟩ := Prod.mk.inj (Option.some.inj h)
    simp only [Kernel.delivered, Except.map, Except.error.injEq, haligned, AgreeWhen, hopened,
      true_imp_iff, eq_comm (a := mapErrno err .keyOperation)]
    exact mapErrno_io_eq_key err
  | completed a haligned hopened hcompletion =>
    have hread := syncRead_open hsize haligned hopened h
    obtain ⟨hhead, hlegal⟩ := hcompletion
    have hlength : ringLength r = r.size.toNat := by
      unfold maxRwCount at hfits
      rw [ringLength]
      omega
    cases hanswers : k.answers with
    | nil => simp [hanswers] at hhead
    | cons first rest =>
      rw [hanswers] at hread hhead hintr
      obtain rfl : first.cut (ringLength r) = a := by simpa using hhead
      cases first with
      | error err =>
        simp only [Answer.cut, Answer.legal, Answer.res] at hlegal ⊢
        have hno : err ≠ EINTR := fun heq => hintr (by rw [heq]; rfl)
        rw [readFull.eq_def, if_neg (by simpa using hne)] at hread
        simp only [Answer.legal, hlegal, if_true, hno, if_false] at hread
        obtain ⟨rfl, -⟩ := Prod.mk.inj (Option.some.inj hread)
        simp only [Kernel.delivered, completed, neg_neg, show -err < 0 by omega, if_true, Except.map,
          Except.error.injEq, haligned, AgreeWhen, hopened, hanswers, List.head?_cons,
          true_imp_iff, eq_comm (a := mapErrno err .keyOperation)]
        exact mapErrno_io_eq_key err
      | bytes n =>
        simp only [Answer.cut, hlength, Answer.res] at hlegal ⊢
        have hn : n ≤ r.size.toNat := by
          rw [readFull.eq_def, if_neg (by simpa using hne)] at hread
          simp only at hread
          split at hread
          · next hfirst => simpa using hfirst.1
          · cases hread
        simp only [Nat.min_eq_left hn, haligned, AgreeWhen, hopened, hanswers, List.head?_cons,
          true_imp_iff]
        by_cases hwhole : n = r.size.toNat
        · have hv := readFull_whole hne (by omega) hread
          have hpos : ¬ (r.size.toNat : Int) < 0 := by omega
          simp [completed, hwhole, Kernel.delivered, Except.map, hv, hpos]
        · -- a short read is an error of the ring engine
          have hshort : completed r {} n = .error .ioError := by
            simp only [completed, Int.toNat_natCast, hwhole, if_false,
              show ¬ (n : Int) < 0 by omega]
          simp only [hshort, Kernel.delivered, Except.map, hwhole, false_or]
          rcases readFull_spec rfl (Nat.zero_le _) hread with ⟨a, e, ha, hstops, rfl⟩ | ⟨rfl, hmoved⟩
          · cases hstops with
            | endOfFile => exact ⟨fun _ => .inl ha, fun _ => rfl⟩
            | error err hno =>
              rw [Except.error.injEq]
              constructor
              · exact fun hcode => .inr ⟨err, ha, hcode⟩
              · rintro (hzero | ⟨err', herr, hcode⟩)
                · rw [ha] at hzero
                  cases hzero
                · rw [ha] at herr
                  cases herr
                  exact hcode
          · constructor
            · exact nofun
            · rintro (hzero | ⟨err, herr, -⟩)
              · obtain ⟨m, hm, hpos⟩ := hmoved _ hzero
                cases hm
                exact absurd rfl hpos
              · obtain ⟨m, hm, -⟩ := hmoved _ herr
                cases hm

/-- The engines on one file: what the ring engine delivers the other one delivers, and without
trouble of the ring, for what one uninterrupted read can move, they agree exactly in `AgreeWhen`. -/
theorem engines_agree {start id : UInt64} {responses : List Response} {u : Except SwapfsErr Unit}
    (hsize : r.size ≠ 0)
    (hring : run (ringStep r) (.isAvailable, start) responses = some (.done u, id))
    (hresponds : StepsOk (ringStep r) (fun s response => k.responds r s.1 response)
      (.isAvailable, start) responses)
    (hsync : syncRead k r = some (v, [])) :
    (u = .ok () → v = k.delivered r u) ∧
    (StepsOk (ringStep r) (fun s response => response.clean s.1) (.isAvailable, start) responses →
      r.size.toNat ≤ maxRwCount → k.answers.head? ≠ some (.error EINTR) →
      (v = k.delivered r u ↔ (isDioAligned r.address r.size = true → AgreeWhen k r))) := by
  constructor
  · rintro rfl
    have hstart : Delivers k r .isAvailable := trivial
    have hdelivers : Delivers k r (.done (.ok ())) :=
      run_ringStep (fun _ _ _ _ _ inv hresponds h => stepRead_delivers inv hresponds h) hstart
        hresponds hring
    obtain ⟨haligned, hopened, a, hcompletion, hres⟩ := hdelivers rfl
    exact syncRead_of_completion hsize haligned hopened hcompletion hres hsync
  · intro hclean hfits hintr
    have hstart : Delivers k r .isAvailable ∧ Untroubled k r .isAvailable := ⟨trivial, trivial⟩
    have hboth : Delivers k r (.done u) ∧ Untroubled k r (.done u) := by
      have hstep : ∀ pc pc' next next' response, Delivers k r pc ∧ Untroubled k r pc →
          k.responds r pc response ∧ response.clean pc →
          stepRead r next pc response = some (pc', next') → Delivers k r pc' ∧ Untroubled k r pc' :=
        fun _ _ _ _ _ inv hok h =>
          ⟨stepRead_delivers inv.1 hok.1 h, stepRead_untroubled inv.1 inv.2 hok.1 hok.2 h⟩
      exact run_ringStep hstep hstart (hresponds.and hclean) hring
    exact agree_iff hsize hfits hintr hboth.2 hsync

end Engines

/-! ### A page -/

/-- A page at an aligned address. -/
def pageRead : ReadRequest := ⟨0, 4096⟩

def page : List UInt8 := List.replicate 4096 7

theorem length_page : page.length = 4096 := List.length_replicate

/-- The file of a page, with the answers to its reads. -/
def pageFile (answers : List Answer) : Kernel := ⟨page, .ok (), answers⟩

/-- A read whose request is completed with this result. -/
def ringSteps (res : Int) : List Response :=
  [.flag true, .slot (some 0), .ok, .flag true, .ret 1, .cqe 1 res, .ok]

theorem ringSteps_responds {answers : List Answer} {a : Answer}
    (h : (pageFile answers).completion pageRead a) : StepsOk (ringStep pageRead)
      (fun s response => (pageFile answers).responds pageRead s.1 response) (.isAvailable, 1)
      (ringSteps a.res) := by
  have hok : ∀ pc, (pageFile answers).responds pageRead pc .ok := by
    intro pc
    cases pc with
    | openFile slot => rfl
    | _ => trivial
  exact .cons trivial rfl (.cons trivial rfl (.cons rfl rfl (.cons trivial rfl (.cons trivial rfl
    ⟨fun _ => ⟨a, h.1, h.2, rfl⟩, fun t _ => ⟨hok t.1, fun _ _ => .nil⟩⟩))))

theorem ringSteps_clean (res : Int) : StepsOk (ringStep pageRead)
    (fun s response => response.clean s.1) (.isAvailable, 1) (ringSteps res) := by
  have hok : ∀ pc, Response.clean pc .ok := by
    intro pc
    cases pc <;> trivial
  exact .cons rfl rfl (.cons rfl rfl (.cons trivial rfl (.cons rfl rfl (.cons (.inl rfl) rfl
    ⟨rfl, fun t _ => ⟨hok t.1, fun _ _ => .nil⟩⟩))))

theorem wholePage_completion :
    (pageFile [.bytes 4096]).completion pageRead (.bytes 4096) := by
  refine ⟨rfl, by decide, by decide, ?_, nofun⟩
  simp [pageFile, length_page]

theorem syncRead_wholePage :
    syncRead (pageFile [.bytes 4096]) pageRead = some (.ok page, []) := by
  simp [syncRead, pageRead, pageFile, readFull, isDioAligned, dioAlignment, Answer.legal, maxRwCount,
    length_page, List.take_of_length_le]

theorem engines_agree_wholePage :
    run (ringStep pageRead) (.isAvailable, 1) (ringSteps 4096) = some (.done (.ok ()), 2) ∧
    syncRead (pageFile [.bytes 4096]) pageRead = some (.ok page, []) ∧
    .ok page = (pageFile [.bytes 4096]).delivered pageRead (.ok ()) ∧
    AgreeWhen (pageFile [.bytes 4096]) pageRead := by
  have hrun : run (ringStep pageRead) (.isAvailable, 1) (ringSteps 4096) =
    some (.done (.ok ()), 2) := rfl
  obtain ⟨hdelivered, hiff⟩ := engines_agree (by decide) hrun
    (ringSteps_responds wholePage_completion) syncRead_wholePage
  refine ⟨hrun, syncRead_wholePage, hdelivered rfl, ?_⟩
  exact (hiff (ringSteps_clean 4096) (by decide) (by decide)).mp (hdelivered rfl) (by decide)

/-- A short first read: the ring engine fails where the other one goes on. A missing file: each
engine has its own code. -/
theorem engines_differ :
    ((pageFile [.bytes 512, .bytes 3584]).completion pageRead (.bytes 512) ∧
      run (ringStep pageRead) (.isAvailable, 1) (ringSteps 512) =
        some (.done (.error .ioError), 2) ∧
      syncRead (pageFile [.bytes 512, .bytes 3584]) pageRead = some (.ok page, [])) ∧
    run (ringStep pageRead) (.isAvailable, 1) [.flag true, .slot (some 0), .error ENOENT, .ok] =
      some (.done (.error .ioError), 1) ∧
    syncRead ⟨[], .error ENOENT, []⟩ pageRead = some (.error .keyNotFound, []) := by
  refine ⟨⟨⟨rfl, by decide, by decide, ?_, nofun⟩, rfl, ?_⟩, rfl, rfl⟩
  · simp [pageFile, length_page]
  · simp [syncRead, pageRead, pageFile, readFull, isDioAligned, dioAlignment, Answer.legal,
      maxRwCount, length_page, List.take_of_length_le]

end FileApi.Swapfs
