import FileApi.Misc.KeyStore
import FileApi.Swapfs.Proofs.Quota

/-!
# What the calls do to the store

The manager as a store whose keys are used once. The values of the store are the contents of the
files. The events of a call are steps of the call: a `SwapOut` puts its buffer where it commits its
entry, a `SwapIn` finds the value where it looks up its key, a remover hides the key before it
unlinks the file, and drops or restores it then.
-/

namespace FileApi.Swapfs

open KeyStore

abbrev StoreEvent := Event UInt64 (List UInt8)

/-- The content of the file of a key. -/
def State.content (s : State) (k : UInt64) : Option (List UInt8) :=
  (s.disk.lookup (.swap k)).map Prod.snd

/-- The slot of an entry. -/
def slotOf : KeyStatus → Option (List UInt8) → Slot (List UInt8)
  | .active, some content => .shown content
  | .removing, some content => .hidden content
  | _, none => .gone

/-- Some `SwapOut` has committed this key. -/
def Used (calls : List Call) (k : UInt64) : Prop := ∃ c ∈ calls, c.committed.map Prod.fst = some k

instance (calls : List Call) (k : UInt64) : Decidable (Used calls k) :=
  inferInstanceAs (Decidable (∃ c ∈ calls, c.committed.map Prod.fst = some k))

/-- The store that the entries and the files stand for. -/
def State.view (s : State) : Store UInt64 (List UInt8) := fun k =>
  match findEntry s k with
  | some e => some (slotOf e.status (s.content k))
  | none => if Used s.calls k then some .gone else none

/-- What a first section does to the store. -/
def startEvents (s : State) : Request → List StoreEvent
  | .removeData keyId =>
      if keyId = 0 then []
      else
        match findEntry s keyId with
        | none => [.get keyId none]
        | some entry => if entry.status ≠ .active then [.get keyId none] else [.hide keyId]
  | .removeAllData => if 0 < s.activeOps then [] else [.hideAll (s.entries.map SwapKeyEntry.keyId)]
  | _ => []

/-- What a later section does to the store. -/
def callEvents (s : State) : Call → Outcome → List StoreEvent
  | .swapOut request keyId .commit, .ok => [.put keyId request.buffer]
  | .swapIn request .lookup, .ok => [.get request.keyId (s.view.value request.keyId)]
  | .swapIn request (.unlink _ _), .ok => [.drop request.keyId]
  | .swapIn request (.finishRemoval _ false _), .ok => [.restore request.keyId]
  | .removeData _ (.unlink entry), .ok => [.drop entry.keyId]
  | .removeData _ (.finalize entry (.error _)), .ok => [.restore entry.keyId]
  | .removeAllData (.unlink (entry :: _) _ _), .ok => [.drop entry.keyId]
  | .removeAllData (.finalize removed _), .ok =>
      (removed.filter fun r => !r.2).map fun r => .restore r.1.keyId
  | _, _ => []

/-- The events of an action, with the number of their call. -/
def events (s : State) : Action → List (Nat × StoreEvent)
  | .start request => (startEvents s request).map fun e => (s.calls.length, e)
  | .go i outcome =>
      match s.calls[i]? with
      | none => []
      | some c => (callEvents s c outcome).map fun e => (i, e)

/-- The events of a run. -/
def history : State → List Action → List (Nat × StoreEvent)
  | _, [] => []
  | s, a :: as =>
      events s a ++
        match step s a with
        | none => []
        | some t => history t as

/-- The events of one call. -/
def eventsOf (i : Nat) (h : List (Nat × StoreEvent)) : List StoreEvent :=
  (h.filter fun p => p.1 = i).map Prod.snd

/-- The events of a call that removes all entries: what it hides, and which of it it drops. -/
def removeAllEvents (removed : List (SwapKeyEntry × Bool)) (todo : List SwapKeyEntry) :
    List StoreEvent :=
  .hideAll ((removed.map Prod.fst ++ todo).map SwapKeyEntry.keyId) ::
    (removed.filter Prod.snd).map fun r => .drop r.1.keyId

/-- What a call has done to the store, wherever it stands. -/
def Explained : Call → List StoreEvent → Prop
  | .swapOut request keyId (.endOperation (.ok _)), h => h = [.put keyId request.buffer]
  | .swapOut request keyId (.done (.ok _)), h => h = [.put keyId request.buffer]
  | .swapOut _ _ _, h => h = []
  | .swapIn _ .lookup, h => h = []
  | .swapIn request (.openSwap _), h => ∃ v, h = [.get request.keyId (some v)]
  | .swapIn request (.read _ _ _ _), h => ∃ v, h = [.get request.keyId (some v)]
  | .swapIn request (.finish result), h =>
      ∃ v, (∀ got, result = .ok got → got = v) ∧ h = [.get request.keyId (some v)]
  | .swapIn request (.unlink _ result), h =>
      ∃ v, (∀ got, result = .ok got → got = v) ∧ h = [.get request.keyId (some v)]
  | .swapIn request (.finishRemoval _ removed result), h =>
      ∃ v, (∀ got, result = .ok got → got = v) ∧
        h = .get request.keyId (some v) :: if removed then [.drop request.keyId] else []
  | .swapIn request (.endOperation result), h => SwapInDone request result h
  | .swapIn request (.done result), h => SwapInDone request result h
  | .removeData keyId (.unlink entry), h => entry.keyId = keyId ∧ h = [.hide keyId]
  | .removeData keyId (.finalize entry result), h =>
      entry.keyId = keyId ∧ h = .hide keyId :: if result.isOk then [.drop keyId] else []
  | .removeData keyId (.endOperation result), h => RemoveDataDone keyId result h
  | .removeData keyId (.done result), h =>
      RemoveDataDone keyId result h ∨ result = .ok () ∧ h = [.hide keyId]
  | .removeAllData (.unlink todo removed firstError), h =>
      (firstError = none ↔ ∀ r ∈ removed, r.2 = true) ∧ h = removeAllEvents removed todo
  | .removeAllData (.finalize removed firstError), h =>
      (firstError = none ↔ ∀ r ∈ removed, r.2 = true) ∧ h = removeAllEvents removed []
  | .removeAllData (.endOperation result), h => RemoveAllDone result h
  | .removeAllData (.done result), h => RemoveAllDone result h
  | .getStats _, h => h = []
  | .refused err, h =>
      h = [] ∨ (err = .keyNotFound ∨ err = .keyStateInvalid) ∧ ∃ k, h = [.get k none]
where
  /-- A `SwapIn` that is through: it looked nothing up, found nothing, or found the value that it
  delivers, and removed the entry if it was the last to read it. -/
  SwapInDone (request : SwapInRequest) (result : Except SwapfsErr (List UInt8))
      (h : List StoreEvent) : Prop :=
    h = [] ∧ result = .error .dioAlign ∨
    h = [.get request.keyId none] ∧
      (result = .error .keyNotFound ∨ result = .error .keyStateInvalid) ∨
    ∃ v tail, (∀ got, result = .ok got → got = v) ∧ h = .get request.keyId (some v) :: tail ∧
      (tail = [] ∨ tail = [.drop request.keyId] ∨ tail = [.restore request.keyId])
  /-- A `RemoveData` that removed the entry itself. -/
  RemoveDataDone (keyId : UInt64) (result : Except SwapfsErr Unit) (h : List StoreEvent) : Prop :=
    h = .hide keyId :: if result.isOk then [.drop keyId] else [.restore keyId]
  /-- A `RemoveAllData` that is through: it succeeds if it dropped all that was shown. -/
  RemoveAllDone (result : Except SwapfsErr Unit) (h : List StoreEvent) : Prop :=
    ∃ removed : List (SwapKeyEntry × Bool),
      (result = .ok () ↔ ∀ r ∈ removed, r.2 = true) ∧
      h = removeAllEvents removed [] ++
        (removed.filter fun r => !r.2).map fun r => .restore r.1.keyId

end FileApi.Swapfs
