import RecordService.Proofs.Http.Effect
import RecordService.Proofs.Store.History
import RecordService.Proofs.Store.Transfer

/-!
# Uploads in two parties

An upload is carried out by two parties at once. The pump passes on the chunks of the field as they
arrive, and the copy takes them and stores them. Between them is a queue of a few places: the pump
waits while it is full, and the copy waits while it is empty. The queue is closed when the pump is
done. What is behind the last item of a closed queue is the end of the content for the copy. The
copy may fail or break down at any moment, and then the pump finds nobody to pass anything on to. In
between, other clients go on using the store.

* `RecordService.Http.Relay.State`: the two parties, the queue and the store.
* `RecordService.Http.Relay.State.step`: one turn of one of the parties, or of another client.
* `RecordService.Http.Relay.State.answer?`: what the client is told when both parties are done.
* `RecordService.Http.Relay.Moves`: everything that a turn can do.
-/

namespace RecordService.Http.Relay

open Memory

/-! ### The parties -/

/-- The most items in the queue. -/
def depth : Nat := 4

/-- What is to be stored: the content of a property of a record. -/
structure Job where
  registry : Registry
  address : Address
  property : String

/-- The party that passes on a field. -/
inductive Pump where
  /-- The rest of the field is still to come. -/
  | sending (rest : Multipart.Field)
  | finished (received : Except RequestError Unit)
  /-- The request was given up, and nobody waits for an answer. -/
  | abandoned

/-- The party that stores what is passed on. -/
inductive Copy where
  | starting
  | opening (r : Record) (a : Attribute) (id : Int)
  /-- Of the bytes that were taken from the queue last, some are still to be written. -/
  | reading (sink : MemorySink) (total : Nat) (current : Bytes)
  | committing (sink : MemorySink)
  | finished (stored : Except RequestError Nat)
  /-- The copy did not come to an end of its own. -/
  | died (text : String)

/-- Whether the copy takes nothing any more. -/
def Copy.isFinished : Copy → Bool
  | finished _ => true
  | died _ => true
  | _ => false

/-- Whether the queue is closed. -/
def Pump.isSending : Pump → Bool
  | sending _ => true
  | _ => false

/-- The two parties, what is on its way between them, and the store with its other clients. -/
structure State where
  pump : Pump
  queue : Feed := []
  copy : Copy := .starting
  world : World

/-- Whose turn it is. -/
inductive Turn where
  | pump
  | copy
  /-- The copy fails for a reason of its own. -/
  | fail (e : RequestError)
  /-- The copy breaks down. -/
  | die (text : String)
  /-- The request is given up. -/
  | abandon
  /-- Another client makes a call. -/
  | other (c : Call)

/-- Whether a turn is one of the upload, and not of another client. -/
def Turn.Own : Turn → Prop
  | other _ => False
  | _ => True

/-- Whether the record types of the calls of a turn are those of a registry. -/
def Turn.UsesTypesOf (r : Registry) : Turn → Prop
  | other c => c.UsesTypesOf r
  | _ => True

namespace State

variable (s : State)

/-- The pump passes on the next chunk, or what broke the field off, as soon as there is room. If
nobody takes it, the pump is done. -/
def pumpTurn : State :=
  match s.pump with
  | .sending ⟨chunk :: chunks, broken⟩ =>
    if s.copy.isFinished then { s with pump := .finished (.ok ()) }
    else if s.queue.length < depth then
      { s with pump := .sending ⟨chunks, broken⟩, queue := s.queue ++ [.bytes chunk] }
    else s
  | .sending ⟨[], some text⟩ =>
    let received := Multipart.Field.received ⟨[], some text⟩
    if s.copy.isFinished then { s with pump := .finished received }
    else if s.queue.length < depth then
      { s with pump := .finished received, queue := s.queue ++ [.broken text] }
    else s
  | .sending ⟨[], none⟩ => { s with pump := .finished (.ok ()) }
  | .finished _ => s
  | .abandoned => s

/-- The copy runs an operation of the store, and fails if that fails. -/
def attempt {α : Type} (x : ExceptT RequestError (StateM Memory) α) (next : α → Copy) : State :=
  match x.run.run s.world.memory with
  | (.ok a, m) => { s with copy := next a, world := { s.world with memory := m } }
  | (.error e, m) =>
    { s with copy := .finished (.error e), world := { s.world with memory := m } }

/-- The copy takes the next item of the queue. It waits for one, unless the queue is closed. -/
def takeTurn (sink : MemorySink) (total : Nat) : State :=
  match s.queue with
  | .bytes b :: queue => { s with queue := queue, copy := .reading sink total b }
  | .interrupted :: queue => { s with queue := queue }
  | .broken text :: queue =>
    { s with queue := queue, copy := .finished (.error (Content.brokenSource text)) }
  | [] => if s.pump.isSending then s else { s with copy := .committing sink }

end State

/-- The stored record and its binary attribute that the content is for. -/
def Job.find (j : Job) : ExceptT RequestError (StateM Memory) (Record × Attribute × Int) := do
  let r ← Entities.load j.registry j.address
  let p ← Path.resolve r.type j.property
  let (a, id) ← Content.requireBlob r p
  return (r, a, id)

namespace State

/-- The copy finds the record, opens a sink, writes what it takes in chunks, and commits at the end.
-/
def copyTurn (j : Job) (s : State) : State :=
  match s.copy with
  | .starting => s.attempt j.find fun (r, a, id) => .opening r a id
  | .opening r a id =>
    s.attempt (Records.store (RecordStore.openSink (m := StateM Memory) r.type id a.name))
      fun sink => .reading sink 0 []
  | .reading sink total [] => s.takeTurn sink total
  | .reading sink total (b :: bs) =>
    let chunk := (b :: bs).take Feed.chunkSize
    s.attempt (Records.store (RecordStore.write (m := StateM Memory) sink chunk))
      fun sink => .reading sink (total + chunk.length) ((b :: bs).drop Feed.chunkSize)
  | .committing sink =>
    s.attempt (Records.store (RecordStore.commit (m := StateM Memory) sink))
      fun size => .finished (.ok size)
  | .finished _ => s
  | .died _ => s

/-- What a turn does. -/
def step (j : Job) (s : State) : Turn → State
  | .pump => s.pumpTurn
  | .copy => s.copyTurn j
  | .fail e => if s.copy.isFinished then s else { s with copy := .finished (.error e) }
  | .die text => if s.copy.isFinished then s else { s with copy := .died text }
  | .abandon => { s with pump := .abandoned }
  | .other c => { s with world := s.world.step c }

/-- What a list of turns leads to. -/
def run (j : Job) (s : State) (turns : List Turn) : State := turns.foldl (step j) s

/-- The state in which the field begins to arrive. -/
def start (field : Multipart.Field) (w : World) : State := { pump := .sending field, world := w }

/-- How the upload went, when both parties are done. That the copy broke down counts first, and then
that the field did not arrive whole. -/
def result? (s : State) : Option (Except RequestError Nat) :=
  match s.pump, s.copy with
  | .finished received, .finished stored => some (received.bind fun _ => stored)
  | .finished _, .died text => some (.error (.ofStorage (.runtime text)))
  | _, _ => none

/-- What the client is told. -/
def answer? (s : State) : Option Response :=
  s.result?.map fun
    | .ok length => .data 201 (.object [("length", .ofInt length)])
    | .error e => .ofError e

end State

/-! ### Turns -/

/-- **Everything that a turn can do.** -/
inductive Moves (j : Job) (s : State) : Turn → State → Prop
  /-- There is nothing to be done, or not yet. -/
  | wait (t : Turn) (own : t.Own) : Moves j s t s
  | send {chunk : Bytes} {chunks : List Bytes} {broken : Option String}
      (pump : s.pump = .sending ⟨chunk :: chunks, broken⟩) :
      Moves j s .pump
        { s with pump := .sending ⟨chunks, broken⟩, queue := s.queue ++ [.bytes chunk] }
  | sendBroken {text : String} (pump : s.pump = .sending ⟨[], some text⟩) :
      Moves j s .pump { s with
        pump := .finished (Multipart.Field.received ⟨[], some text⟩)
        queue := s.queue ++ [.broken text] }
  /-- The field is at its end, or nobody takes the rest of it. -/
  | finish {rest : Multipart.Field} {received : Except RequestError Unit}
      (pump : s.pump = .sending rest) (ended : rest.feed = [] ∨ s.copy.isFinished)
      (fares : received = .ok () ∨ received = rest.received) :
      Moves j s .pump { s with pump := .finished received }
  | find {r : Record} {a : Attribute} {id : Int} (copy : s.copy = .starting)
      (found : (j.find.run.run s.world.memory).1 = .ok (r, a, id)) :
      Moves j s .copy { s with copy := .opening r a id }
  | openSink {r : Record} {a : Attribute} {id : Int} {sink : MemorySink}
      (copy : s.copy = .opening r a id)
      (opened : s.world.memory.openSink r.type id a.name = .ok sink) :
      Moves j s .copy { s with copy := .reading sink 0 [] }
  | take {sink : MemorySink} {total : Nat} {b : Bytes} {queue : Feed}
      (copy : s.copy = .reading sink total []) (items : s.queue = .bytes b :: queue) :
      Moves j s .copy { s with queue := queue, copy := .reading sink total b }
  | skip {sink : MemorySink} {total : Nat} {queue : Feed}
      (copy : s.copy = .reading sink total []) (items : s.queue = .interrupted :: queue) :
      Moves j s .copy { s with queue := queue }
  | write {sink : MemorySink} {total size : Nat} {current : Bytes}
      (copy : s.copy = .reading sink total current) (some : current ≠ []) :
      Moves j s .copy { s with
        copy := .reading (sink.write (current.take Feed.chunkSize)) size
          (current.drop Feed.chunkSize) }
  | close {sink : MemorySink} {total : Nat} (copy : s.copy = .reading sink total [])
      (items : s.queue = []) (pump : s.pump.isSending = false) :
      Moves j s .copy { s with copy := .committing sink }
  | commit {sink : MemorySink} {size : Nat} {m : Memory} (copy : s.copy = .committing sink)
      (committed : s.world.memory.commit sink = .ok (size, m)) :
      Moves j s .copy
        { s with copy := .finished (.ok size), world := { s.world with memory := m } }
  | fail (t : Turn) (own : t.Own) (e : RequestError) {queue : Feed} (left : queue <:+ s.queue)
      (copy : s.copy.isFinished = false) :
      Moves j s t { s with copy := .finished (.error e), queue := queue }
  | die {text : String} (copy : s.copy.isFinished = false) :
      Moves j s (.die text) { s with copy := .died text }
  | abandon : Moves j s .abandon { s with pump := .abandoned }
  | other (c : Call) : Moves j s (.other c) { s with world := s.world.step c }

section

variable {j : Job} {s : State}

/-- Looking for the record and the attribute writes nothing. -/
theorem readsOnly_find (j : Job) : ReadsOnly j.find.run :=
  (Entities.readsOnly_load j.registry j.address).bind fun _ => .check fun _ => .check fun _ =>
    readsOnly_pure _

/-- The copy goes on behind an operation that only reads, or fails. In both cases the store stays as
it is. -/
theorem attempt_of_readsOnly {α : Type} {x : ExceptT RequestError (StateM Memory) α}
    (hx : ReadsOnly x.run) (next : α → Copy) :
    (∃ e, s.attempt x next = { s with copy := .finished (.error e) }) ∨
      ∃ a, (x.run.run s.world.memory).1 = .ok a ∧ s.attempt x next = { s with copy := next a } := by
  have hm := hx s.world.memory
  unfold State.attempt
  rcases h : x.run.run s.world.memory with ⟨e | a, m⟩
  · rw [h] at hm
    obtain rfl : m = s.world.memory := hm
    exact .inl ⟨e, rfl⟩
  · rw [h] at hm
    obtain rfl : m = s.world.memory := hm
    exact .inr ⟨a, rfl, rfl⟩

/-- A turn of the pump is one of the moves listed above. This and the next two lemmas are the only
ones that look into the definition of a turn; whatever is said about runs is said by cases over the
moves. -/
theorem moves_pumpTurn (j : Job) (s : State) : Moves j s .pump s.pumpTurn := by
  unfold State.pumpTurn
  split
  · next chunk chunks broken hpump =>
    split
    · next hfinished => exact .finish hpump (.inr hfinished) (.inl rfl)
    · split
      · exact .send hpump
      · exact .wait _ trivial
  · next text hpump =>
    dsimp only
    split
    · next hfinished => exact .finish hpump (.inr hfinished) (.inr rfl)
    · split
      · exact .sendBroken hpump
      · exact .wait _ trivial
  · next hpump => exact .finish hpump (.inl rfl) (.inl rfl)
  · exact .wait _ trivial
  · exact .wait _ trivial

/-- Taking an item is a move: of a chunk, of an interruption or of a break, or of nothing when the
queue is empty, which is the end of the content once the queue is closed. -/
theorem moves_takeTurn {sink : MemorySink} {total : Nat} (hcopy : s.copy = .reading sink total []) :
    Moves j s .copy (s.takeTurn sink total) := by
  have hfinished : s.copy.isFinished = false := by rw [hcopy]; rfl
  unfold State.takeTurn
  split
  · next hitems => exact .take hcopy hitems
  · next hitems => exact .skip hcopy hitems
  · next hitems => exact .fail .copy trivial _ (hitems ▸ List.suffix_cons _ _) hfinished
  · next hitems =>
    split
    · exact .wait _ trivial
    · next hclosed => exact .close hcopy hitems (Bool.eq_false_iff.mpr hclosed)

/-- A turn of the copy is a move, by the phase that the copy is in: it finds the record, opens a
sink, writes a piece of what it has taken, takes the next item, or commits. Nothing happens to a
copy that is done. -/
theorem moves_copyTurn (j : Job) (s : State) : Moves j s .copy (s.copyTurn j) := by
  have hfinished {c : Copy} (hcopy : s.copy = c) (hc : c.isFinished = false) :
      s.copy.isFinished = false := by rw [hcopy, hc]
  unfold State.copyTurn
  split
  · next hcopy =>
    rcases attempt_of_readsOnly (readsOnly_find j) _ with ⟨e, h⟩ | ⟨⟨r, a, id⟩, hfound, h⟩
    · rw [h]
      exact .fail .copy trivial e List.suffix_rfl (hfinished hcopy rfl)
    · rw [h]
      exact .find hcopy hfound
  · next r a id hcopy =>
    have hopen := (readsOnly_inspect fun m => m.openSink r.type id a.name).store
    rcases attempt_of_readsOnly hopen _ with ⟨e, h⟩ | ⟨sink, hopened, h⟩
    · exact h ▸ .fail .copy trivial e List.suffix_rfl (hfinished hcopy rfl)
    · exact h ▸ .openSink hcopy (Outcome.mapError_eq_ok_iff.mp hopened)
  · next hcopy => exact moves_takeTurn hcopy
  · next sink total b bs hcopy => exact .write hcopy (by simp)
  · next sink hcopy =>
    have hcommit : (Records.store (RecordStore.commit (m := StateM Memory) sink)).run.run
        s.world.memory =
      (Records.store (change fun m => m.commit sink)).run.run s.world.memory := rfl
    unfold State.attempt
    rw [hcommit]
    rcases run_store_change (fun m => m.commit sink) s.world.memory with
      ⟨e, h⟩ | ⟨size, m, hm, h⟩
    · rw [h]
      exact .fail .copy trivial e List.suffix_rfl (hfinished hcopy rfl)
    · rw [h]
      exact .commit hcopy hm
  · exact .wait _ trivial
  · exact .wait _ trivial

/-- A turn moves the upload, and so does a call of another client. -/
theorem moves_step (j : Job) (s : State) (t : Turn) : Moves j s t (s.step j t) := by
  cases t with
  | pump => exact moves_pumpTurn j s
  | copy => exact moves_copyTurn j s
  | fail e =>
    change Moves j s (.fail e) (if s.copy.isFinished then s else _)
    split
    · exact .wait (.fail e) trivial
    · next hcopy => exact .fail (.fail e) trivial e List.suffix_rfl (Bool.eq_false_iff.mpr hcopy)
  | die text =>
    change Moves j s (.die text) (if s.copy.isFinished then s else _)
    split
    · exact .wait (.die text) trivial
    · next hcopy => exact .die (Bool.eq_false_iff.mpr hcopy)
  | abandon => exact .abandon
  | other c => exact .other c

end

/-! ### Finding the record -/

/-- Loading a record from the store in memory, as a computation that does not change it. -/
theorem run_load (reg : Registry) (a : Address) (m : Memory) :
    (Entities.load (m := StateM Memory) reg a).run.run m = (do
      let t ← reg.resolve a.entity
      let id ← a.requireId
      match m.get t id with
      | some r => Except.ok r
      | none => .error (.noRecord a.entity id), m) := by
  refine run_check fun t _ => run_check fun id _ => ?_
  refine (run_bind_of_ok (Records.run_findById t id m) _).trans ?_
  cases m.get t id <;> rfl

/-- A record that is loaded is the stored one at the address. -/
theorem load_eq_ok {reg : Registry} {a : Address} {m : Memory} {r : Record}
    (h : ((Entities.load (m := StateM Memory) reg a).run.run m).1 = .ok r) :
    ∃ t id, reg.resolve a.entity = .ok t ∧ a.id = some id ∧ m.get t id = some r := by
  rw [run_load] at h
  obtain ⟨t, ht, h⟩ := Outcome.bind_eq_ok_iff.mp h
  obtain ⟨id, hid, h⟩ := Outcome.bind_eq_ok_iff.mp h
  have hid : a.id = some id := by
    unfold Address.requireId at hid
    split at hid
    · next hsome => rw [hsome, Except.ok.inj hid]
    · simp at hid
  split at h
  · next hget => exact ⟨t, id, ht, hid, hget.trans (congrArg some (Except.ok.inj h))⟩
  · simp at h

/-- **What the copy finds** is the record at the address, and the binary attribute that the property
names. That the address has an identity is known from then on, so opening the sink needs no further
check. -/
theorem find_eq_ok {j : Job} {n : Nat} {m : Memory} (hm : m.Consistent j.registry n)
    (hr : j.registry.Resolved) {r : Record} {a : Attribute} {id : Int}
    (h : (j.find.run.run m).1 = .ok (r, a, id)) :
    j.registry.resolve j.address.entity = .ok r.type ∧ j.address.id = some id ∧
      a.name = j.property := by
  have hchecks (x : Record) :
      (do
        let p ← Path.resolve x.type j.property
        let (a, id) ← Content.requireBlob x p
        return (x, a, id) :
          ExceptT RequestError (StateM Memory) (Record × Attribute × Int)).run.run m =
        ((Path.resolve x.type j.property).bind fun p =>
          (Content.requireBlob x p).bind fun (a, id) => .ok (x, a, id), m) :=
    run_check fun p _ => run_check fun _ _ => rfl
  unfold Job.find at h
  rcases (Entities.readsOnly_load j.registry j.address).run_bind _ m with
    ⟨e, -, hrun⟩ | ⟨x, hx, hrun⟩
  · rw [hrun] at h
    simp at h
  rw [hrun, hchecks] at h
  obtain ⟨p, hp, h⟩ := Outcome.bind_eq_ok_iff.mp h
  obtain ⟨⟨b, k⟩, hblob, h⟩ := Outcome.bind_eq_ok_iff.mp h
  cases h
  obtain ⟨t, stored, ht, hstored, hget⟩ := load_eq_ok hx
  obtain ⟨-, -, -, c, hc, hname, -⟩ := Path.resolve_eq_ok hp
  obtain ⟨-, hattribute, -, hid⟩ := Content.requireBlob_eq_ok_iff.mp hblob
  obtain ⟨-, -, -, htype, -⟩ := row_of_get hm hr (Registry.resolve_eq_ok ht).1 hget
  have hstoredId := id_of_get hm hr (Registry.resolve_eq_ok ht).1 hget
  rw [hattribute] at hc
  refine ⟨htype ▸ ht, ?_, Option.some.inj hc ▸ hname⟩
  rw [hstored, ← hstoredId, hid]

end RecordService.Http.Relay
