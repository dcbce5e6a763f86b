import RecordService.Proofs.Http.Identity
import RecordService.Proofs.Record.Acceptance
import RecordService.Proofs.Store.Revision

/-!
# What a service keeps in its store

Over the service, records are only ever made from the texts of documents. So what clients have chosen
of a stored row was read from a text, by the kind of its attribute, and under a name that is a path;
and it passed the check for required values. This holds in every state that requests lead to, with
uploads going on between them (`RecordService.Http.Service.kept_reach`).

* `RecordService.RecordType.Told`: values that clients can have given by texts.
* `RecordService.Http.Event`, `RecordService.Http.Service.reach`: what happens to a service, and what
  it leads to.
* `RecordService.Http.Service.keeps_respond`: what a request may do to the store.
-/

namespace RecordService

open Memory

/-! ### Values from texts -/

/-- Whether the values that clients choose can have come from texts, and none is missing that has to
be there. -/
structure RecordType.Told (t : RecordType) (values : List Value) : Prop where
  given : ∀ i a v, t.Chosen i a → values[i]? = some v →
    v = .null ∨ Path.isSegment a.name ∧ v.Readable a.kind
  complete : t.Complete values

section

variable {d : Schema.Document} {reg : Registry} {t : RecordType} {ts : Texts} {record : Record}

/-- Only the values that clients choose matter, so an update or an upload that leaves these may
change the others. -/
theorem RecordType.Told.congr {values other : List Value} (hsame : t.SameChoice values other)
    (h : t.Told values) : t.Told other := by
  refine ⟨fun i a v ha hv => ?_, h.complete.congr hsame⟩
  rw [hsame i a ha] at hv
  exact h.given i a v ha hv

/-- A value of a record from texts that is not `null` was given under the name of its attribute. A
name that is no path of one segment leads to no attribute, so a value under such a name could not
have come in. -/
theorem Record.given_of_ofTexts (h : ofTexts t ts = .ok record) {i : Nat} {a : Attribute} {v : Value}
    (ha : t.attributes[i]? = some a) (hv : record.values[i]? = some v) :
    v = .null ∨ Path.isSegment a.name ∧ v.Readable a.kind := by
  by_cases hnamed : ∃ n s b, (n, s) ∈ ts.entries ∧ t.Names n i b
  · obtain ⟨n, s, b, hmem, hb⟩ := hnamed
    obtain ⟨j, c, w, hc, hw, hvalue⟩ := (taken_of_ofTexts h).2 n s hmem
    obtain ⟨rfl, rfl⟩ := hb.unique hc
    obtain rfl : a = b := Option.some.inj (ha.symm.trans hb.2.2)
    obtain rfl : v = w := Option.some.inj (hv.symm.trans hvalue)
    cases hw with
    | cleared => exact .inl rfl
    | read _ hread => exact .inr ⟨hb.name_eq ▸ hb.1, Value.readable_of_coerce hread⟩
  · have hnull := null_of_ofTexts h (List.getElem?_eq_some_iff.mp ha).1
      fun n s b hmem hb => hnamed ⟨n, s, b, hmem, hb⟩
    exact .inl (Option.some.inj (hv.symm.trans hnull))

/-- A record from texts that passes the check has been told by its texts. This is the only way in
which the service makes records that it saves. -/
theorem Record.told_of_ofTexts (hd : Registry.ofDocument d = .ok reg) (ht : t ∈ reg.types)
    (h : ofTexts t ts = .ok record) (hrequired : Records.checkRequired record = .ok ()) :
    record.type.Told record.values := by
  obtain ⟨rfl, -⟩ := fits_of_ofTexts h
  exact ⟨fun i a v ha hv => given_of_ofTexts h ha.getElem? hv,
    Records.complete_of_checkRequired hd ht hrequired⟩

end

namespace Http

/-! ### Operations -/

namespace Entities

variable {d : Schema.Document} {reg : Registry}

/-- The record that is loaded has the type of a registry, as its address was resolved there. -/
theorem type_of_load {a : Address} {m : Memory} {record : Record}
    (h : ((load (m := StateM Memory) reg a).run.run m).1 = .ok record) :
    record.type ∈ reg.types := by
  unfold load at h
  rcases (readsOnly_liftM (reg.resolve a.entity)).run_bind _ m with ⟨e, -, hrun⟩ | ⟨t, ht, hrun⟩
  · cases (congrArg Prod.fst hrun).symm.trans h
  rw [hrun] at h
  rcases (readsOnly_liftM a.requireId).run_bind _ m with ⟨e, -, hrun⟩ | ⟨id, -, hrun⟩
  · cases (congrArg Prod.fst hrun).symm.trans h
  rw [hrun, run_bind_of_ok (Records.run_findById t id m)] at h
  cases hrow : m.row? t id with
  | none =>
    rw [Memory.get, hrow] at h
    cases h
  | some row =>
    rw [Memory.get, hrow] at h
    obtain rfl := Except.ok.inj h
    exact (Registry.resolve_eq_ok ht).1

/-- Saving texts is the step that brings in new values: they were read from texts, and checked. -/
theorem revises_saveTexts (hd : Registry.ofDocument d = .ok reg) (entity : String) (status : Nat)
    (ts : Texts) : Revises RecordType.Told reg (saveTexts reg entity status ts) := by
  refine .check fun t ht => .check fun record hrecord => ?_
  have ht := (Registry.resolve_eq_ok ht).1
  refine (revises_save ?_ (Record.told_of_ofTexts hd ht hrecord)).bind_pure _
  rwa [(Record.fits_of_ofTexts hrecord).1]

/-- A new record is one that was made from texts. -/
theorem revises_create (hd : Registry.ofDocument d = .ok reg) (a : Address) (body : Json) :
    Revises RecordType.Told reg (create (m := StateM Memory) reg a body) :=
  .check fun _ _ => .check fun _ _ => revises_saveTexts hd a.entity 201 _

/-- A record that takes the place of a stored one comes from the texts of its document, with the
identity of the address among them. -/
theorem revises_update (hd : Registry.ofDocument d = .ok reg) (a : Address) (body : Json) :
    Revises RecordType.Told reg (update (m := StateM Memory) reg a body) :=
  .check fun id _ => .check fun ts _ => revises_saveTexts hd a.entity 200 (ts.withIdentity id)

/-- A removal brings in nothing. -/
theorem revises_remove (a : Address) :
    Revises RecordType.Told reg (remove (m := StateM Memory) reg a) :=
  .check fun id _ => .check fun _ ht =>
    (Memory.revises_remove (Registry.resolve_eq_ok ht).1 id).bind_pure _

/-- An upload changes the content and the length of a blob, which clients do not choose by texts. -/
theorem revises_uploadContent (a : Address) (property boundary : String) (body : Bytes) :
    Revises RecordType.Told reg
      (uploadContent (m := StateM Memory) reg a property boundary body) := by
  refine .check fun field _ => Revises.bind_pure (fun m => ?_) _
  rw [run_upload]
  refine ReadsOnly.bind_revises (readsOnly_load reg a) (fun record m' hload => ?_) m
  exact .check fun p _ => revises_upload (type_of_load hload) p field.feed

end Entities

namespace Service

variable {d : Schema.Document} {s : Service}

/-- Whether a response comes with at most one change of the store. -/
def Keeps (s : Service) (x : StateM Memory Response) : Prop :=
  ∀ m, Revision RecordType.Told s.registry m (x.run m).2

/-- What only reads keeps everything. -/
theorem keeps_of_readsOnly {x : StateM Memory Response} (hx : ReadsOnly x) : s.Keeps x := by
  intro m
  rw [hx m]
  exact .nothing

/-- An address that cannot be read is refused before the operation begins. -/
theorem keeps_atAddress {segment : String} {f : Address → ExceptT RequestError (StateM Memory) Response}
    (hf : ∀ a, Revises RecordType.Told s.registry (f a)) : s.Keeps (atAddress segment f) := by
  intro m
  unfold atAddress
  rw [run_answer]
  exact Revises.check (fun a _ => hf a) m

/-- A request whose body is no document is refused before the store is asked. -/
theorem keeps_withDocument {r : Request} {f : Json → StateM Memory Response}
    (hf : ∀ j, s.Keeps (f j)) : s.Keeps (withDocument r f) := by
  unfold withDocument
  cases r.json with
  | error status => exact keeps_of_readsOnly fun _ => rfl
  | ok j => exact hf j

/-- Requests to a set or a record, by their method: this is where records are created, updated and
removed. -/
theorem keeps_onSet (hd : Registry.ofDocument d = .ok s.registry) (t : Target) (raw : String)
    (r : Request) : s.Keeps (s.onSet (m := StateM Memory) t raw r) := by
  unfold onSet
  split
  · exact keeps_of_readsOnly fun _ => rfl
  · split
    · exact keeps_of_readsOnly fun _ => rfl
    · cases segment? raw with
      | none => exact keeps_of_readsOnly fun _ => rfl
      | some segment =>
        dsimp only
        split
        · exact keeps_withDocument fun j => keeps_atAddress fun a => Entities.revises_create hd a j
        · exact keeps_withDocument fun j => keeps_atAddress fun a => Entities.revises_update hd a j
        · exact keeps_atAddress Entities.revises_remove
        · exact keeps_atAddress fun a => (s.readsOnly_readSet _ a).revises

/-- Requests to something below a record write nothing at all. -/
theorem keeps_onProperty (t : Target) (raw rawProperty : String) (r : Request) :
    s.Keeps (s.onProperty (m := StateM Memory) t raw rawProperty r) := by
  unfold onProperty
  split
  · exact keeps_of_readsOnly fun _ => rfl
  · split
    · split
      · exact keeps_of_readsOnly fun _ => rfl
      · next property _ _ _ =>
        exact keeps_atAddress fun a => (s.readsOnly_readProperty _ property a).revises
    · exact keeps_of_readsOnly fun _ => rfl

/-- Requests to an action write content and nothing else. -/
theorem keeps_onAction (raw rawProperty rawAction : String) (r : Request) :
    s.Keeps (s.onAction (m := StateM Memory) raw rawProperty rawAction r) := by
  unfold onAction
  split
  · exact keeps_of_readsOnly fun _ => rfl
  · split
    · split
      · split
        · refine keeps_atAddress fun a => ?_
          unfold invokeAction
          split
          · exact Entities.revises_uploadContent a _ _ r.body
          · exact (readsOnly_throw _).revises
        · exact keeps_of_readsOnly fun _ => rfl
      · next property action _ _ _ _ =>
        exact keeps_atAddress fun a => (s.readsOnly_readAction property action a).revises
    · exact keeps_of_readsOnly fun _ => rfl

/-- **A request changes the store at most once**, and a record comes in only from texts. Both
together are what every state of the service is built from, one request at a time. -/
theorem keeps_respond (hd : Registry.ofDocument d = .ok s.registry) (r : Request) :
    s.Keeps (s.respond (m := StateM Memory) r) := by
  have hfully : s.Keeps (s.respondFully (m := StateM Memory) r) := by
    unfold respondFully
    cases Target.read? r.target with
    | none => exact keeps_of_readsOnly fun _ => rfl
    | some t =>
      dsimp only
      cases Route.ofSegments? t.segments with
      | none => exact keeps_of_readsOnly fun _ => rfl
      | some route =>
        cases route with
        | health => exact keeps_of_readsOnly fun _ => rfl
        | version => exact keeps_of_readsOnly fun _ => rfl
        | set segment => exact keeps_onSet hd t segment r
        | property segment property => exact keeps_onProperty t segment property r
        | action segment property action => exact keeps_onAction segment property action r
  exact fun m => hfully m

end Service

/-! ### States of a service -/

/-- Something that happens to a service. -/
inductive Event where
  /-- A request is responded to. -/
  | request (r : Request)
  /-- A call of a transfer, of which several may be going on at once. -/
  | transfer (c : Call)

/-- Whether the transfers are about the record types of a registry. -/
def Event.UsesTypesOf (r : Registry) : Event → Prop
  | request _ => True
  | transfer c => c.isTransfer ∧ c.UsesTypesOf r

namespace Service

/-- What an event does to the store and to what is open on it. -/
def handle (s : Service) (w : World) : Event → World
  | .request r => { w with memory := ((s.respond (m := StateM Memory) r).run w.memory).2 }
  | .transfer c => w.step c

/-- What events lead to, from the empty store. -/
def reach (s : Service) (events : List Event) : World := events.foldl s.handle {}

/-- **What a service keeps.** Rows are consistent, what clients chose of them came from texts, and open
sinks lead to binary attributes. -/
structure Kept (s : Service) (w : World) : Prop where
  consistent : ∃ n, w.memory.Consistent s.registry n
  told : ∀ t ∈ s.registry.types, ∀ id row, w.memory.row? t id = some row → t.Told row.values
  sinks : ∀ sink, some sink ∈ w.sinks → sink.Placed s.registry

variable {d : Schema.Document} {s : Service} {w : World}

/-- One event keeps what is known about the store: a request by
`RecordService.Http.Service.keeps_respond`, and a call of an upload that goes on behind the requests
because it can only change content. -/
theorem Kept.handle (h : s.Kept w) (hd : Registry.ofDocument d = .ok s.registry) {e : Event}
    (he : e.UsesTypesOf s.registry) : s.Kept (s.handle w e) := by
  have hr := Registry.resolved_of_ofDocument hd
  obtain ⟨n, hconsistent⟩ := h.consistent
  have hworld : w.Invariant s.registry n := ⟨hconsistent, h.sinks⟩
  have hP (t : RecordType) (values other : List Value) (hsame : t.SameChoice values other)
      (ht : t.Told values) : t.Told other := ht.congr hsame
  cases e with
  | request r =>
    have hrevision := keeps_respond hd r w.memory
    exact ⟨hrevision.consistent hr h.consistent, hrevision.rows hr h.consistent hP h.told, h.sinks⟩
  | transfer c =>
    have hrevision : Revision RecordType.Told s.registry w.memory (w.step c).memory :=
      revision_transfer hworld he.1
    exact ⟨hrevision.consistent hr h.consistent, hrevision.rows hr h.consistent hP h.told,
      (hworld.step hr he.2).sinks⟩

/-- The states of a service, by induction from the first event. The induction starts in any state
that is kept, so that a part of a run can be taken for itself. -/
theorem Kept.foldl (h : s.Kept w) (hd : Registry.ofDocument d = .ok s.registry)
    {events : List Event} (hevents : ∀ e ∈ events, e.UsesTypesOf s.registry) :
    s.Kept (events.foldl s.handle w) := by
  induction events generalizing w with
  | nil => exact h
  | cons e events ih =>
    obtain ⟨he, hevents⟩ := List.forall_mem_cons.mp hevents
    exact ih (h.handle hd he) hevents

/-- **What a service keeps in its store**: in every state that events lead to, the rows were told by
texts and passed the check for required values. -/
theorem kept_reach (hd : Registry.ofDocument d = .ok s.registry) {events : List Event}
    (hevents : ∀ e ∈ events, e.UsesTypesOf s.registry) : s.Kept (s.reach events) := by
  refine Kept.foldl ⟨⟨0, consistent_empty _ 0⟩, ?_, by simp⟩ hd hevents
  intro t _ id row hrow
  cases hrow

end Service

end Http

end RecordService
