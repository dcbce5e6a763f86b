import Mathlib.Control.Monad.Basic
import RecordService.Http.Service
import RecordService.Proofs.Store.Effect

/-!
# What requests do to the store in memory

A request that fails, and one that only reads, leaves the store as it was, and any other request
changes it exactly once. The service looks at the path and the document of a request before it turns
to the store, and responds with what the store answers, so this goes from the operations on records
and content up to the response to a request.

* `RecordService.Http.changesOnce_upload`: both sides of an upload together.
* `RecordService.Http.Request.Permits`: what a request may do to the store.
* `RecordService.Http.Service.permits_respond`: the response to a request does no more than that.
* `RecordService.Operation`: everything that clients may ask for.
* `RecordService.Memory.unchanged_or_changed_once`: what they do to the store.
-/

namespace RecordService

open Memory

variable {ε α β : Type}

/-! ### Checks in front of an operation -/

section

variable {e : Except ε α} {f : α → ExceptT ε (StateM Memory) β}

/-- A check in front of an operation does not touch the store, so what only reads behind it still
does. -/
theorem Memory.ReadsOnly.check (hf : ∀ a, ReadsOnly (f a).run) :
    ReadsOnly ((liftM e : ExceptT ε (StateM Memory) α) >>= f).run :=
  (readsOnly_liftM e).bind hf

/-- A check does not use up the one change of the operation behind it: if it fails, nothing has
happened yet. -/
theorem Memory.ChangesOnce.check {done : β → Prop} (hf : ∀ a, ChangesOnce done (f a)) :
    ChangesOnce done ((liftM e : ExceptT ε (StateM Memory) α) >>= f) :=
  (readsOnly_liftM e).bind_changesOnce hf

/-- An operation that does not change the state behind a check: its outcome is that of the check and
then of a pure computation, which is how the reading operations are evaluated. -/
theorem Memory.run_check {g : α → Except ε β} {m : Memory}
    (h : ∀ a, e = .ok a → (f a).run.run m = (g a, m)) :
    ((liftM e : ExceptT ε (StateM Memory) α) >>= f).run.run m = (e.bind g, m) := by
  cases he : e with
  | error fault => rfl
  | ok a => exact (run_bind_of_ok (run_liftM_ok rfl) f).trans (h a he)

end

namespace Http

/-- Whether a response reports a success. -/
def Response.Successful (r : Response) : Prop := r.status < 400

/-- Whether a request only reads. -/
def Request.Reads (r : Request) : Prop := r.method = .get ∨ r.method = .head

/-- What a request permits to do to the store: nothing if it only reads, and otherwise one change if
the response reports a success, and nothing if it does not. -/
structure Request.Permits (r : Request) (x : StateM Memory Response) : Prop where
  reads : r.Reads → ReadsOnly x
  fails : ∀ m, ¬(x.run m).1.Successful → (x.run m).2 = m
  succeeds : ¬r.Reads → ∀ m, (x.run m).1.Successful → m.Change (x.run m).2

/-- What never changes the store is permitted to a request that only reads, whether it succeeds or
not. -/
theorem permits_of_reads {x : StateM Memory Response} {r : Request} (hr : r.Reads)
    (hx : ReadsOnly x) : r.Permits x where
  reads _ := hx
  fails m _ := hx m
  succeeds h := absurd hr h

/-- The response to a failure never reports a success: every kind of error has a status of its own,
and none of them is below 400. So a client can tell from the status whether the store was changed.
-/
theorem Response.not_successful_ofError (e : RequestError) : ¬(Response.ofError e).Successful := by
  cases e <;> simp [Successful, ofError, json, errorStatus]

namespace Multipart.Field

variable {f : Multipart.Field} {text : String}

theorem received_of_whole (h : f.broken = none) : f.received = .ok () := by simp only [received, h]

/-- A field that breaks off is not received, and the message tells what broke it. -/
theorem received_of_broken (h : f.broken = some text) :
    f.received = .error (.badRequest ("upload interrupted: " ++ text)) := by
  simp only [received, h]

/-- The break is also a part of what the field feeds to the store, so the side that stores cannot
take the beginning of a broken field for all of it. -/
theorem broken_mem_feed (h : f.broken = some text) : .broken text ∈ f.feed := by simp [feed, h]

end Multipart.Field

/-- Both sides of an upload together: the store has done what it does with the feed, and the
response is that of the receiving side if this one has failed. -/
theorem run_upload (field : Multipart.Field)
    (store : Feed → ExceptT RequestError (StateM Memory) Nat) (m : Memory) :
    (upload field store).run.run m =
      (field.received.bind fun _ => ((store field.feed).run.run m).1,
        ((store field.feed).run.run m).2) := by
  unfold upload
  cases field.received <;> rfl

/-- An upload is a change of what stores, if that makes its change only when it succeeds, and does
not succeed on a feed that breaks. The second condition is what makes the two sides agree: without
it the store could have changed while the receiving side reports a failure. -/
theorem changesOnce_upload {store : Feed → ExceptT RequestError (StateM Memory) Nat}
    (hs : ∀ feed, ChangesOnce (fun _ => True) (store feed))
    (hb : ∀ feed text, .broken text ∈ feed → Fails (store feed)) (field : Multipart.Field) :
    ChangesOnce (fun _ => True) (upload field store) := by
  intro m
  rw [run_upload]
  cases hf : field.broken with
  | none =>
    rw [Multipart.Field.received_of_whole hf]
    exact hs field.feed m
  | some text =>
    -- What stores meets the break as well, however far it gets.
    have hfails := hb field.feed text (Multipart.Field.broken_mem_feed hf)
    rw [Multipart.Field.received_of_broken hf, hfails.readsOnly (hs field.feed) m]
    exact .inl ⟨_, rfl⟩

namespace Entities

variable (reg : Registry) (a : Address)

/-- Loading the record of an address looks up its type and its row, and writes neither. -/
theorem readsOnly_load : ReadsOnly (load (m := StateM Memory) reg a).run := by
  refine .check fun t => .check fun id => (Records.readsOnly_findById t id).bind fun r => ?_
  cases r with
  | none => exact readsOnly_throw _
  | some r => exact readsOnly_pure r

/-- A listing finds the records of a page, and counts them where that is asked for. -/
theorem readsOnly_list (o : ListOptions) : ReadsOnly (list (m := StateM Memory) reg a o).run := by
  refine .check fun t => .check fun filter => .check fun order => ?_
  have hfind (count : Option Nat) := (Records.readsOnly_find t o.top o.skip filter order).bind
    fun records => readsOnly_pure (ε := RequestError) (Response.json 200 (listData records count))
  dsimp only
  split
  · exact ((Records.readsOnly_count t filter).map some).bind hfind
  · exact (readsOnly_pure none).bind hfind

theorem readsOnly_read : ReadsOnly (read (m := StateM Memory) reg a).run :=
  (readsOnly_load reg a).bind fun _ => readsOnly_pure _

/-- Creating a record resolves its type and reads its texts before it saves, so that all these
failures come before the one change. -/
theorem changesOnce_create (body : Json) :
    ChangesOnce Response.Successful (create (m := StateM Memory) reg a body) := by
  refine .check fun _ => .check fun texts => .check fun t => .check fun r => ?_
  exact (Records.changesOnce_save r).bind_pure fun stored _ => show 201 < 400 by decide

/-- An update changes the store once, since it saves as well. -/
theorem changesOnce_update (body : Json) :
    ChangesOnce Response.Successful (update (m := StateM Memory) reg a body) := by
  refine .check fun id => .check fun texts => .check fun t => .check fun r => ?_
  exact (Records.changesOnce_save r).bind_pure fun stored _ => show 200 < 400 by decide

/-- A removal is the change that the store makes. -/
theorem changesOnce_remove :
    ChangesOnce Response.Successful (remove (m := StateM Memory) reg a) := by
  refine .check fun id => .check fun t => ?_
  exact (Records.changesOnce_remove t id).bind_pure fun _ _ => show 204 < 400 by decide

theorem readsOnly_count (filter : Option String) :
    ReadsOnly (count (m := StateM Memory) reg a filter).run := by
  refine .check fun t => .check fun filter => ?_
  exact (Records.readsOnly_count t filter).bind fun n => readsOnly_pure _

theorem readsOnly_clone : ReadsOnly (clone (m := StateM Memory) reg a).run := by
  refine .check fun t => .check fun id => (Records.readsOnly_duplicate t id).bind fun r => ?_
  cases r with
  | none => exact readsOnly_throw _
  | some r => exact readsOnly_pure _

theorem readsOnly_propertyText (property : String) :
    ReadsOnly (propertyText (m := StateM Memory) reg a property).run := by
  refine (readsOnly_load reg a).bind fun r => .check fun p => ?_
  dsimp only
  split
  · exact readsOnly_throw _
  · exact readsOnly_liftM (r.text p)

/-- Stores the content of a form field, which may arrive in any number of chunks and break off. -/
def receive (property : String) (field : Multipart.Field) :
    ExceptT RequestError (StateM Memory) Nat :=
  upload field fun feed => do
    let r ← load reg a
    Content.upload r (← Path.resolve r.type property) feed

/-- Receiving a file is an upload into the attribute that the property names, once the record is
found. -/
theorem changesOnce_receive (property : String) (field : Multipart.Field) :
    ChangesOnce (fun _ => True) (receive reg a property field) := by
  refine changesOnce_upload (fun feed => ?_) (fun feed text hbroken => ?_) field
  · refine (readsOnly_load reg a).bind_changesOnce fun r => .check fun p => ?_
    exact Content.changesOnce_upload r p feed
  · exact fails_bind fun r => fails_bind fun p => Content.fails_upload r p hbroken

/-- A form is read before its file field is stored, so a form that cannot be read changes nothing.
-/
theorem changesOnce_uploadContent (property boundary : String) (body : Bytes) :
    ChangesOnce Response.Successful
      (uploadContent (m := StateM Memory) reg a property boundary body) := by
  refine .check fun field => ?_
  exact (changesOnce_receive reg a property field).bind_pure
    fun length _ => show 201 < 400 by decide

theorem readsOnly_downloadContent (property : String) :
    ReadsOnly (downloadContent (m := StateM Memory) reg a property).run := by
  refine (readsOnly_load reg a).bind fun r => .check fun p => ?_
  refine (Content.readsOnly_download r p).bind fun found => ?_
  cases found with
  | none => exact readsOnly_pure _
  | some found => exact (readsOnly_inspect _).lift.bind fun content => readsOnly_pure _

end Entities

namespace Service

/-! ### Responses -/

variable (s : Service)

/-- **Answering** turns the outcome of an operation into a response and leaves the store to the
operation. Everything that is said about responses below goes through this equation. -/
theorem run_answer (x : ExceptT RequestError (StateM Memory) Response) (m : Memory) :
    (answer x).run m =
      (match (x.run.run m).1 with
        | .ok r => r
        | .error e => .ofError e, (x.run.run m).2) := by
  simp only [answer, StateT.run_bind]
  rcases x.run.run m with ⟨e | r, m'⟩ <;> rfl

/-- What only reads still does when its outcome is made a response. -/
theorem readsOnly_answer {x : ExceptT RequestError (StateM Memory) Response}
    (hx : ReadsOnly x.run) : ReadsOnly (answer x) := by
  intro m
  rw [run_answer]
  exact hx m

/-- An operation with one change is permitted to a request that does more than read: the response
reports a success exactly if the change was made, since failures never look like successes. -/
theorem permits_answer {x : ExceptT RequestError (StateM Memory) Response} {r : Request}
    (hr : ¬r.Reads) (hx : ChangesOnce Response.Successful x) : r.Permits (answer x) := by
  refine ⟨fun h => absurd h hr, ?_, ?_⟩
  · intro m hfailed
    rw [run_answer] at hfailed ⊢
    rcases hx m with ⟨e, h⟩ | ⟨response, m', h, hsuccessful, -⟩
    · rw [h]
    · rw [h] at hfailed
      exact absurd hsuccessful hfailed
  · intro _ m hsuccessful
    rw [run_answer] at hsuccessful ⊢
    rcases hx m with ⟨e, h⟩ | ⟨response, m', h, -, hm⟩
    · rw [h] at hsuccessful
      exact absurd hsuccessful (Response.not_successful_ofError e)
    · rw [h]
      exact hm

/-- A refusal does not look at the store, so it is permitted to any request. -/
theorem permits_refusal (r : Request) {response : Response} (h : ¬response.Successful) :
    r.Permits (pure response) where
  reads _ _ := rfl
  fails _ _ := rfl
  succeeds _ _ hsuccessful := absurd hsuccessful h

/-- This includes the refusals of the service itself, which have no body. -/
theorem permits_bare (r : Request) {status : Nat} (h : 400 ≤ status) :
    r.Permits (pure (.bare status)) := permits_refusal r (Nat.not_lt.mpr h)

/-- Reading a set or a record, whatever its parameters are and in whatever order they are visited.
-/
theorem readsOnly_readSet (parameters : List (String × String)) (a : Address) :
    ReadsOnly (s.readSet (m := StateM Memory) parameters a).run := by
  unfold readSet
  cases a.id with
  | none => exact .check fun o => Entities.readsOnly_list s.registry a o
  | some id => exact Entities.readsOnly_read s.registry a

/-- Reading what is below it: the number of records, a copy that is not saved, or a property. -/
theorem readsOnly_readProperty (parameters : List (String × String)) (property : String)
    (a : Address) :
    ReadsOnly (s.readProperty (m := StateM Memory) parameters property a).run := by
  unfold readProperty
  split
  · exact .check fun _ => .check fun filter => Entities.readsOnly_count s.registry a filter
  · split
    · exact Entities.readsOnly_clone s.registry a
    · split
      · exact readsOnly_throw _
      · exact (Entities.readsOnly_propertyText s.registry a property).bind fun _ => readsOnly_pure _

theorem readsOnly_readAction (property action : String) (a : Address) :
    ReadsOnly (s.readAction (m := StateM Memory) property action a).run := by
  unfold readAction
  split
  · exact (Entities.readsOnly_propertyText s.registry a property).bind fun _ => readsOnly_pure _
  · split
    · exact Entities.readsOnly_downloadContent s.registry a property
    · exact readsOnly_throw _

/-- An upload is the only action, and an unknown one fails before anything happens. -/
theorem changesOnce_invokeAction (property action boundary : String) (body : Bytes) (a : Address) :
    ChangesOnce Response.Successful
      (s.invokeAction (m := StateM Memory) property action boundary body a) := by
  unfold invokeAction
  split
  · exact Entities.changesOnce_uploadContent s.registry a property boundary body
  · exact changesOnce_throw _ _

/-! ### Responses to requests -/

/-- A request without a document is refused: its content type, its length or its text is wrong, and
all three have a status that reports a failure. -/
theorem le_status_of_json {r : Request} {status : Nat} (h : r.json = .error status) :
    400 ≤ status := by
  unfold Request.json at h
  split at h
  · cases h; decide
  · split at h
    · cases h; decide
    · cases hd : documentIn? r.body.textPart with
      | some j => simp [hd] at h
      | none =>
        simp only [hd, Except.error.injEq] at h
        exact Nat.le_of_eq h

/-- A request that needs a document may do what is done with the document, or nothing. -/
theorem permits_withDocument {r : Request} {f : Json → StateM Memory Response}
    (hf : ∀ j, r.Permits (f j)) : r.Permits (withDocument r f) := by
  unfold withDocument
  cases hj : r.json with
  | error status => exact permits_bare r (le_status_of_json hj)
  | ok j => exact hf j

/-- **A request to a set or a record** is dispatched by its method, and each method leads to an
operation that the request permits. -/
theorem permits_onSet (t : Target) (raw : String) (r : Request) :
    r.Permits (s.onSet (m := StateM Memory) t raw r) := by
  unfold onSet
  split
  · exact permits_bare r (by decide)
  · split
    · exact permits_bare r (by decide)
    · next hother =>
      cases segment? raw with
      | none => exact permits_bare r (by decide)
      | some segment =>
        rcases hr : r.method with _ | _ | _ | _ | _ | _
        case get =>
          refine permits_of_reads (.inl hr) (readsOnly_answer ?_)
          exact .check fun a => s.readsOnly_readSet _ a
        case head =>
          refine permits_of_reads (.inr hr) (readsOnly_answer ?_)
          exact .check fun a => s.readsOnly_readSet _ a
        case post =>
          refine permits_withDocument fun j => permits_answer (by simp [Request.Reads, hr]) ?_
          exact .check fun a => Entities.changesOnce_create s.registry a j
        case put =>
          refine permits_withDocument fun j => permits_answer (by simp [Request.Reads, hr]) ?_
          exact .check fun a => Entities.changesOnce_update s.registry a j
        case delete =>
          refine permits_answer (by simp [Request.Reads, hr]) ?_
          exact .check fun a => Entities.changesOnce_remove s.registry a
        case other => exact absurd hr hother

/-- **A request to something below a record** only reads, as all other methods are refused. -/
theorem permits_onProperty (t : Target) (raw rawProperty : String) (r : Request) :
    r.Permits (s.onProperty (m := StateM Memory) t raw rawProperty r) := by
  unfold onProperty
  split
  · exact permits_bare r (by decide)
  · next hmethod =>
    split
    · next segment property hsegment hproperty =>
      split
      · exact permits_refusal r (Response.not_successful_ofError _)
      · next hput =>
        have hr : r.Reads := by
          unfold Request.Reads
          cases h : r.method <;> simp_all
        refine permits_of_reads hr (readsOnly_answer ?_)
        exact .check fun a => s.readsOnly_readProperty _ property a
    · exact permits_bare r (by decide)

/-- **A request to an action** reads or uploads. -/
theorem permits_onAction (raw rawProperty rawAction : String) (r : Request) :
    r.Permits (s.onAction (m := StateM Memory) raw rawProperty rawAction r) := by
  unfold onAction
  split
  · exact permits_bare r (by decide)
  · next hmethod =>
    split
    · next segment property action hsegment hproperty haction =>
      split
      · next hpost =>
        split
        · next boundary hboundary =>
          refine permits_answer (by simp [Request.Reads, hpost]) ?_
          exact .check fun a => s.changesOnce_invokeAction property action boundary r.body a
        · exact permits_bare r (by decide)
      · next hpost =>
        have hr : r.Reads := by
          unfold Request.Reads
          cases h : r.method <;> simp_all
        refine permits_of_reads hr (readsOnly_answer ?_)
        exact .check fun a => s.readsOnly_readAction property action a
    · exact permits_bare r (by decide)

theorem permits_fixed (r : Request) (j : Json) : r.Permits (pure (fixed r j)) := by
  unfold fixed
  split
  · next hr => exact permits_of_reads hr fun _ => rfl
  · exact permits_bare r (by decide)

/-- The response with its body, by the route of the request. -/
theorem permits_respondFully (r : Request) :
    r.Permits (s.respondFully (m := StateM Memory) r) := by
  unfold respondFully
  cases Target.read? r.target with
  | none => exact permits_bare r (by decide)
  | some t =>
    cases hroute : Route.ofSegments? t.segments with
    | none => simpa only [hroute] using permits_bare r (by decide)
    | some route =>
      simp only [hroute]
      cases route with
      | health => exact permits_fixed r _
      | version => exact permits_fixed r _
      | set segment => exact s.permits_onSet t segment r
      | property segment property => exact s.permits_onProperty t segment property r
      | action segment property action => exact s.permits_onAction segment property action r

/-- **The response of the service does what its request permits.** Leaving out the body of a
response, as for a head request, changes neither its status nor the store. -/
theorem permits_respond (r : Request) : r.Permits (s.respond (m := StateM Memory) r) := by
  have hrun (m : Memory) : (s.respond (m := StateM Memory) r).run m =
      (if r.method = .head then ((s.respondFully (m := StateM Memory) r).run m).1.headOnly
        else ((s.respondFully (m := StateM Memory) r).run m).1,
        ((s.respondFully (m := StateM Memory) r).run m).2) := rfl
  -- the status stays when the body is left out
  have hstatus (m : Memory) : ((s.respond (m := StateM Memory) r).run m).1.Successful ↔
      ((s.respondFully (m := StateM Memory) r).run m).1.Successful := by
    rw [hrun]
    dsimp only
    split <;> rfl
  have hfully := s.permits_respondFully r
  refine ⟨fun hr m => hfully.reads hr m, fun m h => ?_, fun hr m h => ?_⟩
  · exact hfully.fails m fun hsuccessful => h ((hstatus m).mpr hsuccessful)
  · exact hfully.succeeds hr m ((hstatus m).mp h)

end Service

end Http

/-! ### All operations -/

/-- What clients may ask for, by the type of its result: operations on records and their content,
and the same over HTTP. -/
inductive Operation : Type → Type where
  | find (t : RecordType) (top skip : Option Int) (f : Option Filter) (o : Order) :
    Operation (List Record)
  | count (t : RecordType) (f : Option Filter) : Operation Nat
  | findById (t : RecordType) (id : Int) : Operation (Option Record)
  | save (r : Record) : Operation Record
  | remove (t : RecordType) (id : Int) : Operation Unit
  | duplicate (t : RecordType) (id : Int) : Operation (Option Record)
  | upload (r : Record) (p : Path) (f : Feed) : Operation Nat
  /-- The end of an upload, when others may have removed the record meanwhile. -/
  | commit (s : RecordStore.Sink (StateM Memory)) : Operation Nat
  | download (r : Record) (p : Path) :
    Operation (Option (RecordStore.Source (StateM Memory) × Option String))
  | listSet (reg : Registry) (a : Http.Address) (o : Http.ListOptions) : Operation Http.Response
  | readRecord (reg : Registry) (a : Http.Address) : Operation Http.Response
  | createRecord (reg : Registry) (a : Http.Address) (body : Json) : Operation Http.Response
  | updateRecord (reg : Registry) (a : Http.Address) (body : Json) : Operation Http.Response
  | removeRecord (reg : Registry) (a : Http.Address) : Operation Http.Response
  | countSet (reg : Registry) (a : Http.Address) (filter : Option String) : Operation Http.Response
  | cloneRecord (reg : Registry) (a : Http.Address) : Operation Http.Response
  | readProperty (reg : Registry) (a : Http.Address) (property : String) : Operation String
  | uploadContent (reg : Registry) (a : Http.Address) (property boundary : String) (body : Bytes) :
    Operation Http.Response
  /-- The same for a form that arrives in chunks and may break off. -/
  | receiveContent (reg : Registry) (a : Http.Address) (property : String)
    (field : Http.Multipart.Field) : Operation Nat
  | downloadContent (reg : Registry) (a : Http.Address) (property : String) :
    Operation Http.Response

namespace Operation

variable {α : Type}

/-- What an operation does. -/
def perform : Operation α → ExceptT RequestError (StateM Memory) α
  | find t top skip f o => Records.find t top skip f o
  | count t f => Records.count t f
  | findById t id => Records.findById t id
  | save r => Records.save r
  | remove t id => Records.remove t id
  | duplicate t id => Records.duplicate t id
  | upload r p f => Content.upload r p f
  | commit s => Records.store (RecordStore.commit s)
  | download r p => Content.download r p
  | listSet reg a o => Http.Entities.list reg a o
  | readRecord reg a => Http.Entities.read reg a
  | createRecord reg a body => Http.Entities.create reg a body
  | updateRecord reg a body => Http.Entities.update reg a body
  | removeRecord reg a => Http.Entities.remove reg a
  | countSet reg a filter => Http.Entities.count reg a filter
  | cloneRecord reg a => Http.Entities.clone reg a
  | readProperty reg a property => Http.Entities.propertyText reg a property
  | uploadContent reg a property boundary body =>
    Http.Entities.uploadContent reg a property boundary body
  | receiveContent reg a property field => Http.Entities.receive reg a property field
  | downloadContent reg a property => Http.Entities.downloadContent reg a property

/-- Whether an operation only reads. -/
def Reads : Operation α → Prop
  | save _ => False
  | remove _ _ => False
  | upload _ _ _ => False
  | commit _ => False
  | createRecord _ _ _ => False
  | updateRecord _ _ _ => False
  | removeRecord _ _ => False
  | uploadContent _ _ _ _ _ => False
  | receiveContent _ _ _ _ => False
  | _ => True

/-- Each operation that reads, by cases over the operations. -/
theorem readsOnly_perform (op : Operation α) (h : op.Reads) : ReadsOnly op.perform.run := by
  cases op with
  | find t top skip f o => exact Records.readsOnly_find t top skip f o
  | count t f => exact Records.readsOnly_count t f
  | findById t id => exact Records.readsOnly_findById t id
  | save r => exact h.elim
  | remove t id => exact h.elim
  | duplicate t id => exact Records.readsOnly_duplicate t id
  | upload r p f => exact h.elim
  | commit s => exact h.elim
  | download r p => exact Content.readsOnly_download r p
  | listSet reg a o => exact Http.Entities.readsOnly_list reg a o
  | readRecord reg a => exact Http.Entities.readsOnly_read reg a
  | createRecord reg a body => exact h.elim
  | updateRecord reg a body => exact h.elim
  | removeRecord reg a => exact h.elim
  | countSet reg a filter => exact Http.Entities.readsOnly_count reg a filter
  | cloneRecord reg a => exact Http.Entities.readsOnly_clone reg a
  | readProperty reg a property => exact Http.Entities.readsOnly_propertyText reg a property
  | uploadContent reg a property boundary body => exact h.elim
  | receiveContent reg a property field => exact h.elim
  | downloadContent reg a property => exact Http.Entities.readsOnly_downloadContent reg a property

/-- Each operation that writes, by cases over the operations. What counts as done depends on the
operation, so it is only said to exist here; the next theorem needs no more than that a failure is
not done. -/
theorem changesOnce_perform (op : Operation α) (h : ¬op.Reads) :
    ∃ done, ChangesOnce done op.perform := by
  cases op with
  | save r => exact ⟨_, Records.changesOnce_save r⟩
  | remove t id => exact ⟨_, Records.changesOnce_remove t id⟩
  | upload r p f => exact ⟨_, Content.changesOnce_upload r p f⟩
  | commit s => exact ⟨_, Content.changesOnce_commit s⟩
  | createRecord reg a body => exact ⟨_, Http.Entities.changesOnce_create reg a body⟩
  | updateRecord reg a body => exact ⟨_, Http.Entities.changesOnce_update reg a body⟩
  | removeRecord reg a => exact ⟨_, Http.Entities.changesOnce_remove reg a⟩
  | uploadContent reg a property boundary body =>
    exact ⟨_, Http.Entities.changesOnce_uploadContent reg a property boundary body⟩
  | receiveContent reg a property field =>
    exact ⟨_, Http.Entities.changesOnce_receive reg a property field⟩
  | _ => exact absurd trivial h

end Operation

/-- **What fails, or only reads, leaves the store as it was**: all rows, all identities given away
and all content. Whatever else succeeds changes it exactly once. -/
theorem Memory.unchanged_or_changed_once :
    (∀ (α : Type) (op : Operation α) (m : Memory),
      ((op.Reads ∨ ∃ e, (op.perform.run.run m).1 = .error e) → (op.perform.run.run m).2 = m) ∧
      ∀ a, ¬op.Reads → (op.perform.run.run m).1 = .ok a → m.Change (op.perform.run.run m).2) ∧
    ∀ (s : Http.Service) (r : Http.Request) (m : Memory),
      ((r.Reads ∨ 400 ≤ ((s.respond (m := StateM Memory) r).run m).1.status) →
        ((s.respond (m := StateM Memory) r).run m).2 = m) ∧
      (¬r.Reads → ((s.respond (m := StateM Memory) r).run m).1.status < 400 →
        m.Change ((s.respond (m := StateM Memory) r).run m).2) := by
  constructor
  · intro α op m
    constructor
    · rintro (hreads | ⟨e, herror⟩)
      · exact op.readsOnly_perform hreads m
      · by_cases hreads : op.Reads
        · exact op.readsOnly_perform hreads m
        · obtain ⟨done, hchanges⟩ := op.changesOnce_perform hreads
          rcases hchanges m with ⟨_, h⟩ | ⟨a, m', h, -, -⟩
          · rw [h]
          · simp [h] at herror
    · intro a hreads hok
      obtain ⟨done, hchanges⟩ := op.changesOnce_perform hreads
      rcases hchanges m with ⟨e, h⟩ | ⟨a, m', h, -, hm⟩
      · simp [h] at hok
      · rwa [h]
  · intro s r m
    have hpermits := s.permits_respond r
    constructor
    · rintro (hreads | hstatus)
      · exact hpermits.reads hreads m
      · exact hpermits.fails m (Nat.not_lt.mpr hstatus)
    · intro hreads hstatus
      exact hpermits.succeeds hreads m hstatus

/-- The upload of a picture that breaks off behind two bytes. -/
def Memory.photo.cutOff : Operation Nat :=
  .upload (claimed (.integer 2)) ⟨"Photo", "Picture", 1, .blob⟩
    [.bytes [7, 8], .interrupted, .broken "cut"]

/-- A request to remove a photo. -/
def Memory.photo.removal (id : Nat) : Http.Request where
  method := .delete
  target := s!"/Photo({id})"

/-- The stored picture stays when a new one breaks off, and the photos stay when one that is not
there is to be removed. Removing one that is there changes them. -/
theorem Memory.unchanged_photo :
    (run photo.calls).memory.content photo 2 "Picture" = .ok (some [1, 2, 3]) ∧
      (photo.cutOff.perform.run.run (run photo.calls).memory).1 = .error (.storage (.io "cut")) ∧
      (photo.cutOff.perform.run.run (run photo.calls).memory).2 = (run photo.calls).memory ∧
      (((Http.Service.mk ⟨[photo]⟩ 100).respond (m := StateM Memory) (photo.removal 9)).run
        (run photo.calls).memory).1.status = 404 ∧
      (((Http.Service.mk ⟨[photo]⟩ 100).respond (m := StateM Memory) (photo.removal 9)).run
        (run photo.calls).memory).2 = (run photo.calls).memory ∧
      (((Http.Service.mk ⟨[photo]⟩ 100).respond (m := StateM Memory) (photo.removal 2)).run
        (run photo.calls).memory).1.status = 204 ∧
      (run photo.calls).memory.Change
        (((Http.Service.mk ⟨[photo]⟩ 100).respond (m := StateM Memory) (photo.removal 2)).run
          (run photo.calls).memory).2 := by
  have hcut : (photo.cutOff.perform.run.run (run photo.calls).memory).1 =
      .error (.storage (.io "cut")) := by decide +kernel
  have habsent : (((Http.Service.mk ⟨[photo]⟩ 100).respond (m := StateM Memory)
      (photo.removal 9)).run (run photo.calls).memory).1.status = 404 := by decide +kernel
  have hpresent : (((Http.Service.mk ⟨[photo]⟩ 100).respond (m := StateM Memory)
      (photo.removal 2)).run (run photo.calls).memory).1.status = 204 := by decide +kernel
  refine ⟨rfl, hcut, ?_, habsent, ?_, hpresent, ?_⟩
  · exact (unchanged_or_changed_once.1 Nat photo.cutOff _).1 (.inr ⟨_, hcut⟩)
  · exact (unchanged_or_changed_once.2 _ (photo.removal 9) _).1 (.inr (by rw [habsent]; decide))
  · have hdelete : ¬(photo.removal 2).Reads := by simp [Http.Request.Reads, photo.removal]
    exact (unchanged_or_changed_once.2 _ (photo.removal 2) _).2 hdelete (by rw [hpresent]; decide)

end RecordService
