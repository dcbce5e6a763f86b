import RecordService.Proofs.Http.Address
import RecordService.Proofs.Http.Document
import RecordService.Proofs.Http.Effect
import RecordService.Proofs.Store.Identity
import RecordService.Proofs.Store.WellFormed
import RecordService.Proofs.Text.Numeral

/-!
# Clients do not choose identities

A document may have a member for the identity. It makes no difference: a new record is given the
identity that is next, and a record is changed under the identity in its address. So two requests
whose documents differ only there are responded to alike, and leave the same store
(`RecordService.Memory.identity_not_chosen`).

* `RecordService.Record.id_of_erase`, `RecordService.Record.id_of_withIdentity`: the identities of
  records from texts.
* `RecordService.Http.Entities.create_congr`, `RecordService.Http.Entities.update_congr`: what the
  two requests have in common.
* `RecordService.Memory.SameBut`, `RecordService.Memory.Gains`: what a request may change.
-/

namespace RecordService

open Memory

variable {d : Schema.Document} {reg : Registry} {t : RecordType} {record : Record} {ts : Texts}

/-! ### Identities of records from texts -/

/-- A record from texts without an identity has none, since what is not given is `null`. Saving such
a record inserts it. -/
theorem Record.id_of_erase (hd : Registry.ofDocument d = .ok reg) (ht : t ∈ reg.types)
    (h : Record.ofTexts t (ts.erase Schema.identityName) = .ok record) : record.id = none := by
  obtain ⟨a, ha, hname, -⟩ := (Registry.resolved_of_ofDocument hd).identity t ht
  have hholds := Record.holds_of_ofTexts h
  have hnull : record.values[t.identity]? = some .null := by
    refine hholds.absent _ (List.getElem?_eq_some_iff.mp ha).1 fun n s p hmem hp hindex => ?_
    -- only the name of the identity leads there
    obtain ⟨-, -, -, b, hb, rfl, -⟩ := Path.resolve_eq_ok hp
    rw [hindex, ha] at hb
    rw [← Option.some.inj hb] at hmem
    exact (Texts.mem_erase.mp hmem).2 hname
  simp only [Record.id, hholds.type, hnull]

/-- The text of an integer in range stands for this integer. -/
theorem valueOf_integer {p : Path} (hp : p.kind = .integer) {id : Int}
    (hmin : Text.minInteger ≤ id) (hmax : id ≤ Text.maxInteger) :
    Record.valueOf t p (Text.integer id) = .ok (.integer id) := by
  have hread := Text.readInteger?_integer hmin hmax
  have hempty : ¬((Text.integer id).isEmpty ∧ p.kind ≠ .text) := by
    rintro ⟨hempty, -⟩
    rw [String.isEmpty_iff.mp hempty] at hread
    have hnone : Text.readInteger? "" = none := by decide
    simp [hnone] at hread
  rw [Record.valueOf, if_neg hempty, hp]
  simp [Value.coerce, hread]

/-- A record from texts with an identity has this one. Saving such a record updates the one that is
stored under it. -/
theorem Record.id_of_withIdentity (hd : Registry.ofDocument d = .ok reg) (ht : t ∈ reg.types)
    {id : Int} (hmin : Text.minInteger ≤ id) (hmax : id ≤ Text.maxInteger)
    (h : Record.ofTexts t (ts.withIdentity id) = .ok record) : record.id = some id := by
  obtain ⟨a, ha, -, hkind⟩ := (Registry.resolved_of_ofDocument hd).identity t ht
  have hholds := Record.holds_of_ofTexts h
  obtain ⟨p, v, hp, hv, hvalue⟩ :=
    hholds.given Schema.identityName (Text.integer id) (Texts.mem_insert.mpr (.inl rfl))
  obtain ⟨-, -, hindex, b, hb, -, hpkind⟩ := Path.resolve_eq_ok hp
  have hplace : p.index = t.identity :=
    Option.some.inj (hindex.symm.trans (Registry.index?_identity hd ht))
  rw [hplace, ha] at hb
  rw [← Option.some.inj hb, hkind] at hpkind
  rw [valueOf_integer hpkind.symm hmin hmax] at hv
  rw [hplace, ← Except.ok.inj hv] at hvalue
  simp only [Record.id, hholds.type, hvalue]

/-! ### Documents that differ in the identity -/

namespace Http.Entities

variable {a : Address} {ms₁ ms₂ : List (String × Json)}

/-- Saves the record that some texts stand for. -/
def saveTexts (reg : Registry) (entity : String) (status : Nat) (ts : Texts) :
    ExceptT RequestError (StateM Memory) Response := do
  let t ← reg.resolve entity
  let r ← Record.ofTexts t ts
  return .data status (← Records.save r).toJson

/-- Creating leaves out the identity of the document before the texts are looked at. -/
theorem create_eq (body : Json) :
    create (m := StateM Memory) reg a body = (do
      a.requireSet "create"
      let texts ← Texts.ofJson body
      saveTexts reg a.entity 201 (texts.erase Schema.identityName)) := rfl

/-- The texts may as well be without an identity before they get the one of the address. In this
form an update, too, depends on the document only through its texts without the identity. -/
theorem update_eq (body : Json) :
    update (m := StateM Memory) reg a body = (do
      let id ← a.requireRecord "update"
      let texts ← Texts.ofJson body
      saveTexts reg a.entity 200 ((texts.erase Schema.identityName).withIdentity id)) := by
  have hidentity (ts : Texts) (id : Int) :
      (ts.erase Schema.identityName).withIdentity id = ts.withIdentity id :=
    Texts.insert_erase ts _ _
  simp only [hidentity]
  rfl

/-- Documents that differ only in the identity give the same texts without it, or the same error. So
nothing that goes on from these texts can tell the documents apart. -/
theorem bind_ofJson_congr (h : Json.DifferOnlyIn Schema.identityName ms₁ ms₂)
    (g : Texts → ExceptT RequestError (StateM Memory) Response) :
    ((liftM (Texts.ofJson (.object ms₁)) : ExceptT RequestError (StateM Memory) Texts) >>=
        fun ts => g (ts.erase Schema.identityName)) =
      (liftM (Texts.ofJson (.object ms₂)) : ExceptT RequestError (StateM Memory) Texts) >>=
        fun ts => g (ts.erase Schema.identityName) := by
  have hbind (x : Except RequestError Texts) :
      ((liftM x : ExceptT RequestError (StateM Memory) Texts) >>=
          fun ts => g (ts.erase Schema.identityName)) =
        (liftM (x.map (·.erase Schema.identityName)) :
          ExceptT RequestError (StateM Memory) Texts) >>= g := by
    cases x <;> rfl
  rw [hbind, hbind, Texts.erase_ofJson_congr h]

/-- Creating a record does not depend on the identity in its document, since it goes on from the
texts without it. -/
theorem create_congr (h : Json.DifferOnlyIn Schema.identityName ms₁ ms₂) :
    create (m := StateM Memory) reg a (.object ms₁) = create reg a (.object ms₂) := by
  rw [create_eq, create_eq]
  congr 1
  funext _
  exact bind_ofJson_congr h (saveTexts reg a.entity 201)

/-- Neither does changing a record, which puts the identity of the address into these texts. -/
theorem update_congr (h : Json.DifferOnlyIn Schema.identityName ms₁ ms₂) :
    update (m := StateM Memory) reg a (.object ms₁) = update reg a (.object ms₂) := by
  rw [update_eq, update_eq]
  congr 1
  funext id
  exact bind_ofJson_congr h fun ts => saveTexts reg a.entity 200 (ts.withIdentity id)

/-- What saving texts does: nothing if it fails, and otherwise an insert or an update, as the record
that they stand for has an identity or not. No other operation of the store is reached from a
document. -/
theorem run_saveTexts (entity : String) (status : Nat) (ts : Texts) (m : Memory) :
    (∃ e, (saveTexts reg entity status ts).run.run m = (.error e, m)) ∨
      ∃ t record, reg.resolve entity = .ok t ∧ Record.ofTexts t ts = .ok record ∧
        (record.id = none ∧ (saveTexts reg entity status ts).run.run m =
            (.ok (.data status (m.insert record).1.toJson), (m.insert record).2) ∨
          ∃ id stored m', record.id = some id ∧ m.update record = .ok (stored, m') ∧
            (saveTexts reg entity status ts).run.run m =
              (.ok (.data status stored.toJson), m')) := by
  unfold saveTexts
  rcases (readsOnly_liftM (reg.resolve entity)).run_bind _ m with ⟨e, -, h⟩ | ⟨t, ht, h⟩
  · exact .inl ⟨e, h⟩
  rcases (readsOnly_liftM (Record.ofTexts t ts)).run_bind _ m with
    ⟨e, -, hrecord⟩ | ⟨record, hr, hrecord⟩
  · exact .inl ⟨e, h.trans hrecord⟩
  have hrun := (h.trans hrecord).trans (run_bind _ _ m)
  rcases Records.run_save record m with
    ⟨e, hsave⟩ | ⟨-, ⟨hid, hsave⟩ | ⟨id, stored, m', hid, hm, hsave⟩⟩
  · rw [hsave] at hrun
    exact .inl ⟨e, hrun⟩
  · rw [hsave] at hrun
    exact .inr ⟨t, record, ht, hr, .inl ⟨hid, hrun⟩⟩
  · rw [hsave] at hrun
    exact .inr ⟨t, record, ht, hr, .inr ⟨id, stored, m', hid, hm, hrun⟩⟩

/-- **Creating a record** inserts one under the identity that is next. The case of an update does
not occur, as the record has no identity. -/
theorem run_create (hd : Registry.ofDocument d = .ok reg) (entity : String) (body : Json)
    (m : Memory) :
    (∃ e, (create (m := StateM Memory) reg ⟨entity, none⟩ body).run.run m = (.error e, m)) ∨
      ∃ record : Record, record.type.name = entity ∧
        (create (m := StateM Memory) reg ⟨entity, none⟩ body).run.run m =
          (.ok (.data 201 (m.insert record).1.toJson), (m.insert record).2) := by
  rw [create_eq]
  rcases (readsOnly_liftM (Texts.ofJson body)).run_bind
    (fun ts => saveTexts reg entity 201 (ts.erase Schema.identityName)) m with
    ⟨e, -, h⟩ | ⟨ts, -, h⟩
  · exact .inl ⟨e, h⟩
  rcases run_saveTexts entity 201 (ts.erase Schema.identityName) m with
    ⟨e, hsave⟩ | ⟨t, record, ht, hrecord, hsave⟩
  · exact .inl ⟨e, h.trans hsave⟩
  obtain ⟨ht, hname⟩ := Registry.resolve_eq_ok ht
  have htype := (Record.holds_of_ofTexts hrecord).type
  rcases hsave with ⟨-, hsave⟩ | ⟨id, _, _, hid, -, -⟩
  · exact .inr ⟨record, by rw [htype, hname], h.trans hsave⟩
  · rw [Record.id_of_erase hd ht hrecord] at hid
    simp at hid

/-- **Changing a record** updates the one at the address. The case of an insert does not occur, as
the record has the identity of the address, which fits into an integer because it was read from a
text. -/
theorem run_update (hd : Registry.ofDocument d = .ok reg) (entity : String) {id : Int}
    (hmin : Text.minInteger ≤ id) (hmax : id ≤ Text.maxInteger) (body : Json) (m : Memory) :
    (∃ e, (update (m := StateM Memory) reg ⟨entity, some id⟩ body).run.run m = (.error e, m)) ∨
      ∃ record stored m', record.type.name = entity ∧ record.id = some id ∧
        m.update record = .ok (stored, m') ∧
        (update (m := StateM Memory) reg ⟨entity, some id⟩ body).run.run m =
          (.ok (.data 200 stored.toJson), m') := by
  rcases (readsOnly_liftM (Texts.ofJson body)).run_bind
    (fun ts => saveTexts reg entity 200 (ts.withIdentity id)) m with ⟨e, -, h⟩ | ⟨ts, -, h⟩
  · exact .inl ⟨e, h⟩
  rcases run_saveTexts entity 200 (ts.withIdentity id) m with
    ⟨e, hsave⟩ | ⟨t, record, ht, hrecord, hsave⟩
  · exact .inl ⟨e, h.trans hsave⟩
  obtain ⟨ht, hname⟩ := Registry.resolve_eq_ok ht
  have htype := (Record.holds_of_ofTexts hrecord).type
  have hidentity := Record.id_of_withIdentity hd ht hmin hmax hrecord
  rcases hsave with ⟨hid, -⟩ | ⟨k, stored, m', -, hm, hsave⟩
  · rw [hidentity] at hid
    simp at hid
  · exact .inr ⟨record, stored, m', by rw [htype, hname], hidentity, hm, h.trans hsave⟩

end Http.Entities

/-! ### What the requests change -/

namespace Memory

variable {m m' : Memory}

/-- Whether a store differs from another one at most in the values of one record. -/
structure SameBut (entity : String) (id : Int) (m m' : Memory) : Prop where
  rows : ∀ (t : RecordType) k, ¬(t.name = entity ∧ k = id) → m'.row? t k = m.row? t k
  contents : ∀ t k, (m'.row? t k).map Row.contents = (m.row? t k).map Row.contents
  ids : ∀ e, (m'.table e).rows.map Prod.fst = (m.table e).rows.map Prod.fst
  lastId : ∀ e, (m'.table e).lastId = (m.table e).lastId

/-- Nothing is changed by what fails. -/
theorem SameBut.refl (entity : String) (id : Int) (m : Memory) : SameBut entity id m m :=
  ⟨fun _ _ _ => rfl, fun _ _ => rfl, fun _ => rfl, fun _ => rfl⟩

/-- An update changes one row. The number of rows and the last identity stay, so no identity comes
up or goes. -/
theorem sameBut_update {stored : Record} {id : Int} (hid : record.id = some id)
    (hm : m.update record = .ok (stored, m')) : SameBut record.type.name id m m' := by
  obtain ⟨k, _, hk, -, hrows⟩ := row?_update hm
  obtain rfl : id = k := Option.some.inj (hid.symm.trans hk)
  obtain ⟨_, _, -, -, rfl⟩ := update_eq_ok hm
  refine ⟨?_, ?_, ?_, ?_⟩
  · intro t k hk
    rw [hrows, if_neg hk]
  · intro t k
    rw [hrows]
    split
    · rw [Option.map_map]
      rfl
    · rfl
  · intro e
    rw [table_withTable]
    split
    · next he => rw [he, Table.map_fst_modify]
    · rfl
  · intro e
    rw [table_withTable]
    split
    · next he =>
      rw [he]
      rfl
    · rfl

/-- Whether a store has one record more than another one, and is the same otherwise. -/
structure Gains (entity : String) (id : Int) (m m' : Memory) : Prop where
  new : ∃ row, (m'.table entity).rows = (m.table entity).rows ++ [(id, row)]
  rows : ∀ t k row, m.row? t k = some row → m'.row? t k = some row
  others : ∀ e, e ≠ entity → m'.table e = m.table e

/-- An insert adds one row, behind all others and under an identity that is greater than any before.
-/
theorem gains_insert (record : Record) (m : Memory) :
    Gains record.type.name (m.nextId record.type) m (m.insert record).2 := by
  refine ⟨⟨freshRow record (m.nextId record.type), ?_⟩, ?_, ?_⟩
  · unfold insert
    dsimp only
    rw [table_withTable, if_pos rfl]
    rfl
  · intro t k row hrow
    rw [row?_insert_eq_or, hrow]
    rfl
  · intro e he
    unfold insert
    dsimp only
    rw [table_withTable, if_neg he]

end Memory

/-! ### Requests -/

namespace Http

/-- Identities in addresses are read from texts. -/
theorem Address.range_of_read {segment entity : String} {id : Int}
    (h : Address.read segment = .ok ⟨entity, some id⟩) :
    Text.minInteger ≤ id ∧ id ≤ Text.maxInteger := by
  obtain ⟨-, hmin, hmax, -⟩ := Address.read_record_iff.mp h
  exact ⟨hmin, hmax⟩

/-- A request to an address, with an object as its document, that the service reads. -/
structure Request.Brings (s : Service) (method : Method) (a : Address)
    (ms : List (String × Json)) (r : Request) : Prop where
  method : r.method = method
  target : ∃ t raw segment, Target.read? r.target = some t ∧
    Route.ofSegments? t.segments = some (.set raw) ∧ segment? raw = some segment ∧
    Address.read segment = .ok a
  size : r.body.length ≤ s.bodyLimit
  json : r.json = .ok (.object ms)

namespace Request.Brings

variable {s : Service} {method : Method} {a : Address} {ms : List (String × Json)} {r : Request}

/-- The service looks at the record or the set that the request is about: none of its own checks
refuses such a request, and its path has one segment. -/
theorem respond_onSet (h : r.Brings s method a ms) (hmethod : method ≠ .head) :
    ∃ t raw segment, segment? raw = some segment ∧ Address.read segment = .ok a ∧
      s.respond (m := StateM Memory) r = s.onSet t raw r := by
  obtain ⟨t, raw, segment, htarget, hroute, hsegment, ha⟩ := h.target
  refine ⟨t, raw, segment, hsegment, ha, ?_⟩
  have hhead : r.method ≠ .head := h.method ▸ hmethod
  simp only [Service.respond, Service.respondFully, htarget, hroute, hhead, if_false, bind_pure]

/-- A request to create a record is answered with what creating it gives. -/
theorem respond_post (h : r.Brings s .post a ms) :
    s.respond (m := StateM Memory) r = Service.answer (Entities.create s.registry a (.object ms)) := by
  obtain ⟨t, raw, segment, hsegment, ha, hrespond⟩ := h.respond_onSet (by decide)
  have hsize : ¬s.bodyLimit < r.body.length := Nat.not_lt.mpr h.size
  rw [hrespond]
  simp only [Service.onSet, hsize, h.method, hsegment, Service.withDocument, h.json,
    Service.atAddress, ha]
  rfl

/-- A request to change a record is answered with what changing it gives. -/
theorem respond_put (h : r.Brings s .put a ms) :
    s.respond (m := StateM Memory) r = Service.answer (Entities.update s.registry a (.object ms)) := by
  obtain ⟨t, raw, segment, hsegment, ha, hrespond⟩ := h.respond_onSet (by decide)
  have hsize : ¬s.bodyLimit < r.body.length := Nat.not_lt.mpr h.size
  rw [hrespond]
  simp only [Service.onSet, hsize, h.method, hsegment, Service.withDocument, h.json,
    Service.atAddress, ha]
  rfl

end Request.Brings

end Http

open Http

/-- **Clients do not choose identities.** Two requests that bring documents which differ only in the
identity are responded to alike, and leave the same store.

* A change of a record leaves all other records, all content, the identities that are stored and
  those that are next.
* A new record is stored beside the others, under an identity that no record of its entity has ever
  had. If it is not stored, nothing changes. -/
theorem Memory.identity_not_chosen {s : Service} (hd : Registry.ofDocument d = .ok s.registry)
    (calls : List Call) (entity : String) {ms₁ ms₂ : List (String × Json)}
    (hms : Json.DifferOnlyIn Schema.identityName ms₁ ms₂) :
    (∀ (id : Int) (r₁ r₂ : Request),
      r₁.Brings s .put ⟨entity, some id⟩ ms₁ → r₂.Brings s .put ⟨entity, some id⟩ ms₂ →
        (s.respond (m := StateM Memory) r₁).run (run calls).memory =
          (s.respond (m := StateM Memory) r₂).run (run calls).memory ∧
        SameBut entity id (run calls).memory
          ((s.respond (m := StateM Memory) r₁).run (run calls).memory).2) ∧
    ∀ r₁ r₂ : Request,
      r₁.Brings s .post ⟨entity, none⟩ ms₁ → r₂.Brings s .post ⟨entity, none⟩ ms₂ →
        (s.respond (m := StateM Memory) r₁).run (run calls).memory =
          (s.respond (m := StateM Memory) r₂).run (run calls).memory ∧
        (((s.respond (m := StateM Memory) r₁).run (run calls).memory).1.Successful →
          ∃ id, (∀ t k, t.name = entity → Held calls t k → k < id) ∧
            Gains entity id (run calls).memory
              ((s.respond (m := StateM Memory) r₁).run (run calls).memory).2) ∧
        (¬((s.respond (m := StateM Memory) r₁).run (run calls).memory).1.Successful →
          ((s.respond (m := StateM Memory) r₁).run (run calls).memory).2 = (run calls).memory) := by
  constructor
  · intro id r₁ r₂ h₁ h₂
    obtain ⟨_, _, _, -, -, -, ha⟩ := h₁.target
    obtain ⟨hmin, hmax⟩ := Address.range_of_read ha
    rw [h₁.respond_put, h₂.respond_put, Entities.update_congr hms]
    refine ⟨rfl, ?_⟩
    rw [Service.run_answer]
    rcases Entities.run_update hd entity hmin hmax (.object ms₂) (run calls).memory with
      ⟨e, hrun⟩ | ⟨record, stored, m, rfl, hid, hm, hrun⟩
    · rw [hrun]
      exact SameBut.refl entity id _
    · rw [hrun]
      exact sameBut_update hid hm
  · intro r₁ r₂ h₁ h₂
    rw [h₁.respond_post, h₂.respond_post, Entities.create_congr hms]
    refine ⟨rfl, ?_⟩
    rw [Service.run_answer]
    rcases Entities.run_create hd entity (.object ms₂) (run calls).memory with
      ⟨e, hrun⟩ | ⟨record, rfl, hrun⟩
    · rw [hrun]
      exact ⟨fun h => absurd h (Response.not_successful_ofError e), fun _ => rfl⟩
    · rw [hrun]
      refine ⟨fun _ => ⟨(run calls).memory.nextId record.type, ?_, gains_insert record _⟩, ?_⟩
      · intro t k hname hheld
        have hlt := hheld.lt_nextId
        rwa [nextId, hname] at hlt
      · exact fun h => absurd (show 201 < 400 by decide) h

/-! ### A print with another identity -/

namespace Memory.print

/-- Two prints, the first of which is removed. -/
def calls : List Call :=
  [.insert ⟨print, [.null, .text "Sea", .null, .null, .null], rfl⟩,
    .insert ⟨print, [.null, .text "Sea", .null, .null, .null], rfl⟩, .delete print 1]

/-- A title, up to the end of a document. -/
def title : List Char :=
  ['"', 'T', 'i', 't', 'l', 'e', '"', ':', '"', 'S', 'k', 'y', '"', '\x7d']

/-- An identity in front of the title. -/
def numbered : List Char := '"' :: 'I' :: 'd' :: '"' :: ':' :: '1' :: ',' :: title

/-- A document with a title. -/
def renamed : String := String.ofList ('\x7b' :: title)

/-- The same with an identity. -/
def moved : String := String.ofList ('\x7b' :: numbered)

/-- The members of both documents. -/
def members (id : List (String × Json)) : List (String × Json) := id ++ [("Title", .string "Sky")]

theorem readMembers_title :
    (Json.Raw.readMembers title).map Subtype.val =
      some ([(['T', 'i', 't', 'l', 'e'].map .char, .string (['S', 'k', 'y'].map .char))], []) := by
  have hname : (Json.Raw.readName title).map Subtype.val =
      some (['T', 'i', 't', 'l', 'e'].map .char, ['"', 'S', 'k', 'y', '"', '\x7d']) := rfl
  have hvalue : (Json.Raw.readValue ['"', 'S', 'k', 'y', '"', '\x7d']).map Subtype.val =
      Json.Raw.readScalar ['"', 'S', 'k', 'y', '"', '\x7d'] :=
    Json.Raw.map_readValue_scalar rfl (by decide) (by decide)
  exact Json.Raw.map_readMembers_last hname hvalue rfl

theorem documentIn?_renamed : documentIn? renamed = some (.object (members [])) := by
  have hread : (Json.Raw.readValue ('\x7b' :: title)).map Subtype.val =
      ((Json.Raw.readMembers title).map Subtype.val).map fun p => (.object p.1, p.2) :=
    Json.Raw.map_readValue_object rfl (by decide) (by decide)
  rw [readMembers_title] at hread
  exact documentIn?_ofList hread

theorem documentIn?_moved :
    documentIn? moved = some (.object (members [("Id", .number (.integer 1))])) := by
  have hname : (Json.Raw.readName numbered).map Subtype.val =
      some (['I', 'd'].map .char, '1' :: ',' :: title) := rfl
  have hvalue : (Json.Raw.readValue ('1' :: ',' :: title)).map Subtype.val =
      Json.Raw.readScalar ('1' :: ',' :: title) :=
    Json.Raw.map_readValue_scalar rfl (by decide) (by decide)
  have hread : (Json.Raw.readValue ('\x7b' :: numbered)).map Subtype.val =
      ((Json.Raw.readMembers numbered).map Subtype.val).map fun p => (.object p.1, p.2) :=
    Json.Raw.map_readValue_object rfl (by decide) (by decide)
  rw [Json.Raw.map_readMembers_cons hname hvalue rfl readMembers_title] at hread
  exact documentIn?_ofList hread

theorem differOnlyIn_members :
    Json.DifferOnlyIn Schema.identityName (members [("Id", .number (.integer 1))]) (members []) := by
  refine ⟨fun n hn => ?_, fun v hv => ?_, fun v hv => ?_⟩
  · have hid : (n == "Id") = false := beq_false_of_ne hn
    simp [Json.member?, members, List.lookup_cons, hid]
  · obtain rfl : Json.number (.integer 1) = v := Option.some.inj hv
    rfl
  · exact absurd (show none = some v from hv) (by simp)

theorem ofJson_members :
    Texts.ofJson (.object (members [])) = .ok (Texts.empty.insert "Title" "Sky") := by
  have hsort : Json.sortMembers (members []) = members [] := by simp [Json.sortMembers, members]
  simp only [Texts.ofJson, hsort]
  rfl

/-- A service for the gallery. -/
def service : Service := ⟨⟨[print]⟩, 100⟩

/-- A request that brings a document. -/
def bringing (method : Method) (target document : String) : Request where
  method := method
  target := target
  contentType := some "application/json"
  body := Bytes.ofText document

/-- What such a request leads to. -/
def outcome (method : Method) (target document : String) : Response × Memory :=
  (service.respond (m := StateM Memory) (bringing method target document)).run (run calls).memory

theorem brings {method : Method} {target document : String} {a : Address}
    {ms : List (String × Json)} (raw : String) (htarget : Target.read? target = some ⟨[raw], []⟩)
    (hroute : Route.ofSegments? [raw] = some (.set raw) ∧ segment? raw = some raw)
    (ha : Address.read raw = .ok a)
    (htext : (Bytes.ofText document).length ≤ 100 ∧ (Bytes.ofText document).textPart = document)
    (hdocument : documentIn? document = some (.object ms)) :
    (bringing method target document).Brings service method a ms := by
  have htype : ((some "application/json").bind MediaType.read?).any MediaType.isJson = true := by
    decide +kernel
  refine ⟨rfl, ⟨_, raw, raw, htarget, hroute.1, hroute.2, ha⟩, htext.1, ?_⟩
  refine Request.json_eq_ok htype (Nat.le_trans htext.1 (by decide)) ?_
  rw [← hdocument]
  exact congrArg documentIn? htext.2

theorem brings_put {document : String} {ms : List (String × Json)}
    (htext : (Bytes.ofText document).length ≤ 100 ∧ (Bytes.ofText document).textPart = document)
    (hdocument : documentIn? document = some (.object ms)) :
    (bringing .put "/Print(2)" document).Brings service .put ⟨"Print", some 2⟩ ms :=
  brings "Print(2)" rfl (by decide +kernel) (by decide +kernel) htext hdocument

theorem brings_post {document : String} {ms : List (String × Json)}
    (htext : (Bytes.ofText document).length ≤ 100 ∧ (Bytes.ofText document).textPart = document)
    (hdocument : documentIn? document = some (.object ms)) :
    (bringing .post "/Print" document).Brings service .post ⟨"Print", none⟩ ms :=
  brings "Print" rfl (by decide +kernel) (by decide +kernel) htext hdocument

end Memory.print

open print in
/-- The second print is renamed and keeps its identity, and a new print is given one of its own,
which is not that of the print that was removed. -/
theorem Memory.identity_not_chosen_print :
    Registry.ofDocument gallery = .ok service.registry ∧
      Json.DifferOnlyIn Schema.identityName (members [("Id", .number (.integer 1))]) (members []) ∧
      (outcome .put "/Print(2)" moved = outcome .put "/Print(2)" renamed ∧
        SameBut "Print" 2 (run calls).memory (outcome .put "/Print(2)" moved).2) ∧
      (outcome .put "/Print(2)" moved).1.status = 200 ∧
      outcome .post "/Print" moved = outcome .post "/Print" renamed ∧
      (outcome .post "/Print" moved).1.status = 201 ∧
      ∃ id, 2 < id ∧ Gains "Print" id (run calls).memory (outcome .post "/Print" moved).2 := by
  have hgallery : Registry.ofDocument gallery = .ok service.registry := rfl
  have hmoved : (Bytes.ofText moved).length ≤ 100 ∧ (Bytes.ofText moved).textPart = moved := by
    decide +kernel
  have hrenamed : (Bytes.ofText renamed).length ≤ 100 ∧
      (Bytes.ofText renamed).textPart = renamed := by decide +kernel
  have hupdate := brings_put hmoved documentIn?_moved
  have hcreate := brings_post hmoved documentIn?_moved
  obtain ⟨hput, hpost⟩ := identity_not_chosen hgallery calls "Print" differOnlyIn_members
  obtain ⟨hsame, hsuccess, -⟩ := hpost _ _ hcreate (brings_post hrenamed documentIn?_renamed)
  have hupdated : (outcome .put "/Print(2)" moved).1.status = 200 := by
    unfold outcome
    rw [hupdate.respond_put, Entities.update_congr differOnlyIn_members, Entities.update_eq,
      ofJson_members]
    decide +kernel
  have hcreated : (outcome .post "/Print" moved).1.status = 201 := by
    unfold outcome
    rw [hcreate.respond_post, Entities.create_congr differOnlyIn_members, Entities.create_eq,
      ofJson_members]
    decide +kernel
  have hheld : Held calls print 2 := ⟨calls, List.prefix_rfl, rfl⟩
  obtain ⟨id, hfresh, hgains⟩ := hsuccess (show (outcome .post "/Print" moved).1.status < 400 by
    rw [hcreated]
    decide)
  exact ⟨hgallery, differOnlyIn_members,
    hput 2 _ _ hupdate (brings_put hrenamed documentIn?_renamed), hupdated, hsame, hcreated, id,
    hfresh print 2 rfl hheld, hgains⟩

end RecordService
