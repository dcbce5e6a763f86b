import RecordService.Query.Filter

/-!
# Records

A record has a type and a value for each attribute of the type. A record that has not been stored
has no identity yet.

* `RecordService.Record`: the records.
* `RecordService.Record.id`, `RecordService.Record.withId`: the identity.
* `RecordService.Record.value`, `RecordService.Record.set`: the value of a property.
* `RecordService.Record.toJson`: a record as a document, with its attributes in declared order.
-/

namespace RecordService

/-- A record of a type. -/
structure Record where
  type : RecordType
  /-- The values of the attributes, in their declared order. -/
  values : List Value
  length_values : values.length = type.attributes.length

namespace Record

/-- The record without any values. -/
def empty (t : RecordType) : Record :=
  ⟨t, List.replicate t.attributes.length Value.null, List.length_replicate⟩

/-- The record with these values. Missing values are `null`, and superfluous ones are dropped. -/
def ofValues (t : RecordType) (values : List Value) : Record where
  type := t
  values := (values ++ List.replicate t.attributes.length Value.null).take t.attributes.length
  length_values := by simp

theorem values_ofValues {t : RecordType} {values : List Value}
    (h : values.length = t.attributes.length) : (ofValues t values).values = values := by
  simp [ofValues, ← h]

/-- The record with another value at a position. -/
def setAt (r : Record) (i : Nat) (v : Value) : Record :=
  ⟨r.type, r.values.set i v, by simp [r.length_values]⟩

/-- The identity of a record. -/
def id (r : Record) : Option Int :=
  match r.values[r.type.identity]? with
  | some (.integer n) => some n
  | _ => none

/-- The record with another identity, or with none. -/
def withId (r : Record) (id : Option Int) : Record :=
  r.setAt r.type.identity (id.elim .null .integer)

/-- The same values without an identity. -/
def duplicate (r : Record) : Record := r.withId none

/-- The value of the attribute with a name. -/
def get? (r : Record) (name : String) : Option Value := do r.values[← r.type.index? name]?

/-- Whether a property is one of a record. -/
def owns (r : Record) (p : Path) : Bool := p.entity == r.type.name && p.index < r.values.length

/-- The value of a property, which has to be one of the record. -/
def value (r : Record) (p : Path) : Except RequestError Value :=
  if r.owns p then .ok (r.values.getD p.index .null) else .error (.unresolvable r.type.name p.name)

/-- The record with another value of a property, which has to be one of the record. -/
def set (r : Record) (p : Path) (v : Value) : Except RequestError Record :=
  if r.owns p then .ok (r.setAt p.index v) else .error (.unresolvable r.type.name p.name)

/-- Equality of records: the same entity and the same values. -/
def same (a b : Record) : Bool := a.type.name == b.type.name && Value.sameAll a.values b.values

/-- Whether a record certainly satisfies a filter on its entity. -/
def satisfies (r : Record) (f : Filter) : Bool := f.belongsTo r.type.name && f.accepts r.values

/-- A record as a document. -/
def toJson (r : Record) : Json :=
  .object ((r.type.attributes.zip r.values).map fun (a, v) => (a.name, v.toJson))

end Record

end RecordService
