import RecordService.Store.Basic

/-!
# Operations on records

What clients do with the records of a store. Queries are checked against the entity they are used
on, and a record is saved only if it has all the values it needs.

* `RecordService.Records.find`, `RecordService.Records.count`, `RecordService.Records.findById`:
  reading.
* `RecordService.Records.save`, `RecordService.Records.remove`: changing.
* `RecordService.Records.duplicate`: a copy that has not been saved.
-/

namespace RecordService.Records

variable {m : Type → Type} [Monad m] [RecordStore m]

/-- An operation of the store as part of a request. -/
def store {α : Type} (x : ExceptT StorageError m α) : ExceptT RequestError m α :=
  x.adapt RequestError.ofStorage

/-- A bound of a window, called `name`, which must not be negative. -/
def nonNegative (name : String) (n : Int) : Except RequestError Nat :=
  if 0 ≤ n then .ok n.toNat
  else .error (.badRequest s!"{name} must not be negative (got {Text.integer n})")

/-- Checks that a filter is one on an entity. -/
def checkFilter (t : RecordType) (f : Option Filter) : Except RequestError Unit :=
  if f.all (·.belongsTo t.name) then .ok ()
  else .error (.badRequest s!"filter does not apply to {t.name}")

/-- Checks that an order is one on an entity. -/
def checkOrder (t : RecordType) (o : Order) : Except RequestError Unit :=
  if o.terms.all (·.path.entity == t.name) then .ok ()
  else .error (.badRequest s!"order does not apply to {t.name}")

/-- The selection that a client asks for, or what is wrong with it. -/
def selection (t : RecordType) (top skip : Option Int) (f : Option Filter) (o : Order) :
    Except RequestError Selection := do
  let skip ← nonNegative "$skip" (skip.getD 0)
  let top ← top.mapM (nonNegative "$top")
  checkFilter t f
  checkOrder t o
  return { filter := f, order := o, skip, top }

/-- The records that pass a filter, ordered, and of these a window. -/
def find (t : RecordType) (top skip : Option Int) (f : Option Filter) (o : Order) :
    ExceptT RequestError m (List Record) := do
  let s ← ExceptT.mk (pure (selection t top skip f o))
  store (RecordStore.select t s)

/-- The number of records that pass a filter. -/
def count (t : RecordType) (f : Option Filter) : ExceptT RequestError m Nat := do
  ExceptT.mk (pure (checkFilter t f))
  store (RecordStore.count t f)

/-- The record with an identity. -/
def findById (t : RecordType) (id : Int) : ExceptT RequestError m (Option Record) :=
  store (RecordStore.get t id)

/-- Whether an attribute has to have a value when its record is saved. The store gives identities,
and binary content is written later. -/
def isRequired (a : Attribute) : Bool := !a.nullable && !a.isIdentity && a.kind != .blob

/-- Checks that a record has the values it needs. -/
def checkRequired (r : Record) : Except RequestError Unit :=
  match (r.type.attributes.zip r.values).find? fun (a, v) => isRequired a && v.isNull with
  | some (a, _) => .error (.badRequest s!"{r.type.name}.{a.name} is required")
  | none => .ok ()

/-- Saves a record: as a new one when it has no identity, and otherwise in place of the stored one.
-/
def save (r : Record) : ExceptT RequestError m Record := do
  ExceptT.mk (pure (checkRequired r))
  match r.id with
  | none => store (RecordStore.insert r)
  | some _ => store (RecordStore.update r)

/-- Removes the record with an identity. -/
def remove (t : RecordType) (id : Int) : ExceptT RequestError m Unit :=
  store (RecordStore.delete t id)

/-- A copy of a stored record without an identity. -/
def duplicate (t : RecordType) (id : Int) : ExceptT RequestError m (Option Record) := do
  return (← findById t id).map Record.duplicate

end RecordService.Records
