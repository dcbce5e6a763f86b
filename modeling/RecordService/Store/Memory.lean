import RecordService.Store.Basic

/-!
# The store in memory

Every entity has a table. A table keeps its rows in the order of their identities and remembers the
last identity that it gave away, so that none is given twice.

* `RecordService.Memory`: the state of the store.
* `RecordService.Memory.insert`, `RecordService.Memory.update`, `RecordService.Memory.delete`,
  `RecordService.Memory.commit`: the operations that change it.
-/

namespace RecordService

/-- A stored record: its values, and the binary content by the positions of the attributes. -/
structure Row where
  values : List Value
  contents : List (Option Bytes)
deriving DecidableEq

/-- The rows of an entity by identity, in ascending order, and the last identity given away. -/
structure Table where
  lastId : Int := 0
  rows : List (Int × Row) := []
deriving DecidableEq

namespace Table

/-- The row with an identity. -/
def row? (t : Table) (id : Int) : Option Row := t.rows.lookup id

/-- The table with the row of an identity changed. -/
def modify (t : Table) (id : Int) (f : Row → Row) : Table :=
  { t with rows := t.rows.map fun (i, r) => if i = id then (i, f r) else (i, r) }

/-- The table with a new row, whose content depends on its identity. -/
def append (t : Table) (f : Int → Row) : Table where
  lastId := t.lastId + 1
  rows := t.rows ++ [(t.lastId + 1, f (t.lastId + 1))]

/-- The table without the row of an identity. -/
def erase (t : Table) (id : Int) : Table := { t with rows := t.rows.filter (·.1 != id) }

end Table

/-- A sink of the store in memory. What is written is kept apart until it is committed. -/
structure MemorySink where
  entity : String
  id : Int
  /-- The position of the attribute. -/
  index : Nat
  /-- The chunks so far, the last one first. -/
  chunks : List Bytes := []

namespace MemorySink

/-- The sink with some more bytes. -/
def write (s : MemorySink) (chunk : Bytes) : MemorySink := { s with chunks := chunk :: s.chunks }

/-- All bytes so far. -/
def staged (s : MemorySink) : Bytes := s.chunks.reverse.flatten

@[simp] theorem staged_write (s : MemorySink) (chunk : Bytes) :
    (s.write chunk).staged = s.staged ++ chunk := by
  simp [staged, write]

end MemorySink

/-- The state of the store: the tables of the entities that have one. -/
structure Memory where
  tables : List (String × Table) := []

namespace Memory

/-- The table of an entity, which is empty as long as nothing was stored. -/
def table (m : Memory) (entity : String) : Table := (m.tables.lookup entity).getD {}

/-- The tables with another table of an entity. -/
def replace (entity : String) (t : Table) : List (String × Table) → List (String × Table)
  | [] => [(entity, t)]
  | (e, u) :: ts => if e = entity then (entity, t) :: ts else (e, u) :: replace entity t ts

/-- The state with another table of an entity. -/
def withTable (m : Memory) (entity : String) (t : Table) : Memory := ⟨replace entity t m.tables⟩

/-- Looking up a table after replacing one. -/
theorem lookup_replace (entity e : String) (t : Table) (ts : List (String × Table)) :
    (replace entity t ts).lookup e = if e = entity then some t else ts.lookup e := by
  fun_induction replace entity t ts with
  | case1 =>
    by_cases h : e = entity
    · simp [h]
    · simp [List.lookup_cons, h, beq_false_of_ne h]
  | case2 u ts =>
    by_cases h : e = entity
    · simp [h]
    · simp [List.lookup_cons, h, beq_false_of_ne h]
  | case3 e' u ts hne ih =>
    by_cases h : e = e'
    · subst h
      simp [hne]
    · simp [List.lookup_cons, beq_false_of_ne h, ih]

/-- Only the replaced table is another one, and it is found where it was put. -/
theorem table_withTable (m : Memory) (entity e : String) (t : Table) :
    (m.withTable entity t).table e = if e = entity then t else m.table e := by
  unfold table withTable
  rw [lookup_replace]
  split <;> rfl

/-! ### Reading -/

/-- The records of a selection: those that pass the filter, sorted, and of these a window. Rows that
the order does not tell apart stay in the order of their identities. -/
def select (m : Memory) (t : RecordType) (s : Selection) : List Record :=
  let rows := (m.table t.name).rows.map (·.2.values)
  let sorted := (rows.filter (passes s.filter)).mergeSort fun a b => (s.order.compare a b).isLE
  (window s.skip s.top sorted).map (Record.ofValues t)

/-- The number of records that pass a filter. -/
def count (m : Memory) (t : RecordType) (f : Option Filter) : Nat :=
  (m.table t.name).rows.countP fun r => passes f r.2.values

/-- The row of a record. -/
def row? (m : Memory) (t : RecordType) (id : Int) : Option Row := (m.table t.name).row? id

/-- The record with an identity. -/
def get (m : Memory) (t : RecordType) (id : Int) : Option Record :=
  (m.row? t id).map fun r => Record.ofValues t r.values

/-! ### Changing -/

/-- The values of a new row: no binary content yet, and the identity just given. -/
def freshValues (r : Record) (id : Int) : List Value :=
  ((r.type.attributes.zip r.values).map fun (a, v) => if a.kind = .blob then .null else v).set
    r.type.identity (.integer id)

/-- Keeps a new record. -/
def insert (m : Memory) (r : Record) : Record × Memory :=
  let t := (m.table r.type.name).append fun id =>
    ⟨freshValues r id, List.replicate r.type.attributes.length none⟩
  (Record.ofValues r.type (freshValues r t.lastId), m.withTable r.type.name t)

/-- The values of a row after an update: those of the record, except where there is binary content.
-/
def mergedValues (t : RecordType) (stored given : List Value) : List Value :=
  (t.attributes.zip (stored.zip given)).map fun (a, old, new) => if a.kind = .blob then old else new

/-- Gives a stored record other values. -/
def update (m : Memory) (r : Record) : Except StorageError (Record × Memory) :=
  match r.id with
  | none => .error .noIdentity
  | some id =>
    match m.row? r.type id with
    | none => .error (.missingRecord r.type.name id)
    | some row =>
      let values := mergedValues r.type row.values r.values
      .ok (Record.ofValues r.type values,
        m.withTable r.type.name ((m.table r.type.name).modify id fun row => { row with values }))

/-- Removes a record. -/
def delete (m : Memory) (t : RecordType) (id : Int) : Except StorageError Memory :=
  if (m.row? t id).isSome then .ok (m.withTable t.name ((m.table t.name).erase id))
  else .error (.missingRecord t.name id)

/-! ### Binary content -/

/-- The position of a binary attribute. -/
def blobIndex (t : RecordType) (name : String) : Except StorageError Nat :=
  match t.blobIndex? name with
  | some i => .ok i
  | none => .error (.notBlob t.name name)

/-- A sink for a binary attribute of a stored record. -/
def openSink (m : Memory) (t : RecordType) (id : Int) (name : String) :
    Except StorageError MemorySink := do
  let index ← blobIndex t name
  if (m.row? t id).isSome then .ok { entity := t.name, id, index }
  else .error (.missingRecord t.name id)

/-- Puts the content of a sink in place. The record must still be there. -/
def commit (m : Memory) (s : MemorySink) : Except StorageError (Nat × Memory) :=
  let t := m.table s.entity
  let content := s.staged
  if (t.row? s.id).isSome then
    .ok (content.length, m.withTable s.entity (t.modify s.id fun row =>
      { values := row.values.set s.index (.blob content.length)
        contents := row.contents.set s.index (some content) }))
  else .error (.missingRecord s.entity s.id)

/-- The content of a binary attribute of a stored record, if it has any. -/
def content (m : Memory) (t : RecordType) (id : Int) (name : String) :
    Except StorageError (Option Bytes) := do
  let index ← blobIndex t name
  match m.row? t id with
  | some row => .ok (row.contents.getD index none)
  | none => .error (.missingRecord t.name id)

/-! ### The operations of a store -/

/-- An operation that may change the state; it stays as it was when the operation fails. -/
def change {α : Type} (f : Memory → Except StorageError (α × Memory)) :
    ExceptT StorageError (StateM Memory) α := fun m =>
  match f m with
  | .ok (a, m') => (.ok a, m')
  | .error e => (.error e, m)

/-- An operation that only looks at the state. -/
def inspect {α : Type} (f : Memory → Except StorageError α) :
    ExceptT StorageError (StateM Memory) α :=
  fun m => (f m, m)

instance : RecordStore (StateM Memory) where
  Sink := MemorySink
  Source := Bytes
  select t s := inspect fun m => .ok (m.select t s)
  count t f := inspect fun m => .ok (m.count t f)
  get t id := inspect fun m => .ok (m.get t id)
  insert r := change fun m => .ok (m.insert r)
  update r := change fun m => m.update r
  delete t id := change fun m => (m.delete t id).map ((), ·)
  openSink t id name := inspect fun m => m.openSink t id name
  write s chunk := inspect fun _ => .ok (s.write chunk)
  commit s := change fun m => m.commit s
  openSource t id name := inspect fun m => m.content t id name
  read s n := fun m => ((.ok (s.take n), s.drop n), m)
  drain s := inspect fun _ => .ok s

end Memory

end RecordService
