import RecordService.Database.Content
import RecordService.Store.Basic

/-!
# The store in a database

Every operation of the store is a session. Rows of the database become records column by column, in
the order of the attributes.

* `RecordService.Database.decodeRow`: the record of a row.
* `RecordService.Database.checkStorage`: asks how the database keeps binary columns.
* The instance of `RecordService.RecordStore` for sessions.
-/

namespace RecordService.Database

/-- The record of a row. -/
def decodeRow (t : RecordType) (row : List Cell) : Except DatabaseError Record := do
  let values ← t.attributes.mapIdx (fun i a => (i, a.kind)) |>.mapM fun (i, k) =>
    (·.getD .null) <$> (Column.ofKind k).readOptional row i
  return Record.ofValues t values

/-- The record of the first row of a reply, if there is one. -/
def decodeFirst? (t : RecordType) (r : Reply) : Except DatabaseError (Option Record) := do
  match ← r.first? with
  | some row => some <$> decodeRow t row
  | none => return none

/-- No record of a type has this identity. -/
def missing (t : RecordType) (id : Int) : StorageError := .missingRecord t.name id

/-- The number in the first row of a reply; no row and negative numbers count as zero. -/
def decodeCount (r : Reply) : Except DatabaseError Nat := do
  match ← r.first? with
  | some row => Int.toNat <$> Column.integer.readRequired row 0
  | none => return 0

/-- Checks that an attribute holds binary content. -/
def requireBlob (t : RecordType) (name : String) : ExceptT StorageError Session Unit :=
  if (t.blobIndex? name).isSome then pure () else throw (.notBlob t.name name)

/-- Replaces the values of a stored record. -/
def update (r : Record) : ExceptT StorageError Session Record :=
  match r.id with
  | none => throw .noIdentity
  | some id => do
    match ← Session.query (Sql.update r id) (decodeFirst? r.type) with
    | some saved => return saved
    | none => throw (missing r.type id)

/-- Starts to write binary content: locks the row and creates the staging table. -/
def openSink (t : RecordType) (id : Int) (name : String) :
    ExceptT StorageError Session ContentWriter := do
  requireBlob t name
  let _ ← Session.query Sql.start Reply.count
  match ← Session.query (Sql.lockRow t id) Reply.first? with
  | none => throw (missing t id)
  | some _ =>
    let _ ← Session.query Sql.stageCreate Reply.count
    return { type := t, column := name, id }

/-- Starts to read binary content, unless there is none. -/
def openSource (t : RecordType) (id : Int) (name : String) :
    ExceptT StorageError Session (Option ContentReader) := do
  requireBlob t name
  let _ ← Session.query Sql.start Reply.count
  let _ ← Session.query Sql.repeatableRead Reply.count
  let length ← Session.query (Sql.contentLength t name id) fun r => do
    match ← r.first? with
    | some row => some <$> Column.integer.readOptional row 0
    | none => return none
  match length with
  | none => throw (missing t id)
  | some none => return none
  | some (some n) => return some { type := t, column := name, id, length := n.toNat }

instance : RecordStore Session where
  Sink := ContentWriter
  Source := ContentReader
  select t s := Session.query (Sql.select t s) fun r => r.rows? >>= (·.mapM (decodeRow t))
  count t f := Session.query (Sql.count t f) decodeCount
  get t id := Session.query (Sql.selectById t id) (decodeFirst? t)
  insert r := Session.query (Sql.insert r) fun reply => reply.first >>= decodeRow r.type
  update := update
  delete t id := do
    let n ← Session.query (Sql.delete t id) Reply.count
    if n = 0 then throw (missing t id)
  openSink := openSink
  write := ContentWriter.write
  commit := ContentWriter.commit
  openSource := openSource
  read := ContentReader.read
  drain := ContentReader.drain

/-- Asks for every binary column how the database keeps it. The answers only matter to the log, but
they have to be readable. -/
def checkStorage (r : Registry) : ExceptT StorageError Session Unit :=
  r.types.forM fun t => t.attributes.forM fun a => do
    if a.kind = .blob then
      let _ ← Session.query (Sql.storageMode t a.name) fun reply => do
        match ← reply.first? with
        | some row => some <$> Column.text.readRequired row 0
        | none => return none

end RecordService.Database
