import RecordService.Database.Session

/-!
# Binary content in the database

Content is written inside a transaction that locks its row: the chunks go to a staging table and are
put together at the end. Content is read piece by piece inside a transaction that sees one state of
the database.

* `RecordService.ContentWriter`: content being written.
* `RecordService.ContentReader`: content being read.
* `RecordService.ContentReader.read`: reads some bytes, asking the database only if it has to.
* `RecordService.ContentReader.drain`: reads all the rest.
-/

namespace RecordService

/-! ### Writing -/

/-- Content that is being written: `sequence` is the number of chunks so far and `written` the
number of their bytes. -/
structure ContentWriter where
  type : RecordType
  column : String
  id : Int
  sequence : Nat := 0
  written : Nat := 0

namespace ContentWriter

/-- Writes a chunk. The empty chunk is not sent. -/
def write (w : ContentWriter) (chunk : Bytes) : ExceptT StorageError Session ContentWriter :=
  if chunk.isEmpty then return w
  else do
    let _ ← Session.query (Sql.stageChunk w.sequence chunk) Reply.count
    return { w with sequence := w.sequence + 1, written := w.written + chunk.length }

/-- Makes the chunks the content of the column, and gives the number of their bytes. -/
def commit (w : ContentWriter) : ExceptT StorageError Session Nat := do
  let _ ← Session.query (Sql.assemble w.type w.column w.id) Reply.count
  let _ ← Session.query Sql.commit Reply.count
  return w.written

end ContentWriter

/-! ### Reading -/

/-- Content that is being read: of its `length` bytes, `offset` have been received, and of those the
`buffer` has not been handed out. -/
structure ContentReader where
  type : RecordType
  column : String
  id : Int
  length : Nat
  offset : Nat := 0
  buffer : Bytes := []

namespace ContentReader

/-- The most bytes that are asked for at once. -/
def maxChunk : Nat := 65536

/-- The number of bytes to ask for next. -/
def want (r : ContentReader) : Nat := min (r.length - r.offset) maxChunk

/-- The statement that asks for the next bytes. -/
def request (r : ContentReader) : Sql.Statement :=
  Sql.contentChunk r.type r.column (r.offset + 1) r.want r.id

/-- The bytes of a reply, none for `null`. -/
def chunkOf (reply : Reply) : Except StorageError Bytes :=
  match reply.first >>= fun row => Column.bytes.readOptional row 0 with
  | .ok chunk => .ok (chunk.getD [])
  | .error e => .error (.io e.message)

/-- The reader with a chunk received. The empty chunk ends the content. -/
def receive (r : ContentReader) (chunk : Bytes) : ContentReader :=
  { r with
    offset := if chunk.isEmpty then r.length else r.offset + chunk.length
    buffer := chunk }

/-- Every chunk brings the end nearer. -/
theorem remaining_receive (r : ContentReader) (chunk : Bytes) (h : r.offset < r.length) :
    (r.receive chunk).length - (r.receive chunk).offset < r.length - r.offset := by
  unfold receive
  cases chunk with
  | nil => simp only [List.isEmpty_nil, if_true]; omega
  | cons b bs =>
    simp only [List.isEmpty_cons, List.length_cons, Bool.false_eq_true, if_false]
    omega

/-- Hands out at most `room` bytes of the buffer. -/
def handOut (r : ContentReader) (room : Nat) : Except StorageError Bytes × ContentReader :=
  (.ok (r.buffer.take room), { r with buffer := r.buffer.drop room })

/-- Reads at most `room` bytes. The database is asked when the buffer is empty and the content not
at its end. -/
def read (r : ContentReader) (room : Nat) :
    Session (Except StorageError Bytes × ContentReader) :=
  if r.buffer.isEmpty ∧ r.offset < r.length then
    .send r.request fun reply =>
      match chunkOf reply with
      | .ok chunk => .done ((r.receive chunk).handOut room)
      | .error e => .done (.error e, r)
  else .done (r.handOut room)

/-- Reads all the rest. -/
def drain (r : ContentReader) : Session (Except StorageError Bytes) :=
  if _h : r.offset < r.length then
    .send r.request fun reply =>
      match chunkOf reply with
      | .ok chunk => do
        let rest ← (r.receive chunk).drain
        return rest.map fun bytes => r.buffer ++ bytes
      | .error e => .done (.error e)
  else .done (.ok r.buffer)
termination_by r.length - r.offset
decreasing_by exact remaining_receive r chunk _h

end ContentReader

end RecordService
