import RecordService.Sql.Condition

/-!
# The statements of the database store

Every operation of the store is one statement or a few of them. Records are read with every column
cast to the type of its kind, and binary columns as their length. Binary content is written in
pieces to a staging table of the transaction and assembled at the end, and it is read in pieces.

* `RecordService.Sql.select`, `RecordService.Sql.count`, `RecordService.Sql.selectById`,
  `RecordService.Sql.insert`, `RecordService.Sql.update`, `RecordService.Sql.delete`: records.
* `RecordService.Sql.lockRow`, `RecordService.Sql.stageChunk`, `RecordService.Sql.assemble`,
  `RecordService.Sql.contentLength`, `RecordService.Sql.contentChunk`: binary content.
-/

namespace RecordService.Sql

/-! ### Tables and columns -/

/-- The table of a record type. -/
def tableName (t : RecordType) : List Piece := [.name t.space, .fixed ".", .name t.table]

/-- The column of an attribute in a list of columns that are read. -/
def readColumn (a : Attribute) : List Piece :=
  if a.kind = .blob then
    [.fixed "octet_length(", .name a.name, .fixed ")::int8 AS ", .name a.name]
  else [.name a.name, .fixed ("::" ++ cast a.kind ++ " AS "), .name a.name]

/-- All columns of a record type, in the order of the attributes. -/
def readColumns (t : RecordType) : List Piece :=
  separated [.fixed ", "] (t.attributes.map readColumn)

/-- Whether statements write an attribute: the database assigns identities, and binary content goes
its own way. -/
def isWritten (a : Attribute) : Bool := !a.isIdentity && a.kind != .blob

/-- The attributes of a record that statements write, with their values. -/
def writtenValues (r : Record) : List (Attribute × Value) :=
  (r.type.attributes.zip r.values).filter (isWritten ·.1)

/-- The condition that the identity is the argument with number `n`. -/
def byIdentity (n : Nat) : List Piece :=
  [.fixed " WHERE ", .name Schema.identityName, .fixed " = ", .placeholder n]

/-- An identity as an argument. -/
def identityArgument (id : Int) : Argument := .value (.integer id)

/-! ### Records -/

/-- Reads the records of a selection. -/
def select (t : RecordType) (s : Selection) : Statement where
  pieces := .fixed "SELECT " :: readColumns t ++ .fixed " FROM " :: tableName t ++
    whereClause s.filter ++ orderClause s.order ++ windowClause s.skip s.top
  arguments := whereArguments s.filter

/-- Counts the records that pass a filter. -/
def count (t : RecordType) (f : Option Filter) : Statement where
  pieces := .fixed "SELECT COUNT(*) FROM " :: tableName t ++ whereClause f
  arguments := whereArguments f

/-- Reads the record with an identity. -/
def selectById (t : RecordType) (id : Int) : Statement where
  pieces := .fixed "SELECT " :: readColumns t ++ .fixed " FROM " :: tableName t ++ byIdentity 1
  arguments := [identityArgument id]

/-- Writes a new record and reads it back. -/
def insert (r : Record) : Statement :=
  let written := writtenValues r
  let returning := .fixed " RETURNING " :: readColumns r.type
  let into := .fixed "INSERT INTO " :: tableName r.type
  if written.isEmpty then { pieces := into ++ .fixed " DEFAULT VALUES" :: returning }
  else
    { pieces := into ++ .fixed " (" ::
        separated [.fixed ", "] (written.map fun w => [.name w.1.name]) ++ .fixed ") VALUES (" ::
        separated [.fixed ", "] (written.mapIdx fun i w => typed (i + 1) w.1.kind) ++
        .fixed ")" :: returning
      arguments := written.map (.value ·.2) }

/-- Writes the record with an identity anew and reads it back. Without any column to write it is
only read. -/
def update (r : Record) (id : Int) : Statement :=
  let written := writtenValues r
  if written.isEmpty then selectById r.type id
  else
    { pieces := .fixed "UPDATE " :: tableName r.type ++ .fixed " SET " ::
        separated [.fixed ", "]
          (written.mapIdx fun i w => .name w.1.name :: .fixed " = " :: typed (i + 1) w.1.kind) ++
        byIdentity (written.length + 1) ++ .fixed " RETURNING " :: readColumns r.type
      arguments := written.map (.value ·.2) ++ [identityArgument id] }

/-- Removes the record with an identity. -/
def delete (t : RecordType) (id : Int) : Statement where
  pieces := .fixed "DELETE FROM " :: tableName t ++ byIdentity 1
  arguments := [identityArgument id]

/-! ### Transactions -/

/-- Starts a transaction. -/
def start : Statement where
  pieces := [.fixed "BEGIN"]

/-- Makes a transaction see one state of the database throughout. -/
def repeatableRead : Statement where
  pieces := [.fixed "SET TRANSACTION ISOLATION LEVEL REPEATABLE READ"]

/-- Ends a transaction and keeps its effects. -/
def commit : Statement where
  pieces := [.fixed "COMMIT"]

/-! ### Binary content -/

/-- Locks the record whose content is about to be written. -/
def lockRow (t : RecordType) (id : Int) : Statement where
  pieces := .fixed "SELECT 1 FROM " :: tableName t ++ byIdentity 1 ++ [.fixed " FOR UPDATE"]
  arguments := [identityArgument id]

/-- Creates the staging table, which lasts as long as the transaction. -/
def stageCreate : Statement where
  pieces := [.fixed ("CREATE TEMP TABLE entity_rest_blob_stage " ++
    "(seq int8 PRIMARY KEY, chunk bytea NOT NULL) ON COMMIT DROP")]

/-- Stages the chunk with a sequence number. -/
def stageChunk (seq : Nat) (chunk : Bytes) : Statement where
  pieces := [.fixed "INSERT INTO pg_temp.entity_rest_blob_stage (seq, chunk) VALUES (",
    .placeholder 1, .fixed ", ", .placeholder 2, .fixed ")"]
  arguments := [.value (.integer seq), .content chunk]

/-- Writes the staged chunks as the content of a column. -/
def assemble (t : RecordType) (column : String) (id : Int) : Statement where
  pieces := .fixed "UPDATE " :: tableName t ++
    [.fixed " SET ", .name column,
      .fixed (" = COALESCE((SELECT string_agg(chunk, ''::bytea ORDER BY seq) " ++
        "FROM pg_temp.entity_rest_blob_stage), ''::bytea)")] ++ byIdentity 1
  arguments := [identityArgument id]

/-- Reads the length of the content of a column. -/
def contentLength (t : RecordType) (column : String) (id : Int) : Statement where
  pieces := [.fixed "SELECT octet_length(", .name column, .fixed ")::int8 FROM "] ++ tableName t ++
    byIdentity 1
  arguments := [identityArgument id]

/-- Reads `length` bytes of the content of a column, the first byte of the content being number one.
-/
def contentChunk (t : RecordType) (column : String) (offset length : Nat) (id : Int) :
    Statement where
  pieces := [.fixed "SELECT substring(", .name column, .fixed " FROM ", .placeholder 1,
    .fixed "::int4 FOR ", .placeholder 2, .fixed "::int4) FROM "] ++ tableName t ++ byIdentity 3
  arguments := [.value (.integer offset), .value (.integer length), identityArgument id]

/-- Reads how the database keeps the content of a column. -/
def storageMode (t : RecordType) (column : String) : Statement where
  pieces := [.fixed ("SELECT a.attstorage::text FROM pg_attribute a " ++
      "JOIN pg_class c ON a.attrelid = c.oid JOIN pg_namespace n ON c.relnamespace = n.oid " ++
      "WHERE n.nspname = "), .placeholder 1, .fixed " AND c.relname = ", .placeholder 2,
    .fixed " AND a.attname = ", .placeholder 3, .fixed " AND NOT a.attisdropped"]
  arguments := [.value (.text t.space), .value (.text t.table), .value (.text column)]

end RecordService.Sql
