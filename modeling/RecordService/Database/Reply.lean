import RecordService.Bytes
import RecordService.Error
import RecordService.Value

/-!
# Replies of a database

A database answers a statement with rows or with the number of rows that it changed, unless the
statement fails. Rows are read column by column, and every column must have the type that its reader
needs.

* `RecordService.Cell`: what a place of a row holds.
* `RecordService.Reply`: what a database answers.
* `RecordService.Column`: how the cells of a column are read.
-/

namespace RecordService

/-! ### Rows and replies -/

/-- A cell of a row that the database sends. -/
inductive Cell where
  | null
  | integer (n : Int)
  | decimal (d : Decimal)
  | text (s : String)
  | boolean (b : Bool)
  | dateTime (t : DateTime)
  | bytes (b : Bytes)
deriving DecidableEq

/-- The answer to a statement. -/
inductive Reply where
  /-- Some rows. -/
  | rows (rows : List (List Cell))
  /-- No rows, but a number of rows that the statement changed. -/
  | affected (n : Nat)
  /-- The statement failed. -/
  | failed (text : String)
deriving DecidableEq

namespace Reply

/-- The rows of a reply. -/
def rows? : Reply → Except DatabaseError (List (List Cell))
  | rows rs => .ok rs
  | affected _ => .ok []
  | failed text => .error (.reported text)

/-- The first row of a reply, if it has one. -/
def first? (r : Reply) : Except DatabaseError (Option (List Cell)) := List.head? <$> r.rows?

/-- The first row of a reply, which must have one. -/
def first (r : Reply) : Except DatabaseError (List Cell) :=
  r.first? >>= fun
    | some row => .ok row
    | none => .error .rowNotFound

/-- The number of rows that a statement changed. -/
def count : Reply → Except DatabaseError Nat
  | rows rs => .ok rs.length
  | affected n => .ok n
  | failed text => .error (.reported text)

end Reply

/-! ### Columns -/

namespace Cell

/-- The type of the column that a cell stands in. A cell that is `null` does not show it. -/
def type? : Cell → Option Sql.DataType
  | null => none
  | integer _ => some .integer
  | decimal _ => some .decimal
  | text _ => some .text
  | boolean _ => some .boolean
  | dateTime _ => some .timestamp
  | bytes _ => some .bytes

/-- The value of a kind in a cell. Of binary content, rows hold the length. -/
def value? : Kind → Cell → Option Value
  | .integer, integer n => some (.integer n)
  | .reference, integer n => some (.reference n)
  | .decimal, decimal d => some (.decimal d)
  | .text, text s => some (.text s)
  | .boolean, boolean b => some (.boolean b)
  | .dateTime, dateTime t => some (.dateTime t)
  | .blob, integer n => some (.blob n.toNat)
  | _, _ => none

end Cell

/-- How the cells of a column are read: the type that they must have, and what a cell of this type
gives. -/
structure Column (α : Type) where
  type : Sql.DataType
  read : Cell → Option α

namespace Column

/-- A column of integers. -/
def integer : Column Int where
  type := .integer
  read
    | .integer n => some n
    | _ => none

/-- A column of texts. -/
def text : Column String where
  type := .text
  read
    | .text s => some s
    | _ => none

/-- A column of bytes. -/
def bytes : Column Bytes where
  type := .bytes
  read
    | .bytes b => some b
    | _ => none

/-- A column of values of a kind. -/
def ofKind (k : Kind) : Column Value := ⟨.ofKind k, Cell.value? k⟩

variable {α : Type}

/-- What the column reads in place `i` of a row. A cell of another type is an error, and `null` is
of every type. Where a value is needed, the cell is not `optional`. -/
def cell? (c : Column α) (optional : Bool) (row : List Cell) (i : Nat) :
    Except DatabaseError (Option α) :=
  match row[i]? with
  | none => .error (.columnOutOfBounds i row.length)
  | some cell =>
    match cell.type?, c.read cell with
    | none, _ => .ok none
    | some _, some a => .ok (some a)
    | some found, none => .error (.columnDecode i (.mismatch c.type optional found))

/-- What the column reads in a place of a row that may be `null`. -/
def readOptional (c : Column α) (row : List Cell) (i : Nat) : Except DatabaseError (Option α) :=
  c.cell? true row i

/-- What the column reads in a place of a row that must not be `null`. -/
def readRequired (c : Column α) (row : List Cell) (i : Nat) : Except DatabaseError α :=
  c.cell? false row i >>= fun
    | some a => .ok a
    | none => .error (.columnDecode i .noValue)

end Column

end RecordService
