import RecordService.Sql.DataType
import RecordService.Sql.Piece

/-!
# Arguments on the wire

Arguments of statements are sent in the binary format of the database, each with the name of its
type.

* `RecordService.Sql.Bound`: an argument as one of the types of the database.
* `RecordService.Sql.Bound.encode`: its bytes.
-/

namespace RecordService.Sql

/-- An argument as one of the types of the database. -/
inductive Bound where
  | null
  | boolean (b : Bool)
  | integer (n : Int)
  | decimal (d : Decimal)
  | text (s : String)
  | timestamp (t : DateTime)
  | content (bytes : Bytes)
deriving DecidableEq

namespace Bound

/-- A value as an argument. The length of binary content is never written, so it is sent as `null`.
-/
def ofValue : Value → Bound
  | .null => null
  | .boolean b => boolean b
  | .integer n => integer n
  | .reference n => integer n
  | .decimal d => decimal d
  | .text s => text s
  | .dateTime t => timestamp t
  | .blob _ => null

/-- An argument of a statement. -/
def ofArgument : Argument → Bound
  | .value v => ofValue v
  | .content bytes => content bytes

/-- The type that is sent. A `null` is sent as text. -/
def type : Bound → DataType
  | null => .text
  | boolean _ => .boolean
  | integer _ => .integer
  | decimal _ => .decimal
  | text _ => .text
  | timestamp _ => .timestamp
  | content _ => .bytes

/-- Whether there is no value. -/
def isNull : Bound → Bool
  | null => true
  | _ => false

/-- The bytes that are sent. -/
def encode : Bound → Bytes
  | null => []
  | boolean b => [if b then 1 else 0]
  | integer n => Bytes.ofInteger n
  | decimal d => Bytes.bigEndian 8 d.bits
  | text s => Bytes.ofText s
  | timestamp t => Bytes.ofInteger t.epochMicros
  | content bytes => bytes

/-- The type that arguments declare where no value is at hand. -/
def declaredType : DataType := .text

/-- Whether an argument may stand where a type of the database is expected: always, since statements
cast their placeholders. -/
def compatible (_ : DataType) : Bool := true

end Bound

end RecordService.Sql
