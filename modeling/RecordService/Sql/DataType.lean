import RecordService.Kind

/-!
# Types of the database

Columns of the database have types of its own. Several kinds of values may be kept in one type.

* `RecordService.Sql.DataType`: the types.
* `RecordService.Sql.DataType.ofKind`: the type of the column that rows have for an attribute.
-/

namespace RecordService.Sql

/-- A type of the database. -/
inductive DataType where
  | integer
  | decimal
  | text
  | boolean
  | timestamp
  | bytes
deriving DecidableEq

namespace DataType

/-- The name of a type. -/
def name : DataType → String
  | integer => "INT8"
  | decimal => "FLOAT8"
  | text => "TEXT"
  | boolean => "BOOL"
  | timestamp => "TIMESTAMP"
  | bytes => "BYTEA"

/-- The name under which messages speak of the values that are read from a column of a type. -/
def valueName : DataType → String
  | integer => "i64"
  | decimal => "f64"
  | text => "alloc::string::String"
  | boolean => "bool"
  | timestamp => "chrono::naive::datetime::NaiveDateTime"
  | bytes => "alloc::vec::Vec<u8>"

/-- The type of the column that rows have for an attribute of a kind. Of binary content, rows hold
the length. -/
def ofKind : Kind → DataType
  | .integer => integer
  | .decimal => decimal
  | .text => text
  | .boolean => boolean
  | .dateTime => timestamp
  | .blob => integer
  | .reference => integer

end DataType

end RecordService.Sql
