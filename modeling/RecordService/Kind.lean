/-!
# Kinds of values

Every attribute of an entity has one of seven kinds.

* `RecordService.Kind`: the kinds.
* `RecordService.Kind.name`, `RecordService.Kind.ofName?`: their names in documents and messages.
-/

namespace RecordService

/-- What the values of an attribute are. -/
inductive Kind where
  | integer
  | decimal
  | text
  | boolean
  | dateTime
  /-- Binary content, which is kept apart from the record. -/
  | blob
  /-- The identity of a record of another entity. -/
  | reference
deriving DecidableEq, Repr

namespace Kind

/-- The name of a kind. -/
def name : Kind → String
  | integer => "integer"
  | decimal => "decimal"
  | text => "text"
  | boolean => "boolean"
  | dateTime => "datetime"
  | blob => "blob"
  | reference => "reference"

/-- All kinds. -/
def all : List Kind := [integer, decimal, text, boolean, dateTime, blob, reference]

/-- The kind with a name. -/
def ofName? (s : String) : Option Kind := all.find? (·.name == s)

theorem ofName?_name (k : Kind) : ofName? k.name = some k := by
  cases k <;> decide

end Kind

end RecordService
