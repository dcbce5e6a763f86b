import RecordService.Json.Basic
import RecordService.Schema.Error
import RecordService.Sql.DataType

/-!
# Errors of stores and requests

A store can fail on its own account; a request can fail in more ways, most of them the client's.

* `RecordService.DatabaseError`: failures of a conversation with a database.
* `RecordService.StorageError`: failures of a store.
* `RecordService.RequestError`: failures of a request.
* `RecordService.RequestError.message`, `RecordService.RequestError.code`: their wording, and the
  stable name that clients may rely on.
-/

namespace RecordService

/-! ### Stores -/

/-- Why a cell cannot be read. -/
inductive CellFault where
  /-- The column has the type `found`, but `expected` was needed. Where the cell is `optional`, it
  could have been `null`. -/
  | mismatch (expected : Sql.DataType) (optional : Bool) (found : Sql.DataType)
  /-- The cell is `null`, but a value was needed. -/
  | noValue
deriving DecidableEq

/-- The wording for a cell that cannot be read. -/
def CellFault.message : CellFault → String
  | mismatch expected optional found =>
    let value := expected.valueName
    let value := if optional then s!"core::option::Option<{value}>" else value
    let wanted := s!"Rust type `{value}` (as SQL type `{expected.name}`)"
    s!"mismatched types; {wanted} is not compatible with SQL type `{found.name}`"
  | noValue => "unexpected null; try decoding as an `Option`"

/-- A failure of a conversation with a database. -/
inductive DatabaseError where
  /-- The database reports an error. -/
  | reported (text : String)
  /-- A row was expected and none came. -/
  | rowNotFound
  /-- A cell of a row cannot be read. -/
  | columnDecode (column : Nat) (fault : CellFault)
  /-- A row has too few columns. -/
  | columnOutOfBounds (column count : Nat)
deriving DecidableEq

/-- The wording of a database failure. -/
def DatabaseError.message : DatabaseError → String
  | reported text => s!"error returned from database: {text}"
  | rowNotFound => "no rows returned by a query that expected to return at least one row"
  | columnDecode column fault =>
    s!"error occurred while decoding column {Text.natural column}: {fault.message}"
  | columnOutOfBounds column count =>
    let place := s!"the len is {Text.natural count}, but the index is {Text.natural column}"
    s!"column index out of bounds: {place}"

/-- A failure of a store. -/
inductive StorageError where
  | io (text : String)
  | database (e : DatabaseError)
  | missingRecord (entity : String) (id : Int)
  | poisoned
  | runtime (text : String)
deriving DecidableEq

namespace StorageError

/-- Binary content was asked for at an attribute that has none. -/
def notBlob (entity property : String) : StorageError :=
  .io s!"{entity}.{property} is not a blob attribute"

/-- A record without an identity was to be updated. -/
def noIdentity : StorageError := .io "update without identity"

/-- The wording of a failure. -/
def message : StorageError → String
  | io text => s!"i/o: {text}"
  | database e => s!"database: {e.message}"
  | missingRecord entity id => s!"no {entity} with Id {Text.integer id}"
  | poisoned => "store lock poisoned"
  | runtime text => s!"runtime: {text}"

end StorageError

/-! ### Requests -/

/-- A failure of a request. -/
inductive RequestError where
  | schema (e : SchemaError)
  | unknownEntity (name : String)
  | unresolvable (entity path : String)
  /-- A filter that cannot be read; `fragment` is the place in it. -/
  | malformedFilter (text fragment : String)
  /-- An order that cannot be read; `fragment` is the place in it. -/
  | malformedOrder (text fragment : String)
  | malformedRequest (text : String)
  /-- A text that is no value of the kind of a property. -/
  | typeMismatch (property : String) (expected : Kind) (value : String)
  | notFound (text : String)
  | badRequest (text : String)
  | unsupported (text : String)
  | storage (e : StorageError)
deriving DecidableEq

namespace RequestError

/-- The wording of a failure. -/
def message : RequestError → String
  | schema e => e.message
  | unknownEntity name => s!"unknown entity set: {name}"
  | unresolvable entity path => s!"entity {entity} has no property {path}"
  | malformedFilter text fragment => s!"malformed filter: {text} near '{fragment}'"
  | malformedOrder text fragment => s!"malformed order: {text} near '{fragment}'"
  | malformedRequest text => s!"malformed request: {text}"
  | typeMismatch property expected value =>
    s!"type mismatch: '{value}' is not a valid {expected.name} value for {property}"
  | notFound text => s!"not found: {text}"
  | badRequest text => s!"bad request: {text}"
  | unsupported text => s!"unsupported: {text}"
  | storage e => s!"storage failure: {e.message}"

/-- The stable name of a failure. -/
def code : RequestError → String
  | schema _ => "config_error"
  | unknownEntity _ => "unknown_entity"
  | unresolvable _ _ => "unresolvable_attribute"
  | malformedFilter _ _ => "malformed_filter"
  | malformedOrder _ _ => "malformed_order"
  | malformedRequest _ => "malformed_request"
  | typeMismatch _ _ _ => "type_mismatch"
  | notFound _ => "not_found"
  | badRequest _ => "bad_request"
  | unsupported _ => "unsupported"
  | storage _ => "storage_failure"

/-- No record of an entity has this identity. -/
def noRecord (entity : String) (id : Int) : RequestError :=
  .notFound s!"no {entity} with Id {Text.integer id}"

/-- The failure of a request whose store failed. -/
def ofStorage : StorageError → RequestError
  | .missingRecord entity id => noRecord entity id
  | e => .storage e

/-- What is said about a failure beside its wording, by name. -/
def details : RequestError → Option Json
  | malformedFilter _ fragment => some (.object [("fragment", .string fragment)])
  | malformedOrder _ fragment => some (.object [("fragment", .string fragment)])
  | unresolvable entity path =>
    some (.object [("entity", .string entity), ("property", .string path)])
  | _ => none

/-- A failure as a document. -/
def toJson (e : RequestError) : Json :=
  let parts := [("code", .string e.code), ("message", .string e.message)]
  let parts := match e.details with
    | some d => parts ++ [("details", d)]
    | none => parts
  .object [("error", .object parts)]

end RequestError

end RecordService
