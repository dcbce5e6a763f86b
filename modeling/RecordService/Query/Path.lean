import RecordService.Error
import RecordService.Schema.Registry

/-!
# Names that clients use

Clients name record types by their entities and properties by paths. A path with several segments
would lead through references; only paths of one segment lead anywhere.

* `RecordService.Registry.resolve`: the record type of an entity.
* `RecordService.Path`: a property of a record type, by position.
* `RecordService.Path.resolve`: the property that a path names.
-/

namespace RecordService

/-- The record type of the entity that a client names. -/
def Registry.resolve (r : Registry) (name : String) : Except RequestError RecordType :=
  match r.find? name with
  | some t => .ok t
  | none => .error (.unknownEntity name)

/-- A property of a record type. -/
structure Path where
  entity : String
  name : String
  /-- The position of the attribute in its record type, and so in records. -/
  index : Nat
  kind : Kind
deriving DecidableEq

namespace Path

/-- The characters that separate the segments of a path. -/
def isSeparator (c : Char) : Bool := c == '/' || c == '.'

/-- Whether a path has exactly one segment. -/
def isSegment (s : String) : Bool := !s.isEmpty && !s.toList.any isSeparator

/-- The property of a record type that a path names. -/
def resolve (t : RecordType) (s : String) : Except RequestError Path :=
  let found := do
    let i ← if isSegment s then t.index? s else none
    let a ← t.attributes[i]?
    some ⟨t.name, a.name, i, a.kind⟩
  match found with
  | some p => .ok p
  | none => .error (.unresolvable t.name s)

end Path

end RecordService
