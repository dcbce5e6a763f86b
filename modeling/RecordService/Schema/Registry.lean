import RecordService.Schema.Rules

/-!
# Record types

A valid schema document gives a registry of record types. A record type knows its table and its
attributes in declared order; records hold their values in that order.

* `RecordService.RecordType`: a record type.
* `RecordService.Registry`: the record types of a schema.
* `RecordService.Registry.ofDocument`: the registry of a document, or its first fault.
-/

namespace RecordService

/-- An attribute of a record type. -/
structure Attribute where
  name : String
  kind : Kind
  nullable : Bool
  /-- The attribute with the file name, of a blob attribute. -/
  sidecar : Option String
  /-- The entity pointed at, of a reference. -/
  target : Option String
deriving DecidableEq

/-- Whether an attribute identifies its record. -/
def Attribute.isIdentity (a : Attribute) : Bool := a.name == Schema.identityName

/-- A type of records. -/
structure RecordType where
  /-- The entity. -/
  name : String
  /-- The database schema of the table. -/
  space : String
  table : String
  attributes : List Attribute
  /-- The position of the identity attribute. -/
  identity : Nat
deriving DecidableEq

namespace RecordType

/-- The position of the attribute with a name. -/
def index? (t : RecordType) (name : String) : Option Nat :=
  t.attributes.findIdx? (·.name == name)

/-- The attribute with a name. -/
def attribute? (t : RecordType) (name : String) : Option Attribute :=
  t.attributes.find? (·.name == name)

/-- The position of a blob attribute with a name. -/
def blobIndex? (t : RecordType) (name : String) : Option Nat :=
  (t.index? name).filter fun i => t.attributes[i]?.any (·.kind == .blob)

end RecordType

/-- The record types of a schema. -/
structure Registry where
  types : List RecordType

namespace Registry

/-- The record type of an entity. -/
def find? (r : Registry) (name : String) : Option RecordType := r.types.find? (·.name == name)

/-- The attribute of a record type that a declaration stands for. -/
def resolved (a : Schema.AttributeDecl) : Attribute where
  name := a.name
  kind := a.kind
  nullable := a.nullable
  sidecar := if a.kind = .blob then some (Schema.sidecarName a.name) else none
  target := a.target

/-- The database schema of a namespace id. Of two namespaces with one id the later counts. -/
def spaceOf (d : Schema.Document) (id : String) : String :=
  ((d.namespaces.reverse.find? (·.id == id)).map (·.name)).getD id

/-- The record type of a declared entity, if it has an identity attribute. -/
def recordType? (d : Schema.Document) (e : Schema.EntityDecl) : Option RecordType := do
  let identity ← e.attributes.findIdx? (·.name == Schema.identityName)
  some
    { name := e.name
      space := spaceOf d (d.namespaceIdOf e)
      table := e.table.getD e.name
      attributes := e.attributes.map resolved
      identity }

/-- The registry of a document, or the first fault of the document. -/
def ofDocument (d : Schema.Document) : Except SchemaError Registry := do
  d.validate
  let types ← d.entities.mapM fun e =>
    match recordType? d e with
    | some t => .ok t
    | none => .error (.invalidIdentity e.name .absent)
  return ⟨types⟩

end Registry

end RecordService
