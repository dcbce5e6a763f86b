import RecordService.Json.Basic
import RecordService.Kind

/-!
# Schema documents

A schema document declares namespaces, which stand for the schemas of a database, and entities with
their attributes.

* `RecordService.Schema.Document`: a whole document.
* `RecordService.Schema.Document.toJson`: its written form, with every default filled in.
-/

namespace RecordService.Schema

/-- The name of the attribute that identifies a record. -/
def identityName : String := "Id"

/-- A declared namespace: `name` is the database schema that the tables of the namespace are in. -/
structure NamespaceDecl where
  id : String
  name : String
  comment : Option String := none

/-- A declared attribute. -/
structure AttributeDecl where
  name : String
  kind : Kind
  nullable : Bool := true
  /-- The entity that a reference points at. -/
  target : Option String := none
  comment : Option String := none

/-- A declared entity. -/
structure EntityDecl where
  name : String
  namespaceId : Option String := none
  /-- The table of the entity, which otherwise has the name of the entity. -/
  table : Option String := none
  attributes : List AttributeDecl
  comment : Option String := none

/-- A schema document. -/
structure Document where
  namespaces : List NamespaceDecl := []
  entities : List EntityDecl := []

/-! ### Written form -/

/-- A namespace as a document. -/
def NamespaceDecl.toJson (n : NamespaceDecl) : Json :=
  .object [("id", .string n.id), ("name", .string n.name), ("comment", .ofOption n.comment)]

/-- An attribute as a document. -/
def AttributeDecl.toJson (a : AttributeDecl) : Json :=
  .object [("name", .string a.name), ("type", .string a.kind.name),
    ("nullable", .boolean a.nullable), ("target", .ofOption a.target),
    ("comment", .ofOption a.comment)]

/-- An entity as a document. -/
def EntityDecl.toJson (e : EntityDecl) : Json :=
  .object [("name", .string e.name), ("namespace_id", .ofOption e.namespaceId),
    ("table", .ofOption e.table), ("attributes", .array (e.attributes.map AttributeDecl.toJson)),
    ("comment", .ofOption e.comment)]

/-- A schema as a document. -/
def Document.toJson (d : Document) : Json :=
  .object [("namespaces", .array (d.namespaces.map NamespaceDecl.toJson)),
    ("entities", .array (d.entities.map EntityDecl.toJson))]

/-! ### Namespaces -/

/-- The namespace of entities in documents that declare none. -/
def defaultNamespace : String := "public"

/-- The namespace of entities that name none: the first declared one. -/
def Document.defaultNamespaceId (d : Document) : String :=
  match d.namespaces with
  | n :: _ => n.id
  | [] => defaultNamespace

/-- The namespace of an entity of the document. -/
def Document.namespaceIdOf (d : Document) (e : EntityDecl) : String :=
  e.namespaceId.getD d.defaultNamespaceId

end RecordService.Schema
