import RecordService.Schema.Document
import RecordService.Schema.Error

/-!
# The rules for schema documents

A document declares record types only if its entities live in declared namespaces, names are unique,
every entity has an integer identity, references point at entities of the document, and every blob
attribute comes with a text attribute for its file name.

* `RecordService.Schema.Document.validate`: the first fault of a document, if it has any.
-/

namespace RecordService.Schema

/-- The name of the attribute that holds the file name of a blob attribute. -/
def sidecarName (name : String) : String := name ++ "FileName"

/-- The namespace ids that entities may name. -/
def Document.namespaceIds (d : Document) : List String :=
  if d.namespaces.isEmpty then [defaultNamespace] else d.namespaces.map (·.id)

/-- Checks that the entities live in declared namespaces and that their names differ. `seen` are the
names met before, with their namespaces. -/
def Document.checkNames (d : Document) (seen : List (String × String)) :
    List EntityDecl → Except SchemaError Unit
  | [] => .ok ()
  | e :: es =>
    let ns := d.namespaceIdOf e
    if !d.namespaceIds.contains ns then .error (.missingReference .namespaceId ns)
    else
      match seen.lookup e.name with
      | some first => .error (.duplicateEntity e.name first ns)
      | none => d.checkNames ((e.name, ns) :: seen) es

/-- Checks that the attributes of an entity have different names. -/
def EntityDecl.checkUnique (e : EntityDecl) (seen : List String) :
    List AttributeDecl → Except SchemaError Unit
  | [] => .ok ()
  | a :: as =>
    if seen.contains a.name then .error (.duplicateAttribute e.name a.name)
    else e.checkUnique (a.name :: seen) as

/-- The attribute of an entity with a name. -/
def EntityDecl.attribute? (e : EntityDecl) (name : String) : Option AttributeDecl :=
  e.attributes.find? (·.name == name)

/-- Checks that an entity has an integer identity. -/
def EntityDecl.checkIdentity (e : EntityDecl) : Except SchemaError Unit :=
  match e.attribute? identityName with
  | none => .error (.invalidIdentity e.name .absent)
  | some a =>
    if a.kind = .integer then .ok () else .error (.invalidIdentity e.name (.kind a.kind))

/-- Checks that references, and only they, have a target, and that it is one of the `entities`. -/
def EntityDecl.checkTarget (entities : List String) (e : EntityDecl) (a : AttributeDecl) :
    Except SchemaError Unit :=
  match a.kind, a.target with
  | .reference, none => .error (.needsTarget e.name a.name)
  | .reference, some target =>
    if entities.contains target then .ok () else .error (.missingReference .entity target)
  | _, some _ => .error (.strayTarget e.name a.name)
  | _, none => .ok ()

/-- Checks that a blob attribute has a text attribute beside it for its file name. -/
def EntityDecl.checkSidecar (e : EntityDecl) (a : AttributeDecl) : Except SchemaError Unit :=
  if a.kind = .blob ∧ (e.attribute? (sidecarName a.name)).map (·.kind) ≠ some .text then
    .error (.missingSidecar e.name a.name (sidecarName a.name))
  else .ok ()

/-- Checks one entity of a document with these `entities`. -/
def EntityDecl.check (entities : List String) (e : EntityDecl) : Except SchemaError Unit := do
  e.checkUnique [] e.attributes
  e.checkIdentity
  e.attributes.forM fun a => do
    e.checkTarget entities a
    e.checkSidecar a

/-- Checks a document: first the names of all entities, then every entity by itself. -/
def Document.validate (d : Document) : Except SchemaError Unit := do
  d.checkNames [] d.entities
  d.entities.forM (EntityDecl.check (d.entities.map (·.name)))

end RecordService.Schema
