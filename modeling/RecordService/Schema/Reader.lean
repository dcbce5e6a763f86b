import RecordService.Json.Raw
import RecordService.Schema.Document

/-!
# Reading schema documents

A schema document is written in JSON. Members with names of their own are ignored, whatever they
hold; a member that occurs twice is an error. Instead of an object with named members there may be
an array with the members in their order, and the last ones may be missing from it if they have a
default.

* `RecordService.Schema.Document.read?`: the schema that a text declares.
* `RecordService.Schema.Document.readBytes?`: the same for the bytes of a file.
-/

namespace RecordService.Schema

open Json

/-! ### Members -/

/-- The members of an object by name, all of them with readable names. -/
def namedMembers? : List (List Element × Raw) → Option (List (String × Raw))
  | [] => some []
  | (k, v) :: ms => do some ((← Raw.text? k, v) :: (← namedMembers? ms))

/-- The member with a name, which must not occur twice. -/
def uniqueMember? (members : List (String × Raw)) (name : String) : Option (Option Raw) :=
  match members.filter (·.1 == name) with
  | [] => some none
  | [(_, v)] => some (some v)
  | _ => none

/-- The members called `names`, from an object or from an array in the order of the names. Every
name has a place in the answer, which is empty when the member is missing. -/
def members? (names : List String) : Raw → Option (List (Option Raw))
  | .object members => do
    let members ← namedMembers? members
    names.mapM (uniqueMember? members)
  | .array items =>
    if items.length ≤ names.length then
      some (items.map some ++ List.replicate (names.length - items.length) none)
    else none
  | _ => none

/-! ### Parts -/

/-- A text. -/
def text? : Raw → Option String
  | .string es => Raw.text? es
  | _ => none

/-- A text or `null`. -/
def optionalText? : Raw → Option (Option String)
  | .null => some none
  | v => some <$> text? v

/-- A truth value. -/
def boolean? : Raw → Option Bool
  | .boolean b => some b
  | _ => none

/-- The name of a kind, alone or as the only member of an object, with the value `null`. -/
def kind? : Raw → Option Kind
  | .string es => Raw.text? es >>= Kind.ofName?
  | .object [(name, .null)] => Raw.text? name >>= Kind.ofName?
  | _ => none

/-- An array of things that `read` reads. -/
def list? {α : Type} (read : Raw → Option α) : Raw → Option (List α)
  | .array items => items.mapM read
  | _ => none

/-- The value of a member, or its default when the member is missing. -/
def orDefault {α : Type} (fallback : α) (read : Raw → Option α) : Option Raw → Option α
  | none => some fallback
  | some v => read v

/-- A namespace. -/
def NamespaceDecl.ofRaw? (v : Raw) : Option NamespaceDecl := do
  let [some id, some name, comment] ← members? ["id", "name", "comment"] v | none
  some
    { id := ← text? id
      name := ← text? name
      comment := ← orDefault none optionalText? comment }

/-- An attribute. -/
def AttributeDecl.ofRaw? (v : Raw) : Option AttributeDecl := do
  let [some name, some kind, nullable, target, comment] ←
    members? ["name", "type", "nullable", "target", "comment"] v | none
  some
    { name := ← text? name
      kind := ← kind? kind
      nullable := ← orDefault true boolean? nullable
      target := ← orDefault none optionalText? target
      comment := ← orDefault none optionalText? comment }

/-- An entity. -/
def EntityDecl.ofRaw? (v : Raw) : Option EntityDecl := do
  let [some name, namespaceId, table, some attributes, comment] ←
    members? ["name", "namespace_id", "table", "attributes", "comment"] v | none
  some
    { name := ← text? name
      namespaceId := ← orDefault none optionalText? namespaceId
      table := ← orDefault none optionalText? table
      attributes := ← list? AttributeDecl.ofRaw? attributes
      comment := ← orDefault none optionalText? comment }

/-- A schema. -/
def Document.ofRaw? (v : Raw) : Option Document := do
  let [namespaces, entities] ← members? ["namespaces", "entities"] v | none
  some
    { namespaces := ← orDefault [] (list? NamespaceDecl.ofRaw?) namespaces
      entities := ← orDefault [] (list? EntityDecl.ofRaw?) entities }

/-! ### Documents -/

/-- The schema that a text declares. -/
def Document.read? (s : String) : Option Document := Raw.read? s >>= Document.ofRaw?

/-- The schema that a file declares, which has to be valid UTF-8. -/
def Document.readBytes? (bytes : ByteArray) : Option Document :=
  String.fromUTF8? bytes >>= Document.read?

end RecordService.Schema
