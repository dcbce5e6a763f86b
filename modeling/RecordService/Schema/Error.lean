import RecordService.Schema.Document

/-!
# Schema errors

What can be wrong with a schema document or with the settings of the service.

* `RecordService.SchemaError`: the causes.
* `RecordService.SchemaError.message`: their wording.
-/

namespace RecordService

/-- What a missing reference points at. -/
inductive SchemaError.Referent where
  | namespaceId
  | entity
deriving DecidableEq

/-- What is wrong with the identity attribute of an entity. -/
inductive SchemaError.IdentityFault where
  /-- There is no attribute with the name. -/
  | absent
  /-- There is one, but of this kind. -/
  | kind (k : Kind)
deriving DecidableEq

/-- A fault of a schema document or of a setting. -/
inductive SchemaError where
  | missingReference (referent : SchemaError.Referent) (id : String)
  /-- Two entities have one name; `first` and `second` are their namespaces. -/
  | duplicateEntity (name first second : String)
  | duplicateAttribute (entity property : String)
  | invalidIdentity (entity : String) (fault : SchemaError.IdentityFault)
  /-- A blob attribute lacks the text attribute that holds its file name. -/
  | missingSidecar (entity property sidecar : String)
  /-- The document cannot be read. -/
  | unreadable
  | validation (text : String)
deriving DecidableEq

namespace SchemaError

open Schema (identityName)

/-- A reference attribute without a target. -/
def needsTarget (entity property : String) : SchemaError :=
  .validation s!"reference attribute '{entity}.{property}' needs a target"

/-- A target at an attribute that is no reference. -/
def strayTarget (entity property : String) : SchemaError :=
  .validation s!"only reference attributes may declare a target ('{entity}.{property}')"

/-- A setting whose text has no meaning. -/
def invalidSetting (name raw : String) : SchemaError :=
  .validation s!"{name} has an invalid value '{raw}'"

/-- The wording of what a missing reference points at. -/
def Referent.name : Referent → String
  | namespaceId => "namespace"
  | entity => "entity"

/-- The wording of what is wrong with an identity attribute. -/
def IdentityFault.message : IdentityFault → String
  | absent => s!"no attribute named '{identityName}'"
  | kind k => s!"'{identityName}' is {k.name}, expected integer"

/-- The wording of a fault. -/
def message : SchemaError → String
  | missingReference referent id => s!"missing reference: {referent.name} '{id}'"
  | duplicateEntity name first second =>
    s!"entity name '{name}' registered twice (namespaces '{first}' and '{second}')"
  | duplicateAttribute entity property =>
    s!"entity '{entity}' declares attribute '{property}' more than once"
  | invalidIdentity entity fault =>
    s!"entity '{entity}' has an invalid identity attribute: {fault.message}"
  | missingSidecar entity property sidecar =>
    s!"blob attribute '{entity}.{property}' needs a text attribute named '{sidecar}'"
  | unreadable => "config load"
  | validation text => s!"validation: {text}"

end SchemaError

end RecordService
