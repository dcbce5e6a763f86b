import RecordService.Http.Document
import RecordService.Http.Options
import RecordService.Http.Upload
import RecordService.Query.Parser

/-!
# Entity sets over HTTP

What clients may do with entity sets, records and properties. An operation finds its record type
first, then reads what the client gave, and only then turns to the store.

* `RecordService.Http.Entities.list`, `RecordService.Http.Entities.read`,
  `RecordService.Http.Entities.create`, `RecordService.Http.Entities.update`,
  `RecordService.Http.Entities.remove`: sets and records.
* `RecordService.Http.Entities.count`, `RecordService.Http.Entities.clone`,
  `RecordService.Http.Entities.propertyText`: a set, a record and a property as seen from below
  them.
* `RecordService.Http.Entities.uploadContent`, `RecordService.Http.Entities.downloadContent`: binary
  content.
-/

namespace RecordService.Http.Entities

variable {m : Type → Type} [Monad m] [RecordStore m]

/-! ### Sets and records -/

/-- The stored record at an address. -/
def load (reg : Registry) (a : Address) : ExceptT RequestError m Record := do
  let t ← reg.resolve a.entity
  let id ← a.requireId
  match ← Records.findById t id with
  | some r => return r
  | none => throw (.noRecord a.entity id)

/-- A list of records, and how many there are in all if that was asked for. -/
def listData (records : List Record) (count : Option Nat) : Json :=
  let data := ("data", Json.array (records.map Record.toJson))
  match count with
  | some n => .object [data, ("count", .ofInt n)]
  | none => .object [data]

/-- The records of a set. -/
def list (reg : Registry) (a : Address) (o : ListOptions) : ExceptT RequestError m Response := do
  let t ← reg.resolve a.entity
  let filter ← Filter.parse t o.filter
  let order ← Order.parse t o.order
  let count ← if o.count then some <$> Records.count t filter else pure none
  let records ← Records.find t o.top o.skip filter order
  return .json 200 (listData records count)

/-- One record. -/
def read (reg : Registry) (a : Address) : ExceptT RequestError m Response := do
  return .data 200 (← load reg a).toJson

/-- A new record with the values of a document. The identity is not for clients to choose. -/
def create (reg : Registry) (a : Address) (body : Json) : ExceptT RequestError m Response := do
  a.requireSet "create"
  let texts ← Texts.ofJson body
  let t ← reg.resolve a.entity
  let r ← Record.ofTexts t (texts.erase Schema.identityName)
  return .data 201 (← Records.save r).toJson

/-- Replaces the values of a record by those of a document. -/
def update (reg : Registry) (a : Address) (body : Json) : ExceptT RequestError m Response := do
  let id ← a.requireRecord "update"
  let texts ← Texts.ofJson body
  let t ← reg.resolve a.entity
  let r ← Record.ofTexts t (texts.withIdentity id)
  return .data 200 (← Records.save r).toJson

/-- Removes a record. -/
def remove (reg : Registry) (a : Address) : ExceptT RequestError m Response := do
  let id ← a.requireRecord "delete"
  let t ← reg.resolve a.entity
  Records.remove t id
  return .bare 204

/-! ### Below sets and records -/

/-- The word for the number of records. -/
def countWord : String := "$count"

/-- The word for the bare text of a property. -/
def valueWord : String := "$value"

/-- The action that copies a record. -/
def cloneAction : String := "Clone"

/-- The action that stores binary content. -/
def uploadAction : String := "Upload"

/-- The action that hands out binary content. -/
def downloadAction : String := "Download"

/-- The number of records of a set that pass a filter. -/
def count (reg : Registry) (a : Address) (filter : Option String) :
    ExceptT RequestError m Response := do
  let t ← reg.resolve a.entity
  let filter ← Filter.parse t filter
  return .plain (Text.natural (← Records.count t filter))

/-- A copy of a record, which is not stored. -/
def clone (reg : Registry) (a : Address) : ExceptT RequestError m Response := do
  let t ← reg.resolve a.entity
  let id ← a.requireId
  match ← Records.duplicate t id with
  | some r => return .data 200 r.toJson
  | none => throw (.noRecord a.entity id)

/-- The text of a property of a stored record. Binary content has none. -/
def propertyText (reg : Registry) (a : Address) (property : String) :
    ExceptT RequestError m String := do
  let r ← load reg a
  let p ← Path.resolve r.type property
  if p.kind = .blob then
    throw (.badRequest s!"property {p.name} is binary; use {p.name}/{downloadAction}")
  r.text p

/-! ### Binary content -/

/-- Stores the content of the form in the body of a request. -/
def uploadContent (reg : Registry) (a : Address) (property boundary : String) (body : Bytes) :
    ExceptT RequestError m Response := do
  let field ← (Multipart.field? boundary contentField body).mapError Multipart.Fault.error
  let length ← upload field fun feed => do
    let r ← load reg a
    Content.upload r (← Path.resolve r.type property) feed
  return .data 201 (.object [("length", .ofInt length)])

/-- Hands out the content of a property. The response begins before the content is read. -/
def downloadContent (reg : Registry) (a : Address) (property : String) :
    ExceptT RequestError m Response := do
  let r ← load reg a
  match ← Content.download r (← Path.resolve r.type property) with
  | none => return .bare 204
  | some (source, fileName) =>
    let content ← ExceptT.lift (RecordStore.drain source).run
    return {
      status := 200
      contentType := some "application/octet-stream"
      disposition := some (Content.disposition fileName)
      body := match content with
        | .ok bytes => .content bytes
        | .error _ => .broken }

end RecordService.Http.Entities
