import RecordService.Http.MediaType
import RecordService.Http.Message
import RecordService.Json.Raw
import RecordService.Record.Texts

/-!
# Documents in requests

Clients send the values of a record as a JSON object of scalars.

* `RecordService.Http.Request.json`: the document in the body of a request, or the status to answer.
* `RecordService.Texts.ofJson`: the texts that a document gives for the values of a record.
-/

namespace RecordService

namespace Http

/-- The most bytes of a document that are read. -/
def maxDocument : Nat := 2 * 1024 * 1024

/-- The document at the head of a text. What follows it does not count. -/
def documentIn? (s : String) : Option Json := do
  let ⟨(v, _), _⟩ ← Json.Raw.readValue s.toList
  v.value? Json.maxDepth

/-- The document in the body of a request, or the status to answer. -/
def Request.json (r : Request) : Except Nat Json :=
  if !((r.contentType.bind MediaType.read?).any MediaType.isJson) then .error 415
  else if maxDocument < r.body.length then .error 413
  else
    match documentIn? r.body.textPart with
    | some j => .ok j
    | none => .error 400

end Http

namespace Texts

/-- The text of a scalar, `none` for `null`. -/
def ofScalar (name : String) : Json → Except RequestError (Option String)
  | .null => .ok none
  | .string s => .ok (some s)
  | .boolean b => .ok (some (if b then "true" else "false"))
  | .number n => .ok (some n.render)
  | .array _ => .error (.badRequest s!"property {name} must be a scalar")
  | .object _ => .error (.badRequest s!"property {name} must be a scalar")

/-- The texts of the members of an object, which have to be scalars. A member that is `null` gives
no text. -/
def ofJson : Json → Except RequestError Texts
  | .object members =>
    (Json.sortMembers members).foldlM (fun ts m => do
      match ← ofScalar m.1 m.2 with
      | some text => return ts.insert m.1 text
      | none => return ts) empty
  | _ => .error (.badRequest "body must be a JSON object")

end Texts

end RecordService
