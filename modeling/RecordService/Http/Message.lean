import RecordService.Error
import RecordService.Record.Texts
import RecordService.Text.Encoding

/-!
# Requests and responses

The parameters of a request are kept in a hash map, so they are visited in an order that nothing
fixes: it may be another one for each request. The order is therefore a part of the request here,
bound only to visit every parameter once.

* `RecordService.Http.Visits`: an order in which parameters are visited.
* `RecordService.Http.Request`, `RecordService.Http.Response`: the messages.
* `RecordService.Http.Response.ofError`: the response to a request that failed.
-/

namespace RecordService.Http

/-! ### Requests -/

/-- The methods that the service knows. -/
inductive Method where
  | get
  | head
  | post
  | put
  | delete
  | other
deriving DecidableEq

/-- The method with a name. -/
def Method.ofName : String → Method
  | "GET" => get
  | "HEAD" => head
  | "POST" => post
  | "PUT" => put
  | "DELETE" => delete
  | _ => other

/-- An order in which parameters are visited, each of them once. -/
structure Visits where
  entries : Texts → List (String × String)
  perm (ps : Texts) : (entries ps).Perm ps.entries

/-- The order of the names. -/
def Visits.byName : Visits := ⟨Texts.entries, fun _ => .refl _⟩

/-- A request. -/
structure Request where
  method : Method
  target : String
  contentType : Option String := none
  body : Bytes := []
  /-- The order in which the parameters are visited. No particular one may be relied on. -/
  visits : Visits := .byName

/-! ### Responses -/

/-- The body of a response. -/
inductive Body where
  | text (s : String)
  | content (bytes : Bytes)
  /-- Content that broke off while it was being sent. -/
  | broken

/-- A response. -/
structure Response where
  status : Nat
  contentType : Option String := none
  /-- How the client is to treat the body. -/
  disposition : Option String := none
  body : Body := .text ""

namespace Response

/-- A response with a document. -/
def json (status : Nat) (j : Json) : Response where
  status := status
  contentType := some "application/json"
  body := .text j.render

/-- A response with plain text. -/
def plain (s : String) : Response where
  status := 200
  contentType := some "text/plain; charset=utf-8"
  body := .text s

/-- A response with nothing but its status. -/
def bare (status : Nat) : Response := { status }

/-- A document as the data of a response. -/
def data (status : Nat) (j : Json) : Response := json status (.object [("data", j)])

/-- The status of a failure. -/
def errorStatus : RequestError → Nat
  | .schema _ => 500
  | .storage _ => 500
  | .unknownEntity _ => 404
  | .notFound _ => 404
  | .unsupported _ => 403
  | .unresolvable _ _ => 400
  | .malformedFilter _ _ => 400
  | .malformedOrder _ _ => 400
  | .malformedRequest _ => 400
  | .typeMismatch _ _ _ => 400
  | .badRequest _ => 400

/-- The response to a request that failed. -/
def ofError (e : RequestError) : Response := json (errorStatus e) e.toJson

/-- A response without its body. -/
def headOnly (r : Response) : Response :=
  { r with
    body := match r.body with
      | .text _ => .text ""
      | .content _ => .content []
      | .broken => .content [] }

end Response

end RecordService.Http
