import RecordService.Http.Entities
import RecordService.Http.Target

/-!
# The service

The service finds out by the path and the method of a request what is to be done, and answers with a
response. Requests that make no sense before any entity is looked at are refused with nothing but a
status.

* `RecordService.Http.Route`: the shapes of paths.
* `RecordService.Http.Service.respond`: the response to a request.
-/

namespace RecordService.Http

/-! ### Routes -/

/-- The shape of a path. The parts are not decoded yet. -/
inductive Route where
  | health
  | version
  | set (segment : String)
  | property (segment property : String)
  | action (segment property action : String)
deriving DecidableEq

/-- The route of the segments of a path. Only the last one must not be empty. -/
def Route.ofSegments? (segments : List String) : Option Route :=
  if segments.getLast? = some "" then none
  else
    match segments with
    | ["health"] => some .health
    | ["version"] => some .version
    | [s] => some (.set s)
    | [s, p] => some (.property s p)
    | [s, p, a] => some (.action s p a)
    | _ => none

/-! ### The service -/

/-- The most bytes in the body of a request to a set or a record, unless the settings say otherwise.
-/
def defaultBodyLimit : Nat := 1024 * 1024

/-- A service for the entities of a registry. -/
structure Service where
  registry : Registry
  bodyLimit : Nat := defaultBodyLimit

namespace Service

variable {m : Type → Type} [Monad m] [RecordStore m]

/-- The response of an operation. -/
def answer (x : ExceptT RequestError m Response) : m Response := do
  match ← x.run with
  | .ok r => return r
  | .error e => return .ofError e

/-- Runs an operation on an address. -/
def atAddress (segment : String) (f : Address → ExceptT RequestError m Response) : m Response :=
  answer do f (← Address.read segment)

/-- Runs an operation on the document of a request. -/
def withDocument (r : Request) (f : Json → m Response) : m Response :=
  match r.json with
  | .ok j => f j
  | .error status => pure (.bare status)

/-- Reads a set or a record. -/
def readSet (s : Service) (parameters : List (String × String)) (a : Address) :
    ExceptT RequestError m Response := do
  match a.id with
  | some _ => Entities.read s.registry a
  | none => Entities.list s.registry a (← ListOptions.read parameters)

/-- Reads what is below a set or a record: a number, a copy or a property. -/
def readProperty (s : Service) (parameters : List (String × String)) (property : String)
    (a : Address) : ExceptT RequestError m Response := do
  if property = Entities.countWord then
    a.requireSet Entities.countWord
    Entities.count s.registry a (← countFilter parameters)
  else if property = Entities.cloneAction then Entities.clone s.registry a
  else if isKeyword property then throw (unknownKeyword property)
  else
    let text ← Entities.propertyText s.registry a property
    return .json 200 (.object [("value", .string text)])

/-- An action that is not known. -/
def unknownAction (action : String) : RequestError :=
  if isKeyword action then unknownKeyword action else .malformedRequest s!"Unknown action {action}."

/-- Reads what is below a property. -/
def readAction (s : Service) (property action : String) (a : Address) :
    ExceptT RequestError m Response := do
  if action = Entities.valueWord then
    return .plain (← Entities.propertyText s.registry a property)
  else if action = Entities.downloadAction then Entities.downloadContent s.registry a property
  else throw (unknownAction action)

/-- Carries out an action on a property. -/
def invokeAction (s : Service) (property action boundary : String) (body : Bytes) (a : Address) :
    ExceptT RequestError m Response := do
  if action = Entities.uploadAction then
    Entities.uploadContent s.registry a property boundary body
  else throw (unknownAction action)

/-- Responds to a request to a set or a record. -/
def onSet (s : Service) (t : Target) (raw : String) (r : Request) : m Response :=
  if s.bodyLimit < r.body.length then pure (.bare 413)
  else if r.method = .other then pure (.bare 405)
  else
    match segment? raw with
    | none => pure (.bare 400)
    | some segment =>
      match r.method with
      | .post => withDocument r fun j => atAddress segment fun a => Entities.create s.registry a j
      | .put => withDocument r fun j => atAddress segment fun a => Entities.update s.registry a j
      | .delete => atAddress segment (Entities.remove s.registry)
      | _ => atAddress segment (s.readSet (r.visits.entries t.parameters))

/-- Responds to a request to something below a set or a record. -/
def onProperty (s : Service) (t : Target) (raw rawProperty : String) (r : Request) : m Response :=
  if r.method ∈ [.post, .delete, .other] then pure (.bare 405)
  else
    match segment? raw, segment? rawProperty with
    | some segment, some property =>
      if r.method = .put then
        pure (.ofError (.unsupported s!"writing {segment}/{property} directly"))
      else atAddress segment (s.readProperty (r.visits.entries t.parameters) property)
    | _, _ => pure (.bare 400)

/-- Responds to a request to something below a property. -/
def onAction (s : Service) (raw rawProperty rawAction : String) (r : Request) : m Response :=
  if r.method ∈ [.put, .delete, .other] then pure (.bare 405)
  else
    match segment? raw, segment? rawProperty, segment? rawAction with
    | some segment, some property, some action =>
      if r.method = .post then
        match (r.contentType.bind MediaType.read?).bind MediaType.boundary? with
        | some boundary => atAddress segment (s.invokeAction property action boundary r.body)
        | none => pure (.bare 400)
      else atAddress segment (s.readAction property action)
    | _, _, _ => pure (.bare 400)

/-- The response to a request for something fixed. -/
def fixed (r : Request) (j : Json) : Response :=
  if r.method = .get ∨ r.method = .head then .json 200 j else .bare 405

/-- The response of the service, with its body whatever the method. -/
def respondFully (s : Service) (r : Request) : m Response :=
  match Target.read? r.target with
  | none => pure (.bare 404)
  | some t =>
    match Route.ofSegments? t.segments with
    | none => pure (.bare 404)
    | some .health => pure (fixed r (.object [("status", .string "ok")]))
    | some .version =>
      pure (fixed r (.object [("name", .string "entity-rest"), ("version", .string "0.1.0")]))
    | some (.set segment) => s.onSet t segment r
    | some (.property segment property) => s.onProperty t segment property r
    | some (.action segment property action) => s.onAction segment property action r

/-- The response of the service to a request. -/
def respond (s : Service) (r : Request) : m Response := do
  let response ← s.respondFully r
  return if r.method = .head then response.headOnly else response

end Service

end RecordService.Http
