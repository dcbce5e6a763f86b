import RecordService.Http.Multipart
import RecordService.Store.Content

/-!
# Uploads

An upload has two sides. One passes on the chunks of a field as they arrive, and then either the end
of the field or what broke it off. The other stores what is passed on, and stops when it has all of
it or fails. The client learns of a broken field first, and otherwise how the storing went.

* `RecordService.Http.Multipart.Field.feed`: what the first side passes on.
* `RecordService.Http.Multipart.Field.received`: how the first side fares.
* `RecordService.Http.upload`: both sides together.
-/

namespace RecordService.Http

/-- The name of the field that holds the content. -/
def contentField : String := "file"

namespace Multipart

/-- What is passed on of a field: every chunk, and then what broke it off. -/
def Field.feed (f : Field) : Feed := f.chunks.map .bytes ++ (f.broken.map .broken).toList

/-- Whether the field arrived whole. -/
def Field.received (f : Field) : Except RequestError Unit :=
  match f.broken with
  | none => .ok ()
  | some text => .error (.badRequest ("upload interrupted: " ++ text))

/-- The failure of a request with a faulty form. -/
def Fault.error : Fault → RequestError
  | malformed => .badRequest malformedText
  | missing => .badRequest s!"missing '{contentField}' field in multipart body"

end Multipart

variable {m : Type → Type} [Monad m] [RecordStore m]

/-- Receives a field and lets `store` store it. A field that did not arrive whole is what the client
is told about. -/
def upload (f : Multipart.Field) (store : Feed → ExceptT RequestError m Nat) :
    ExceptT RequestError m Nat := do
  let stored ← ExceptT.lift (store f.feed).run
  f.received
  stored

end RecordService.Http
