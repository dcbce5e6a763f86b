import RecordService.Feed
import RecordService.Store.Records
import RecordService.Text.Control

/-!
# Operations on binary content

Content is stored from a feed, one buffer at a time, and nothing is kept of it if the feed breaks. A
download comes with the file name that is kept beside the content.

* `RecordService.Content.upload`: stores what a feed delivers.
* `RecordService.Content.download`: the content of a property, and its file name.
* `RecordService.Content.sanitize`: a text that can stand in a quoted file name.
-/

namespace RecordService.Content

variable {m : Type → Type} [Monad m] [RecordStore m]

/-! ### File names -/

/-- A file name without the characters that would end its quotes or its line. -/
def sanitize (s : String) : String :=
  String.ofList (s.toList.filter fun c => c != '"' && !Text.isControl c)

/-- How a client is to treat a download, with the file name to propose. -/
def disposition : Option String → String
  | some name => "attachment; filename=\"" ++ name ++ "\""
  | none => "attachment"

/-- The file name beside a binary attribute of a record, unless it is empty. -/
def fileName (r : Record) (a : Attribute) : Option String := do
  match ← r.get? (← a.sidecar) with
  | .text s => if s.isEmpty then none else some (sanitize s)
  | _ => none

/-! ### Transfers -/

/-- The binary attribute that a path names in a stored record, and the identity of the record. -/
def requireBlob (r : Record) (p : Path) : Except RequestError (Attribute × Int) := do
  let _ ← r.value p
  match r.type.attributes[p.index]? with
  | none => .error (.unresolvable r.type.name p.name)
  | some a =>
    if a.kind ≠ .blob then
      .error (.badRequest s!"property {a.name} of {r.type.name} is not binary")
    else
      match r.id with
      | none => .error (.badRequest s!"{r.type.name} record has no Id")
      | some id => .ok (a, id)

/-- The failure of a request whose source of bytes broke. -/
def brokenSource (text : String) : RequestError := .ofStorage (.io text)

/-- Stores what a feed delivers as the content of a property, and gives its length. -/
def upload (r : Record) (p : Path) (f : Feed) : ExceptT RequestError m Nat := do
  let (a, id) ← ExceptT.mk (pure (requireBlob r p))
  let sink ← Records.store (RecordStore.openSink r.type id a.name)
  let write := fun s chunk => Records.store (RecordStore.write s chunk)
  let (sink, _) ← f.copy brokenSource write sink
  Records.store (RecordStore.commit sink)

/-- The content of a property, if it has any, and its file name. -/
def download (r : Record) (p : Path) :
    ExceptT RequestError m (Option (RecordStore.Source m × Option String)) := do
  let (a, id) ← ExceptT.mk (pure (requireBlob r p))
  let source ← Records.store (RecordStore.openSource r.type id a.name)
  return source.map fun s => (s, fileName r a)

end RecordService.Content
