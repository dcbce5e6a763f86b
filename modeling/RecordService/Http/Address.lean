import RecordService.Error
import RecordService.Text.Blank

/-!
# Addresses

The first segment of a path names an entity set, or one record of it by an identity in parentheses.

* `RecordService.Http.Address`: addresses.
* `RecordService.Http.Address.read`: the address that a segment writes.
-/

namespace RecordService.Http

/-- A word behind a dollar sign that means nothing where it stands. -/
def unknownKeyword (word : String) : RequestError := .malformedRequest s!"Unknown keyword {word}."

/-- Whether a word begins with a dollar sign. -/
def isKeyword (word : String) : Bool := word.toList.head? == some '$'

/-- An entity set, or one record of it. -/
structure Address where
  entity : String
  id : Option Int
deriving DecidableEq

namespace Address

/-- A segment as a name and the text in parentheses behind it. The parentheses close at the end of
the segment, and the text does not go over several lines. -/
def split? (s : List Char) : Option (List Char × List Char) :=
  let name := s.takeWhile fun c => c != '(' && c != ')'
  match s.drop name.length with
  | '(' :: inner =>
    if !name.isEmpty && inner.getLast? == some ')' && !inner.dropLast.contains '\n' then
      some (name, inner.dropLast)
    else none
  | _ => none

/-- The address that a segment writes. -/
def read (segment : String) : Except RequestError Address :=
  if isKeyword segment then .error (unknownKeyword segment)
  else
    match split? segment.toList with
    | none => .ok ⟨segment, none⟩
    | some (name, inner) =>
      let raw := String.ofList inner
      match Text.readInteger? (Text.trim raw) with
      | some id => .ok ⟨String.ofList name, some id⟩
      | none => .error (.badRequest s!"invalid Id '{raw}'")

/-- The identity of the record that is addressed. -/
def requireId (a : Address) : Except RequestError Int :=
  match a.id with
  | some id => .ok id
  | none => .error (.badRequest s!"{a.entity} needs a record Id, as in {a.entity}(1)")

/-- Checks that a whole set is addressed, for something that only applies to sets. -/
def requireSet (a : Address) (what : String) : Except RequestError Unit :=
  match a.id with
  | some _ =>
    .error (.malformedRequest s!"{what} applies to the {a.entity} set, not a record")
  | none => .ok ()

/-- The identity of the record that is addressed, for something that is not done to whole sets. -/
def requireRecord (a : Address) (what : String) : Except RequestError Int :=
  match a.id with
  | some id => .ok id
  | none => .error (.unsupported s!"{what} of the whole {a.entity} set")

end Address

end RecordService.Http
