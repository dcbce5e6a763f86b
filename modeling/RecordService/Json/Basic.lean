import RecordService.Decimal.Text

/-!
# JSON documents

The values of JSON and their compact written form. Whole numbers and decimals are kept apart; an
object keeps its members in the order they were given.

* `RecordService.Json`: the type of documents.
* `RecordService.Json.render`: a document without superfluous blanks.
-/

namespace RecordService

/-- A number of a document. -/
inductive Json.Number where
  | integer (n : Int)
  | decimal (d : Decimal)
deriving DecidableEq

/-- A document. -/
inductive Json where
  | null
  | boolean (b : Bool)
  | number (n : Json.Number)
  | string (s : String)
  | array (items : List Json)
  | object (members : List (String × Json))

namespace Json

/-- A number as it is written: a decimal always shows that it is one. -/
def Number.render : Number → String
  | .integer n => Text.integer n
  | .decimal d => d.render Decimal.json

/-- The hexadecimal digit of a number below 16, in lower case. -/
def hexDigit (n : Nat) : Char := "0123456789abcdef".toList.getD n '0'

/-- A character inside a quoted text. Only the quote, the backslash and the control characters below
the blank are escaped. -/
def escape (c : Char) : List Char :=
  if c = '"' then ['\\', '"']
  else if c = '\\' then ['\\', '\\']
  else if c = '\x08' then ['\\', 'b']
  else if c = '\t' then ['\\', 't']
  else if c = '\n' then ['\\', 'n']
  else if c = '\x0c' then ['\\', 'f']
  else if c = '\r' then ['\\', 'r']
  else if c.toNat < 0x20 then
    ['\\', 'u', '0', '0', hexDigit (c.toNat / 16), hexDigit (c.toNat % 16)]
  else [c]

/-- A text in quotes. -/
def quote (s : String) : String := String.ofList ('"' :: s.toList.flatMap escape ++ ['"'])

mutual

/-- The compact written form of a document. -/
def render : Json → String
  | .null => "null"
  | .boolean b => if b then "true" else "false"
  | .number n => n.render
  | .string s => quote s
  | .array items => "[" ++ ",".intercalate (renderItems items) ++ "]"
  | .object members => "\x7b" ++ ",".intercalate (renderMembers members) ++ "\x7d"

/-- The written forms of the items of an array. -/
def renderItems : List Json → List String
  | [] => []
  | v :: vs => v.render :: renderItems vs

/-- The written forms of the members of an object. -/
def renderMembers : List (String × Json) → List String
  | [] => []
  | (k, v) :: ms => (quote k ++ ":" ++ v.render) :: renderMembers ms

end

/-- A whole number as a document. -/
def ofInt (n : Int) : Json := .number (.integer n)

/-- A text as a document, or `null` when there is none. -/
def ofOption : Option String → Json
  | some s => .string s
  | none => .null

/-- The members of an object by name, in the order of the names; of two members with one name the
later counts. -/
def sortMembers (members : List (String × Json)) : List (String × Json) :=
  let kept := members.reverse.foldl
    (fun (acc : List (String × Json)) m => if acc.any (·.1 == m.1) then acc else m :: acc) []
  kept.mergeSort fun a b => (compare a.1 b.1).isLE

end Json

end RecordService
