import RecordService.Text.Encoding
import RecordService.Text.Numeral

/-!
# Forms with several parts

The body of such a form is divided by a boundary. Every part has headers, one of which gives its
name, and content. A body may be cut off anywhere.

* `RecordService.Bytes.cutAt?`: bytes cut at the first occurrence of others.
* `RecordService.Http.Multipart.Field`: the content of a part as it arrives.
* `RecordService.Http.Multipart.field?`: the first part with a name.
-/

namespace RecordService

namespace Bytes

/-- The position of the first occurrence of `pattern`, counted from `n`. -/
def positionFrom (pattern : Bytes) (n : Nat) : Bytes → Option Nat
  | [] => if pattern.isEmpty then some n else none
  | b :: s => if pattern.isPrefixOf (b :: s) then some n else positionFrom pattern (n + 1) s

/-- What is before the first occurrence of `pattern`, and what is after it. -/
def cutAt? (pattern s : Bytes) : Option (Bytes × Bytes) :=
  (positionFrom pattern 0 s).map fun n => (s.take n, s.drop (n + pattern.length))

/-- What follows `pattern` at the head of some bytes. -/
def behind? (pattern s : Bytes) : Option Bytes :=
  if pattern.isPrefixOf s then some (s.drop pattern.length) else none

/-- The lines of some bytes. A line may end with a carriage return. -/
def lines (s : Bytes) : List Bytes :=
  (s.splitOn 0x0A).map fun l => if l.getLast? = some 0x0D then l.dropLast else l

/-- Whether two names in ASCII are equal but for their case. -/
def sameName (a b : Bytes) : Bool :=
  a.map (fun c => (Char.ofNat c.toNat).toLower) == b.map (fun c => (Char.ofNat c.toNat).toLower)

end Bytes

namespace Http.Multipart

/-- The end of a line. -/
def lineEnd : Bytes := [0x0D, 0x0A]

/-- The dashes in front of a boundary, and behind the last one. -/
def dashes : Bytes := [0x2D, 0x2D]

/-- What is wrong with a form. -/
inductive Fault where
  /-- The body does not follow the grammar, or is cut off. -/
  | malformed
  /-- No part has the name. -/
  | missing
deriving DecidableEq

/-- The wording for a body that does not follow the grammar. -/
def malformedText : String := "Error parsing `multipart/form-data` request"

/-- The content of a part as it arrives: chunks, and then the end of the part or what broke it off.
-/
structure Field where
  chunks : List Bytes
  broken : Option String := none

/-! ### Headers -/

/-- The most headers that a part may have. -/
def maxHeaders : Nat := 32

/-- The most bytes in the name of a header. -/
def maxHeaderName : Nat := 65535

/-- Whether a byte is a blank between the parts of a header. -/
def isBlankByte (b : UInt8) : Bool := b == 0x20 || b == 0x09

/-- Whether a byte may stand in the name of a header. -/
def isNameByte (b : UInt8) : Bool :=
  let c := Char.ofNat b.toNat
  c.isAlphanum || "!#$%&'*+-.^_`|~".toList.contains c

/-- Whether a byte may stand in the value of a header. -/
def isValueByte (b : UInt8) : Bool := b == 0x09 || (0x20 ≤ b && b != 0x7F)

/-- A header: its name and its value without the blanks around it. -/
def header? (line : Bytes) : Option (Bytes × Bytes) := do
  let (name, behind) ← Bytes.cutAt? [0x3A] line
  let value := ((behind.dropWhile isBlankByte).reverse.dropWhile isBlankByte).reverse
  if !name.isEmpty && name.length ≤ maxHeaderName && name.all isNameByte && value.all isValueByte
  then some (name, value) else none

/-- The headers in front of the content of a part. They end at the first empty line, whatever comes
after it. -/
def headers? (head : Bytes) : Option (List (Bytes × Bytes)) :=
  let lines := (Bytes.lines head).takeWhile (!·.isEmpty)
  if lines.length ≤ maxHeaders then lines.mapM header? else none

/-- The value of the header called `name`. Of several headers the last one counts. -/
def headerValue? (name : String) (headers : List (Bytes × Bytes)) : Option Bytes :=
  ((headers.filter fun h => Bytes.sameName h.1 (Bytes.ofText name)).getLast?).map (·.2)

/-- What is between quotes, behind the opening one. A quote behind a backslash is part of it, and
that backslash is not. -/
def quoted? : Bytes → Option Bytes
  | [] => none
  | 0x22 :: _ => some []
  | 0x5C :: 0x22 :: s => (0x22 :: ·) <$> quoted? s
  | b :: s => (b :: ·) <$> quoted? s

/-- The value that an attribute has, from what is behind its name: an equals sign, and then text
between quotes or text up to a semicolon or a space. -/
def attributeValue? (behind : Bytes) : Option String := do
  let rest ← Bytes.behind? [0x3D] (behind.dropWhile isBlankByte)
  match rest.dropWhile isBlankByte with
  | 0x22 :: s => (← quoted? s).text?
  | s => Bytes.text? (s.takeWhile fun b => b != 0x3B && b != 0x20)

/-- The value of the attribute `name` in a header that says how to treat a part. The word counts at
the beginning and behind a blank or a semicolon, and its first occurrence of this sort decides. -/
def nameAttribute? (value : Bytes) : Option String :=
  match Bytes.positionFrom (Bytes.ofText "name") 0 value with
  | none => none
  | some i =>
    let behind := value.drop (i + 4)
    let before := value[i - 1]?.getD 0x20
    if 0 < i ∧ ¬(isBlankByte before ∨ before = 0x3B) then
      if _hb : behind.length < value.length then nameAttribute? behind else none
    else attributeValue? behind
termination_by value.length
decreasing_by exact _hb

/-- The name of a part with these headers. -/
def partName (headers : List (Bytes × Bytes)) : Option String :=
  headerValue? "content-disposition" headers >>= nameAttribute?

/-! ### Parts -/

/-- A part and the rest of the body: its name, its content if the content is whole, and what comes
after the boundary that ends it. -/
structure Part where
  name : Option String
  content : Option (Bytes × Bytes)

/-- The part at the head of a body, behind its boundary. -/
def part (delimiter s : Bytes) : Except Fault Part := do
  let some s := Bytes.behind? lineEnd (s.dropWhile isBlankByte) | throw .malformed
  let some (head, s) := Bytes.cutAt? (lineEnd ++ lineEnd) s | throw .malformed
  let some headers := headers? (head ++ lineEnd) | throw .malformed
  return { name := partName headers, content := Bytes.cutAt? (lineEnd ++ delimiter) s }

/-- The first part called `name` in the rest of a body, behind a boundary. -/
def findField (name : String) (delimiter s : Bytes) : Except Fault Field :=
  if dashes.isPrefixOf s then .error .missing
  else
    match part delimiter s with
    | .error e => .error e
    | .ok p =>
      if p.name = some name then
        match p.content with
        | some (content, _) => .ok { chunks := [content] }
        | none => .ok { chunks := [], broken := some malformedText }
      else
        match p.content with
        | some (_, rest) =>
          if _h : rest.length < s.length then findField name delimiter rest else .error .malformed
        | none => .error .malformed
termination_by s.length
decreasing_by exact _h

/-- The first part called `name` of a form whose parts are separated by `boundary`. -/
def field? (boundary name : String) (body : Bytes) : Except Fault Field :=
  let delimiter := dashes ++ Bytes.ofText boundary
  match Bytes.cutAt? delimiter body with
  | some (_, rest) => findField name delimiter rest
  | none => .error .malformed

end Http.Multipart

end RecordService
