import RecordService.Calendar.Text
import RecordService.Json.Basic
import RecordService.Kind

/-!
# Values

The values that records hold, and their texts. A value is read from text according to a kind, and
written either as plain text or as JSON.

* `RecordService.Value`: the values.
* `RecordService.Value.coerce`: the value of a kind that a text stands for.
* `RecordService.Value.compare`, `RecordService.Value.sortCompare`: the order between values, and
  its completion by a place for `null`.
* `RecordService.Value.same`: equality of values, numeric for decimals.
-/

namespace RecordService

/-- A value of an attribute. -/
inductive Value where
  | null
  | integer (n : Int)
  | decimal (d : Decimal)
  | text (s : String)
  | boolean (b : Bool)
  | dateTime (t : DateTime)
  /-- Binary content, of which a record shows only the number of bytes. -/
  | blob (length : Nat)
  | reference (n : Int)
deriving DecidableEq

namespace Value

/-- The kind of a value; `null` is of every kind. -/
def kind? : Value → Option Kind
  | null => none
  | integer _ => some .integer
  | decimal _ => some .decimal
  | text _ => some .text
  | boolean _ => some .boolean
  | dateTime _ => some .dateTime
  | blob _ => some .blob
  | reference _ => some .reference

/-- Whether there is no value. -/
def isNull : Value → Bool
  | null => true
  | _ => false

/-! ### Texts -/

/-- One of the words for a truth value, in any case. -/
def readBoolean? (s : String) : Option Bool :=
  match String.ofList (s.toList.map Char.toLower) with
  | "true" => some true
  | "false" => some false
  | _ => none

/-- The value of a kind that a text stands for. Decimals have to be finite, and binary content has
no text. -/
def coerce (k : Kind) (s : String) : Option Value :=
  match k with
  | .integer => integer <$> Text.readInteger? s
  | .reference => reference <$> Text.readInteger? s
  | .decimal => decimal <$> (Decimal.read? s).filter Decimal.isFinite
  | .text => some (text s)
  | .boolean => boolean <$> readBoolean? s
  | .dateTime => dateTime <$> DateTime.read? s
  | .blob => none

/-- The text of a value; `null` has the empty text, and binary content shows its length. -/
def display : Value → String
  | null => ""
  | integer n => Text.integer n
  | reference n => Text.integer n
  | decimal d => d.render Decimal.plain
  | text s => s
  | boolean b => if b then "true" else "false"
  | dateTime t => t.render
  | blob length => Text.natural length

/-- A value inside a document. -/
def toJson : Value → Json
  | null => .null
  | integer n => .ofInt n
  | reference n => .ofInt n
  | decimal d => .number (.decimal d)
  | text s => .string s
  | boolean b => .boolean b
  | dateTime t => .string t.render
  | blob length => .object [("length", .ofInt length)]

/-! ### Order -/

/-- The order between two values of one kind. Integers and references compare with one another, and
texts by their characters, which is the order of their bytes. -/
protected def compare : Value → Value → Option Ordering
  | integer a, integer b => some (compare a b)
  | reference a, reference b => some (compare a b)
  | integer a, reference b => some (compare a b)
  | reference a, integer b => some (compare a b)
  | decimal a, decimal b => a.compare b
  | text a, text b => some (compare a b)
  | boolean a, boolean b => some (compare a b)
  | dateTime a, dateTime b => some (a.compare b)
  | blob a, blob b => some (compare a b)
  | _, _ => none

/-- The order for sorting: `null` comes after every value, and values that do not compare are left
as they are. -/
def sortCompare (a b : Value) : Ordering :=
  match a.isNull, b.isNull with
  | true, true => .eq
  | true, false => .gt
  | false, true => .lt
  | false, false => (a.compare b).getD .eq

/-- Equality of values: the kind counts, and decimals are equal as numbers. -/
def same : Value → Value → Bool
  | decimal a, decimal b => a.same b
  | a, b => a == b

/-- Equality of lists of values. -/
def sameAll : List Value → List Value → Bool
  | [], [] => true
  | a :: as, b :: bs => a.same b && sameAll as bs
  | _, _ => false

end Value

end RecordService
