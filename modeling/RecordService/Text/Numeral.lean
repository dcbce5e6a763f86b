/-!
# Numerals

Whole numbers in base ten: an optional sign followed by one or more ASCII digits, nothing else.
Numbers are read within the limits of a machine word, and written without superfluous zeros.

* `RecordService.Text.readInteger?`: a signed numeral of 64 bits.
* `RecordService.Text.readNatural?`: a numeral below a bound, with at most a plus sign.
* `RecordService.Text.number`: a run of digits at the head of a longer text.
-/

namespace RecordService.Text

/-- The least signed integer of 64 bits. -/
def minInteger : Int := -0x8000000000000000

/-- The greatest signed integer of 64 bits. -/
def maxInteger : Int := 0x7FFFFFFFFFFFFFFF

/-- The greatest unsigned integer of 64 bits. -/
def maxUnsigned : Nat := 0xFFFFFFFFFFFFFFFF

/-- The value of a text that consists of one or more digits. -/
def digits? (s : List Char) : Option Nat :=
  if !s.isEmpty && s.all Char.isDigit then some (Nat.ofDigitChars 10 s 0) else none

/-- A text split at its sign: whether it starts with a minus, and what follows the sign. -/
def splitSign : List Char → Bool × List Char
  | '-' :: s => (true, s)
  | '+' :: s => (false, s)
  | s => (false, s)

/-- A signed numeral whose value fits in 64 bits. -/
def readInteger? (s : String) : Option Int := do
  let (negative, magnitude) := splitSign s.toList
  let n ← digits? magnitude
  let z : Int := if negative then -n else n
  if minInteger ≤ z ∧ z ≤ maxInteger then some z else none

/-- A numeral without a minus sign whose value is below `bound`. -/
def readNatural? (bound : Nat) (s : String) : Option Nat := do
  let n ← digits? (match s.toList with
    | '+' :: r => r
    | r => r)
  if n < bound then some n else none

/-- The digits of a natural number. -/
def natural (n : Nat) : String := String.ofList (Nat.toDigits 10 n)

/-- The digits of an integer, after a minus sign when it is negative. -/
def integer : Int → String
  | .ofNat n => natural n
  | .negSucc n => "-" ++ natural (n + 1)

/-- A natural number in at least `width` digits. -/
def padded (width n : Nat) : List Char :=
  let ds := Nat.toDigits 10 n
  List.replicate (width - ds.length) '0' ++ ds

/-- The number written by the digits at the head of a text, at most `most` of them, and the rest of
the text. There must be at least `least` digits. -/
def number (least most : Nat) (s : List Char) : Option (Nat × List Char) :=
  let ds := (s.take most).takeWhile Char.isDigit
  if ds.length < least then none else some (Nat.ofDigitChars 10 ds 0, s.drop ds.length)

/-- The value of a hexadecimal digit, in either case. -/
def hexValue? (c : Char) : Option Nat :=
  if c.isDigit then some (c.toNat - '0'.toNat)
  else if 'a' ≤ c ∧ c ≤ 'f' then some (c.toNat - 'a'.toNat + 10)
  else if 'A' ≤ c ∧ c ≤ 'F' then some (c.toNat - 'A'.toNat + 10)
  else none

/-- The rest of a text that starts with the character `c`. -/
def literal (c : Char) : List Char → Option (List Char)
  | d :: s => if d = c then some s else none
  | [] => none

end RecordService.Text
