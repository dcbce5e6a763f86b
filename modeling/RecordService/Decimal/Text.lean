import RecordService.Decimal.Shortest
import RecordService.Text.Numeral

/-!
# Decimals as text

Reading follows the usual grammar: a sign, digits with at most one point, an exponent, or one of
the words for what is not finite. Writing always takes the shortest digits; the two forms that are
written differ in a `Layout`.

* `RecordService.Decimal.read?`: the decimal nearest to a numeral.
* `RecordService.Decimal.render`: a decimal in a layout.
* `RecordService.Decimal.plain`, `RecordService.Decimal.json`: the layouts in use.
-/

namespace RecordService.Decimal

open Text

/-! ### Reading -/

/-- The exponent part of a numeral: empty, or a mark and a signed numeral. -/
def readExponent? : List Char → Option Int
  | [] => some 0
  | c :: s =>
    if c = 'e' ∨ c = 'E' then do
      let (negative, ds) := splitSign s
      let n ← digits? ds
      some (if negative then -n else n)
    else none

/-- The words for what is not finite, in any case. -/
def readWord? (negative : Bool) (s : List Char) : Option Decimal :=
  match String.ofList (s.map Char.toLower) with
  | "nan" => some (notANumber negative)
  | "inf" => some (infinity negative)
  | "infinity" => some (infinity negative)
  | _ => none

/-- A numeral without sign: digits with at most one point among them, then an exponent. -/
def readUnsigned? (negative : Bool) (s : List Char) : Option Decimal := do
  let whole := s.takeWhile Char.isDigit
  let rest := s.dropWhile Char.isDigit
  let (fraction, rest) := match rest with
    | '.' :: r => (r.takeWhile Char.isDigit, r.dropWhile Char.isDigit)
    | r => ([], r)
  if (whole ++ fraction).isEmpty then none
  let e ← readExponent? rest
  some (ofScientific negative (Nat.ofDigitChars 10 (whole ++ fraction) 0) (e - fraction.length))

/-- The decimal nearest to the number that a text writes. -/
def read? (s : String) : Option Decimal :=
  let (negative, r) := splitSign s.toList
  (readWord? negative r).or (readUnsigned? negative r)

/-! ### Writing -/

/-- How a decimal is laid out. -/
structure Layout where
  /-- Which numeral is taken for a value half way between two shortest ones. -/
  tie : Tie
  /-- Whether a number whose first digit stands for `10 ^ e` is written without an exponent. -/
  positional : Int → Bool
  /-- What follows a whole number. -/
  whole : String
  /-- What is written for infinity, without its sign, and for what is not a number. -/
  notFinite : Option (String × String)

/-- The layout for display: never an exponent, and no point in a whole number. -/
def plain : Layout where
  tie := .up
  positional _ := true
  whole := ""
  notFinite := some ("inf", "NaN")

/-- The layout inside documents: an exponent below `10 ^ (-5)` and from `10 ^ 16` on, whole numbers
marked by a fraction, and `null` for what is not finite. -/
def json : Layout where
  tie := .even
  positional e := -5 ≤ e && e < 16
  whole := ".0"
  notFinite := none

/-- Digits with a point, for the number `s`, without sign and exponent. -/
def positionalText (whole : String) (s : Scientific) : String :=
  let ds := Nat.toDigits 10 s.digits
  if 0 ≤ s.exponent then
    String.ofList (ds ++ List.replicate s.exponent.toNat '0') ++ whole
  else
    let places := (-s.exponent).toNat
    let ds := List.replicate (places + 1 - ds.length) '0' ++ ds
    let (before, after) := ds.splitAt (ds.length - places)
    String.ofList before ++ "." ++ String.ofList after

/-- The number `s` as a digit, the other digits after a point, and a signed exponent. -/
def exponentText (s : Scientific) : String :=
  let ds := Nat.toDigits 10 s.digits
  let e := s.exponent + (ds.length - 1 : Nat)
  let mantissa := match ds with
    | [] => ""
    | [d] => String.singleton d
    | d :: r => String.singleton d ++ "." ++ String.ofList r
  mantissa ++ "e" ++ (if e < 0 then integer e else "+" ++ integer e)

/-- A decimal in a layout. -/
def render (layout : Layout) (d : Decimal) : String :=
  let sign := if d.negative then "-" else ""
  if d.isFinite then
    let s := d.shortest layout.tie
    let e := s.exponent + (digitCount s.digits - 1 : Nat)
    sign ++ (if s.digits = 0 || layout.positional e then positionalText layout.whole s
      else exponentText s)
  else
    match layout.notFinite with
    | none => "null"
    | some (infinite, notANumber) => if d.isNaN then notANumber else sign ++ infinite

end RecordService.Decimal
