/-!
# Decimal values

A decimal value is a binary floating-point number of 64 bits. It is held by its sign and by the
63 bits below the sign, read as a natural number. Those bits grow with the absolute value, so the
order of decimals is the order of integers.

* `RecordService.Decimal.compare`: the numeric order, without an answer when a side is not a number.
* `RecordService.Decimal.ofRatio`: the nearest decimal of a quotient, a tie going to the even one.
* `RecordService.Decimal.ofScientific`: the nearest decimal of a whole number times a power of ten.
-/

namespace RecordService

/-- The value of the sign bit, and the number of patterns of the bits below it. -/
def Decimal.signBit : Nat := 0x8000000000000000

/-- The value of the bit above the fraction, which is the leading bit of most significands. -/
def Decimal.leadingBit : Nat := 0x10000000000000

/-- A binary floating-point number of 64 bits. -/
structure Decimal where
  /-- Whether the sign bit is set. -/
  negative : Bool
  /-- The bits below the sign: 11 of exponent, then 52 of fraction. -/
  magnitude : Nat
  magnitude_lt : magnitude < Decimal.signBit
deriving DecidableEq

namespace Decimal

/-- The bits of infinity, above every finite number and below every bit pattern that is not a
number. -/
def infinityBits : Nat := 2047 * leadingBit

/-- The number zero, with a sign. -/
def zero (negative : Bool) : Decimal := ⟨negative, 0, by decide⟩

/-- Infinity, with a sign. -/
def infinity (negative : Bool) : Decimal := ⟨negative, infinityBits, by decide⟩

/-- The value that is not a number. -/
def notANumber (negative : Bool) : Decimal := ⟨negative, infinityBits + leadingBit / 2, by decide⟩

/-- Whether the bits stand for no number. -/
def isNaN (d : Decimal) : Bool := infinityBits < d.magnitude

/-- Whether the bits stand for a number of finite size. -/
def isFinite (d : Decimal) : Bool := d.magnitude < infinityBits

/-- The opposite number. -/
def neg (d : Decimal) : Decimal := { d with negative := !d.negative }

/-- The position of a number in the numeric order; both zeros have position zero. -/
def rank (d : Decimal) : Int := if d.negative then -d.magnitude else d.magnitude

/-- The numeric order; there is no answer when one of the two is not a number. -/
protected def compare (a b : Decimal) : Option Ordering :=
  if a.isNaN || b.isNaN then none else some (Ord.compare a.rank b.rank)

/-- Numeric equality: the zeros are equal, and what is not a number equals nothing. -/
def same (a b : Decimal) : Bool := a.compare b == some .eq

/-- All 64 bits as one number. -/
def bits (d : Decimal) : Nat := (if d.negative then signBit else 0) + d.magnitude

/-! ### Exact value -/

/-- A finite number is `significand * 2 ^ exponent`, up to its sign. -/
def significand (d : Decimal) : Nat :=
  if d.magnitude < leadingBit then d.magnitude else leadingBit + d.magnitude % leadingBit

@[inherit_doc significand]
def exponent (d : Decimal) : Int :=
  if d.magnitude < leadingBit then -1074 else d.magnitude / leadingBit - 1075

/-- The numerator of the absolute value of a finite number, over `denominator`. -/
def numerator (d : Decimal) : Nat := d.significand * Nat.pow 2 d.exponent.toNat

/-- The denominator of the absolute value of a finite number, a power of two. -/
def denominator (d : Decimal) : Nat := Nat.pow 2 (-d.exponent).toNat

/-! ### Rounding -/

/-- The quotient rounded to the nearest whole number, a tie going to the even one. -/
def roundDiv (num den : Nat) : Nat :=
  let q := num / den
  let r := num % den
  if 2 * r < den then q
  else if den < 2 * r then q + 1
  else q + q % 2

/-- The bits of the decimal nearest to `num / den`, not yet limited to the finite ones. Counting
decimals upwards from zero, the ones with exponent `e - 1074` are at the places
`e * leadingBit + m` with `m` below `2 * leadingBit`. -/
def nearestBits (num den : Nat) : Nat :=
  -- the quotient is at least `2 ^ (top - 1)` and less than `2 ^ (top + 1)`
  let top : Int := (num.log2 : Int) - den.log2
  let e := (top + 1021).toNat
  let scaled (e : Nat) : Nat × Nat :=
    if e ≤ 1074 then (num * Nat.pow 2 (1074 - e), den) else (num, den * Nat.pow 2 (e - 1074))
  -- one exponent more when the significand would need 54 bits
  let e := if (scaled e).1 / (scaled e).2 < 2 * leadingBit then e else e + 1
  e * leadingBit + roundDiv (scaled e).1 (scaled e).2

/-- The decimal nearest to a quotient, a tie going to the even significand. A quotient beyond the
finite numbers by half a step or more gives infinity. -/
def ofRatio (negative : Bool) (num den : Nat) : Decimal :=
  if num = 0 then zero negative
  else
    let n := nearestBits num den
    if h : n < infinityBits then ⟨negative, n, Nat.lt_trans h (by decide)⟩ else infinity negative

/-- The decimal nearest to `digits * 10 ^ exponent`. Exponents that put the number far outside the
range are answered without computing the power. -/
def ofScientific (negative : Bool) (digits : Nat) (exponent : Int) : Decimal :=
  if digits = 0 then zero negative
  else if 400 < exponent then infinity negative
  else if exponent < -(400 + (digits.log2 : Int)) then zero negative
  else ofRatio negative (digits * Nat.pow 10 exponent.toNat) (Nat.pow 10 (-exponent).toNat)

/-- The decimal nearest to the product of two finite numbers. -/
def mul (a b : Decimal) : Decimal :=
  ofRatio (a.negative != b.negative) (a.numerator * b.numerator) (a.denominator * b.denominator)

/-- The decimal nearest to the quotient of two finite numbers, the second one not zero. -/
def div (a b : Decimal) : Decimal :=
  ofRatio (a.negative != b.negative) (a.numerator * b.denominator) (a.denominator * b.numerator)

end Decimal

end RecordService
