import RecordService.Decimal.Basic

/-!
# The shortest digits of a decimal

Many decimal numerals read back to the same decimal value: those inside the interval of numbers that
round to it. The shortest digits are the fewest that stay inside, and of those the nearest to the
value itself. The search compares the two neighbours of the value on each decimal grid, from one
digit upwards, in exact arithmetic.

* `RecordService.Decimal.Scientific`: digits times a power of ten.
* `RecordService.Decimal.shortest`: the shortest digits that read back.
-/

namespace RecordService.Decimal

/-- The number `digits * 10 ^ exponent`. -/
structure Scientific where
  digits : Nat
  exponent : Int
deriving DecidableEq

/-- Where a value goes that lies exactly half way between two numerals. -/
inductive Tie where
  /-- To the greater numeral. -/
  | up
  /-- To the numeral with the even last digit. -/
  | even
deriving DecidableEq

/-- The number of digits of a natural number. -/
def digitCount (n : Nat) : Nat := (Nat.toDigits 10 n).length

/-- The exponent `p` with `10 ^ (p - 1) ≤ num / den < 10 ^ p`, for positive quotients above
`10 ^ (-330)`. -/
def leadingPlace (num den : Nat) : Int :=
  (digitCount (num * Nat.pow 10 330 / den) : Int) - 330

/-- The interval of numbers that round to a value: the value is `num / den`, and the distances
to the two ends have the same denominator. -/
structure Interval where
  num : Nat
  den : Nat
  below : Nat
  above : Nat
  /-- Whether the ends belong to the interval. -/
  closed : Bool

/-- The numbers that round to the finite positive decimal `d`. Below a power of two the neighbours
are half as far apart. The ends round to `d` when its significand is even. -/
def interval (d : Decimal) : Interval :=
  let lowest := d.significand == leadingBit && 2 * leadingBit ≤ d.magnitude
  let half := Nat.pow 2 d.exponent.toNat
  { num := 4 * d.numerator
    den := 4 * d.denominator
    below := if lowest then half else 2 * half
    above := 2 * half
    closed := d.significand % 2 == 0 }

/-- Whether the number `a / b` lies in the interval. -/
def Interval.holds (i : Interval) (a b : Nat) : Bool :=
  let left := (i.num - i.below) * b
  let right := (i.num + i.above) * b
  let x := a * i.den
  if i.closed then left ≤ x && x ≤ right else left < x && x < right

/-- The numeral on the grid with step `10 ^ place` that lies in the interval, the nearest to the
value if both its neighbours do. -/
def Interval.onGrid? (i : Interval) (tie : Tie) (place : Int) : Option Scientific :=
  -- the grid step as the quotient `step / unit`
  let step := Nat.pow 10 place.toNat
  let unit := Nat.pow 10 (-place).toNat
  let low := i.num * unit / (i.den * step)
  let rest := i.num * unit % (i.den * step)
  let lowIn := i.holds (low * step) unit
  let highIn := i.holds ((low + 1) * step) unit
  let higher : Bool :=
    if lowIn && highIn then
      if 2 * rest = i.den * step then
        match tie with
        | .up => true
        | .even => low % 2 == 1
      else decide (i.den * step < 2 * rest)
    else highIn
  if lowIn || highIn then some ⟨if higher then low + 1 else low, place⟩ else none

/-- A numeral without trailing zeros among its digits. -/
def Scientific.normalize (s : Scientific) : Scientific :=
  if h : s.digits ≠ 0 ∧ s.digits % 10 = 0 then
    normalize ⟨s.digits / 10, s.exponent + 1⟩
  else s
termination_by s.digits
decreasing_by omega

/-- The shortest digits that read back to the absolute value of a finite decimal. Seventeen digits
always suffice. -/
def shortest (tie : Tie) (d : Decimal) : Scientific :=
  if d.magnitude = 0 then ⟨0, 0⟩
  else
    let i := d.interval
    let top := leadingPlace i.num i.den
    let found :=
      (List.range 17).findSome? fun (count : Nat) => i.onGrid? tie (top - (count + 1 : Nat))
    (found.getD ⟨0, 0⟩).normalize

end RecordService.Decimal
