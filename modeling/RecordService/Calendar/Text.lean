import RecordService.Calendar.Basic
import RecordService.Text.Blank
import RecordService.Text.Numeral

/-!
# Moments as text

Three forms are read. The strict form is that of Internet timestamps: fixed field widths and a zone
offset, which is taken off so that the moment is in universal time. The loose form has no offset;
its fields may be shorter and may follow blanks. A date alone stands for its midnight.

* `RecordService.DateTime.read?`: a moment in any of the forms, the strict one first.
* `RecordService.DateTime.render`: the form that is written.
-/

namespace RecordService.DateTime

open Text

/-- Nanoseconds written as the digits after a decimal point; digits after the ninth are dropped. -/
def readNanos (s : List Char) : Option (Nat × List Char) := do
  let (n, r) ← number 1 9 s
  some (n * Nat.pow 10 (9 - (s.length - r.length)), r.dropWhile Char.isDigit)

/-- An optional fraction of a second. -/
def readFraction : List Char → Option (Nat × List Char)
  | '.' :: s => readNanos s
  | s => some (0, s)

/-! ### The strict form -/

/-- A zone offset in seconds: `Z`, or hours and minutes after a sign. The minus sign may be the
mathematical one. -/
def readOffset : List Char → Option (Int × List Char)
  | 'Z' :: s => some (0, s)
  | 'z' :: s => some (0, s)
  | c :: s => do
    let negative ←
      if c = '+' then some false else if c = '-' ∨ c = '\u2212' then some true else none
    let (hours, s) ← number 2 2 s
    let s ← literal ':' s
    let (minutes, s) ← number 2 2 s
    if hours < 24 ∧ minutes < 60 then
      let seconds : Int := hours * 3600 + minutes * 60
      some (if negative then -seconds else seconds, s)
    else none
  | [] => none

/-- A moment with a zone offset, moved to universal time. -/
def readStrict? (s : List Char) : Option DateTime := do
  let (year, s) ← number 4 4 s
  let (month, s) ← number 2 2 (← literal '-' s)
  let (day, s) ← number 2 2 (← literal '-' s)
  let s ← (literal 'T' s).or ((literal 't' s).or (literal ' ' s))
  let (hour, s) ← number 2 2 s
  let (minute, s) ← number 2 2 (← literal ':' s)
  let (second, s) ← number 2 2 (← literal ':' s)
  let (nano, s) ← readFraction s
  let (offset, s) ← readOffset s
  if s ≠ [] then none
  let date ← Date.ofParts? year month day
  let clock ← ofClock? date hour minute second nano
  clock.shift? (-offset)

/-! ### The loose form -/

/-- A number of one or more digits, at most `most`, after any blanks. -/
def looseNumber (most : Nat) (s : List Char) : Option (Nat × List Char) :=
  number 1 most (skipBlank s)

/-- A year: up to four digits, or any number of digits after a sign. -/
def looseYear (s : List Char) : Option (Int × List Char) :=
  match skipBlank s with
  | '-' :: r => do
    let (n, r) ← number 1 r.length r
    some (-n, r)
  | '+' :: r => do
    let (n, r) ← number 1 r.length r
    some (n, r)
  | r => do
    let (n, r) ← number 1 4 r
    some (n, r)

/-- Year, month and day, joined by hyphens. -/
def looseDate (s : List Char) : Option (Date × List Char) := do
  let (year, s) ← looseYear s
  let (month, s) ← looseNumber 2 (← literal '-' s)
  let (day, s) ← looseNumber 2 (← literal '-' s)
  let date ← Date.ofParts? year month day
  some (date, s)

/-- The rest of a text after what separates the date from the time: the letter `T`, or else any
blanks, possibly none. -/
def looseSeparator (s : List Char) : List Char := (literal 'T' s).getD (skipBlank s)

/-- A moment without a zone offset. -/
def readLoose? (s : List Char) : Option DateTime := do
  let (date, s) ← looseDate s
  let (hour, s) ← looseNumber 2 (looseSeparator s)
  let (minute, s) ← looseNumber 2 (← literal ':' s)
  let (second, s) ← looseNumber 2 (← literal ':' s)
  let (nano, s) ← readFraction s
  if s ≠ [] then none
  ofClock? date hour minute second nano

/-- A date alone. -/
def readDate? (s : List Char) : Option DateTime := do
  let (date, s) ← looseDate s
  if s ≠ [] then none
  some (midnight date)

/-- The moment that a text writes. -/
def read? (s : String) : Option DateTime :=
  (readStrict? s.toList).or ((readLoose? s.toList).or (readDate? s.toList))

/-! ### Writing -/

/-- A year in at least four digits, with a sign when it is outside 0 to 9999. -/
def yearText (year : Int) : List Char :=
  if 0 ≤ year ∧ year ≤ 9999 then padded 4 year.toNat
  else (if year < 0 then '-' else '+') :: padded 4 year.natAbs

/-- A fraction of a second in three, six or nine digits, or nothing when it is zero. -/
def fractionText (nano : Nat) : List Char :=
  if nano = 0 then []
  else if nano % 1000000 = 0 then '.' :: padded 3 (nano / 1000000)
  else if nano % 1000 = 0 then '.' :: padded 6 (nano / 1000)
  else '.' :: padded 9 nano

/-- The written form of a moment; a leap second is the second 60. -/
def render (t : DateTime) : String :=
  let leap := if secondNanos ≤ t.nano then 1 else 0
  String.ofList <|
    yearText t.date.year ++ '-' :: padded 2 t.date.month ++ '-' :: padded 2 t.date.day ++
      'T' :: padded 2 (t.second / 3600) ++ ':' :: padded 2 (t.second / 60 % 60) ++
      ':' :: padded 2 (t.second % 60 + leap) ++ fractionText (t.nano % secondNanos)

end RecordService.DateTime
