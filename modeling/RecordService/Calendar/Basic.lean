/-!
# Dates and times of day

Dates of the proleptic Gregorian calendar with an astronomical year number, and moments without a
time zone. A moment is a date, a second of the day and a number of nanoseconds. A leap second stays
visible: it is the second before it with a nanosecond count of `10 ^ 9` or more.

* `RecordService.Date`, `RecordService.DateTime`: the two types; an invalid date has no value.
* `RecordService.DateTime.compare`: the chronological order.
* `RecordService.DateTime.shift?`: a moment moved by less than a day.
* `RecordService.Date.dayNumber`: the number of days since 1 March of the year 0.
-/

namespace RecordService

/-! ### Dates -/

namespace Date

/-- Every fourth year has a leap day, full centuries only when divisible by 400. -/
def isLeap (year : Int) : Bool := year % 4 == 0 && (year % 100 != 0 || year % 400 == 0)

/-- The number of days of a month. -/
def daysIn (year : Int) (month : Nat) : Nat :=
  if month = 2 then if isLeap year then 29 else 28
  else if month = 4 ∨ month = 6 ∨ month = 9 ∨ month = 11 then 30
  else 31

/-- The years with a representation. -/
def minYear : Int := -262143

@[inherit_doc minYear]
def maxYear : Int := 262142

/-- The days that exist. -/
def Valid (year : Int) (month day : Nat) : Prop :=
  (minYear ≤ year ∧ year ≤ maxYear) ∧ (1 ≤ month ∧ month ≤ 12) ∧ 1 ≤ day ∧ day ≤ daysIn year month

instance (year : Int) (month day : Nat) : Decidable (Valid year month day) :=
  inferInstanceAs (Decidable (_ ∧ _))

end Date

/-- A day of the calendar. -/
structure Date where
  year : Int
  month : Nat
  day : Nat
  valid : Date.Valid year month day
deriving DecidableEq

namespace Date

/-- The date with these parts, if there is one. -/
def ofParts? (year : Int) (month day : Nat) : Option Date :=
  if h : Valid year month day then some ⟨year, month, day, h⟩ else none

/-- The following day. -/
def next? (d : Date) : Option Date :=
  if d.day < daysIn d.year d.month then ofParts? d.year d.month (d.day + 1)
  else if d.month < 12 then ofParts? d.year (d.month + 1) 1
  else ofParts? (d.year + 1) 1 1

/-- The preceding day. -/
def previous? (d : Date) : Option Date :=
  if 1 < d.day then ofParts? d.year d.month (d.day - 1)
  else if 1 < d.month then ofParts? d.year (d.month - 1) (daysIn d.year (d.month - 1))
  else ofParts? (d.year - 1) 12 31

/-- The chronological order: by year, then month, then day. -/
protected def compare (a b : Date) : Ordering :=
  (Ord.compare a.year b.year).then ((Ord.compare a.month b.month).then (Ord.compare a.day b.day))

/-- The number of days since 1 March of the year 0, which is day 0. Years are taken from March to
February, so that the leap day comes last. -/
def dayNumber (d : Date) : Int :=
  let year := if d.month ≤ 2 then d.year - 1 else d.year
  let month := (d.month + 9) % 12
  365 * year + Int.fdiv year 4 - Int.fdiv year 100 + Int.fdiv year 400 +
    ((153 * month + 2) / 5 + (d.day - 1) : Nat)

end Date

/-! ### Moments -/

/-- The seconds of a day. -/
def DateTime.daySeconds : Nat := 86400

/-- The nanoseconds of a second. -/
def DateTime.secondNanos : Nat := 1000000000

/-- A moment of a day. -/
structure DateTime where
  date : Date
  /-- Seconds since midnight. -/
  second : Nat
  /-- Nanoseconds since that second; a leap second counts on from the second before it. -/
  nano : Nat
  second_lt : second < DateTime.daySeconds
  nano_lt : nano < 2 * DateTime.secondNanos
  /-- Only the last second of a minute is followed by a leap second. -/
  leap : DateTime.secondNanos ≤ nano → second % 60 = 59
deriving DecidableEq

namespace DateTime

/-- The moment with these parts, if there is one. -/
def ofParts? (date : Date) (second nano : Nat) : Option DateTime :=
  if h : second < daySeconds ∧ nano < 2 * secondNanos ∧ (secondNanos ≤ nano → second % 60 = 59) then
    some ⟨date, second, nano, h.1, h.2.1, h.2.2⟩
  else none

/-- Midnight at the start of a date. -/
def midnight (date : Date) : DateTime := ⟨date, 0, 0, by decide, by decide, by decide⟩

/-- The moment shown by a clock; the second 60 is a leap second. -/
def ofClock? (date : Date) (hour minute second nano : Nat) : Option DateTime :=
  if hour < 24 ∧ minute < 60 ∧ second ≤ 60 ∧ nano < secondNanos then
    let start := hour * 3600 + minute * 60
    if second = 60 then ofParts? date (start + 59) (secondNanos + nano)
    else ofParts? date (start + second) nano
  else none

/-- The moment a number of seconds later or, when negative, earlier; less than a day either way. -/
def shift? (t : DateTime) (seconds : Int) : Option DateTime := do
  let s := (t.second : Int) + seconds
  let date ←
    if s < 0 then t.date.previous?
    else if (daySeconds : Int) ≤ s then t.date.next?
    else some t.date
  ofParts? date (s % daySeconds).toNat t.nano

/-- The chronological order, a leap second being the end of the second before it. -/
protected def compare (a b : DateTime) : Ordering :=
  (a.date.compare b.date).then ((Ord.compare a.second b.second).then (Ord.compare a.nano b.nano))

/-- The microseconds since the start of the year 2000, rounded towards zero. A leap second counts as
the first second of the next minute. -/
def epochMicros (t : DateTime) : Int :=
  -- 730425 days from 1 March of the year 0
  let seconds := (t.date.dayNumber - 730425) * daySeconds + t.second
  Int.tdiv (seconds * secondNanos + t.nano) 1000

end DateTime

end RecordService
