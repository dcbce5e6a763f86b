import RecordService.Query.Filter
import RecordService.Query.Order

/-!
# Selections

Which records of an entity are asked for, and in what order.

* `RecordService.Selection`: filter, order and the window on the ordered records.
-/

namespace RecordService

/-- The records that pass the filter, in the given order and then by identity; of these, the `top`
records after the first `skip`. -/
structure Selection where
  filter : Option Filter := none
  order : Order := {}
  skip : Nat := 0
  top : Option Nat := none

/-- Whether a list of values passes a filter, if there is one. -/
def passes (filter : Option Filter) (values : List Value) : Bool :=
  filter.all (·.accepts values)

/-- The part of a list that a window shows: at most `top` elements after the first `skip`. -/
def window {α : Type} (skip : Nat) (top : Option Nat) (l : List α) : List α :=
  match top with
  | some n => (l.drop skip).take n
  | none => l.drop skip

end RecordService
