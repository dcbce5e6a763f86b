/-!
# Comparisons

The six comparison operators of filters.

* `RecordService.Comparison`: the operators.
* `RecordService.Comparison.keyword`, `RecordService.Comparison.ofKeyword?`: their keywords.
* `RecordService.Comparison.test`: what an operator says about an outcome of the order.
-/

namespace RecordService

/-- A comparison operator. -/
inductive Comparison where
  | eq
  | ne
  | gt
  | ge
  | lt
  | le
deriving DecidableEq, Repr

namespace Comparison

/-- The keyword of an operator. -/
def keyword : Comparison → String
  | eq => "eq"
  | ne => "ne"
  | gt => "gt"
  | ge => "ge"
  | lt => "lt"
  | le => "le"

/-- All operators. -/
def all : List Comparison := [eq, ne, gt, ge, lt, le]

/-- The operator with a keyword. -/
def ofKeyword? (s : String) : Option Comparison := all.find? (·.keyword == s)

theorem ofKeyword?_keyword (c : Comparison) : ofKeyword? c.keyword = some c := by
  cases c <;> decide

/-- Whether an operator holds between two values that are ordered in the given way. -/
def test : Comparison → Ordering → Bool
  | eq, o => o == .eq
  | ne, o => o != .eq
  | gt, o => o == .gt
  | ge, o => o != .lt
  | lt, o => o == .lt
  | le, o => o != .gt

end Comparison

end RecordService
