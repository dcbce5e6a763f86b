import RecordService.Query.Comparison
import RecordService.Query.Path
import RecordService.Value

/-!
# Filters

A filter is a predicate on the values of a record. Comparing with `null`, or with a value of another
kind, has no answer, and an answer that depends on such a comparison is unknown as well.

* `RecordService.Filter`: the predicates.
* `RecordService.Filter.evaluate`: the truth value of a filter, `none` for unknown.
* `RecordService.Filter.render`: the canonical text of a filter.
-/

namespace RecordService

/-! ### Three-valued logic -/

namespace Truth

/-- Both are true. One that is false settles the matter. -/
def both : Option Bool → Option Bool → Option Bool
  | some false, _ => some false
  | _, some false => some false
  | some true, some true => some true
  | _, _ => none

/-- At least one is true. One that is true settles the matter. -/
def either : Option Bool → Option Bool → Option Bool
  | some true, _ => some true
  | _, some true => some true
  | some false, some false => some false
  | _, _ => none

/-- The opposite; unknown stays unknown. -/
def negate (a : Option Bool) : Option Bool := a.map (!·)

end Truth

/-! ### Filters -/

/-- A predicate on the values of a record. -/
inductive Filter where
  | comparison (path : Path) (op : Comparison) (literal : Value)
  | and (left right : Filter)
  | or (left right : Filter)
  | not (inner : Filter)
deriving DecidableEq

namespace Filter

/-- The truth value of a filter for the values of a record, in the order of its attributes. -/
def evaluate (values : List Value) : Filter → Option Bool
  | comparison path op literal => do
    let v ← values[path.index]?
    let o ← v.compare literal
    some (op.test o)
  | and l r => Truth.both (l.evaluate values) (r.evaluate values)
  | or l r => Truth.either (l.evaluate values) (r.evaluate values)
  | not f => Truth.negate (f.evaluate values)

/-- Whether a filter is certainly true. -/
def accepts (f : Filter) (values : List Value) : Bool := f.evaluate values == some true

/-- Whether every property of a filter is one of an entity. -/
def belongsTo (entity : String) : Filter → Bool
  | comparison path _ _ => path.entity == entity
  | and l r => l.belongsTo entity && r.belongsTo entity
  | or l r => l.belongsTo entity && r.belongsTo entity
  | not f => f.belongsTo entity

/-- Equality of filters, with the equality of values for their literals. -/
def same : Filter → Filter → Bool
  | comparison p o v, comparison p' o' v' => p == p' && o == o' && v.same v'
  | and l r, and l' r' => l.same l' && r.same r'
  | or l r, or l' r' => l.same l' && r.same r'
  | not f, not f' => f.same f'
  | _, _ => false

/-! ### Canonical text -/

/-- A text between single quotes, with the quotes inside doubled. -/
def quoteText (s : String) : String :=
  String.ofList ('\'' :: s.toList.flatMap (fun c => if c = '\'' then [c, c] else [c]) ++ ['\''])

/-- A literal. -/
def renderLiteral : Value → String
  | .text s => quoteText s
  | .dateTime t => "'" ++ t.render ++ "'"
  | v => v.display

/-- The canonical text of a filter: both binary operators always bring their parentheses. -/
def render : Filter → String
  | comparison path op literal => path.name ++ " " ++ op.keyword ++ " " ++ renderLiteral literal
  | and l r => "(" ++ l.render ++ " and " ++ r.render ++ ")"
  | or l r => "(" ++ l.render ++ " or " ++ r.render ++ ")"
  | not f => "not " ++ f.render

end Filter

end RecordService
