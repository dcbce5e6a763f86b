import RecordService.Query.Selection
import RecordService.Sql.Piece

/-!
# Conditions and orders in statements

Filters become conditions and orders become sort clauses. The literals of a filter are arguments,
numbered from left to right. Text is compared and sorted by its bytes whatever the language of the
database.

* `RecordService.Sql.condition`: the condition of a filter.
* `RecordService.Sql.literals`: the arguments of the condition.
* `RecordService.Sql.sortTerm`: one term of a sort clause.
-/

namespace RecordService.Sql

/-- The column type that the values of a kind have in the database. -/
def cast : Kind → String
  | .integer => "int8"
  | .reference => "int8"
  | .decimal => "float8"
  | .text => "text"
  | .boolean => "bool"
  | .dateTime => "timestamp"
  | .blob => "bytea"

/-- The symbol of a comparison. -/
def symbol : Comparison → String
  | .eq => "="
  | .ne => "<>"
  | .gt => ">"
  | .ge => ">="
  | .lt => "<"
  | .le => "<="

/-- A column as it is compared and sorted. -/
def comparable (p : Path) : List Piece :=
  .name p.name :: if p.kind = .text then [.fixed " COLLATE \"C\""] else []

/-- A placeholder with the type of a kind. -/
def typed (n : Nat) (k : Kind) : List Piece := [.placeholder n, .fixed ("::" ++ cast k)]

/-! ### Filters -/

/-- The literals of a filter from left to right. -/
def literals : Filter → List Value
  | .comparison _ _ v => [v]
  | .and l r => literals l ++ literals r
  | .or l r => literals l ++ literals r
  | .not f => literals f

/-- The number of literals of a filter. -/
def literalCount : Filter → Nat
  | .comparison _ _ _ => 1
  | .and l r => literalCount l + literalCount r
  | .or l r => literalCount l + literalCount r
  | .not f => literalCount f

@[simp] theorem length_literals (f : Filter) : (literals f).length = literalCount f := by
  induction f with
  | comparison => rfl
  | and l r hl hr => simp [literals, literalCount, hl, hr]
  | or l r hl hr => simp [literals, literalCount, hl, hr]
  | not f h => simpa [literals, literalCount] using h

/-- Whether the condition of a filter brings its own parentheses. -/
def isBinary : Filter → Bool
  | .and _ _ => true
  | .or _ _ => true
  | _ => false

/-- The condition of a filter whose first literal is the argument after the first `n`. -/
def condition (n : Nat) : Filter → List Piece
  | .comparison p op _ => comparable p ++ .fixed (" " ++ symbol op ++ " ") :: typed (n + 1) p.kind
  | .and l r =>
    .fixed "(" :: condition n l ++
      .fixed " AND " :: condition (n + literalCount l) r ++ [.fixed ")"]
  | .or l r =>
    .fixed "(" :: condition n l ++
      .fixed " OR " :: condition (n + literalCount l) r ++ [.fixed ")"]
  | .not f =>
    if isBinary f then .fixed "NOT " :: condition n f
    else .fixed "NOT (" :: condition n f ++ [.fixed ")"]

/-- The clause for an optional filter. -/
def whereClause : Option Filter → List Piece
  | some f => .fixed " WHERE " :: condition 0 f
  | none => []

/-- The arguments of the clause for an optional filter. -/
def whereArguments (f : Option Filter) : List Argument :=
  (f.elim [] literals).map .value

/-! ### Orders -/

/-- The words for a direction, with the place of `null`. -/
def directionWords : Direction → String
  | .ascending => " ASC NULLS LAST"
  | .descending => " DESC NULLS FIRST"

/-- A term of a sort clause. -/
def sortTerm (t : OrderTerm) : List Piece :=
  comparable t.path ++ [.fixed (directionWords t.direction)]

/-- The sort clause of an order. The identity decides between records that are equal otherwise. -/
def orderClause (o : Order) : List Piece :=
  .fixed " ORDER BY " :: separated [.fixed ", "]
    (o.terms.map sortTerm ++ [[.name Schema.identityName, .fixed " ASC"]])

/-! ### Windows -/

/-- The clauses for a window on the ordered rows. -/
def windowClause (skip : Nat) (top : Option Nat) : List Piece :=
  (match top with
    | some n => [.fixed (" LIMIT " ++ Text.natural n)]
    | none => []) ++
  if 0 < skip then [.fixed (" OFFSET " ++ Text.natural skip)] else []

end RecordService.Sql
