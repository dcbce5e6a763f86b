import RecordService.Query.Path
import RecordService.Text.Blank
import RecordService.Value

/-!
# Orders

An order is a list of properties with a direction each, the first one being the most important.

* `RecordService.Order`: the orders.
* `RecordService.Order.compare`: the order of two records by their values.
* `RecordService.Order.parse`, `RecordService.Order.render`: the text of an order.
-/

namespace RecordService

/-- The direction of a sort term. -/
inductive Direction where
  | ascending
  | descending
deriving DecidableEq

/-- The keyword of a direction. -/
def Direction.keyword : Direction → String
  | ascending => "asc"
  | descending => "desc"

/-- A property to sort by. -/
structure OrderTerm where
  path : Path
  direction : Direction
deriving DecidableEq

/-- The order of two records by one term. Where a property is `null`, its record comes last when
ascending and first when descending. -/
def OrderTerm.compare (t : OrderTerm) (a b : List Value) : Ordering :=
  let o := (a.getD t.path.index .null).sortCompare (b.getD t.path.index .null)
  match t.direction with
  | .ascending => o
  | .descending => o.swap

/-- The terms to sort by, the most important first. -/
structure Order where
  terms : List OrderTerm := []
deriving DecidableEq

namespace Order

/-- The order of two records: that of the first term that tells them apart. -/
protected def compare (o : Order) (a b : List Value) : Ordering :=
  o.terms.foldr (fun t rest => (t.compare a b).then rest) .eq

/-- The canonical text of an order. -/
def render (o : Order) : String :=
  ", ".intercalate (o.terms.map fun t => t.path.name ++ " " ++ t.direction.keyword)

/-! ### Parsing -/

/-- A fault at a place of the text. -/
def fault {α : Type} (text : String) (place : List Char) : Except RequestError α :=
  .error (.malformedOrder text (String.ofList place))

/-- The direction that the second word of an item names. -/
def direction : Option (List Char) → Except RequestError Direction
  | none => .ok .ascending
  | some w =>
    if w = Direction.ascending.keyword.toList then .ok .ascending
    else if w = Direction.descending.keyword.toList then .ok .descending
    else fault "unknown sort direction" w

/-- One item of an order, by its words. -/
def parseItem (t : RecordType) (whole : List Char) :
    List (List Char) → Except RequestError OrderTerm
  | [] => fault "empty sort item" (Text.trimBlank whole)
  | name :: words => do
    let d ← direction words.head?
    match words.drop 1 with
    | extra :: _ => fault "unexpected trailing input" extra
    | [] =>
      let path ← Path.resolve t (String.ofList name)
      if path.kind = .blob then
        .error (.badRequest ("cannot sort by binary property " ++ path.name))
      else .ok ⟨path, d⟩

/-- The order of records of a type that a text writes. A missing or blank text is the empty order.
-/
def parse (t : RecordType) (text : Option String) : Except RequestError Order :=
  let whole := (text.getD "").toList
  if (Text.trimBlank whole).isEmpty then .ok {}
  else do
    let terms ← (whole.splitOn ',').mapM fun item => parseItem t whole (Text.words item)
    .ok ⟨terms⟩

end Order

end RecordService
