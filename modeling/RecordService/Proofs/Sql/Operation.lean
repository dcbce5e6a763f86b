import RecordService.Sql.Statement

/-!
# What statements are made for

Every statement that the store makes for the records of a type does one thing with them. What it
does is said apart from the statement here, so that two statements can be compared by what they do:
they may differ in their literals and values only, or in the names of the record types and
properties as well.

* `RecordService.Sql.Operation`: what a statement does.
* `RecordService.Sql.Operation.statement`: the statement.
* `RecordService.Sql.Operation.withoutData`, `RecordService.Sql.Operation.shape`: an operation
  without its literals and values, and without the names too.
* `RecordService.Sql.Operation.names`: the names in the statement.
* `RecordService.Sql.Operation.pieces_withoutData`: the text is settled without the data.
-/

namespace RecordService

/-! ### Filters -/

namespace Filter

/-- The filter with other properties and literals in its comparisons. -/
def map (property : Path → Path) (literal : Value → Value) : Filter → Filter
  | comparison p op v => comparison (property p) op (literal v)
  | and l r => and (l.map property literal) (r.map property literal)
  | or l r => or (l.map property literal) (r.map property literal)
  | not f => not (f.map property literal)

/-- The comparisons of a filter from left to right. -/
def comparisons : Filter → List (Path × Comparison × Value)
  | comparison p op v => [(p, op, v)]
  | and l r => l.comparisons ++ r.comparisons
  | or l r => l.comparisons ++ r.comparisons
  | not f => f.comparisons

end Filter

/-- A property by its place in its record type alone. -/
def Path.place (p : Path) : Path := { p with entity := "", name := "" }

namespace Sql

/-! ### Operations -/

/-- What a statement does with the records of a type. -/
inductive Operation where
  | select (t : RecordType) (s : Selection)
  | count (t : RecordType) (f : Option Filter)
  | selectById (t : RecordType) (id : Int)
  | insert (r : Record)
  | update (r : Record) (id : Int)
  | delete (t : RecordType) (id : Int)
  | lockRow (t : RecordType) (id : Int)
  | assemble (t : RecordType) (p : Path) (id : Int)
  | contentLength (t : RecordType) (p : Path) (id : Int)
  | contentChunk (t : RecordType) (p : Path) (offset length : Nat) (id : Int)

namespace Operation

/-- The record type of an operation. -/
def type : Operation → RecordType
  | select t _ => t
  | count t _ => t
  | selectById t _ => t
  | insert r => r.type
  | update r _ => r.type
  | delete t _ => t
  | lockRow t _ => t
  | assemble t _ _ => t
  | contentLength t _ _ => t
  | contentChunk t _ _ _ _ => t

/-- The statement of an operation. -/
def statement : Operation → Statement
  | select t s => Sql.select t s
  | count t f => Sql.count t f
  | selectById t id => Sql.selectById t id
  | insert r => Sql.insert r
  | update r id => Sql.update r id
  | delete t id => Sql.delete t id
  | lockRow t id => Sql.lockRow t id
  | assemble t p id => Sql.assemble t p.name id
  | contentLength t p id => Sql.contentLength t p.name id
  | contentChunk t p offset length id => Sql.contentChunk t p.name offset length id

/-- The operation with another record type and other properties, and without any data: literals are
`null`, records have no values, and numbers that are arguments are zero. -/
def map (type : RecordType → RecordType) (property : Path → Path) : Operation → Operation
  | select t s =>
    select (type t)
      { filter := s.filter.map (Filter.map property fun _ => .null)
        order := ⟨s.order.terms.map fun o => ⟨property o.path, o.direction⟩⟩
        skip := s.skip
        top := s.top }
  | count t f => count (type t) (f.map (Filter.map property fun _ => .null))
  | selectById t _ => selectById (type t) 0
  | insert r => insert (.empty (type r.type))
  | update r _ => update (.empty (type r.type)) 0
  | delete t _ => delete (type t) 0
  | lockRow t _ => lockRow (type t) 0
  | assemble t p _ => assemble (type t) (property p) 0
  | contentLength t p _ => contentLength (type t) (property p) 0
  | contentChunk t p _ _ _ => contentChunk (type t) (property p) 0 0 0

/-- An operation without its data. -/
def withoutData (q : Operation) : Operation := q.map id id

/-- A record type without anything. -/
def noType : RecordType := { name := "", space := "", table := "", attributes := [], identity := 0 }

/-- What remains of an operation without its data and without any names: the positions of the
properties, and how they are put together. -/
def shape (q : Operation) : Operation := q.map (fun _ => noType) Path.place

end Operation

/-! ### Written values -/

/-- The attributes that statements write. -/
def writtenAttributes (t : RecordType) : List Attribute := t.attributes.filter isWritten

theorem map_fst_writtenValues (r : Record) :
    (writtenValues r).map Prod.fst = writtenAttributes r.type := by
  have hzip : (r.type.attributes.zip r.values).map Prod.fst = r.type.attributes :=
    List.map_fst_zip (by simp [r.length_values])
  calc (writtenValues r).map Prod.fst
      = ((r.type.attributes.zip r.values).map Prod.fst).filter isWritten := by
        rw [List.filter_map]
        rfl
    _ = writtenAttributes r.type := by rw [hzip, writtenAttributes]

theorem length_writtenValues (r : Record) :
    (writtenValues r).length = (writtenAttributes r.type).length := by
  rw [← map_fst_writtenValues, List.length_map]

/-- Records of one type write the same attributes, so the text of a statement does not depend on the
values. -/
theorem map_writtenValues {α : Type} (r : Record) (f : Attribute → α) :
    (writtenValues r).map (fun w => f w.1) = (writtenAttributes r.type).map f := by
  rw [← map_fst_writtenValues, List.map_map]
  rfl

theorem mapIdx_writtenValues {α : Type} (r : Record) (f : Nat → Attribute → α) :
    (writtenValues r).mapIdx (fun i w => f i w.1) = (writtenAttributes r.type).mapIdx f := by
  rw [← map_fst_writtenValues]
  apply List.ext_getElem
  · simp
  · intro i _ _
    simp

/-- The text of a new record, by its type. No value of the record appears in it. -/
theorem pieces_insert (r : Record) :
    (insert r).pieces =
      if (writtenAttributes r.type).isEmpty then
        .fixed "INSERT INTO " :: tableName r.type ++ .fixed " DEFAULT VALUES" ::
          .fixed " RETURNING " :: readColumns r.type
      else
        .fixed "INSERT INTO " :: tableName r.type ++ .fixed " (" ::
          separated [.fixed ", "] ((writtenAttributes r.type).map fun a => [.name a.name]) ++
          .fixed ") VALUES (" ::
          separated [.fixed ", "] ((writtenAttributes r.type).mapIdx fun i a =>
            typed (i + 1) a.kind) ++
          .fixed ")" :: .fixed " RETURNING " :: readColumns r.type := by
  have hempty : (writtenValues r).isEmpty = (writtenAttributes r.type).isEmpty := by
    rw [← map_fst_writtenValues, List.isEmpty_map]
  rw [← map_writtenValues r fun a => [Piece.name a.name],
    ← mapIdx_writtenValues r fun i a => typed (i + 1) a.kind, ← hempty]
  unfold insert
  dsimp only
  cases (writtenValues r).isEmpty <;> rfl

/-- The text of an update, by the type of the record. The identity is an argument, as the values
are. -/
theorem pieces_update (r : Record) (id : Int) :
    (update r id).pieces =
      if (writtenAttributes r.type).isEmpty then (selectById r.type id).pieces
      else
        .fixed "UPDATE " :: tableName r.type ++ .fixed " SET " ::
          separated [.fixed ", "] ((writtenAttributes r.type).mapIdx fun i a =>
            .name a.name :: .fixed " = " :: typed (i + 1) a.kind) ++
          byIdentity ((writtenAttributes r.type).length + 1) ++
          .fixed " RETURNING " :: readColumns r.type := by
  have hempty : (writtenValues r).isEmpty = (writtenAttributes r.type).isEmpty := by
    rw [← map_fst_writtenValues, List.isEmpty_map]
  rw [← mapIdx_writtenValues r fun i a => Piece.name a.name :: .fixed " = " :: typed (i + 1) a.kind,
    ← length_writtenValues, ← hempty]
  unfold update
  dsimp only
  cases (writtenValues r).isEmpty <;> rfl

/-- The arguments of a new record: all that is written. -/
theorem arguments_insert (r : Record) :
    (insert r).arguments = (writtenValues r).map (.value ·.2) := by
  unfold insert
  cases writtenValues r <;> rfl

/-- The arguments of an update: all that is written, and the identity behind it. -/
theorem arguments_update (r : Record) (id : Int) :
    (update r id).arguments = (writtenValues r).map (.value ·.2) ++ [identityArgument id] := by
  unfold update
  cases writtenValues r <;> rfl

/-! ### Names in statements -/

/-- The names in a column that is compared or sorted. Texts are collated by their bytes. -/
def comparedNames (p : Path) : List String := p.name :: if p.kind = .text then ["C"] else []

/-- The names in the clause for an optional filter. -/
def filterNames (f : Option Filter) : List String :=
  f.elim [] fun f => f.comparisons.flatMap (comparedNames ·.1)

/-- The names in the sort clause of an order. -/
def orderNames (o : Order) : List String :=
  o.terms.flatMap (comparedNames ·.path) ++ [Schema.identityName]

/-- The names in the list of all columns of a record type, each of which is read under its own name.
-/
def readNames (t : RecordType) : List String := t.attributes.flatMap fun a => [a.name, a.name]

/-- The names in the list of the columns that statements write. -/
def writtenNames (t : RecordType) : List String := (writtenAttributes t).map (·.name)

/-- The names of the table of a record type. -/
def tableNames (t : RecordType) : List String := [t.space, t.table]

/-- The names in the statement of an operation, from left to right. -/
def Operation.names : Operation → List String
  | select t s => readNames t ++ tableNames t ++ filterNames s.filter ++ orderNames s.order
  | count t f => tableNames t ++ filterNames f
  | selectById t _ => readNames t ++ tableNames t ++ [Schema.identityName]
  | insert r => tableNames r.type ++ writtenNames r.type ++ readNames r.type
  | update r _ =>
    if (writtenNames r.type).isEmpty then
      readNames r.type ++ tableNames r.type ++ [Schema.identityName]
    else
      tableNames r.type ++ writtenNames r.type ++ [Schema.identityName] ++ readNames r.type
  | delete t _ => tableNames t ++ [Schema.identityName]
  | lockRow t _ => tableNames t ++ [Schema.identityName]
  | assemble t p _ => tableNames t ++ [p.name, Schema.identityName]
  | contentLength t p _ => p.name :: tableNames t ++ [Schema.identityName]
  | contentChunk t p _ _ _ => p.name :: tableNames t ++ [Schema.identityName]

/-! ### Texts without data -/

theorem literalCount_map (property : Path → Path) (literal : Value → Value) (f : Filter) :
    literalCount (f.map property literal) = literalCount f := by
  induction f with
  | comparison p op v => rfl
  | and l r ihl ihr => simp only [Filter.map, literalCount, ihl, ihr]
  | or l r ihl ihr => simp only [Filter.map, literalCount, ihl, ihr]
  | not f ih => simpa only [Filter.map, literalCount] using ih

theorem isBinary_map (property : Path → Path) (literal : Value → Value) (f : Filter) :
    isBinary (f.map property literal) = isBinary f := by
  cases f <;> rfl

/-- The condition of a filter does not show its literals, only their number and the kinds of their
properties. -/
theorem condition_map_literal (n : Nat) (literal : Value → Value) (f : Filter) :
    condition n (f.map id literal) = condition n f := by
  induction f generalizing n with
  | comparison p op v => rfl
  | and l r ihl ihr => simp only [Filter.map, condition, ihl, ihr, literalCount_map]
  | or l r ihl ihr => simp only [Filter.map, condition, ihl, ihr, literalCount_map]
  | not f ih => simp only [Filter.map, condition, ih, isBinary_map]

theorem whereClause_map_literal (literal : Value → Value) (f : Option Filter) :
    whereClause (f.map (Filter.map id literal)) = whereClause f := by
  cases f with
  | none => rfl
  | some f => simp only [Option.map_some, whereClause, condition_map_literal]

/-- **The text of a statement is settled without its data.** So data cannot become part of a text,
however it is written. -/
theorem Operation.pieces_withoutData (q : Operation) :
    q.withoutData.statement.pieces = q.statement.pieces := by
  cases q with
  | select t s =>
    have horder : s.order.terms.map (fun o => (⟨o.path, o.direction⟩ : OrderTerm)) =
        s.order.terms := List.map_id' _
    simp only [withoutData, map, statement, Sql.select, whereClause_map_literal, id_eq, horder]
  | count t f => simp only [withoutData, map, statement, Sql.count, whereClause_map_literal, id_eq]
  | insert r => simp only [withoutData, map, statement, pieces_insert, Record.empty, id_eq]
  | update r id =>
    simp only [withoutData, map, statement, pieces_update, Record.empty, id_eq, Sql.selectById]
  | selectById t id => rfl
  | delete t id => rfl
  | lockRow t id => rfl
  | assemble t p id => rfl
  | contentLength t p id => rfl
  | contentChunk t p offset length id => rfl

/-! ### A ledger -/

/-- A schema whose names hold quotes, placeholders, comments and ends of statements. -/
def ledgers : Schema.Document where
  namespaces := [{ id := "books", name := "a\"b\"\"; --" }]
  entities := [{
    name := "Ledger"
    table := some "\"\n$2"
    attributes := [
      { name := "Id", kind := .integer },
      { name := "$1\"", kind := .blob },
      { name := "$1\"FileName", kind := .text }] }]

/-- The record type of a ledger. -/
def ledger : RecordType where
  name := "Ledger"
  space := "a\"b\"\"; --"
  table := "\"\n$2"
  attributes := [
    { name := "Id", kind := .integer, nullable := true, sidecar := none, target := none },
    { name := "$1\"", kind := .blob, nullable := true, sidecar := "$1\"FileName", target := none },
    { name := "$1\"FileName", kind := .text, nullable := true, sidecar := none, target := none }]
  identity := 0

end Sql

end RecordService
