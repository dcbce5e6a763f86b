import RecordService.Proofs.Sql.Grammar
import RecordService.Store.Memory

/-!
# How the database reads what a statement writes

A statement that adds a row names the columns that it writes, and gives an expression for each of
them, in the same order. One that changes rows gives each column its expression right away, and says
which rows it is about. A list goes on as long as commas follow, so there is at most one way to read
a statement (`RecordService.Sql.Reading.Writes.unique`).

To carry out what was read, the expressions are the arguments with their numbers. No column is given
two of them, and none has another type than its column. A column of a new row that nothing is given
for is `null`, but for the identity, which the database gives.

* `RecordService.Sql.Reading.Expression`, `RecordService.Sql.Reading.Write`: what is read.
* `RecordService.Sql.Reading.HasWrite`: what a statement writes.
* `RecordService.Sql.Reading.Write.table?`: the table behind a statement, `none` if it is refused.
-/

namespace RecordService.Sql.Reading

/-! ### Lists with commas -/

/-- **Reading a list**: `ReadsList item? ls as rest` says that the lexemes `ls` begin with the items
`as`, commas between them, and that the lexemes `rest` follow. -/
inductive ReadsList {α : Type} (item? : List Lexeme → Option (α × List Lexeme)) :
    List Lexeme → List α → List Lexeme → Prop
  | last {ls rest : List Lexeme} {a : α} (item : item? ls = some (a, rest))
      (stop : rest.head? ≠ some (.symbol ",")) : ReadsList item? ls [a] rest
  | more {ls ms rest : List Lexeme} {a : α} {as : List α}
      (item : item? ls = some (a, .symbol "," :: ms)) (items : ReadsList item? ms as rest) :
      ReadsList item? ls (a :: as) rest

/-- **There is one way to read a list**, because an item is read by a function and a comma tells
whether another one follows. -/
theorem ReadsList.unique {α : Type} {item? : List Lexeme → Option (α × List Lexeme)}
    {ls rest rest' : List Lexeme} {as as' : List α} (h : ReadsList item? ls as rest)
    (h' : ReadsList item? ls as' rest') : as = as' ∧ rest = rest' := by
  induction h generalizing as' rest' with
  | last item stop =>
    cases h' with
    | last item' _ =>
      cases item.symm.trans item'
      exact ⟨rfl, rfl⟩
    | more item' _ =>
      cases item.symm.trans item'
      exact absurd rfl stop
  | more item _ ih =>
    cases h' with
    | last item' stop =>
      cases item.symm.trans item'
      exact absurd rfl stop
    | more item' items =>
      cases item.symm.trans item'
      obtain ⟨rfl, rfl⟩ := ih items
      exact ⟨rfl, rfl⟩

/-! ### Expressions -/

/-- The name that a lexeme stands for, quoted or not. -/
def Lexeme.identifier? : Lexeme → Option String
  | .name s => some s
  | .word s => some s
  | _ => none

/-- The name of a table, with that of its schema. -/
structure TableName where
  space : String
  table : String
deriving DecidableEq

/-- The name of the table of a record type. -/
def nameOf (t : RecordType) : TableName := ⟨t.space, t.table⟩

/-- An expression that a column is given. -/
inductive Expression where
  /-- An argument, perhaps as a value of a type. -/
  | argument (n : Nat) (type : Option String)
  /-- The bytes in a column of a table, put together in the order of another column. They are none
  if there are no rows. -/
  | joined (source : TableName) (column order : String)
deriving DecidableEq

/-- The column at the head of a list of lexemes. -/
def column? : List Lexeme → Option (String × List Lexeme)
  | l :: ls => l.identifier?.map (·, ls)
  | [] => none

/-- The table at the head of a list of lexemes. -/
def table? : List Lexeme → Option (TableName × List Lexeme)
  | space :: .symbol "." :: table :: ls => do
    some (⟨← space.identifier?, ← table.identifier?⟩, ls)
  | _ => none

/-- What follows a constant without any bytes. -/
def noBytes? : List Lexeme → Option (List Lexeme)
  | .constant "" :: .symbol "::" :: .word "bytea" :: ls => some ls
  | _ => none

/-- The query for joined bytes at the head of a list of lexemes. -/
def joining? : List Lexeme → Option (Expression × List Lexeme)
  | .word "select" :: .word "string_agg" :: .symbol "(" :: column :: .symbol "," :: ls => do
    let ls ← noBytes? ls
    match ls with
    | .word "order" :: .word "by" :: order :: .symbol ")" :: .word "from" :: ls => do
      let (source, ls) ← table? ls
      some (.joined source (← column.identifier?) (← order.identifier?), ls)
    | _ => none
  | _ => none

/-- The expression at the head of a list of lexemes. -/
def expression? : List Lexeme → Option (Expression × List Lexeme)
  | .argument n :: .symbol "::" :: .word type :: ls => some (.argument n (some type), ls)
  | .argument n :: ls => some (.argument n none, ls)
  | .word "coalesce" :: .symbol "(" :: .symbol "(" :: ls => do
    let (e, ls) ← joining? ls
    match ls with
    | .symbol ")" :: .symbol "," :: ls => do
      match ← noBytes? ls with
      | .symbol ")" :: ls => some (e, ls)
      | _ => none
    | _ => none
  | _ => none

/-- The column with its expression at the head of a list of lexemes. -/
def assignment? (ls : List Lexeme) : Option ((String × Expression) × List Lexeme) := do
  let (column, ls) ← column? ls
  match ls with
  | .symbol "=" :: ls => do
    let (e, ls) ← expression? ls
    some ((column, e), ls)
  | _ => none

/-- The column and the argument that it is compared with, at the head of a list of lexemes. -/
def key? (ls : List Lexeme) : Option ((String × Nat) × List Lexeme) := do
  let (column, ls) ← column? ls
  match ls with
  | .symbol "=" :: .argument n :: ls => some ((column, n), ls)
  | _ => none

/-- The column that is shown, with its label, at the head of a list of lexemes. -/
def shown? : List Lexeme → Option ((String × String) × List Lexeme)
  | .name c :: .symbol "::" :: .word _ :: .word "as" :: .name label :: ls => some ((c, label), ls)
  | .word "octet_length" :: .symbol "(" :: .name c :: .symbol ")" :: .symbol "::" :: .word _ ::
      .word "as" :: .name label :: ls => some ((c, label), ls)
  | _ => none

/-! ### Statements -/

/-- What a statement writes. -/
inductive Write where
  /-- A new row with these columns. -/
  | insert (table : TableName) (assignments : List (String × Expression))
  /-- A new row without any column. -/
  | insertDefaults (table : TableName)
  /-- These columns of the rows whose column `key` is equal to the argument with number `n`. -/
  | update (table : TableName) (assignments : List (String × Expression)) (key : String) (n : Nat)
  /-- Nothing, for it only reads. -/
  | nothing
deriving DecidableEq

/-- Whether lexemes are the end of a statement: nothing, or the columns to show. -/
inductive Returns : List Lexeme → Prop
  | nothing : Returns []
  | columns {ls : List Lexeme} {cs : List (String × String)} (items : ReadsList shown? ls cs []) :
      Returns (.word "returning" :: ls)

/-- **Reading a statement**: `Writes ls w` says that `w` is what the statement with the lexemes `ls`
writes. -/
inductive Writes : List Lexeme → Write → Prop
  | insert {ls ms ns rest : List Lexeme} {table : TableName} {columns : List String}
      {expressions : List Expression} (into : table? ls = some (table, .symbol "(" :: ms))
      (first : ReadsList column? ms columns (.symbol ")" :: .word "values" :: .symbol "(" :: ns))
      (second : ReadsList expression? ns expressions (.symbol ")" :: rest))
      (length : columns.length = expressions.length) (returns : Returns rest) :
      Writes (.word "insert" :: .word "into" :: ls) (.insert table (columns.zip expressions))
  | insertDefaults {ls rest : List Lexeme} {table : TableName}
      (into : table? ls = some (table, .word "default" :: .word "values" :: rest))
      (returns : Returns rest) :
      Writes (.word "insert" :: .word "into" :: ls) (.insertDefaults table)
  | update {ls ms ns rest : List Lexeme} {table : TableName}
      {assignments : List (String × Expression)} {key : String} {n : Nat}
      (name : table? ls = some (table, .word "set" :: ms))
      (items : ReadsList assignment? ms assignments (.word "where" :: ns))
      (which : key? ns = some ((key, n), rest)) (returns : Returns rest) :
      Writes (.word "update" :: ls) (.update table assignments key n)
  | nothing {ls ms ns : List Lexeme} {cs : List (String × String)} {table : TableName}
      {key : String × Nat} (items : ReadsList shown? ls cs (.word "from" :: ms))
      (name : table? ms = some (table, .word "where" :: ns)) (which : key? ns = some (key, [])) :
      Writes (.word "select" :: ls) .nothing

/-- **There is one way to read a statement**, so it writes nothing but what it was shown to write.
-/
theorem Writes.unique {ls : List Lexeme} {w w' : Write} (h : Writes ls w) (h' : Writes ls w') :
    w = w' := by
  generalize hls : ls = ls' at h'
  -- statements of different sorts begin with different words
  cases h with
  | insert into first second length _ =>
    cases h' with
    | insert into' first' second' _ _ =>
      cases hls
      cases into.symm.trans into'
      obtain ⟨rfl, hrest⟩ := first.unique first'
      cases hrest
      obtain ⟨rfl, -⟩ := second.unique second'
      rfl
    | insertDefaults into' _ =>
      cases hls
      cases into.symm.trans into'
    | update => simp at hls
    | nothing => simp at hls
  | insertDefaults into _ =>
    cases h' with
    | insert into' _ _ _ _ =>
      cases hls
      cases into.symm.trans into'
    | insertDefaults into' _ =>
      cases hls
      cases into.symm.trans into'
      rfl
    | update => simp at hls
    | nothing => simp at hls
  | update name items which _ =>
    cases h' with
    | update name' items' which' _ =>
      cases hls
      cases name.symm.trans name'
      obtain ⟨rfl, hrest⟩ := items.unique items'
      cases hrest
      cases which.symm.trans which'
      rfl
    | insert => simp at hls
    | insertDefaults => simp at hls
    | nothing => simp at hls
  | nothing _ _ _ =>
    cases h' with
    | nothing _ _ _ => rfl
    | insert => simp at hls
    | insertDefaults => simp at hls
    | update => simp at hls

/-- Whether `w` is what a statement writes. -/
def HasWrite (s : Statement) (w : Write) : Prop :=
  ∃ ls, scan s.text.toList = some ls ∧ Writes ls w

theorem HasWrite.unique {s : Statement} {w w' : Write} (h : HasWrite s w) (h' : HasWrite s w') :
    w = w' := by
  obtain ⟨ls, hls, hw⟩ := h
  obtain ⟨ls', hls', hw'⟩ := h'
  obtain rfl : ls = ls' := Option.some.inj (hls.symm.trans hls')
  exact hw.unique hw'

/-! ### What is written -/

section

variable (t : RecordType) (arguments : List Argument)

/-- The argument with a number, counted from one. -/
def argument? (n : Nat) : Option Argument :=
  match n with
  | 0 => none
  | n + 1 => arguments[n]?

/-- The value that an expression gives a column of a type. -/
def Expression.value? (type : String) : Expression → Option Value
  | .argument n cast =>
    match argument? arguments n with
    | some (.value v) => if cast.all (· = type) then some v else none
    | _ => none
  | .joined _ _ _ => none

/-- The columns that are given expressions, with their values. -/
def assigned? : List (String × Expression) → Option (List (String × Value))
  | [] => some []
  | (column, e) :: ws => do
    let a ← t.attribute? column
    let v ← e.value? arguments (columnType a.kind)
    some ((column, v) :: (← assigned? ws))

/-- The values of a new row with an identity. -/
def newValues (assigned : List (String × Value)) (id : Int) : List Value :=
  t.attributes.map fun a =>
    (assigned.lookup a.name).getD (if a.isIdentity then .integer id else .null)

/-- The values of a row after some of them were written. -/
def writtenOver (assigned : List (String × Value)) (stored : List Value) : List Value :=
  (t.attributes.zip stored).map fun (a, old) => (assigned.lookup a.name).getD old

/-- A table with a new row, which is given the identity `next`. -/
def withNewRow (table : Table) (assigned : List (String × Value)) (next : Int) : Table where
  lastId := next
  rows := table.rows ++ [(next,
    ⟨newValues t assigned next, List.replicate t.attributes.length none⟩)]

/-- A table with the rows written over whose value at a position is equal to another one. -/
def withRowsWritten (table : Table) (assigned : List (String × Value)) (i : Nat) (key : Value) :
    Table :=
  { table with
    rows := table.rows.map fun (id, row) =>
      if (row.values[i]?).bind (Value.compare key) = some .eq then
        (id, { row with values := writtenOver t assigned row.values })
      else (id, row) }

/-- The columns that a statement gives values, with these values. A statement about another table is
refused here, as one that the database refuses. -/
def Write.assigned? : Write → Option (List (String × Value))
  | .insert name ws =>
    if name = nameOf t ∧ (ws.map Prod.fst).Nodup then Reading.assigned? t arguments ws else none
  | .insertDefaults name => if name = nameOf t then some [] else none
  | .update name ws _ _ =>
    if name = nameOf t ∧ (ws.map Prod.fst).Nodup then Reading.assigned? t arguments ws else none
  | .nothing => some []

/-- **The table of a record type behind a statement.** A new row is given the identity `next`. -/
def Write.table? (w : Write) (next : Int) (table : Table) : Option Table := do
  let assigned ← w.assigned? t arguments
  match w with
  | .insert _ _ => some (withNewRow t table assigned next)
  | .insertDefaults _ => some (withNewRow t table assigned next)
  | .update _ _ key n => do
    let i ← t.index? key
    match ← argument? arguments n with
    | .value v => some (withRowsWritten t table assigned i v)
    | .content _ => none
  | .nothing => some table

end

end RecordService.Sql.Reading
