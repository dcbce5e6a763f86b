import RecordService.Proofs.Sql.Grammar

/-!
# How the database reads a sort clause and a window

The sort clause of a statement stands behind the words `ORDER BY`. Its items are read from the left,
up to an item that no comma follows, and what follows then is the window. An item is ascending unless
it says `DESC`, and `null` counts as greater than every value unless the item says where it stands.

The rows may be answered in any order that agrees with the items: one by one, the first item that
tells two rows apart decides. Texts are sorted only if they are collated by their bytes. For the
order of two values of one type, the order of values is taken. Of the sorted rows, those of the offset
are left out first, and the limit counts the ones behind them.

* `RecordService.Sql.Reading.SortItem`, `RecordService.Sql.Reading.Window`: what is read.
* `RecordService.Sql.Reading.HasPresentation`: the sort clause and the window of a statement.
* `RecordService.Sql.Reading.Presentation.Answers`: the rows that a statement may answer with.
-/

namespace RecordService.Sql.Reading

/-! ### Items of a sort clause -/

/-- An item of a sort clause. -/
structure SortItem where
  operand : Operand
  descending : Bool
  nullsFirst : Bool
deriving DecidableEq

/-- Whether an item is descending. -/
def direction : List Lexeme → Bool × List Lexeme
  | .word "asc" :: ls => (false, ls)
  | .word "desc" :: ls => (true, ls)
  | ls => (false, ls)

/-- Whether `null` stands first. Where nothing is said, it is greater than every value. -/
def nulls (descending : Bool) : List Lexeme → Bool × List Lexeme
  | .word "nulls" :: .word "first" :: ls => (true, ls)
  | .word "nulls" :: .word "last" :: ls => (false, ls)
  | ls => (descending, ls)

/-- The item at the head of a list of lexemes. -/
def sortItem? (ls : List Lexeme) : Option (SortItem × List Lexeme) := do
  let (operand, ls) ← operand? ls
  let (descending, ls) := direction ls
  let (nullsFirst, ls) := nulls descending ls
  some (⟨operand, descending, nullsFirst⟩, ls)

/-- **Reading a sort clause**: `ReadsItems ls is rest` says that the lexemes `ls` begin with the items
`is`, and that the lexemes `rest` follow. -/
inductive ReadsItems : List Lexeme → List SortItem → List Lexeme → Prop
  | last {ls rest : List Lexeme} {i : SortItem} (item : sortItem? ls = some (i, rest))
      (stop : rest.head? ≠ some (.symbol ",")) : ReadsItems ls [i] rest
  | more {ls ms rest : List Lexeme} {i : SortItem} {is : List SortItem}
      (item : sortItem? ls = some (i, .symbol "," :: ms)) (items : ReadsItems ms is rest) :
      ReadsItems ls (i :: is) rest

/-- **There is one way to read a sort clause**, so its items are all that a database can sort by. -/
theorem ReadsItems.unique {ls rest rest' : List Lexeme} {is is' : List SortItem}
    (h : ReadsItems ls is rest) (h' : ReadsItems ls is' rest') : is = is' ∧ rest = rest' := by
  induction h generalizing is' rest' with
  | last item stop =>
    cases h' with
    | last item' _ =>
      cases item.symm.trans item'
      exact ⟨rfl, rfl⟩
    | more item' _ =>
      cases item.symm.trans item'
      exact absurd rfl stop
  | more item _ ih =>
    cases h' with
    | last item' stop =>
      cases item.symm.trans item'
      exact absurd rfl stop
    | more item' items =>
      cases item.symm.trans item'
      obtain ⟨rfl, rfl⟩ := ih items
      exact ⟨rfl, rfl⟩

/-! ### Windows -/

/-- A window on the sorted rows. -/
structure Window where
  /-- The greatest number of rows, if there is one. -/
  limit : Option Nat := none
  /-- The number of rows that are left out in front. -/
  offset : Nat := 0
deriving DecidableEq

/-- The number that a lexeme stands for. -/
def Lexeme.count? : Lexeme → Option Nat
  | .number s => Text.digits? s.toList
  | _ => none

/-- The window at the end of a statement, its two clauses being in any order. -/
def window? : List Lexeme → Option Window
  | [] => some {}
  | [.word "limit", n] => do some { limit := ← n.count? }
  | [.word "offset", k] => do some { offset := ← k.count? }
  | [.word "limit", n, .word "offset", k] => do some { limit := ← n.count?, offset := ← k.count? }
  | [.word "offset", k, .word "limit", n] => do some { limit := ← n.count?, offset := ← k.count? }
  | _ => none

/-- The elements that a window shows. -/
def Window.shown {α : Type} (w : Window) (l : List α) : List α :=
  match w.limit with
  | none => l.drop w.offset
  | some n => (l.drop w.offset).take n

/-! ### Presentations -/

/-- How a statement presents the rows that it selects. -/
structure Presentation where
  items : List SortItem
  window : Window

/-- Whether `p` is the sort clause and the window of a statement. -/
def HasPresentation (s : Statement) (p : Presentation) : Prop :=
  ∃ ls ms rest, scan s.text.toList = some ls ∧
    ls.dropWhile (· != .word "order") = .word "order" :: .word "by" :: ms ∧
    ReadsItems ms p.items rest ∧ window? rest = some p.window

theorem HasPresentation.unique {s : Statement} {p p' : Presentation} (h : HasPresentation s p)
    (h' : HasPresentation s p') : p = p' := by
  obtain ⟨items, window⟩ := p
  obtain ⟨items', window'⟩ := p'
  obtain ⟨ls, ms, rest, hls, hms, hitems, hwindow⟩ := h
  obtain ⟨ls', ms', rest', hls', hms', hitems', hwindow'⟩ := h'
  cases hls.symm.trans hls'
  cases hms.symm.trans hms'
  obtain ⟨rfl, rfl⟩ := hitems.unique hitems'
  cases hwindow.symm.trans hwindow'
  rfl

section

variable (t : RecordType) (arguments : List Argument)

/-- The order of two rows by an item, `none` if the rows cannot be sorted by it. -/
def SortItem.compare (i : SortItem) (a b : List Value) : Option Ordering := do
  let v ← i.operand.typed t a arguments
  let w ← i.operand.typed t b arguments
  if v.type = "text" ∧ v.collation ≠ some "C" then none
  else
    match v.value.isNull, w.value.isNull with
    | true, true => some .eq
    | true, false => some (if i.nullsFirst then .lt else .gt)
    | false, true => some (if i.nullsFirst then .gt else .lt)
    | false, false => do
      let o ← v.value.compare w.value
      some (if i.descending then o.swap else o)

/-- The order of two rows by several items: that of the first item that tells them apart. -/
def compareRows : List SortItem → List Value → List Value → Option Ordering
  | [], _, _ => some .eq
  | i :: is, a, b => do
    match ← i.compare t arguments a b with
    | .eq => compareRows is a b
    | o => some o

/-- **The rows that a statement may answer with**, of those that it selects: what the window shows of
the rows in any order in which none comes after one that is greater. -/
def Presentation.Answers (p : Presentation) (rows answer : List (List Value)) : Prop :=
  ∃ sorted, sorted.Perm rows ∧
    (sorted.Pairwise fun a b => ∃ o, compareRows t arguments p.items a b = some o ∧ o ≠ .gt) ∧
    answer = p.window.shown sorted

end

end RecordService.Sql.Reading
