import RecordService.Proofs.Sql.Lexer

/-!
# How the database reads a condition

The condition of a statement stands behind the word `WHERE`. In it, `NOT` binds tighter than `AND`,
and `AND` tighter than `OR`, comparisons bind tighter than all three, and parentheses group. A
condition is read from the left, as far as it goes (`RecordService.Sql.Reading.Reads`), and there is
at most one way to do so (`RecordService.Sql.Reading.Reads.unique`).

For a row and arguments, a condition is true, false or unknown, or the statement is refused: operands
that are compared must be of one type, and texts are compared only if they are collated by their
bytes. For the order of two values of one type, the order of values is taken.

* `RecordService.Sql.Reading.Condition`: the conditions.
* `RecordService.Sql.Reading.HasCondition`: the condition of a statement.
* `RecordService.Sql.Reading.Condition.truth`: the truth of a condition, `none` if it is refused.
-/

namespace RecordService.Sql.Reading

/-! ### Conditions -/

/-- A side of a comparison. -/
inductive Operand where
  /-- A column, and perhaps how it is collated. -/
  | column (name : String) (collation : Option String)
  /-- An argument as a value of a type. -/
  | argument (n : Nat) (type : String)
deriving DecidableEq

/-- A condition. -/
inductive Condition where
  | comparison (left : Operand) (operator : String) (right : Operand)
  | and (left right : Condition)
  | or (left right : Condition)
  | not (inner : Condition)
deriving DecidableEq

/-- The operand at the head of a list of lexemes. -/
def operand? : List Lexeme → Option (Operand × List Lexeme)
  | .name s :: .word "collate" :: .name c :: ls => some (.column s (some c), ls)
  | .name s :: ls => some (.column s none, ls)
  | .argument n :: .symbol "::" :: .word type :: ls => some (.argument n type, ls)
  | _ => none

/-- The comparison at the head of a list of lexemes. -/
def comparison? (ls : List Lexeme) : Option (Condition × List Lexeme) := do
  let (left, ls) ← operand? ls
  match ls with
  | .symbol s :: ls => do
    let (right, ls) ← operand? ls
    some (.comparison left s right, ls)
  | _ => none

/-- What is read of a condition: operands of `OR`, operands of `AND`, and operands of `NOT`, or what
continues a chain of them after its part `left`. -/
inductive Part where
  | disjunction
  | moreOr (left : Condition)
  | conjunction
  | moreAnd (left : Condition)
  | negation

/-- **Reading a condition**: `Reads part ls c rest` says that the lexemes `ls` begin with this part of
a condition, that the condition is `c` then, and that the lexemes `rest` follow. -/
inductive Reads : Part → List Lexeme → Condition → List Lexeme → Prop
  | disjunction {ls ms rest : List Lexeme} {c d : Condition} (first : Reads .conjunction ls c ms)
      (more : Reads (.moreOr c) ms d rest) : Reads .disjunction ls d rest
  | or {ls ms rest : List Lexeme} {b c d : Condition} (next : Reads .conjunction ls c ms)
      (more : Reads (.moreOr (.or b c)) ms d rest) : Reads (.moreOr b) (.word "or" :: ls) d rest
  | orEnd {ls : List Lexeme} {c : Condition} (stop : ls.head? ≠ some (.word "or")) :
      Reads (.moreOr c) ls c ls
  | conjunction {ls ms rest : List Lexeme} {c d : Condition} (first : Reads .negation ls c ms)
      (more : Reads (.moreAnd c) ms d rest) : Reads .conjunction ls d rest
  | and {ls ms rest : List Lexeme} {b c d : Condition} (next : Reads .negation ls c ms)
      (more : Reads (.moreAnd (.and b c)) ms d rest) : Reads (.moreAnd b) (.word "and" :: ls) d rest
  | andEnd {ls : List Lexeme} {c : Condition} (stop : ls.head? ≠ some (.word "and")) :
      Reads (.moreAnd c) ls c ls
  | not {ls rest : List Lexeme} {c : Condition} (inner : Reads .negation ls c rest) :
      Reads .negation (.word "not" :: ls) (.not c) rest
  | parentheses {ls rest : List Lexeme} {c : Condition}
      (inner : Reads .disjunction ls c (.symbol ")" :: rest)) :
      Reads .negation (.symbol "(" :: ls) c rest
  | comparison {ls rest : List Lexeme} {c : Condition} (h : comparison? ls = some (c, rest)) :
      Reads .negation ls c rest

/-- **There is one way to read a condition.** So what a statement is shown to mean is all that it
means. -/
theorem Reads.unique {p : Part} {ls rest rest' : List Lexeme} {c c' : Condition}
    (h : Reads p ls c rest) (h' : Reads p ls c' rest') : c = c' ∧ rest = rest' := by
  induction h generalizing c' rest' with
  | disjunction _ _ ihfirst ihmore =>
    cases h' with
    | disjunction first more =>
      obtain ⟨rfl, rfl⟩ := ihfirst first
      exact ihmore more
  | or _ _ ihnext ihmore =>
    cases h' with
    | or next more =>
      obtain ⟨rfl, rfl⟩ := ihnext next
      exact ihmore more
    | orEnd stop => exact absurd rfl stop
  | orEnd stop =>
    cases h' with
    | or next more => exact absurd rfl stop
    | orEnd _ => exact ⟨rfl, rfl⟩
  | conjunction _ _ ihfirst ihmore =>
    cases h' with
    | conjunction first more =>
      obtain ⟨rfl, rfl⟩ := ihfirst first
      exact ihmore more
  | and _ _ ihnext ihmore =>
    cases h' with
    | and next more =>
      obtain ⟨rfl, rfl⟩ := ihnext next
      exact ihmore more
    | andEnd stop => exact absurd rfl stop
  | andEnd stop =>
    cases h' with
    | and next more => exact absurd rfl stop
    | andEnd _ => exact ⟨rfl, rfl⟩
  | not _ ih =>
    cases h' with
    | not inner =>
      obtain ⟨rfl, rfl⟩ := ih inner
      exact ⟨rfl, rfl⟩
    | comparison h => simp [comparison?, operand?] at h
  | parentheses _ ih =>
    cases h' with
    | parentheses inner =>
      obtain ⟨rfl, hrest⟩ := ih inner
      exact ⟨rfl, (List.cons.inj hrest).2⟩
    | comparison h => simp [comparison?, operand?] at h
  | comparison h =>
    cases h' with
    | not inner => simp [comparison?, operand?] at h
    | parentheses inner => simp [comparison?, operand?] at h
    | comparison h' =>
      rw [h] at h'
      exact ⟨congrArg Prod.fst (Option.some.inj h'), congrArg Prod.snd (Option.some.inj h')⟩

/-- The words that end a condition. -/
def clauses : List Lexeme :=
  ["group", "having", "window", "union", "intersect", "except", "order", "limit", "offset", "fetch",
    "for"].map .word

/-- The lexemes behind the first `WHERE`. -/
def behindWhere (ls : List Lexeme) : List Lexeme := (ls.dropWhile (· != .word "where")).drop 1

/-- Whether `c` is the condition of a statement. -/
def HasCondition (s : Statement) (c : Condition) : Prop :=
  ∃ ls rest, scan s.text.toList = some ls ∧ Reads .disjunction (behindWhere ls) c rest ∧
    ∀ l ∈ rest.head?, l ∈ clauses

theorem HasCondition.unique {s : Statement} {c c' : Condition} (h : HasCondition s c)
    (h' : HasCondition s c') : c = c' := by
  obtain ⟨ls, rest, hls, hreads, -⟩ := h
  obtain ⟨ls', rest', hls', hreads', -⟩ := h'
  obtain rfl : ls = ls' := Option.some.inj (hls.symm.trans hls')
  exact (hreads.unique hreads').1

/-! ### Truth -/

/-- The type of a column for the values of a kind. -/
def columnType : Kind → String
  | .integer => "int8"
  | .decimal => "float8"
  | .text => "text"
  | .boolean => "bool"
  | .dateTime => "timestamp"
  | .blob => "bytea"
  | .reference => "int8"

/-- The outcomes of the order for which a comparison is true. -/
def outcomes : String → Option (List Ordering)
  | "=" => some [.eq]
  | "<>" => some [.lt, .gt]
  | "<" => some [.lt]
  | "<=" => some [.lt, .eq]
  | ">" => some [.gt]
  | ">=" => some [.gt, .eq]
  | _ => none

/-- A value with its type and, for a text, how it is collated. -/
structure Typed where
  value : Value
  type : String
  collation : Option String := none

section

variable (t : RecordType) (row : List Value) (arguments : List Argument)

/-- The value of an operand: that of the attribute with the name of the column, or the argument with
the number of the placeholder. -/
def Operand.typed : Operand → Option Typed
  | column name collation => do
    let i ← t.index? name
    let a ← t.attributes[i]?
    let v ← row[i]?
    if collation.isSome && a.kind ≠ .text then none
    else some { value := v, type := columnType a.kind, collation }
  | argument n type =>
    match n with
    | 0 => none
    | n + 1 =>
      match arguments[n]? with
      | some (.value v) =>
        if v.kind?.all (columnType · = type) then some { value := v, type } else none
      | _ => none

/-- Compares two operands. The outcome of a comparison with `null` is unknown. -/
def compared (operator : String) (a b : Typed) : Option (Option Bool) := do
  let os ← outcomes operator
  if a.type ≠ b.type then none
  else if a.type = "text" ∧ a.collation ≠ some "C" ∧ b.collation ≠ some "C" then none
  else if a.value.isNull || b.value.isNull then some none
  else
    let o ← a.value.compare b.value
    some (some (os.contains o))

/-- Three truth values: false, unknown and true, in this order. -/
def degree : Option Bool → Nat
  | some false => 0
  | none => 1
  | some true => 2

/-- The truth of a condition for a row and the arguments of the statement. Of two conditions joined by
`AND` the less true one counts, and of two joined by `OR` the truer one. -/
def Condition.truth : Condition → Option (Option Bool)
  | comparison left operator right => do
    compared operator (← left.typed t row arguments) (← right.typed t row arguments)
  | and left right => do
    let a ← left.truth
    let b ← right.truth
    some (if degree a ≤ degree b then a else b)
  | or left right => do
    let a ← left.truth
    let b ← right.truth
    some (if degree a ≤ degree b then b else a)
  | not inner => do
    let a ← inner.truth
    some (a.map (!·))

end

end RecordService.Sql.Reading
