import RecordService.Query.Filter
import RecordService.Query.Token

/-!
# Parsing filters

Filters are written with infix comparisons, `and`, `or`, `not` and parentheses; `not` binds tightest
and `or` loosest, and both binary operators associate to the left. Literals are read as values of
the kind of the property they are compared with.

An operand may be an open parenthesis or a negation, which contain further operands. The number of
such levels is limited, and the parser for operands recurses over the levels that are left.

* `RecordService.Filter.parse`: the filter that a text writes, `none` for a blank text.
* `RecordService.Filter.operand`: the parser for operands.
* `RecordService.Filter.maxNesting`: the number of levels.
-/

namespace RecordService.Filter

/-- How many parentheses and negations may be open at once. -/
def maxNesting : Nat := 64

/-- A fault at a place of the text. -/
def fault {α : Type} (f : FilterFault) (place : List Char) : Except RequestError α :=
  .error (.malformedFilter f.message (String.ofList place))

/-- What a parser finds at the head of the tokens `ts`: a filter and the remaining tokens, which are
fewer. -/
abbrev Found (ts : List Token) : Type := { p : Filter × List Token // p.2.length < ts.length }

/-- A parser for a filter at the head of a list of tokens. -/
abbrev Parser : Type := (ts : List Token) → Except RequestError (Found ts)

/-! ### Comparisons -/

/-- The value of the token `t` compared with the property `p`. Texts are quoted, numbers and truth
values are not. -/
def literal (p : Path) (t : Token) : Except RequestError Value :=
  let mismatch := .error (.typeMismatch p.name p.kind (String.ofList t.lexeme))
  let coerced (s : String) : Except RequestError Value :=
    match Value.coerce p.kind s with
    | some v => .ok v
    | none => mismatch
  match t.kind with
  | .quoted s => if p.kind = .text ∨ p.kind = .dateTime then coerced s else mismatch
  | .number s =>
    if p.kind = .integer ∨ p.kind = .decimal ∨ p.kind = .reference then coerced s else mismatch
  | .word "true" => if p.kind = .boolean then .ok (.boolean true) else mismatch
  | .word "false" => if p.kind = .boolean then .ok (.boolean false) else mismatch
  | _ => fault .expectedLiteral t.lexeme

/-- The operator that a token is. -/
def operator? (t : Token) : Option Comparison :=
  match t.kind with
  | .word s => Comparison.ofKeyword? s
  | _ => none

/-- The operator and the literal that follow the property `p`. The whole text is shown if the tokens
come to an end. -/
def comparisonWith (whole : List Char) (p : Path) (ts : List Token) :
    Except RequestError (Found ts) :=
  match ts with
  | [] => fault .unexpectedEnd (Text.trimBlank whole)
  | o :: ts =>
    match operator? o with
    | none => fault .unknownOperator o.lexeme
    | some op =>
      match ts with
      | [] => fault .unexpectedEnd (Text.trimBlank whole)
      | l :: ts => do
        let v ← literal p l
        .ok ⟨(.comparison p op v, ts), by simp only [List.length_cons]; omega⟩

/-! ### Chains of operands -/

/-- Whether a token is a word. -/
def isWord (w : String) (t : Token) : Bool := t.kind == .word w

/-- Continues a chain of operands after its part `left`: as long as the word `w` follows, another
operand is joined on the right. -/
def chain (w : String) (join : Filter → Filter → Filter) (operand : Parser) (left : Filter)
    (ts : List Token) : Except RequestError { p : Filter × List Token // p.2.length ≤ ts.length } :=
  match ts with
  | [] => .ok ⟨(left, []), Nat.le_refl _⟩
  | t :: ts =>
    if isWord w t then do
      let ⟨(right, rest), h⟩ ← operand ts
      let ⟨p, hp⟩ ← chain w join operand (join left right) rest
      .ok ⟨p, Nat.le_succ_of_le (Nat.le_trans hp (Nat.le_of_lt h))⟩
    else .ok ⟨(left, t :: ts), Nat.le_refl _⟩
termination_by ts.length
decreasing_by simp only [List.length_cons] at h ⊢; omega

/-- A chain of one or more operands. -/
def chainOf (w : String) (join : Filter → Filter → Filter) (operand : Parser) : Parser :=
  fun ts => do
    let ⟨(left, rest), h⟩ ← operand ts
    let ⟨p, hp⟩ ← chain w join operand left rest
    .ok ⟨p, Nat.lt_of_le_of_lt hp h⟩

/-- Operands joined by `and`. -/
def conjunction (operand : Parser) : Parser := chainOf "and" .and operand

/-- Conjunctions joined by `or`. -/
def disjunction (operand : Parser) : Parser := chainOf "or" .or (conjunction operand)

/-! ### Operands -/

/-- Undoes the nesting of the parenthesis `t`: the next token has to close it. -/
def closing (t : Token) (f : Filter) (ts : List Token) :
    Except RequestError { p : Filter × List Token // p.2.length ≤ ts.length } :=
  match ts with
  | [] => fault .unbalanced t.onward
  | c :: ts =>
    if c.kind = .closing then .ok ⟨(f, ts), Nat.le_succ _⟩ else fault .expectedClosing c.lexeme

/-- The words that are no properties. -/
def isReserved (s : String) : Bool := s == "and" || s == "or" || s == "not"

/-- An operand whose parts inside a parenthesis or behind a negation are read by `inner`, if there
is a level left. -/
def operandWith (t : RecordType) (whole : List Char) (inner : Option Parser) : Parser
  | [] => fault .unexpectedEnd (Text.trimBlank whole)
  | token :: ts =>
    if isWord "not" token then
      match inner with
      | none => fault .nestedTooDeeply token.onward
      | some inner => do
        let ⟨(f, rest), h⟩ ← inner ts
        .ok ⟨(.not f, rest), Nat.lt_succ_of_lt h⟩
    else
      match token.kind with
      | .opening =>
        match inner with
        | none => fault .nestedTooDeeply token.onward
        | some inner => do
          let ⟨(f, rest), h⟩ ← disjunction inner ts
          let ⟨p, hp⟩ ← closing token f rest
          .ok ⟨p, Nat.lt_succ_of_lt (Nat.lt_of_le_of_lt hp h)⟩
      | .word s =>
        if isReserved s then fault .expectedProperty token.lexeme
        else do
          let path ← Path.resolve t s
          let ⟨p, hp⟩ ← comparisonWith whole path ts
          .ok ⟨p, Nat.lt_succ_of_lt hp⟩
      | _ => fault .expectedProperty token.lexeme

/-- An operand with at most `levels` parentheses and negations open at once. -/
def operand (t : RecordType) (whole : List Char) : (levels : Nat) → Parser
  | 0 => operandWith t whole none
  | levels + 1 => operandWith t whole (some (operand t whole levels))

/-! ### Whole filters -/

/-- The filter that all of the tokens form. -/
def ofTokens (t : RecordType) (whole : List Char) (ts : List Token) :
    Except RequestError Filter := do
  let ⟨(f, rest), _⟩ ← disjunction (operand t whole maxNesting) ts
  match rest with
  | [] => .ok f
  | token :: _ =>
    fault (if token.kind = .closing then .unbalanced else .trailingInput) token.onward

/-- The filter on records of a type that a text writes. A missing or blank text is no filter. -/
def parse (t : RecordType) (text : Option String) : Except RequestError (Option Filter) :=
  let whole := (text.getD "").toList
  if (Text.trimBlank whole).isEmpty then .ok none
  else
    match Token.scan whole with
    | .error (f, place) => fault f place
    | .ok ts => some <$> ofTokens t whole ts

end RecordService.Filter
