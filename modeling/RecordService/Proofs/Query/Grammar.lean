import RecordService.Query.Parser

/-!
# The grammar of filters

What the parser of `RecordService.Query.Parser` accepts, said without a parser. A filter is derived
from the kinds of its tokens, on three levels: a disjunction joins conjunctions by `or`, a
conjunction joins operands by `and`, and an operand is a negation, a disjunction in parentheses or a
comparison. Both binary operators associate to the left, since the longer side of a chain is the
left one.

* `RecordService.Filter.Writes`: the tokens that are literals for a property, with their values.
* `RecordService.Filter.Derives`: the derivations. The last argument is the **nesting**: the
  greatest number of parentheses and negations that a comparison lies under.
-/

namespace RecordService.Filter

/-- The literals for the property `p`: quoted texts for texts and moments, numbers for what is
numeric, and two words for truth values. Binary content has none. -/
inductive Writes (p : Path) : TokenKind → Value → Prop
  | quoted {s : String} {v : Value} (kind : p.kind = .text ∨ p.kind = .dateTime)
      (value : Value.coerce p.kind s = some v) : Writes p (.quoted s) v
  | number {s : String} {v : Value}
      (kind : p.kind = .integer ∨ p.kind = .decimal ∨ p.kind = .reference)
      (value : Value.coerce p.kind s = some v) : Writes p (.number s) v
  | true (kind : p.kind = .boolean) : Writes p (.word "true") (.boolean true)
  | false (kind : p.kind = .boolean) : Writes p (.word "false") (.boolean false)

/-- What a list of tokens is derived as. -/
inductive Level where
  | disjunction
  | conjunction
  | operand
deriving DecidableEq

/-- The words that are no properties. -/
def reserved : List String := ["and", "or", "not"]

/-- **The grammar**: `Derives t level ks f n` says that tokens of the kinds `ks` are the filter `f`
on records of the type `t`, with nesting `n`. -/
inductive Derives (t : RecordType) : Level → List TokenKind → Filter → Nat → Prop
  | comparison {s : String} {path : Path} {op : Comparison} {k : TokenKind} {v : Value}
      (name : s ∉ reserved) (property : Path.resolve t s = .ok path) (literal : Writes path k v) :
      Derives t .operand [.word s, .word op.keyword, k] (.comparison path op v) 0
  | not {ks : List TokenKind} {f : Filter} {n : Nat} (inner : Derives t .operand ks f n) :
      Derives t .operand (.word "not" :: ks) (.not f) (n + 1)
  | parentheses {ks : List TokenKind} {f : Filter} {n : Nat} (inner : Derives t .disjunction ks f n) :
      Derives t .operand (.opening :: ks ++ [.closing]) f (n + 1)
  | operand {ks : List TokenKind} {f : Filter} {n : Nat} (only : Derives t .operand ks f n) :
      Derives t .conjunction ks f n
  | and {ks ls : List TokenKind} {f g : Filter} {n m : Nat} (left : Derives t .conjunction ks f n)
      (right : Derives t .operand ls g m) :
      Derives t .conjunction (ks ++ .word "and" :: ls) (.and f g) (max n m)
  | conjunction {ks : List TokenKind} {f : Filter} {n : Nat} (only : Derives t .conjunction ks f n) :
      Derives t .disjunction ks f n
  | or {ks ls : List TokenKind} {f g : Filter} {n m : Nat} (left : Derives t .disjunction ks f n)
      (right : Derives t .conjunction ls g m) :
      Derives t .disjunction (ks ++ .word "or" :: ls) (.or f g) (max n m)

/-! ### An example -/

/-- A record type to show filters on. -/
def people : RecordType where
  name := "Person"
  space := "public"
  table := "Person"
  attributes := [
    { name := "Id", kind := .integer, nullable := false, sidecar := none, target := none },
    { name := "Name", kind := .text, nullable := true, sidecar := none, target := none },
    { name := "Age", kind := .integer, nullable := true, sidecar := none, target := none }]
  identity := 0

/-- The name of a person. -/
def people.named : Path := ⟨"Person", "Name", 1, .text⟩

/-- The age of a person. -/
def people.age : Path := ⟨"Person", "Age", 2, .integer⟩

end RecordService.Filter
