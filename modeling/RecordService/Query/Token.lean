import RecordService.Text.Blank

/-!
# Tokens of filters

A filter text is cut into parentheses, words, numbers and quoted texts, with blanks between them
where they are wanted. Every token remembers the text it was cut from, for the messages of the
parser.

* `RecordService.Token`: a token.
* `RecordService.Token.scan`: the tokens of a text, or where no token begins.
* `RecordService.Token.append_readOne`: a lexeme and what follows it are the text that was read.
-/

namespace RecordService

/-- What can be wrong with the text of a filter. -/
inductive FilterFault where
  | unterminatedText
  | invalidNumber
  | unexpectedCharacter
  | nestedTooDeeply
  | unexpectedEnd
  | expectedClosing
  | unbalanced
  | trailingInput
  | expectedProperty
  | unknownOperator
  | expectedLiteral
deriving DecidableEq

/-- The wording of a fault. -/
def FilterFault.message : FilterFault → String
  | unterminatedText => "unterminated string literal"
  | invalidNumber => "invalid number"
  | unexpectedCharacter => "unexpected character"
  | nestedTooDeeply => "filter nested too deeply"
  | unexpectedEnd => "unexpected end of filter"
  | expectedClosing => "expected ')'"
  | unbalanced => "unbalanced parentheses"
  | trailingInput => "unexpected trailing input"
  | expectedProperty => "expected property or '('"
  | unknownOperator => "unknown operator"
  | expectedLiteral => "expected literal"

/-- What a token is. -/
inductive TokenKind where
  | opening
  | closing
  | word (s : String)
  | number (s : String)
  /-- A text between quotes, with the doubled quotes inside undone. -/
  | quoted (s : String)
deriving DecidableEq

/-- A token in its text. -/
structure Token where
  kind : TokenKind
  /-- The text of the token itself. -/
  lexeme : List Char
  /-- The text from the token on to the end. -/
  onward : List Char
deriving DecidableEq

namespace Token

/-! ### Character classes -/

/-- The letters and signs that a word may begin with. -/
def startsWord (c : Char) : Bool := c.isAlpha || c == '_' || c == '$'

/-- The characters that a word may go on with. -/
def continuesWord (c : Char) : Bool :=
  c.isAlphanum || c == '_' || c == '$' || c == '.' || c == '/'

/-- The characters that a number may begin with. -/
def startsNumber (c : Char) : Bool := c == '-' || c.isDigit

/-- The characters that a number may go on with. -/
def continuesNumber (c : Char) : Bool := c.isDigit || c == '.'

/-- Whether a text consists of one or more digits. -/
def isDigits (s : List Char) : Bool := !s.isEmpty && s.all Char.isDigit

/-- Whether a text is a number: digits after an optional minus sign, and perhaps a point with
further digits. -/
def isNumber (s : List Char) : Bool :=
  let s := match s with
    | '-' :: r => r
    | r => r
  isDigits (s.takeWhile (· != '.')) &&
    match s.dropWhile (· != '.') with
    | [] => true
    | _ :: fraction => isDigits fraction

/-! ### Scanning -/

/-- The rest of a quoted text after its opening quote: the text, its lexeme up to the closing quote,
and what follows. Two quotes stand for one of the text. -/
def readQuoted : List Char → Option (List Char × List Char × List Char)
  | [] => none
  | '\'' :: '\'' :: s => do
    let (text, lexeme, r) ← readQuoted s
    some ('\'' :: text, '\'' :: '\'' :: lexeme, r)
  | '\'' :: s => some ([], ['\''], s)
  | c :: s => do
    let (text, lexeme, r) ← readQuoted s
    some (c :: text, c :: lexeme, r)

/-- A lexeme and what follows it are the text that was read. -/
theorem append_readQuoted {s text lexeme r : List Char}
    (h : readQuoted s = some (text, lexeme, r)) : lexeme ++ r = s := by
  fun_induction readQuoted s generalizing text lexeme r with
  | case1 => simp at h
  | case2 s ih =>
    simp only [bind, Option.bind_eq_some_iff] at h
    obtain ⟨⟨text', lexeme', r'⟩, hr, h⟩ := h
    simp only [Option.some.injEq, Prod.mk.injEq] at h
    simp [← h.2.1, ← h.2.2, ih hr]
  | case3 s =>
    simp only [Option.some.injEq, Prod.mk.injEq] at h
    simp [← h.2.1, h.2.2]
  | case4 c s _ _ ih =>
    simp only [bind, Option.bind_eq_some_iff] at h
    obtain ⟨⟨text', lexeme', r'⟩, hr, h⟩ := h
    simp only [Option.some.injEq, Prod.mk.injEq] at h
    simp [← h.2.1, ← h.2.2, ih hr]

/-- The token that begins with the character `c` before `s`, by its kind, the rest of its lexeme and
what follows it; or the fault and its place. -/
def readOne (c : Char) (s : List Char) :
    Except (FilterFault × List Char) (TokenKind × List Char × List Char) :=
  if c = '(' then .ok (.opening, [], s)
  else if c = ')' then .ok (.closing, [], s)
  else if c = '\'' then
    match readQuoted s with
    | some (text, lexeme, r) => .ok (.quoted (String.ofList text), lexeme, r)
    | none => .error (.unterminatedText, c :: s)
  else if startsNumber c then
    let digits := s.takeWhile continuesNumber
    if isNumber (c :: digits) then
      .ok (.number (String.ofList (c :: digits)), digits, s.dropWhile continuesNumber)
    else .error (.invalidNumber, c :: digits)
  else if startsWord c then
    let letters := s.takeWhile continuesWord
    .ok (.word (String.ofList (c :: letters)), letters, s.dropWhile continuesWord)
  else .error (.unexpectedCharacter, c :: s)

/-- The rest of a lexeme and what follows it are the text behind the first character. -/
theorem append_readOne {c : Char} {s lexeme r : List Char} {k : TokenKind}
    (h : readOne c s = .ok (k, lexeme, r)) : lexeme ++ r = s := by
  unfold readOne at h
  split at h
  · simp only [Except.ok.injEq, Prod.mk.injEq] at h
    simp [← h.2.1, h.2.2]
  split at h
  · simp only [Except.ok.injEq, Prod.mk.injEq] at h
    simp [← h.2.1, h.2.2]
  split at h
  · split at h
    · rename_i text lexeme' r' hq
      simp only [Except.ok.injEq, Prod.mk.injEq] at h
      exact h.2.1 ▸ h.2.2 ▸ append_readQuoted hq
    · simp at h
  split at h
  · simp only at h
    split at h
    · simp only [Except.ok.injEq, Prod.mk.injEq] at h
      simp [← h.2.1, ← h.2.2, List.takeWhile_append_dropWhile]
    · simp at h
  split at h
  · simp only [Except.ok.injEq, Prod.mk.injEq] at h
    simp [← h.2.1, ← h.2.2, List.takeWhile_append_dropWhile]
  · simp at h

/-- The tokens of a text, or the first fault and its place. -/
def scan (s : List Char) : Except (FilterFault × List Char) (List Token) :=
  match _hs : Text.skipBlank s with
  | [] => .ok []
  | c :: r =>
    match _h : readOne c r with
    | .error e => .error e
    | .ok (k, lexeme, rest) => (⟨k, c :: lexeme, c :: r⟩ :: ·) <$> scan rest
termination_by s.length
decreasing_by
  have h₁ := Text.length_skipBlank_le s
  have h₂ := congrArg List.length (append_readOne _h)
  simp only [_hs, List.length_cons, List.length_append] at h₁ h₂
  omega

end Token

end RecordService
