import RecordService.Json.Basic

/-!
# Reading JSON

A text is read in two steps. The first checks the grammar and gives a raw document, in which numbers
are still numerals and texts still hold their escapes. The second gives the values: it refuses
numbers beyond the decimals, halves of surrogate pairs and documents nested too deeply. Parts of a
document that nobody looks at need only the first step.

* `RecordService.Json.Raw`: raw documents.
* `RecordService.Json.Raw.read?`: the first step.
* `RecordService.Json.read?`: both steps.
-/

namespace RecordService.Json

/-- A numeral by its parts. -/
structure Numeral where
  negative : Bool
  whole : List Char
  fraction : List Char
  /-- The exponent: whether it is negative, and its digits. -/
  exponent : Option (Bool × List Char)

/-- An element of a quoted text: a character, or a code unit written in hexadecimal. -/
inductive Element where
  | char (c : Char)
  | unit (code : Nat)

/-- A document whose numbers and texts have not been interpreted. -/
inductive Raw where
  | null
  | boolean (b : Bool)
  | number (n : Numeral)
  | string (s : List Element)
  | array (items : List Raw)
  | object (members : List (List Element × Raw))

namespace Raw

/-! ### The grammar -/

/-- The blanks of the grammar. -/
def isSpace (c : Char) : Bool := c == ' ' || c == '\n' || c == '\t' || c == '\r'

/-- A text without its leading blanks. -/
def skipSpace (s : List Char) : List Char := s.dropWhile isSpace

/-- The character that a letter after a backslash stands for. -/
def escaped? : Char → Option Char
  | '"' => some '"'
  | '\\' => some '\\'
  | '/' => some '/'
  | 'b' => some '\x08'
  | 'f' => some '\x0c'
  | 'n' => some '\n'
  | 'r' => some '\r'
  | 't' => some '\t'
  | _ => none

/-- The rest of a quoted text after its opening quote. Control characters have to be escaped. -/
def readQuoted : List Char → Option (List Element × List Char)
  | [] => none
  | '"' :: s => some ([], s)
  | '\\' :: 'u' :: a :: b :: c :: d :: s => do
    let code := (← Text.hexValue? a) * 4096 + (← Text.hexValue? b) * 256 +
      (← Text.hexValue? c) * 16 + (← Text.hexValue? d)
    let (es, r) ← readQuoted s
    some (.unit code :: es, r)
  | '\\' :: e :: s => do
    let c ← escaped? e
    let (es, r) ← readQuoted s
    some (.char c :: es, r)
  | c :: s =>
    if c.toNat < 0x20 ∨ c = '\\' then none
    else do
      let (es, r) ← readQuoted s
      some (.char c :: es, r)

/-- The digits at the head of a text, at least one. -/
def readDigits (s : List Char) : Option (List Char × List Char) :=
  match s.takeWhile Char.isDigit with
  | [] => none
  | d :: ds => some (d :: ds, s.dropWhile Char.isDigit)

/-- The fraction of a numeral, if it has one. -/
def readFraction : List Char → Option (List Char × List Char)
  | '.' :: s => readDigits s
  | s => some ([], s)

/-- The exponent of a numeral, if it has one. -/
def readExponent : List Char → Option (Option (Bool × List Char) × List Char)
  | c :: s =>
    if c = 'e' ∨ c = 'E' then do
      let (negative, r) := Text.splitSign s
      let (ds, r) ← readDigits r
      some (some (negative, ds), r)
    else some (none, c :: s)
  | [] => some (none, [])

/-- A numeral after its sign. Its whole part has no superfluous zero in front. -/
def readUnsigned (negative : Bool) (s : List Char) : Option (Numeral × List Char) := do
  let (whole, s) ← readDigits s
  if whole.head? = some '0' ∧ 1 < whole.length then none
  else
    let (fraction, s) ← readFraction s
    let (exponent, s) ← readExponent s
    some (⟨negative, whole, fraction, exponent⟩, s)

/-- A numeral. -/
def readNumber : List Char → Option (Numeral × List Char)
  | '-' :: s => readUnsigned true s
  | s => readUnsigned false s

/-- A value other than an array or an object. -/
def readScalar : List Char → Option (Raw × List Char)
  | '"' :: s => do
    let (es, r) ← readQuoted s
    some (.string es, r)
  | 't' :: 'r' :: 'u' :: 'e' :: s => some (.boolean true, s)
  | 'f' :: 'a' :: 'l' :: 's' :: 'e' :: s => some (.boolean false, s)
  | 'n' :: 'u' :: 'l' :: 'l' :: s => some (.null, s)
  | s => do
    let (n, r) ← readNumber s
    some (.number n, r)

/-! Each of these readers uses up at least one character. -/

theorem length_skipSpace_le (s : List Char) : (skipSpace s).length ≤ s.length :=
  (List.dropWhile_suffix isSpace).length_le

theorem length_readQuoted {s : List Char} {es : List Element} {r : List Char}
    (h : readQuoted s = some (es, r)) : r.length < s.length := by
  fun_induction readQuoted s generalizing es r with
  | case1 => simp at h
  | case2 s => simp only [Option.some.injEq, Prod.mk.injEq] at h; simp [h.2]
  | case3 a b c d s ih =>
    simp only [bind, Option.bind_eq_some_iff] at h
    obtain ⟨_, -, _, -, _, -, _, -, ⟨es', r'⟩, hr, h⟩ := h
    have := ih hr
    simp only [Option.some.injEq, Prod.mk.injEq] at h
    simp only [List.length_cons, ← h.2]
    omega
  | case4 e s _ ih =>
    simp only [bind, Option.bind_eq_some_iff] at h
    obtain ⟨_, -, ⟨es', r'⟩, hr, h⟩ := h
    have := ih hr
    simp only [Option.some.injEq, Prod.mk.injEq] at h
    simp only [List.length_cons, ← h.2]
    omega
  | case5 => simp at h
  | case6 c s _ _ _ _ ih =>
    simp only [bind, Option.bind_eq_some_iff] at h
    obtain ⟨⟨es', r'⟩, hr, h⟩ := h
    have := ih hr
    simp only [Option.some.injEq, Prod.mk.injEq] at h
    simp only [List.length_cons, ← h.2]
    omega

theorem length_readDigits {s ds r : List Char} (h : readDigits s = some (ds, r)) :
    r.length < s.length := by
  cases s with
  | nil => simp [readDigits] at h
  | cons c s =>
    have hle := (List.dropWhile_suffix Char.isDigit (l := s)).length_le
    by_cases hc : c.isDigit
    · simp only [readDigits, List.takeWhile_cons, hc, if_true, List.dropWhile_cons,
        Option.some.injEq, Prod.mk.injEq] at h
      simp only [← h.2, List.length_cons]
      omega
    · simp [readDigits, hc] at h

theorem length_readFraction {s ds r : List Char} (h : readFraction s = some (ds, r)) :
    r.length ≤ s.length := by
  unfold readFraction at h
  split at h
  · exact Nat.le_succ_of_le (Nat.le_of_lt (length_readDigits h))
  · simp only [Option.some.injEq, Prod.mk.injEq] at h
    simp [h.2]

theorem length_splitSign (s : List Char) : (Text.splitSign s).2.length ≤ s.length := by
  unfold Text.splitSign
  split <;> simp

theorem length_readExponent {s r : List Char} {e : Option (Bool × List Char)}
    (h : readExponent s = some (e, r)) : r.length ≤ s.length := by
  unfold readExponent at h
  split at h
  · split at h
    · simp only [bind, Option.bind_eq_some_iff] at h
      obtain ⟨⟨ds, r'⟩, hd, h⟩ := h
      rename_i c s _
      have h₁ := length_readDigits hd
      have h₂ := length_splitSign s
      simp only [Option.some.injEq, Prod.mk.injEq] at h
      simp only [List.length_cons, ← h.2]
      omega
    · simp only [Option.some.injEq, Prod.mk.injEq] at h
      simp [h.2]
  · simp only [Option.some.injEq, Prod.mk.injEq] at h
    simp [h.2]

theorem length_readUnsigned {negative : Bool} {s r : List Char} {n : Numeral}
    (h : readUnsigned negative s = some (n, r)) : r.length < s.length := by
  simp only [readUnsigned, bind, Option.bind_eq_some_iff] at h
  obtain ⟨⟨whole, r₁⟩, h₁, h⟩ := h
  split at h
  · simp at h
  · simp only [Option.bind_eq_some_iff] at h
    obtain ⟨⟨fraction, r₂⟩, h₂, ⟨exponent, r₃⟩, h₃, h⟩ := h
    simp only [Option.some.injEq, Prod.mk.injEq] at h
    exact h.2 ▸ Nat.lt_of_le_of_lt (length_readExponent h₃)
      (Nat.lt_of_le_of_lt (length_readFraction h₂) (length_readDigits h₁))

theorem length_readNumber {s r : List Char} {n : Numeral} (h : readNumber s = some (n, r)) :
    r.length < s.length := by
  unfold readNumber at h
  split at h
  · exact Nat.lt_succ_of_lt (length_readUnsigned h)
  · exact length_readUnsigned h

theorem length_readScalar {s r : List Char} {v : Raw} (h : readScalar s = some (v, r)) :
    r.length < s.length := by
  unfold readScalar at h
  split at h
  · simp only [bind, Option.bind_eq_some_iff] at h
    obtain ⟨⟨es, r'⟩, hr, h⟩ := h
    simp only [Option.some.injEq, Prod.mk.injEq] at h
    exact h.2 ▸ Nat.lt_succ_of_lt (length_readQuoted hr)
  · simp only [Option.some.injEq, Prod.mk.injEq] at h
    simp only [h.2, List.length_cons]; omega
  · simp only [Option.some.injEq, Prod.mk.injEq] at h
    simp only [h.2, List.length_cons]; omega
  · simp only [Option.some.injEq, Prod.mk.injEq] at h
    simp only [h.2, List.length_cons]; omega
  · simp only [bind, Option.bind_eq_some_iff] at h
    obtain ⟨⟨n, r'⟩, hr, h⟩ := h
    simp only [Option.some.injEq, Prod.mk.injEq] at h
    exact h.2 ▸ length_readNumber hr

/-- What follows a character behind leading blanks is shorter than the whole text. -/
theorem length_of_skipSpace {s r : List Char} {c : Char} (h : skipSpace s = c :: r) :
    r.length < s.length := by
  have := length_skipSpace_le s
  simp only [h, List.length_cons] at this
  omega

/-! ### Whole documents -/

/-- The name of a member and the colon after it. -/
def readName (s : List Char) : Option { p : List Element × List Char // p.2.length < s.length } :=
  match hs : skipSpace s with
  | '"' :: r =>
    match hq : readQuoted r with
    | none => none
    | some (name, r₁) =>
      match h : skipSpace r₁ with
      | ':' :: r₂ =>
        some ⟨(name, r₂), Nat.lt_trans (length_of_skipSpace h)
          (Nat.lt_trans (length_readQuoted hq) (length_of_skipSpace hs))⟩
      | _ => none
  | _ => none

mutual

/-- A value at the head of a text, and the rest of the text, which is shorter. -/
def readValue (s : List Char) : Option { p : Raw × List Char // p.2.length < s.length } :=
  match hs : skipSpace s with
  | '[' :: r =>
    have hr : r.length < s.length := length_of_skipSpace hs
    match h : skipSpace r with
    | ']' :: r' => some ⟨(.array [], r'), Nat.lt_trans (length_of_skipSpace h) hr⟩
    | _ => do
      let ⟨(items, r'), h⟩ ← readItems r
      some ⟨(.array items, r'), Nat.lt_trans h hr⟩
  | '\x7b' :: r =>
    have hr : r.length < s.length := length_of_skipSpace hs
    match h : skipSpace r with
    | '\x7d' :: r' => some ⟨(.object [], r'), Nat.lt_trans (length_of_skipSpace h) hr⟩
    | _ => do
      let ⟨(members, r'), h⟩ ← readMembers r
      some ⟨(.object members, r'), Nat.lt_trans h hr⟩
  | t =>
    match h : readScalar t with
    | none => none
    | some (v, r) =>
      some ⟨(v, r), Nat.lt_of_lt_of_le (length_readScalar h) (hs ▸ length_skipSpace_le s)⟩
termination_by (s.length, 0)

/-- The items of an array, after its opening bracket, up to the closing one. -/
def readItems (s : List Char) : Option { p : List Raw × List Char // p.2.length < s.length } := do
  let ⟨(v, r), hr⟩ ← readValue s
  match h : skipSpace r with
  | ',' :: r' =>
    have hr' : r'.length < s.length := Nat.lt_trans (length_of_skipSpace h) hr
    let ⟨(vs, r''), hr''⟩ ← readItems r'
    some ⟨(v :: vs, r''), Nat.lt_trans hr'' hr'⟩
  | ']' :: r' => some ⟨([v], r'), Nat.lt_trans (length_of_skipSpace h) hr⟩
  | _ => none
termination_by (s.length, 1)

/-- The members of an object, after its opening brace, up to the closing one. -/
def readMembers (s : List Char) :
    Option { p : List (List Element × Raw) × List Char // p.2.length < s.length } := do
  let ⟨(k, s'), hs'⟩ ← readName s
  let ⟨(v, r), hr⟩ ← readValue s'
  match h : skipSpace r with
  | ',' :: r' =>
    have hr' : r'.length < s.length :=
      Nat.lt_trans (length_of_skipSpace h) (Nat.lt_trans hr hs')
    let ⟨(ms, r''), hr''⟩ ← readMembers r'
    some ⟨((k, v) :: ms, r''), Nat.lt_trans hr'' hr'⟩
  | '\x7d' :: r' =>
    some ⟨([(k, v)], r'), Nat.lt_trans (length_of_skipSpace h) (Nat.lt_trans hr hs')⟩
  | _ => none
termination_by (s.length, 1)

end

/-- The raw document that a text holds, with nothing but blanks around it. -/
def read? (s : String) : Option Raw := do
  let ⟨(v, r), _⟩ ← readValue s.toList
  if (skipSpace r).isEmpty then some v else none

/-! ### The values -/

/-- The text of its elements. Code units above the basic plane come in pairs. -/
def decode? : List Element → Option (List Char)
  | [] => some []
  | .char c :: es => (c :: ·) <$> decode? es
  | .unit n :: es =>
    if 0xD800 ≤ n ∧ n < 0xDC00 then
      match es with
      | .unit m :: es =>
        if 0xDC00 ≤ m ∧ m < 0xE000 then
          (Char.ofNat (0x10000 + (n - 0xD800) * 0x400 + (m - 0xDC00)) :: ·) <$> decode? es
        else none
      | _ => none
    else if 0xDC00 ≤ n ∧ n < 0xE000 then none
    else (Char.ofNat n :: ·) <$> decode? es

/-- `decode?` as a string. -/
def text? (es : List Element) : Option String := String.ofList <$> decode? es

end Raw

/-! ### The value of a numeral -/

/-- The digits of `ds` appended to `n` one after the other, as long as the number stays within 64
bits, and how many digits were left over. -/
def Numeral.append (n : Nat) : List Char → Nat × Nat
  | [] => (n, 0)
  | d :: ds =>
    let n' := 10 * n + (d.toNat - '0'.toNat)
    if n' ≤ Text.maxUnsigned then Numeral.append n' ds else (n, ds.length + 1)

/-- The decimal `d * 10 ^ e`, computed with the nearest decimal of the power of ten. Powers beyond
the range are taken in steps. There is no answer when the result is beyond the finite numbers. -/
def Numeral.scale (d : Decimal) (e : Int) : Option Decimal :=
  if e.natAbs ≤ 308 then
    let power := Decimal.ofScientific false 1 e.natAbs
    let scaled := if 0 ≤ e then d.mul power else d.div power
    if scaled.isFinite then some scaled else none
  else if d.magnitude = 0 then some d
  else if 0 ≤ e then none
  else Numeral.scale (d.div (Decimal.ofScientific false 1 308)) (e + 308)
termination_by e.natAbs

/-- The decimal of a numeral. The digits that fit in 64 bits are taken as a whole number, which is
then scaled. -/
def Numeral.decimal? (n : Numeral) : Option Decimal :=
  let (whole, dropped) := Numeral.append 0 n.whole
  let (digits, unused) := Numeral.append whole n.fraction
  let exponent : Int := match n.exponent with
    | none => 0
    | some (negative, ds) =>
      let e := Nat.ofDigitChars 10 ds 0
      if negative then -e else e
  Numeral.scale (Decimal.ofRatio n.negative digits 1)
    (exponent + dropped - (n.fraction.length - unused))

/-- The number of a numeral: an integer when it is written as one, fits in 64 bits and is not the
negative zero. -/
def Numeral.value? (n : Numeral) : Option Number :=
  let whole := Nat.ofDigitChars 10 n.whole 0
  let fits := if n.negative then 0 < whole ∧ Text.minInteger ≤ -whole else whole ≤ Text.maxUnsigned
  if n.fraction.isEmpty ∧ n.exponent.isNone ∧ fits then
    some (.integer (if n.negative then -whole else whole))
  else .decimal <$> n.decimal?

/-! ### Both steps -/

/-- How deep arrays and objects may be nested in a document whose values are asked for. -/
def maxDepth : Nat := 127

mutual

/-- The document of a raw document, with at most `depth` levels of arrays and objects. -/
def Raw.value? (depth : Nat) : Raw → Option Json
  | .null => some .null
  | .boolean b => some (.boolean b)
  | .number n => .number <$> n.value?
  | .string es => .string <$> text? es
  | .array items =>
    match depth with
    | 0 => none
    | depth + 1 => .array <$> Raw.items? depth items
  | .object members =>
    match depth with
    | 0 => none
    | depth + 1 => .object <$> Raw.members? depth members

/-- The documents of the items of an array. -/
def Raw.items? (depth : Nat) : List Raw → Option (List Json)
  | [] => some []
  | v :: vs => do some ((← v.value? depth) :: (← Raw.items? depth vs))

/-- The documents of the members of an object. -/
def Raw.members? (depth : Nat) : List (List Element × Raw) → Option (List (String × Json))
  | [] => some []
  | (k, v) :: ms => do some ((← text? k, ← v.value? depth) :: (← Raw.members? depth ms))

end

/-- The document that a text holds. -/
def read? (s : String) : Option Json := do (← Raw.read? s).value? maxDepth

end RecordService.Json
