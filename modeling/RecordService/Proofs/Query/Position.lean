import Mathlib.Data.List.Forall2
import RecordService.Proofs.Query.Token
import RecordService.Proofs.Text.Slice

/-!
# Tokens by their offsets

A scanner that reads a text in place keeps no characters. It goes through the offsets of the
characters, remembers for a token where its bytes begin and end, and cuts the text of a token, or the
place of a fault, out of the whole. Such a cut ends the program where the offsets are no part of the
text. They always are, and what is cut out are the lexemes and places of
`RecordService.Token.scan` (`RecordService.Filter.parseAt_eq`).

* `RecordService.Text.indexed`: the characters of a text with their offsets.
* `RecordService.Span`: a token by where its bytes begin and end.
* `RecordService.Span.scan`: the scanner that reads in place. Its outcome is `none` where a cut fails.
* `RecordService.Filter.parseAt`: the filter that a text writes, with all cuts.
-/

namespace RecordService

namespace Text

/-- Some characters with their offsets, the first of which is `start`. -/
def indexed (start : Nat) : List Char → List (Nat × Char)
  | [] => []
  | c :: s => (start, c) :: indexed (start + c.utf8Size) s

/-- Dropping characters from a text with its offsets leaves the offsets of the rest, which begin
behind the bytes that were dropped. -/
theorem dropWhile_indexed (p : Char → Bool) (start : Nat) (s : List Char) :
    (indexed start s).dropWhile (p ·.2) =
      indexed (start + size (s.takeWhile p)) (s.dropWhile p) := by
  induction s generalizing start with
  | nil => rfl
  | cons c s ih =>
    by_cases hc : p c
    · simp [indexed, hc, ih, Nat.add_assoc]
    · simp [indexed, hc]

end Text

/-- A token by where its bytes begin and end. -/
structure Span where
  kind : TokenKind
  start : Nat
  stop : Nat
deriving DecidableEq

namespace Span

/-! ### Reading in place -/

/-- The offset of the first of the characters that are left. Behind the last one it is the size of
the text. -/
def offset (raw : String) : List (Nat × Char) → Nat
  | [] => raw.utf8ByteSize
  | (i, _) :: _ => i

/-- The rest of a quoted text after its opening quote, and the characters that are left. -/
def readQuoted : List (Nat × Char) → Option (List Char × List (Nat × Char))
  | [] => none
  | (_, '\'') :: (_, '\'') :: s => do
    let (text, rest) ← readQuoted s
    some ('\'' :: text, rest)
  | (_, '\'') :: s => some ([], s)
  | (_, c) :: s => do
    let (text, rest) ← readQuoted s
    some (c :: text, rest)

/-- The token that begins with the character `c` at the offset `start`, and the characters that are
left behind it and `s`; or the fault and its place. -/
def readOne (raw : String) (start : Nat) (c : Char) (s : List (Nat × Char)) :
    Option (Except (FilterFault × String) (TokenKind × List (Nat × Char))) :=
  if c = '(' then some (.ok (.opening, s))
  else if c = ')' then some (.ok (.closing, s))
  else if c = '\'' then
    match readQuoted s with
    | some (text, rest) => some (.ok (.quoted (String.ofList text), rest))
    | none => do
      let place ← Text.slice? raw start raw.utf8ByteSize
      some (.error (.unterminatedText, place))
  else if Token.startsNumber c then do
    let rest := s.dropWhile (Token.continuesNumber ·.2)
    let text ← Text.slice? raw start (offset raw rest)
    if Token.isNumber text.toList then some (.ok (.number text, rest))
    else some (.error (.invalidNumber, text))
  else if Token.startsWord c then do
    let rest := ((start, c) :: s).dropWhile (Token.continuesWord ·.2)
    let text ← Text.slice? raw start (offset raw rest)
    some (.ok (.word text, rest))
  else do
    let place ← Text.slice? raw start raw.utf8ByteSize
    some (.error (.unexpectedCharacter, place))

theorem length_le_of_readQuoted {s rest : List (Nat × Char)} {text : List Char}
    (h : readQuoted s = some (text, rest)) : rest.length ≤ s.length := by
  fun_induction readQuoted s generalizing text rest with
  | case1 => simp at h
  | case2 i j s ih =>
    simp only [bind, Option.bind_eq_some_iff, Option.some.injEq, Prod.mk.injEq] at h
    obtain ⟨⟨text', rest'⟩, hread, -, rfl⟩ := h
    exact (ih hread).trans (Nat.le_add_right _ 2)
  | case3 i s =>
    obtain ⟨-, rfl⟩ : [] = text ∧ s = rest := by simpa using h
    exact Nat.le_succ _
  | case4 i c s _ _ ih =>
    simp only [bind, Option.bind_eq_some_iff, Option.some.injEq, Prod.mk.injEq] at h
    obtain ⟨⟨text', rest'⟩, hread, -, rfl⟩ := h
    exact (ih hread).trans (Nat.le_succ _)

/-- A token takes characters away, so the scanner in place comes to an end. -/
theorem length_le_of_readOne {raw : String} {start : Nat} {c : Char} {s rest : List (Nat × Char)}
    {kind : TokenKind} (h : readOne raw start c s = some (.ok (kind, rest))) :
    rest.length ≤ s.length := by
  unfold readOne at h
  split at h
  · cases h
    exact Nat.le_refl _
  split at h
  · cases h
    exact Nat.le_refl _
  split at h
  · split at h
    · next hread =>
      cases h
      exact length_le_of_readQuoted hread
    · simp [bind, Option.bind_eq_some_iff] at h
  split at h
  · simp only [bind, Option.bind_eq_some_iff] at h
    obtain ⟨text, -, h⟩ := h
    split at h
    · cases h
      exact (List.dropWhile_suffix _).length_le
    · simp at h
  split at h
  · next hstart =>
    simp only [bind, Option.bind_eq_some_iff] at h
    obtain ⟨text, -, h⟩ := h
    cases h
    simp only [List.dropWhile_cons, Token.continuesWord_of_startsWord hstart, if_true]
    exact (List.dropWhile_suffix _).length_le
  · simp [bind, Option.bind_eq_some_iff] at h

/-- The tokens of the characters that are left, or the first fault and its place. -/
def scanFrom (raw : String) (s : List (Nat × Char)) :
    Option (Except (FilterFault × String) (List Span)) :=
  match _hs : s.dropWhile (Text.isBlank ·.2) with
  | [] => some (.ok [])
  | (start, c) :: s' =>
    match _h : readOne raw start c s' with
    | none => none
    | some (.error e) => some (.error e)
    | some (.ok (kind, rest)) => (scanFrom raw rest).map ((⟨kind, start, offset raw rest⟩ :: ·) <$> ·)
termination_by s.length
decreasing_by
  have h₁ := (List.dropWhile_suffix (Text.isBlank ·.2) (l := s)).length_le
  have h₂ := length_le_of_readOne _h
  simp only [_hs, List.length_cons] at h₁
  omega

/-- The tokens of a text, or the first fault and its place. -/
def scan (raw : String) : Option (Except (FilterFault × String) (List Span)) :=
  scanFrom raw (Text.indexed 0 raw.toList)

/-- The token that a span marks, with all that is cut out for it. -/
def token? (raw : String) (span : Span) : Option Token := do
  let lexeme ← Text.slice? raw span.start span.stop
  let onward ← Text.slice? raw span.start raw.utf8ByteSize
  some ⟨span.kind, lexeme.toList, onward.toList⟩

/-! ### Reading in place and reading characters -/

variable {raw : String} {before s : List Char} {c : Char}

/-- The offset of what is left of a text is the number of bytes in front of it, also where nothing
is left. -/
theorem offset_indexed (h : raw.toList = before ++ s) :
    offset raw (Text.indexed (Text.size before) s) = Text.size before := by
  cases s with
  | nil => rw [Text.indexed, offset, Text.utf8ByteSize_eq, h, List.append_nil]
  | cons c s => rfl

theorem readQuoted_indexed (start : Nat) (s : List Char) :
    readQuoted (Text.indexed start s) =
      (Token.readQuoted s).map fun (text, lexeme, r) =>
        (text, Text.indexed (start + Text.size lexeme) r) := by
  fun_induction Token.readQuoted s generalizing start with
  | case1 => rfl
  | case2 s ih =>
    rw [Text.indexed, Text.indexed, readQuoted, ih]
    cases Token.readQuoted s with
    | none => rfl
    | some r => simp [Nat.add_assoc]
  | case3 s hs =>
    cases s with
    | nil => rfl
    | cons d s =>
      have hd : d ≠ '\'' := fun hd => hs s (by rw [hd])
      simp [Text.indexed, readQuoted, hd]
  | case4 c s _ hc ih =>
    have hread (rest : List (Nat × Char)) : readQuoted ((start, c) :: rest) =
        (readQuoted rest).map fun r => (c :: r.1, r.2) := by
      rw [readQuoted]
      · cases readQuoted rest <;> rfl
      · exact fun _ _ _ h => hc h
      · exact hc
    rw [Text.indexed, hread, ih]
    cases Token.readQuoted s with
    | none => rfl
    | some r => simp [Nat.add_assoc]

/-- Characters are cut out where the others begin, and the cut is between characters. -/
theorem slice?_lexeme {lexeme rest : List Char} (h : raw.toList = before ++ lexeme ++ rest) :
    Text.slice? raw (Text.size before)
        (offset raw (Text.indexed (Text.size before + Text.size lexeme) rest)) =
      some (String.ofList lexeme) := by
  rw [← Text.size_append, offset_indexed h, Text.size_append]
  exact Text.slice?_of_toList h

theorem slice?_run {p : Char → Bool} (h : raw.toList = before ++ c :: s) :
    Text.slice? raw (Text.size before)
        (offset raw (Text.indexed (Text.size before + Text.size (c :: s.takeWhile p))
          (s.dropWhile p))) =
      some (String.ofList (c :: s.takeWhile p)) := by
  refine slice?_lexeme ?_
  rw [h, List.append_assoc, List.cons_append, List.takeWhile_append_dropWhile]

/-- **One token, read in place**: it is the token of the characters, and ends where the others
begin. In a fault, the part of the text that is told is the same as well. -/
theorem readOne_indexed (h : raw.toList = before ++ c :: s) :
    readOne raw (Text.size before) c (Text.indexed (Text.size before + c.utf8Size) s) =
      some (match Token.readOne c s with
        | .error (f, place) => .error (f, String.ofList place)
        | .ok (kind, lexeme, r) =>
          .ok (kind, Text.indexed (Text.size before + Text.size (c :: lexeme)) r)) := by
  have honward : Text.slice? raw (Text.size before) raw.utf8ByteSize =
      some (String.ofList (c :: s)) := Text.slice?_onward h
  unfold readOne Token.readOne
  split
  · rfl
  split
  · rfl
  split
  · rw [readQuoted_indexed]
    cases Token.readQuoted s with
    | none => simp [honward]
    | some r => simp [Nat.add_assoc]
  split
  · have hrest := Text.dropWhile_indexed Token.continuesNumber (Text.size before + c.utf8Size) s
    rw [Nat.add_assoc, ← Text.size_cons] at hrest
    simp only [hrest, slice?_run h, bind, Option.bind_some, String.toList_ofList]
    split <;> rfl
  split
  · next hstart =>
    have hrest := Text.dropWhile_indexed Token.continuesWord (Text.size before) (c :: s)
    have hc := Token.continuesWord_of_startsWord hstart
    simp only [Text.indexed, List.takeWhile_cons_of_pos hc, List.dropWhile_cons_of_pos hc] at hrest
    simp only [hrest, slice?_run h, bind, Option.bind_some]
  · simp [honward]

/-! ### Spans and tokens -/

/-- Whether a span marks a token in its text: what it cuts out, and what it cuts off, are the
characters of the token and those from the token on. -/
structure Marks (raw : String) (span : Span) (token : Token) : Prop where
  kind : span.kind = token.kind
  text : token.lexeme = token.kind.text
  lexeme : Text.slice? raw span.start span.stop = some (String.ofList token.lexeme)
  onward : Text.slice? raw span.start raw.utf8ByteSize = some (String.ofList token.onward)

theorem marks_of_readOne {lexeme r : List Char} {kind : TokenKind} (h : raw.toList = before ++ c :: s)
    (hread : Token.readOne c s = .ok (kind, lexeme, r)) :
    Marks raw
      ⟨kind, Text.size before,
        offset raw (Text.indexed (Text.size before + Text.size (c :: lexeme)) r)⟩
      ⟨kind, c :: lexeme, c :: s⟩ := by
  have hparts : raw.toList = before ++ c :: lexeme ++ r := by
    rw [h, ← Token.append_readOne hread, List.append_assoc, List.cons_append]
  exact ⟨rfl, Token.text_of_readOne hread, slice?_lexeme hparts, Text.slice?_onward h⟩

theorem scanFrom_eq (raw : String) (s : List (Nat × Char)) :
    scanFrom raw s = match s.dropWhile (Text.isBlank ·.2) with
      | [] => some (.ok [])
      | (start, c) :: s' =>
        match readOne raw start c s' with
        | none => none
        | some (.error e) => some (.error e)
        | some (.ok (kind, rest)) =>
          (scanFrom raw rest).map ((⟨kind, start, offset raw rest⟩ :: ·) <$> ·) := by
  rw [scanFrom]
  split
  · next hs => rw [hs]
  · next start c s' hs =>
    rw [hs]
    dsimp only
    split
    · next h => rw [h]
    · next h => rw [h]
    · next h => rw [h]

/-- Behind some blanks there are other characters before, and the offsets are still right. So the
induction over the text goes on behind each token. -/
theorem exists_dropWhile_indexed (h : raw.toList = before ++ s) :
    ∃ before', raw.toList = before' ++ Text.skipBlank s ∧
      (Text.indexed (Text.size before) s).dropWhile (Text.isBlank ·.2) =
        Text.indexed (Text.size before') (Text.skipBlank s) := by
  refine ⟨before ++ s.takeWhile Text.isBlank, ?_, ?_⟩
  · rw [h, List.append_assoc, Text.skipBlank, List.takeWhile_append_dropWhile]
  · rw [Text.dropWhile_indexed, Text.size_append, Text.skipBlank]

/-- **The scanner in place** finds the tokens that the other one finds, and no cut of it fails. The
induction is on the text that is left, with all that stands in front of it as a parameter. -/
theorem scanFrom_indexed (h : raw.toList = before ++ s) :
    (∃ f place, Token.scan s = .error (f, place) ∧
        scanFrom raw (Text.indexed (Text.size before) s) = some (.error (f, String.ofList place)) ∧
        ∃ start stop, Text.slice? raw start stop = some (String.ofList place)) ∨
      ∃ ts spans, Token.scan s = .ok ts ∧
        scanFrom raw (Text.indexed (Text.size before) s) = some (.ok spans) ∧
        List.Forall₂ (Marks raw) spans ts := by
  rw [scanFrom_eq]
  fun_induction Token.scan s generalizing before with
  | case1 s hs =>
    obtain ⟨before', -, hskip⟩ := exists_dropWhile_indexed h
    rw [hskip, hs]
    exact .inr ⟨[], [], rfl, rfl, .nil⟩
  | case2 s c r hs e hread =>
    obtain ⟨f, place⟩ := e
    obtain ⟨before', hraw, hskip⟩ := exists_dropWhile_indexed h
    rw [hs] at hraw
    rw [hskip, hs, Text.indexed]
    simp only [readOne_indexed hraw, hread]
    obtain ⟨after, hplace⟩ := Token.prefix_of_readOne hread
    rw [← hplace, ← List.append_assoc] at hraw
    exact .inl ⟨f, place, rfl, rfl, _, _, Text.slice?_of_toList hraw⟩
  | case3 s c r hs kind lexeme rest hread ih =>
    obtain ⟨before', hraw, hskip⟩ := exists_dropWhile_indexed h
    rw [hs] at hraw
    rw [hskip, hs, Text.indexed]
    simp only [readOne_indexed hraw, hread]
    have hrest : raw.toList = before' ++ c :: lexeme ++ rest := by
      rw [hraw, ← Token.append_readOne hread, List.append_assoc, List.cons_append]
    rw [scanFrom_eq, ← Text.size_append]
    rcases ih hrest with ⟨f, place, hscan, hspans, hplace⟩ | ⟨ts, spans, hscan, hspans, hmarks⟩
    · refine .inl ⟨f, place, ?_, ?_, hplace⟩
      · rw [hscan]
        rfl
      · rw [hspans]
        rfl
    · have hmark := marks_of_readOne hraw hread
      rw [← Text.size_append] at hmark
      refine .inr ⟨_, _, ?_, ?_, .cons hmark hmarks⟩
      · rw [hscan]
        rfl
      · rw [hspans]
        rfl

theorem scan_eq (raw : String) :
    (∃ f place, Token.scan raw.toList = .error (f, place) ∧
        scan raw = some (.error (f, String.ofList place)) ∧
        ∃ start stop, Text.slice? raw start stop = some (String.ofList place)) ∨
      ∃ ts spans, Token.scan raw.toList = .ok ts ∧ scan raw = some (.ok spans) ∧
        List.Forall₂ (Marks raw) spans ts :=
  @scanFrom_indexed raw [] raw.toList rfl

theorem Marks.token?_eq {span : Span} {token : Token} (h : Marks raw span token) :
    span.token? raw = some token := by
  obtain ⟨hkind, -, hlexeme, honward⟩ := h
  simp only [token?, hlexeme, honward, hkind, bind, Option.bind_some, String.toList_ofList]

/-- The tokens of a text can be cut out of it again by their spans. -/
theorem mapM_token?_eq {spans : List Span} {ts : List Token}
    (h : List.Forall₂ (Marks raw) spans ts) : spans.mapM (token? raw) = some ts := by
  induction h with
  | nil => rfl
  | cons hmark _ ih =>
    rw [List.mapM_cons, hmark.token?_eq, ih]
    rfl

end Span

/-! ### Filters -/

namespace Filter

/-- The filter on records of a type that a text writes, read in place, or `none` where a cut fails.
The parser shows a token or what stands from a token on, and both are cut out for every token. -/
def parseAt (t : RecordType) (raw : String) : Option (Except RequestError (Option Filter)) :=
  if (Text.trimBlank raw.toList).isEmpty then some (.ok none)
  else
    match Span.scan raw with
    | none => none
    | some (.error (f, place)) => some (.error (.malformedFilter f.message place))
    | some (.ok spans) =>
      (spans.mapM (Span.token? raw)).map fun ts => some <$> ofTokens t raw.toList ts

/-- **No cut fails**, and reading in place is the parser. So what is proved of tokens with their
lexemes holds of the offsets that the text is really cut at. -/
theorem parseAt_eq (t : RecordType) (raw : String) :
    parseAt t raw = some (parse t (some raw)) := by
  rw [parseAt, parse, Option.getD_some]
  split
  · rfl
  · rcases Span.scan_eq raw with ⟨f, place, hscan, hspans, -⟩ | ⟨ts, spans, hscan, hspans, hmarks⟩
    · rw [hspans, hscan]
      rfl
    · rw [hspans, hscan]
      simp only [Span.mapM_token?_eq hmarks, Option.map_some]

end Filter

end RecordService
