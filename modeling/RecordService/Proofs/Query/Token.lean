import RecordService.Proofs.Outcome
import RecordService.Proofs.Text.Words
import RecordService.Query.Parser

/-!
# Tokens and their texts

The scanner undoes the writing of tokens: the text of a token, in front of a blank, of a closing
parenthesis or of the end, is read as this token (`RecordService.Token.kinds_text_append`). What can
be written in this way are the tokens that the scanner finds in any text
(`RecordService.Token.lexical_of_scan`), and their lexemes are these texts
(`RecordService.Token.text_of_readOne`).

* `RecordService.TokenKind.text`: the text of a token.
* `RecordService.TokenKind.Lexical`: what texts words and numbers have.
* `RecordService.TokenKind.EndsAt`: where a token ends.
* `RecordService.Token.kinds`: what the tokens of a text are.
-/

namespace RecordService

/-- The text of a token. -/
def TokenKind.text : TokenKind → List Char
  | opening => ['(']
  | closing => [')']
  | word s => s.toList
  | number s => s.toList
  | quoted s => (Filter.quoteText s).toList

/-- Whether a token that is followed by a character would go on with it. -/
def TokenKind.continues : TokenKind → Char → Bool
  | word _ => Token.continuesWord
  | number _ => Token.continuesNumber
  | quoted _ => (· == '\'')
  | _ => fun _ => false

/-- Whether a token ends in front of a text: it would not go on with what comes there. -/
def TokenKind.EndsAt (k : TokenKind) (r : List Char) : Prop := ∀ c ∈ r.head?, k.continues c = false

/-- Whether the text of a word or number is one that the scanner takes for it. -/
def TokenKind.Lexical : TokenKind → Prop
  | word s => ∃ c cs, s.toList = c :: cs ∧ Token.startsWord c ∧ ∀ d ∈ cs, Token.continuesWord d
  | number s => Token.isNumber s.toList
  | _ => True

theorem TokenKind.lexical_word {w : String}
    (h : (w.toList.head?.any Token.startsWord && w.toList.tail.all Token.continuesWord) = true) :
    (TokenKind.word w).Lexical := by
  cases hw : w.toList with
  | nil => simp [hw] at h
  | cons c cs =>
    simp only [hw, List.head?_cons, Option.any_some, List.tail_cons, Bool.and_eq_true,
      List.all_eq_true] at h
    exact ⟨c, cs, hw, h.1, h.2⟩

namespace Token

/-! ### Character classes -/

theorem isBlank_of_startsWord {c : Char} (h : startsWord c) : Text.isBlank c = false := by
  simp only [startsWord, Bool.or_eq_true, beq_iff_eq] at h
  rcases h with (h | rfl) | rfl
  · exact Text.isBlank_of_isAlpha h
  · decide
  · decide

theorem isBlank_of_startsNumber {c : Char} (h : startsNumber c) : Text.isBlank c = false := by
  simp only [startsNumber, Bool.or_eq_true, beq_iff_eq] at h
  rcases h with rfl | h
  · decide
  · exact Text.isBlank_of_isDigit h

theorem isBlank_of_continuesWord {c : Char} (h : continuesWord c) : Text.isBlank c = false := by
  simp only [continuesWord, Char.isAlphanum, Bool.or_eq_true, beq_iff_eq] at h
  rcases h with ((((h | h) | rfl) | rfl) | rfl) | rfl
  · exact Text.isBlank_of_isAlpha h
  · exact Text.isBlank_of_isDigit h
  all_goals decide

theorem isBlank_of_continuesNumber {c : Char} (h : continuesNumber c) : Text.isBlank c = false := by
  simp only [continuesNumber, Bool.or_eq_true, beq_iff_eq] at h
  rcases h with h | rfl
  · exact Text.isBlank_of_isDigit h
  · decide

theorem continuesWord_of_startsWord {c : Char} (h : startsWord c) :
    continuesWord c := by
  simp only [startsWord, Bool.or_eq_true] at h
  simp only [continuesWord, Char.isAlphanum, Bool.or_eq_true]
  tauto

theorem startsNumber_of_startsWord {c : Char} (h : startsWord c) : startsNumber c = false := by
  simp only [startsWord, Bool.or_eq_true, beq_iff_eq] at h
  rcases h with (h | rfl) | rfl
  · have hc := Text.toNat_of_isAlpha h
    have hdigit : ¬c.isDigit := fun hd => by
      have := Text.toNat_of_isDigit hd
      omega
    have hminus : c ≠ '-' := by
      rintro rfl
      exact absurd h (by decide)
    simp [startsNumber, hdigit, hminus]
  · decide
  · decide

/-- Digits, perhaps with a point and further digits, are characters that a number goes on with. -/
theorem continuesNumber_of_isDigits {s : List Char} (hwhole : isDigits (s.takeWhile (· != '.')))
    (hfraction : (match s.dropWhile (· != '.') with
      | [] => true
      | _ :: fraction => isDigits fraction) = true) :
    ∃ c cs, s = c :: cs ∧ c.isDigit ∧ ∀ d ∈ cs, continuesNumber d := by
  simp only [isDigits, Bool.and_eq_true, Bool.not_eq_true', List.isEmpty_eq_false_iff,
    List.all_eq_true] at hwhole
  obtain ⟨hne, hdigits⟩ := hwhole
  have hall : ∀ d ∈ s, continuesNumber d := by
    intro d hd
    rw [← List.takeWhile_append_dropWhile (p := (· != '.')) (l := s), List.mem_append] at hd
    rcases hd with hd | hd
    · simp [continuesNumber, hdigits d hd]
    · cases hdrop : s.dropWhile (· != '.') with
      | nil => simp [hdrop] at hd
      | cons p fraction =>
        have hp : p = '.' := by simpa [hdrop] using List.head?_dropWhile_not (· != '.') s
        rw [hdrop] at hfraction hd
        simp only [isDigits, Bool.and_eq_true, List.all_eq_true] at hfraction
        rcases List.mem_cons.mp hd with rfl | hd
        · simp [continuesNumber, hp]
        · simp [continuesNumber, hfraction.2 d hd]
  cases s with
  | nil => exact absurd rfl hne
  | cons c cs =>
    have hc : c ≠ '.' := by
      rintro rfl
      exact hne rfl
    exact ⟨c, cs, rfl, hdigits c (by simp [hc]), fun d hd => hall d (List.mem_cons_of_mem c hd)⟩

/-- A number begins and goes on with the characters for it. So a number that stands alone is one
token. -/
theorem startsNumber_of_isNumber {s : List Char} (h : isNumber s) :
    ∃ c cs, s = c :: cs ∧ startsNumber c ∧ ∀ d ∈ cs, continuesNumber d := by
  unfold isNumber at h
  split at h
  · rename_i r
    simp only [Bool.and_eq_true] at h
    obtain ⟨c, cs, rfl, hc, hcs⟩ := continuesNumber_of_isDigits h.1 h.2
    refine ⟨'-', c :: cs, rfl, by decide, fun d hd => ?_⟩
    rcases List.mem_cons.mp hd with rfl | hd
    · simp [continuesNumber, hc]
    · exact hcs d hd
  · simp only [Bool.and_eq_true] at h
    obtain ⟨c, cs, rfl, hc, hcs⟩ := continuesNumber_of_isDigits h.1 h.2
    exact ⟨c, cs, rfl, by simp [startsNumber, hc], hcs⟩

/-! ### One token -/

/-- Whether no token goes on into this text. -/
def Ends (r : List Char) : Prop := ∀ c ∈ r.head?, c = ' ' ∨ c = ')'

@[simp] theorem ends_nil : Ends [] := by simp [Ends]

@[simp] theorem ends_blank (r : List Char) : Ends (' ' :: r) := by simp [Ends]

@[simp] theorem ends_closing (r : List Char) : Ends (')' :: r) := by simp [Ends]

/-- Where any token ends, no class goes on that has neither the blank nor the closing parenthesis.
-/
theorem Ends.head {p : Char → Bool} {r : List Char} (h : Ends r) (hblank : p ' ' = false)
    (hclosing : p ')' = false) : ∀ c ∈ r.head?, p c = false := by
  intro c hc
  rcases h c hc with rfl | rfl
  · exact hblank
  · exact hclosing

/-- Where any token ends, a token of each kind does. So one condition serves all kinds when tokens
are put next to each other. -/
theorem Ends.endsAt {r : List Char} (h : Ends r) (k : TokenKind) : k.EndsAt r := by
  cases k with
  | opening => exact fun _ _ => rfl
  | closing => exact fun _ _ => rfl
  | word w => exact h.head (p := continuesWord) (by decide) (by decide)
  | number n => exact h.head (p := continuesNumber) (by decide) (by decide)
  | quoted t => exact h.head (p := (· == '\'')) (by decide) (by decide)

/-- Doubled quotes are read as the quotes that they double. What follows the text must not be a
quote, which would be read as the second one of a pair. -/
theorem readQuoted_doubled (s : List Char) {r : List Char}
    (hr : ∀ c ∈ r.head?, (c == '\'') = false) :
    readQuoted (s.flatMap (fun c => if c = '\'' then [c, c] else [c]) ++ '\'' :: r) =
      some (s, s.flatMap (fun c => if c = '\'' then [c, c] else [c]) ++ ['\''], r) := by
  induction s with
  | nil =>
    -- a quote right behind the closing one would be doubled with it
    cases r with
    | nil => rfl
    | cons c r =>
      have hc : c ≠ '\'' := by simpa using hr c rfl
      simp [readQuoted, hc]
  | cons c s ih =>
    by_cases hc : c = '\''
    · subst hc
      simp [readQuoted, ih]
    · simp [readQuoted, hc, ih]

/-- A character of a class that contains neither parentheses nor quotes begins no other kind of
token. -/
theorem ne_of_class {p : Char → Bool} {c : Char} (hc : p c)
    (h : (p '(' || p ')' || p '\'') = false) : c ≠ '(' ∧ c ≠ ')' ∧ c ≠ '\'' := by
  simp only [Bool.or_eq_false_iff] at h
  refine ⟨?_, ?_, ?_⟩
  · rintro rfl
    simp [h] at hc
  · rintro rfl
    simp [h] at hc
  · rintro rfl
    simp [h] at hc

/-- **A token is read from its text**, where it ends. The reader is greedy, so a token that could go
on would be read longer. -/
theorem readOne_text {k : TokenKind} {r : List Char} (hk : k.Lexical) (hr : k.EndsAt r) :
    ∃ c s lexeme, k.text ++ r = c :: s ∧ Text.isBlank c = false ∧
      readOne c s = .ok (k, lexeme, r) := by
  cases k with
  | opening => exact ⟨'(', r, [], rfl, by decide, by simp [readOne]⟩
  | closing => exact ⟨')', r, [], rfl, by decide, by simp [readOne]⟩
  | word w =>
    obtain ⟨c, cs, hw, hc, hcs⟩ := hk
    have hne := ne_of_class hc (by decide)
    have hrest := Lists.takeWhile_dropWhile_append hcs hr
    refine ⟨c, cs ++ r, cs, by simp [TokenKind.text, hw], isBlank_of_startsWord hc, ?_⟩
    simp only [readOne, if_neg hne.1, if_neg hne.2.1, if_neg hne.2.2,
      startsNumber_of_startsWord hc, hc, if_true, hrest.1, hrest.2, ← hw, String.ofList_toList]
    simp
  | number n =>
    obtain ⟨c, cs, hn, hc, hcs⟩ := startsNumber_of_isNumber hk
    have hne := ne_of_class hc (by decide)
    have hrest := Lists.takeWhile_dropWhile_append hcs hr
    have hnumber : isNumber (c :: cs) := hn ▸ hk
    refine ⟨c, cs ++ r, cs, by simp [TokenKind.text, hn], isBlank_of_startsNumber hc, ?_⟩
    simp only [readOne, if_neg hne.1, if_neg hne.2.1, if_neg hne.2.2, hc, if_true, hrest.1, hrest.2,
      hnumber]
    rw [← hn, String.ofList_toList]
  | quoted t =>
    have hread := readQuoted_doubled t.toList hr
    generalize hbody : t.toList.flatMap (fun c => if c = '\'' then [c, c] else [c]) = body at hread
    refine ⟨'\'', body ++ '\'' :: r, body ++ ['\''],
      by simp [TokenKind.text, Filter.quoteText, hbody], by decide, ?_⟩
    rw [readOne, if_neg (by decide), if_neg (by decide), if_pos rfl, hread]
    simp

/-- The rest of the lexeme of a quoted text has the quotes that were undone. Positions of faults are
counted in lexemes, not in texts. -/
theorem text_of_readQuoted {s text lexeme r : List Char}
    (h : readQuoted s = some (text, lexeme, r)) :
    lexeme = text.flatMap (fun c => if c = '\'' then [c, c] else [c]) ++ ['\''] := by
  fun_induction readQuoted s generalizing text lexeme r with
  | case1 => simp at h
  | case2 s ih =>
    simp only [bind, Option.bind_eq_some_iff, Option.some.injEq, Prod.mk.injEq] at h
    obtain ⟨⟨text', lexeme', r'⟩, hread, rfl, rfl, -⟩ := h
    simp [ih hread]
  | case3 s =>
    obtain ⟨rfl, rfl, -⟩ : [] = text ∧ ['\''] = lexeme ∧ s = r := by simpa using h
    rfl
  | case4 c s _ hc ih =>
    simp only [bind, Option.bind_eq_some_iff, Option.some.injEq, Prod.mk.injEq] at h
    obtain ⟨⟨text', lexeme', r'⟩, hread, rfl, rfl, -⟩ := h
    have hc : c ≠ '\'' := hc
    simp [ih hread, hc]

/-- **The lexeme of a token** is its text. -/
theorem text_of_readOne {c : Char} {s lexeme r : List Char} {k : TokenKind}
    (h : readOne c s = .ok (k, lexeme, r)) : c :: lexeme = k.text := by
  unfold readOne at h
  split at h
  · next hc =>
    cases h
    rw [hc, TokenKind.text]
  split at h
  · next hc =>
    cases h
    rw [hc, TokenKind.text]
  split at h
  · next hc =>
    split at h
    · next hread =>
      cases h
      simp [hc, text_of_readQuoted hread, TokenKind.text, Filter.quoteText]
    · simp at h
  split at h
  · dsimp only at h
    split at h
    · cases h
      simp [TokenKind.text]
    · simp at h
  split at h
  · cases h
    simp [TokenKind.text]
  · simp at h

/-- The place of a fault begins where the token would, so that it is told where the reader stopped.
-/
theorem prefix_of_readOne {c : Char} {s place : List Char} {f : FilterFault}
    (h : readOne c s = .error (f, place)) : place <+: c :: s := by
  unfold readOne at h
  split at h
  · simp at h
  split at h
  · simp at h
  split at h
  · split at h
    · simp at h
    · cases h
      exact List.prefix_rfl
  split at h
  · dsimp only at h
    split at h
    · simp at h
    · cases h
      exact (List.prefix_cons_inj c).mpr (List.takeWhile_prefix _)
  split at h
  · simp at h
  · cases h
    exact List.prefix_rfl

/-! ### All tokens -/

/-- The tokens of a text: blanks are skipped, and one token is read in front of the others. -/
theorem scan_eq (s : List Char) :
    scan s = match Text.skipBlank s with
      | [] => .ok []
      | c :: r =>
        match readOne c r with
        | .error e => .error e
        | .ok (k, lexeme, rest) => (⟨k, c :: lexeme, c :: r⟩ :: ·) <$> scan rest := by
  rw [scan]
  split
  · rename_i hs
    rw [hs]
  · rename_i c r hs
    rw [hs]
    dsimp only
    split
    · rename_i e h
      rw [h]
    · rename_i k lexeme rest h
      rw [h]

/-- What the tokens of a text are. -/
def kinds (s : List Char) : Except (FilterFault × List Char) (List TokenKind) :=
  List.map kind <$> scan s

theorem kinds_eq_ok_iff {s : List Char} {ks : List TokenKind} :
    kinds s = .ok ks ↔ ∃ ts, scan s = .ok ts ∧ ts.map kind = ks :=
  Outcome.map_eq_ok_iff

@[simp] theorem kinds_nil : kinds [] = .ok [] := by
  rw [kinds, scan_eq]
  rfl

@[simp] theorem kinds_blank (s : List Char) : kinds (' ' :: s) = kinds s := by
  have h : Text.skipBlank (' ' :: s) = Text.skipBlank s :=
    List.dropWhile_cons_of_pos (by decide)
  rw [kinds, kinds, scan_eq, scan_eq, h]

theorem kinds_of_readOne {c : Char} {s lexeme r : List Char} {k : TokenKind}
    (hc : Text.isBlank c = false) (h : readOne c s = .ok (k, lexeme, r)) :
    kinds (c :: s) = (k :: ·) <$> kinds r := by
  have hskip : Text.skipBlank (c :: s) = c :: s :=
    List.dropWhile_cons_of_neg (by simp [hc])
  rw [kinds, kinds, scan_eq, hskip]
  simp only [h]
  cases scan r <;> rfl

theorem kinds_opening (s : List Char) : kinds ('(' :: s) = (.opening :: ·) <$> kinds s :=
  kinds_of_readOne (by decide) (by rw [readOne, if_pos rfl])

theorem kinds_closing (s : List Char) : kinds (')' :: s) = (.closing :: ·) <$> kinds s :=
  kinds_of_readOne (by decide) (by rw [readOne, if_neg (by decide), if_pos rfl])

/-- **Writing a token and scanning it**: the text of a token, where it ends, is that token. Filters
are printed by putting such texts in a row. -/
theorem kinds_text_append {k : TokenKind} {r : List Char} (hk : k.Lexical) (hr : Ends r) :
    kinds (k.text ++ r) = (k :: ·) <$> kinds r := by
  obtain ⟨c, s, lexeme, htext, hc, hread⟩ := readOne_text hk (hr.endsAt k)
  rw [htext, kinds_of_readOne hc hread]

/-- A word in front of a blank, as the keywords of a printed filter are. -/
theorem kinds_word {w : String} (hw : (TokenKind.word w).Lexical) (s : List Char) :
    kinds (w.toList ++ ' ' :: s) = (.word w :: ·) <$> kinds s := by
  rw [← kinds_blank s]
  exact kinds_text_append hw (ends_blank s)

/-- What is read is lexical, so printing it gives a text that is read the same. -/
theorem lexical_of_readOne {c : Char} {s lexeme r : List Char} {k : TokenKind}
    (h : readOne c s = .ok (k, lexeme, r)) : k.Lexical := by
  unfold readOne at h
  split at h
  · cases h
    trivial
  split at h
  · cases h
    trivial
  split at h
  · split at h
    · cases h
      trivial
    · simp at h
  split at h
  · simp only at h
    split at h
    · rename_i hnumber
      cases h
      simpa [TokenKind.Lexical] using hnumber
    · simp at h
  split at h
  · rename_i hstart
    cases h
    exact ⟨c, s.takeWhile continuesWord, by simp, hstart, fun d hd => List.mem_takeWhile_imp hd⟩
  · simp at h

/-- The tokens of a text are lexical. -/
theorem lexical_of_scan (s : List Char) {ts : List Token} (h : scan s = .ok ts) :
    ∀ k ∈ ts, k.kind.Lexical := by
  fun_induction scan s generalizing ts with
  | case1 =>
    cases h
    simp
  | case2 => simp at h
  | case3 s c r hs k lexeme rest hread ih =>
    obtain ⟨us, hrest, rfl⟩ := Outcome.map_eq_ok_iff.mp h
    rintro k' (_ | ⟨_, hk'⟩)
    · exact lexical_of_readOne hread
    · exact ih hrest k' hk'

end Token

end RecordService
