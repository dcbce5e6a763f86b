import RecordService.Proofs.Query.Literal

/-!
# Canonical texts of filters

The canonical text of an accepted filter is scanned as the tokens that it was put together from, and
the grammar derives the filter from these tokens. But both binary operators bring their parentheses,
which the text that was accepted need not have had: a chain of operands needs none and has any
length, while its canonical text opens a parenthesis for every operator. So the canonical text can be
read back exactly if the filter is not nested more deeply than the parser allows
(`RecordService.Filter.parse_render_iff`), and there are accepted filters that are.

* `RecordService.Filter.nesting`: the parentheses and negations around a comparison in the canonical
  text.
* `RecordService.Filter.canonical`: the tokens of the canonical text.
-/

namespace RecordService.Filter

/-- The greatest number of parentheses and negations that a comparison lies under in the canonical
text. -/
def nesting : Filter → Nat
  | comparison _ _ _ => 0
  | and l r => max l.nesting r.nesting + 1
  | or l r => max l.nesting r.nesting + 1
  | not f => f.nesting + 1

/-- What the tokens of the canonical text are. -/
def canonical : Filter → List TokenKind
  | comparison p op v => [.word p.name, .word op.keyword, literalKind v]
  | and l r => .opening :: (l.canonical ++ .word "and" :: r.canonical) ++ [.closing]
  | or l r => .opening :: (l.canonical ++ .word "or" :: r.canonical) ++ [.closing]
  | not f => .word "not" :: f.canonical

section

variable {t : RecordType}

/-! ### Scanning canonical texts -/

theorem lexical_keyword (op : Comparison) : (TokenKind.word op.keyword).Lexical := by
  cases op <;> exact TokenKind.lexical_word (by decide)

/-- Two operands joined by a word, in parentheses. The texts of the operands end in front of blanks
and parentheses, so they are scanned one by one. -/
theorem kinds_joined {w : String} (hw : (TokenKind.word w).Lexical) {l r : Filter}
    (hl : ∀ s, Token.Ends s →
      Token.kinds (l.render.toList ++ s) = (l.canonical ++ ·) <$> Token.kinds s)
    (hr : ∀ s, Token.Ends s →
      Token.kinds (r.render.toList ++ s) = (r.canonical ++ ·) <$> Token.kinds s)
    (s : List Char) :
    Token.kinds ('(' :: (l.render.toList ++ ' ' :: (w.toList ++ ' ' :: (r.render.toList ++ ')' :: s)))) =
      (.opening :: (l.canonical ++ .word w :: r.canonical) ++ [.closing] ++ ·) <$> Token.kinds s := by
  rw [Token.kinds_opening, hl _ (Token.ends_blank _), Token.kinds_blank, Token.kinds_word hw,
    hr _ (Token.ends_closing _), Token.kinds_closing]
  simp [Functor.map_map]

/-- **Canonical texts are scanned** as the tokens that they were put together from, by induction on
the filter, with whatever follows left open. -/
theorem kinds_render {f : Filter} (hf : f.WellTyped t) :
    ∀ {r : List Char}, Token.Ends r →
      Token.kinds (f.render.toList ++ r) = (f.canonical ++ ·) <$> Token.kinds r := by
  induction f with
  | comparison p op v =>
    intro r hr
    have hliteral := Token.kinds_text_append (lexical_literalKind hf.literal) hr
    have hop := Token.kinds_text_append (lexical_keyword op)
      (Token.ends_blank ((literalKind v).text ++ r))
    have hname := Token.kinds_text_append hf.word
      (Token.ends_blank ((TokenKind.word op.keyword).text ++ ' ' :: ((literalKind v).text ++ r)))
    rw [Token.kinds_blank] at hop hname
    rw [hop, hliteral] at hname
    rw [text_literalKind hf.literal] at hname
    simpa [render, canonical, TokenKind.text, Functor.map_map] using hname
  | and l r ihl ihr =>
    intro s hs
    have hjoined := kinds_joined (w := "and") (TokenKind.lexical_word (by decide)) (fun _ => ihl hf.1)
      (fun _ => ihr hf.2) s
    simpa [render, canonical] using hjoined
  | or l r ihl ihr =>
    intro s hs
    have hjoined := kinds_joined (w := "or") (TokenKind.lexical_word (by decide)) (fun _ => ihl hf.1)
      (fun _ => ihr hf.2) s
    simpa [render, canonical] using hjoined
  | not f ih =>
    intro r hr
    have hnot : Token.kinds ("not".toList ++ ' ' :: (f.render.toList ++ r)) = _ :=
      Token.kinds_word (TokenKind.lexical_word (by decide)) _
    rw [ih hf hr] at hnot
    simpa [render, canonical, Functor.map_map] using hnot

/-! ### Deriving canonical tokens -/

/-- **Canonical tokens form the filter again**, as an operand of its nesting. -/
theorem derives_canonical {f : Filter} (hf : f.WellTyped t)
    (hback : f.Every fun p _ v => p.kind = .decimal ∨ p.kind = .dateTime → v.ReadsBack p.kind) :
    ∃ g, Derives t .operand f.canonical g f.nesting ∧ g.same f := by
  induction f with
  | comparison p op v =>
    obtain ⟨w, hw, hsame⟩ := writes_literalKind hf.literal hback
    exact ⟨.comparison p op w, .comparison hf.unreserved hf.resolved hw, by simp [same, hsame]⟩
  | and l r ihl ihr =>
    obtain ⟨l', hl, hlsame⟩ := ihl hf.1 hback.1
    obtain ⟨r', hr, hrsame⟩ := ihr hf.2 hback.2
    exact ⟨.and l' r', .parentheses (.conjunction (.and (.operand hl) hr)),
      by simp [same, hlsame, hrsame]⟩
  | or l r ihl ihr =>
    obtain ⟨l', hl, hlsame⟩ := ihl hf.1 hback.1
    obtain ⟨r', hr, hrsame⟩ := ihr hf.2 hback.2
    exact ⟨.or l' r', .parentheses (.or (.conjunction (.operand hl)) (.operand hr)),
      by simp [same, hlsame, hrsame]⟩
  | not f ih =>
    obtain ⟨g, hg, hsame⟩ := ih hf hback
    exact ⟨.not g, .not hg, by simpa [same] using hsame⟩

/-! ### Reading canonical texts -/

theorem canonical_ne_nil (f : Filter) : f.canonical ≠ [] := by
  cases f <;> simp [canonical]

/-- **Reading the canonical text** of a well-typed filter: it is this filter, unless it is nested
too deeply. The canonical text has parentheses around every two operands, so a long chain is deep
there. -/
theorem parse_render_of_wellTyped {f : Filter} (hf : f.WellTyped t)
    (hback : f.Every fun p _ v => p.kind = .decimal ∨ p.kind = .dateTime → v.ReadsBack p.kind) :
    (f.nesting ≤ maxNesting → ∃ g, parse t (some f.render) = .ok (some g) ∧ g.same f) ∧
      (maxNesting < f.nesting →
        ∃ place, parse t (some f.render) = fault .nestedTooDeeply place) := by
  have hkinds : Token.kinds f.render.toList = .ok f.canonical := by
    have h := kinds_render hf Token.ends_nil
    simpa [Functor.map, Except.map] using h
  obtain ⟨ts, hts, hcanonical⟩ := Token.kinds_eq_ok_iff.mp hkinds
  have hne : ts ≠ [] := by
    rintro rfl
    exact canonical_ne_nil f hcanonical.symm
  obtain ⟨g, hg, hsame⟩ := derives_canonical hf hback
  have hderives : Derives t .disjunction (ts.map Token.kind) g f.nesting := by
    rw [hcanonical]
    exact .conjunction (.operand hg)
  rw [parse_of_scan hts hne]
  constructor
  · intro hn
    have hok : ofTokens t f.render.toList ts = .ok g := ofTokens_eq_ok_iff.mpr ⟨_, hn, hderives⟩
    exact ⟨g, by rw [hok]; rfl, hsame⟩
  · intro hn
    obtain ⟨place, herror⟩ := ofTokens_of_maxNesting_lt hderives hn
    exact ⟨place, by rw [herror]; rfl⟩

/-- **Canonical texts of accepted filters** read back exactly if no comparison lies under more than
64 parentheses and negations in them. Otherwise they are refused for their nesting. -/
theorem parse_render_iff {text : String} {e : Filter} (h : parse t (some text) = .ok (some e))
    (hback : e.Every fun p _ v => p.kind = .decimal ∨ p.kind = .dateTime → v.ReadsBack p.kind) :
    ((∃ e', parse t (some e.render) = .ok (some e') ∧ e'.same e) ↔ e.nesting ≤ 64) ∧
      (64 < e.nesting → ∃ place, parse t (some e.render) = fault .nestedTooDeeply place) := by
  obtain ⟨hread, hrefused⟩ := parse_render_of_wellTyped (wellTyped_of_parse h) hback
  refine ⟨⟨?_, hread⟩, hrefused⟩
  rintro ⟨e', he', -⟩
  by_contra hn
  obtain ⟨place, hplace⟩ := hrefused (Nat.lt_of_not_le hn)
  rw [hplace] at he'
  simp [fault] at he'

/-! ### Chains -/

/-- A filter `n + 1` times, joined by `or` from the left. -/
def orChain (f : Filter) : (n : Nat) → Filter
  | 0 => f
  | n + 1 => .or (orChain f n) f

/-- The text of such a chain without parentheses. -/
def chainText (f : Filter) (n : Nat) : String :=
  String.ofList (f.render.toList ++ (List.replicate n (" or ".toList ++ f.render.toList)).flatten)

/-- The canonical text of a chain opens one parenthesis for each further comparison. -/
theorem nesting_orChain (f : Filter) (n : Nat) : (orChain f n).nesting = f.nesting + n := by
  induction n with
  | zero => rfl
  | succ n ih =>
    rw [orChain, nesting, ih]
    omega

theorem every_orChain {P : Path → Comparison → Value → Prop} {f : Filter} (hf : f.Every P) (n : Nat) :
    (orChain f n).Every P := by
  induction n with
  | zero => exact hf
  | succ n ih => exact ⟨ih, hf⟩

theorem kinds_chainText {f : Filter} (hf : f.WellTyped t) (n : Nat) :
    Token.kinds (chainText f n).toList =
      .ok (f.canonical ++ (List.replicate n (.word "or" :: f.canonical)).flatten) := by
  -- the blank in front of an `or` ends the text before it
  have hends : ∀ n, Token.Ends (List.replicate n (" or ".toList ++ f.render.toList)).flatten := by
    intro n
    cases n <;> simp [List.replicate_succ]
  have hrest : ∀ n, Token.kinds (List.replicate n (" or ".toList ++ f.render.toList)).flatten =
      .ok (List.replicate n (.word "or" :: f.canonical)).flatten := by
    intro n
    induction n with
    | zero => simp
    | succ n ih =>
      have hor := Token.kinds_word (w := "or") (TokenKind.lexical_word (by decide))
        (f.render.toList ++ (List.replicate n (" or ".toList ++ f.render.toList)).flatten)
      rw [kinds_render hf (hends n), ih, ← Token.kinds_blank] at hor
      simpa [List.replicate_succ] using hor
  rw [chainText, String.toList_ofList, kinds_render hf (hends n), hrest n]
  rfl

/-- The text of a chain has no parentheses at all, so its nesting is that of its comparisons. -/
theorem derives_orChain {f g : Filter} {m : Nat} (hg : Derives t .operand f.canonical g m) (n : Nat) :
    Derives t .disjunction (f.canonical ++ (List.replicate n (.word "or" :: f.canonical)).flatten)
      (orChain g n) m := by
  induction n with
  | zero => simpa [orChain] using Derives.conjunction (.operand hg)
  | succ n ih =>
    have h := Derives.or ih (.operand hg)
    rw [Nat.max_self] at h
    simpa [List.replicate_succ', orChain] using h

/-- **Chains are accepted at any length**: they are not nested, and the parser goes along them in a
loop. -/
theorem parse_chainText {f g : Filter} {m : Nat} (hf : f.WellTyped t)
    (hg : Derives t .operand f.canonical g m) (hm : m ≤ maxNesting) (n : Nat) :
    parse t (some (chainText f n)) = .ok (some (orChain g n)) := by
  obtain ⟨ts, hts, hkinds⟩ := Token.kinds_eq_ok_iff.mp (kinds_chainText hf n)
  have hne : ts ≠ [] := by
    rintro rfl
    exact canonical_ne_nil f (List.append_eq_nil_iff.mp hkinds.symm).1
  have hok : ofTokens t (chainText f n).toList ts = .ok (orChain g n) :=
    ofTokens_eq_ok_iff.mpr ⟨m, hm, by rw [hkinds]; exact derives_orChain hg n⟩
  rw [parse_of_scan hts hne, hok]
  rfl

end

/-! ### A chain that does not read back -/

/-- Whether a person is of age one. -/
def people.infant : Filter := .comparison people.age .eq (.integer 1)

theorem people.wellTyped_infant : people.infant.WellTyped people where
  resolved := rfl
  word := TokenKind.lexical_word (by decide)
  unreserved := by decide
  literal := ⟨by decide, by decide⟩

theorem people.derives_infant : Derives people .operand people.infant.canonical people.infant 0 :=
  .comparison people.wellTyped_infant.unreserved people.wellTyped_infant.resolved
    (.number (.inl rfl) rfl)

/-- A chain of 65 comparisons reads back: it is nested 64 times in its canonical text. -/
theorem parse_render_orChain :
    ∃ e', parse people (some (orChain people.infant 64).render) = .ok (some e') ∧
      e'.same (orChain people.infant 64) := by
  have hback : (orChain people.infant 64).Every fun p _ v =>
      p.kind = .decimal ∨ p.kind = .dateTime → v.ReadsBack p.kind :=
    every_orChain (by rintro (h | h) <;> exact absurd h (by decide)) 64
  have hparse := parse_chainText people.wellTyped_infant people.derives_infant (Nat.zero_le _) 64
  refine (parse_render_iff hparse hback).1.mpr ?_
  rw [nesting_orChain]
  decide

/-- A chain of 66 comparisons is accepted, but not in its canonical text. -/
theorem parse_render_refused :
    parse people (some (chainText people.infant 65)) = .ok (some (orChain people.infant 65)) ∧
      ¬∃ e', parse people (some (orChain people.infant 65).render) = .ok (some e') ∧
        e'.same (orChain people.infant 65) := by
  have hback : (orChain people.infant 65).Every fun p _ v =>
      p.kind = .decimal ∨ p.kind = .dateTime → v.ReadsBack p.kind :=
    every_orChain (by rintro (h | h) <;> exact absurd h (by decide)) 65
  have hparse := parse_chainText people.wellTyped_infant people.derives_infant (Nat.zero_le _) 65
  refine ⟨hparse, ?_⟩
  rintro ⟨e', he', -⟩
  obtain ⟨place, hplace⟩ := (parse_render_of_wellTyped (wellTyped_of_parse hparse) hback).2 <| by
    rw [nesting_orChain]
    decide
  rw [hplace] at he'
  simp [fault] at he'

end RecordService.Filter
