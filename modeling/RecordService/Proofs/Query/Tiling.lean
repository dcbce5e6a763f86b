import RecordService.Proofs.Query.Literal
import RecordService.Proofs.Query.Position
import RecordService.Proofs.Query.Spacing

/-!
# Tokens tile their text

The scanner loses nothing. A text that it accepts is tiled by the texts of its tokens and by the
blanks between them (`RecordService.Span.Tiles`), and there is no other way to tile it, since a token
goes on as far as it can. So the spans of the tokens can be told without a scanner, by what stands at
their offsets and what stands outside them, and these are the spans that are found
(`RecordService.Span.scan_lossless`).

* `RecordService.Token.undouble?`: what is between quotes, with the doubled quotes undone.
* `RecordService.Span.Fits`: spans whose token is what they mark.
* `RecordService.Span.Lossless`: spans outside of which there are blanks only.
-/

namespace RecordService

/-! ### Offsets -/

namespace Text

variable {a b a' b' before r : List Char} {c : Char} {i start : Nat} {raw : String}

/-- Of two beginnings of a text, the one of fewer bytes is a beginning of the other. So offsets in
bytes are as good as positions of characters. -/
theorem exists_append_of_size_le (h : a ++ b = a' ++ b') (hsize : size a ≤ size a') :
    ∃ gap, a' = a ++ gap ∧ b = gap ++ b' := by
  induction a generalizing a' with
  | nil => exact ⟨a', rfl, h⟩
  | cons c a ih =>
    cases a' with
    | nil =>
      have hpos := c.utf8Size_pos
      simp only [size_cons, size_nil] at hsize
      omega
    | cons d a' =>
      obtain ⟨rfl, htail⟩ := List.cons.inj h
      obtain ⟨gap, rfl, hb⟩ := ih htail (by simpa using hsize)
      exact ⟨gap, rfl, hb⟩

theorem size_pos (h : a ≠ []) : 0 < size a := by
  obtain ⟨c, a, rfl⟩ := List.exists_cons_of_ne_nil h
  exact Nat.add_pos_left c.utf8Size_pos _

/-- An offset cuts a text in one way, since every character has at least one byte. -/
theorem append_inj_of_size_eq (h : a ++ b = a' ++ b') (hsize : size a = size a') :
    a = a' ∧ b = b' := by
  obtain ⟨gap, rfl, rfl⟩ := exists_append_of_size_le h hsize.le
  obtain rfl : gap = [] := by
    by_contra hne
    have hpos := size_pos hne
    rw [size_append] at hsize
    omega
  simp

theorem mem_indexed_iff {s : List Char} :
    (i, c) ∈ indexed start s ↔ ∃ before after, s = before ++ c :: after ∧ i = start + size before := by
  induction s generalizing start with
  | nil => simp [indexed]
  | cons d s ih =>
    rw [indexed, List.mem_cons, ih]
    constructor
    · rintro (h | ⟨before, after, rfl, rfl⟩)
      · obtain ⟨rfl, rfl⟩ := Prod.mk.inj h
        exact ⟨[], s, rfl, rfl⟩
      · exact ⟨d :: before, after, rfl, by rw [size_cons, Nat.add_assoc]⟩
    · rintro ⟨before, after, h, rfl⟩
      cases before with
      | nil =>
        obtain ⟨rfl, -⟩ := List.cons.inj h
        exact .inl rfl
      | cons e before =>
        obtain ⟨rfl, rfl⟩ := List.cons.inj h
        exact .inr ⟨before, after, rfl, by rw [size_cons, Nat.add_assoc]⟩

/-- The offsets of two texts in a row: those of the second one begin behind the bytes of the first.
-/
theorem indexed_append (start : Nat) (a b : List Char) :
    indexed start (a ++ b) = indexed start a ++ indexed (start + size a) b := by
  induction a generalizing start with
  | nil => rfl
  | cons c a ih => simp [indexed, ih, Nat.add_assoc]

theorem mem_of_mem_indexed {s : List Char} (h : (i, c) ∈ indexed start s) :
    c ∈ s ∧ start ≤ i ∧ i < start + size s := by
  obtain ⟨before, after, rfl, rfl⟩ := mem_indexed_iff.mp h
  have hpos := c.utf8Size_pos
  rw [size_append, size_cons]
  exact ⟨by simp, by omega, by omega⟩

/-- What stands at an offset is what the rest of the text begins with. -/
theorem mem_indexed_iff_mem_head? (h : raw.toList = before ++ r) :
    (size before, c) ∈ indexed 0 raw.toList ↔ c ∈ r.head? := by
  simp only [mem_indexed_iff, Nat.zero_add]
  constructor
  · rintro ⟨before', after, h', hsize⟩
    obtain ⟨-, rfl⟩ := append_inj_of_size_eq (h.symm.trans h') hsize
    rfl
  · intro hc
    obtain ⟨after, rfl⟩ := List.head?_eq_some_iff.mp hc
    exact ⟨before, after, h, rfl⟩

/-- The offset behind some characters at the beginning of a text stands between two characters,
never inside of one. -/
theorem isValid_size (h : raw.toList = before ++ r) :
    String.Pos.Raw.IsValid raw ⟨size before⟩ := by
  refine String.Pos.Raw.isValid_iff_exists_append.mpr ⟨String.ofList before, String.ofList r, ?_, ?_⟩
  · rw [← String.ofList_append, ← h, String.ofList_toList]
  · rw [String.rawEndPos, utf8ByteSize_ofList]

end Text

/-! ### Where a token ends -/

namespace Token

variable {c : Char} {s r lexeme : List Char} {k : TokenKind}

/-- **A token that is read ends there**: the reader took all the characters that it could. -/
theorem endsAt_of_readOne (h : readOne c s = .ok (k, lexeme, r)) : k.EndsAt r := by
  unfold readOne at h
  split at h
  · cases h
    exact fun _ _ => rfl
  split at h
  · cases h
    exact fun _ _ => rfl
  split at h
  · split at h
    · next hread =>
      cases h
      exact (@readQuoted_append _ _ [] _ _ hread).1
    · simp at h
  split at h
  · dsimp only at h
    split at h
    · cases h
      exact Lists.head?_dropWhile
    · simp at h
  split at h
  · cases h
    exact Lists.head?_dropWhile
  · simp at h

/-- **The tokens that are read** from a text are those whose text it begins with, and which end
there. -/
theorem exists_readOne_iff :
    (∃ c cs, lexeme = c :: cs ∧ Text.isBlank c = false ∧ readOne c (cs ++ r) = .ok (k, cs, r)) ↔
      lexeme = k.text ∧ k.Lexical ∧ k.EndsAt r := by
  constructor
  · rintro ⟨c, cs, rfl, -, hread⟩
    exact ⟨text_of_readOne hread, lexical_of_readOne hread, endsAt_of_readOne hread⟩
  · rintro ⟨rfl, hk, hr⟩
    obtain ⟨c, s, cs, htext, hc, hread⟩ := readOne_text hk hr
    obtain rfl := append_readOne hread
    exact ⟨c, cs, (text_of_readOne hread).symm, hc, hread⟩

/-! ### Quotes that are undone -/

/-- What is between quotes with every doubled quote replaced by one, unless a quote stands alone. -/
def undouble? : List Char → Option (List Char)
  | [] => some []
  | '\'' :: '\'' :: s => (undouble? s).map ('\'' :: ·)
  | '\'' :: _ => none
  | c :: s => (undouble? s).map (c :: ·)

/-- Quotes can be undone exactly where each of them is doubled. -/
theorem undouble?_eq_some_iff {s t : List Char} :
    undouble? s = some t ↔ s = t.flatMap fun c => if c = '\'' then [c, c] else [c] := by
  constructor
  · intro h
    fun_induction undouble? s generalizing t with
    | case1 =>
      cases h
      rfl
    | case2 s ih =>
      obtain ⟨u, hu, rfl⟩ := Option.map_eq_some_iff.mp h
      simp [ih hu]
    | case3 => simp at h
    | case4 c s _ hc ih =>
      obtain ⟨u, hu, rfl⟩ := Option.map_eq_some_iff.mp h
      have hc : c ≠ '\'' := hc
      simp [ih hu, hc]
  · rintro rfl
    induction t with
    | nil => rfl
    | cons c t ih =>
      by_cases hc : c = '\''
      · subst hc
        simp [undouble?, ih]
      · simp [undouble?, ih, hc]

end Token

theorem TokenKind.text_ne_nil {k : TokenKind} (hk : k.Lexical) : k.text ≠ [] := by
  have hend : k.EndsAt [] := by simp [EndsAt]
  obtain ⟨c, cs, htext, -⟩ := Token.exists_readOne_iff.mpr ⟨rfl, hk, hend⟩
  simp [htext]

namespace Span

variable {raw : String} {before s gap : List Char} {spans : List Span} {n : Span} {i start : Nat}
variable {c : Char}

/-! ### Tilings -/

/-- **The tilings of a text** whose first byte has the offset `start`: the texts of tokens, each of
which ends where the next piece begins, and blanks in front of each of them and at the end. -/
inductive Tiles : Nat → List Char → List Span → Prop
  | nil {start : Nat} {gap : List Char} (blank : Text.Blank gap) : Tiles start gap []
  | cons {start : Nat} {gap r : List Char} {n : Span} {spans : List Span} (blank : Text.Blank gap)
      (first : n.start = start + Text.size gap)
      (last : n.stop = start + Text.size (gap ++ n.kind.text)) (lexical : n.kind.Lexical)
      (ends : n.kind.EndsAt r) (others : Tiles n.stop r spans) :
      Tiles start (gap ++ n.kind.text ++ r) (n :: spans)

/-- Only one span marks a token, since the offsets are settled by what stands in front and by the
lexeme. -/
theorem Marks.eq {m : Span} {token : Token} (hn : Marks raw n token) (hm : Marks raw m token) :
    n = m := by
  obtain ⟨kind, start, stop⟩ := n
  obtain ⟨kind', start', stop'⟩ := m
  obtain ⟨b, -, -, hstart, hstop⟩ := Text.slice?_eq_some_iff.mp hn.onward
  obtain ⟨b', -, -, hstart', hstop'⟩ := Text.slice?_eq_some_iff.mp hm.onward
  obtain ⟨d, -, -, hfirst, hlast⟩ := Text.slice?_eq_some_iff.mp hn.lexeme
  obtain ⟨d', -, -, hfirst', hlast'⟩ := Text.slice?_eq_some_iff.mp hm.lexeme
  have hkind : kind = kind' := hn.kind.trans hm.kind.symm
  simp only [String.utf8ByteSize_append] at hstop hstop' hlast hlast' hstart hstart' hfirst hfirst'
  rw [Span.mk.injEq]
  exact ⟨hkind, by omega, by omega⟩

theorem eq_of_marks {ms : List Span} {ts : List Token} (hspans : List.Forall₂ (Marks raw) spans ts)
    (hms : List.Forall₂ (Marks raw) ms ts) : spans = ms := by
  induction hspans generalizing ms with
  | nil =>
    cases hms
    rfl
  | cons hmark _ ih =>
    cases hms with
    | cons hm hms => rw [hmark.eq hm, ih hms]

/-- The span of a token that stands behind some characters. -/
theorem marks_of_toList {r : List Char} (hraw : raw.toList = before ++ n.kind.text ++ r)
    (hstart : n.start = Text.size before) (hstop : n.stop = Text.size (before ++ n.kind.text)) :
    Marks raw n ⟨n.kind, n.kind.text, n.kind.text ++ r⟩ := by
  refine ⟨rfl, rfl, ?_, ?_⟩
  · rw [hstart, hstop, Text.size_append]
    exact Text.slice?_of_toList hraw
  · rw [hstart]
    exact Text.slice?_onward (by rw [hraw, List.append_assoc])

/-- **The tokens of a text tile it**, and a tiling comes from tokens. -/
theorem tiles_iff_scans (hraw : raw.toList = before ++ s) :
    Tiles (Text.size before) s spans ↔
      ∃ ts, Token.Scans s ts ∧ List.Forall₂ (Marks raw) spans ts := by
  constructor
  · intro h
    generalize hsize : Text.size before = start at h
    induction h generalizing before with
    | nil hgap => exact ⟨[], .nil hgap, .nil⟩
    | @cons start gap r n spans hgap hfirst hlast hk hr _ ih =>
      rw [← List.append_assoc, ← List.append_assoc] at hraw
      rw [← hsize, ← Text.size_append] at hfirst hlast
      rw [← List.append_assoc] at hlast
      obtain ⟨ts, hscans, hmarks⟩ := ih hraw hlast.symm
      obtain ⟨c, cs, htext, hc, hread⟩ := Token.exists_readOne_iff.mpr ⟨rfl, hk, hr⟩
      refine ⟨_, ?_, .cons (marks_of_toList hraw hfirst hlast) hmarks⟩
      rw [List.append_assoc, htext]
      exact .cons hgap hc hread hscans
  · rintro ⟨ts, hscans, hmarks⟩
    induction hscans generalizing before spans with
    | nil hgap =>
      cases hmarks
      exact .nil hgap
    | @cons gap lexeme r c k ts hgap hc hread _ ih =>
      obtain ⟨htext, hk, hr⟩ := Token.exists_readOne_iff.mp ⟨c, lexeme, rfl, hc, hread⟩
      rw [← List.cons_append, htext, ← List.append_assoc] at hraw ⊢
      rw [← List.cons_append, htext] at hmarks
      rw [← List.append_assoc] at hraw
      cases hmarks with
      | cons hmark hmarks =>
        let n : Span := ⟨k, Text.size (before ++ gap), Text.size (before ++ gap ++ k.text)⟩
        obtain rfl := hmark.eq (marks_of_toList (n := n) hraw rfl rfl)
        refine .cons (n := n) hgap (Text.size_append _ _) ?_ hk hr (ih hraw hmarks)
        rw [← Text.size_append, ← List.append_assoc]

/-- **The scanner in place finds the tiling** of a text, so there is at most one. -/
theorem scan_eq_some_iff_tiles : scan raw = some (.ok spans) ↔ Tiles 0 raw.toList spans := by
  rw [← Text.size_nil, @tiles_iff_scans raw [] raw.toList spans rfl]
  rcases scan_eq raw with ⟨f, place, hscan, hspans, -⟩ | ⟨ts, found, hscan, hspans, hmarks⟩
  · rw [hspans]
    constructor
    · intro h
      simp at h
    · rintro ⟨ts, hscans, -⟩
      rw [Token.scan_eq_ok_iff.mpr hscans] at hscan
      simp at hscan
  · rw [hspans, Option.some_inj, Except.ok.injEq]
    constructor
    · rintro rfl
      exact ⟨ts, Token.scan_eq_ok_iff.mp hscan, hmarks⟩
    · rintro ⟨ts', hscans, hmarks'⟩
      rw [Token.scan_eq_ok_iff.mpr hscans] at hscan
      obtain rfl := Except.ok.inj hscan
      exact eq_of_marks hmarks hmarks'

/-! ### What stands at the offsets -/

namespace Tiles

/-- The spans of a tiling mark the texts of their tokens, which end there. The split of the text
shows both offsets as numbers of bytes. -/
theorem mem (h : Tiles start s spans) (hn : n ∈ spans) :
    ∃ before r, s = before ++ n.kind.text ++ r ∧ n.start = start + Text.size before ∧
      n.stop = start + Text.size (before ++ n.kind.text) ∧ n.kind.Lexical ∧ n.kind.EndsAt r := by
  induction h with
  | nil => simp at hn
  | @cons start gap r m spans hgap hfirst hlast hk hr _ ih =>
    rcases List.mem_cons.mp hn with rfl | hn
    · exact ⟨gap, r, rfl, hfirst, hlast, hk, hr⟩
    · obtain ⟨before, r', rfl, hstart, hstop, hrest⟩ := ih hn
      rw [hlast, Nat.add_assoc, ← Text.size_append] at hstart hstop
      rw [← List.append_assoc] at hstop
      exact ⟨gap ++ m.kind.text ++ before, r', by simp, hstart, hstop, hrest⟩

/-- Spans lie behind the beginning and are not empty, as no token is. -/
theorem start_lt_stop (h : Tiles start s spans) (hn : n ∈ spans) :
    start ≤ n.start ∧ n.start < n.stop := by
  obtain ⟨before, r, -, hstart, hstop, hk, -⟩ := h.mem hn
  have hpos := Text.size_pos (TokenKind.text_ne_nil hk)
  rw [Text.size_append] at hstop
  omega

/-- Spans come one after the other, without a character in two of them. -/
theorem pairwise (h : Tiles start s spans) : spans.Pairwise fun a b => a.stop ≤ b.start := by
  induction h with
  | nil => exact .nil
  | cons _ _ _ _ _ hothers ih => exact .cons (fun _ hb => (hothers.start_lt_stop hb).1) ih

/-- A character is blank, unless it is part of a token. -/
theorem blank_or_covered (h : Tiles start s spans) (hc : (i, c) ∈ Text.indexed start s) :
    Text.isBlank c ∨ ∃ n ∈ spans, n.start ≤ i ∧ i < n.stop := by
  induction h with
  | nil hgap => exact .inl (hgap c (Text.mem_of_mem_indexed hc).1)
  | cons hgap hfirst hlast _ _ _ ih =>
    rw [Text.indexed_append, ← hlast, Text.indexed_append, ← hfirst, List.mem_append,
      List.mem_append] at hc
    rcases hc with (hc | hc) | hc
    · exact .inl (hgap c (Text.mem_of_mem_indexed hc).1)
    · obtain ⟨-, hstart, hstop⟩ := Text.mem_of_mem_indexed hc
      rw [hfirst, Nat.add_assoc, ← Text.size_append, ← hlast] at hstop
      exact .inr ⟨_, List.mem_cons_self, hstart, hstop⟩
    · refine (ih hc).imp_right ?_
      rintro ⟨n, hn, hcovers⟩
      exact ⟨n, List.mem_cons_of_mem _ hn, hcovers⟩

end Tiles

/-- Whether the token of a span is what the span marks. Parentheses, words and numbers are the text of
the span itself. A quoted text stands between quotes, with each of its own quotes doubled. -/
def Fits (raw : String) (n : Span) : Prop :=
  match n.kind with
  | .opening => Text.slice? raw n.start n.stop = some "("
  | .closing => Text.slice? raw n.start n.stop = some ")"
  | .word s => Text.slice? raw n.start n.stop = some s ∧ (TokenKind.word s).Lexical
  | .number s => Text.slice? raw n.start n.stop = some s ∧ Filter.Numeral s.toList
  | .quoted s => ∃ inside, Text.slice? raw n.start n.stop = some ("'" ++ inside ++ "'") ∧
      Token.undouble? inside.toList = some s.toList

theorem fits_iff : n.Fits raw ↔
    n.kind.Lexical ∧ Text.slice? raw n.start n.stop = some (String.ofList n.kind.text) := by
  obtain ⟨k, start, stop⟩ := n
  cases k with
  | opening => simp [Fits, TokenKind.text, TokenKind.Lexical]
  | closing => simp [Fits, TokenKind.text, TokenKind.Lexical]
  | word w => simp [Fits, TokenKind.text, and_comm]
  | number s => simp [Fits, TokenKind.text, TokenKind.Lexical, Filter.isNumber_iff_numeral, and_comm]
  | quoted t =>
    have htext (inside : String)
        (h : inside.toList = t.toList.flatMap fun c => if c = '\'' then [c, c] else [c]) :
        "'" ++ inside ++ "'" = Filter.quoteText t := by
      rw [Filter.quoteText, ← h, ← String.toList_inj]
      simp
    simp only [Fits, Token.undouble?_eq_some_iff, TokenKind.Lexical, true_and, TokenKind.text,
      String.ofList_toList]
    constructor
    · rintro ⟨inside, hslice, hinside⟩
      rw [hslice, htext inside hinside]
    · intro hslice
      exact ⟨_, by rw [hslice, htext _ String.toList_ofList], String.toList_ofList⟩

/-- What a span marks stands behind the characters that end before it, so a gap can be named in
front of it. -/
theorem exists_gap (hraw : raw.toList = before ++ s)
    (hslice : Text.slice? raw n.start n.stop = some (String.ofList n.kind.text))
    (hle : Text.size before ≤ n.start) :
    ∃ gap r, s = gap ++ n.kind.text ++ r ∧ n.start = Text.size before + Text.size gap ∧
      n.stop = Text.size before + Text.size (gap ++ n.kind.text) := by
  obtain ⟨b, a, hparts, hstart, hstop⟩ := Text.slice?_eq_some_iff.mp hslice
  have hlist : raw.toList = b.toList ++ (n.kind.text ++ a.toList) := by simp [hparts]
  rw [String.utf8ByteSize_append, Text.utf8ByteSize_ofList, ← hstart] at hstop
  rw [Text.utf8ByteSize_eq] at hstart
  obtain ⟨gap, hb, rfl⟩ := Text.exists_append_of_size_le (hraw.symm.trans hlist) (hstart ▸ hle)
  rw [hb, Text.size_append] at hstart
  refine ⟨gap, a.toList, (List.append_assoc _ _ _).symm, hstart, ?_⟩
  rw [hstop, hstart, Text.size_append, Nat.add_assoc]

/-- **Spans that lose nothing of a text**: they are not empty, they come one after the other, they
begin and end between characters of the text, and all characters outside of them are blank. The token
of a span is what the span marks, and it would not go on with the character that stands behind the
span. -/
structure Lossless (raw : String) (spans : List Span) : Prop where
  start_lt_stop : ∀ n ∈ spans, n.start < n.stop
  pairwise : spans.Pairwise fun a b => a.stop ≤ b.start
  isValid : ∀ n ∈ spans, String.Pos.Raw.IsValid raw ⟨n.start⟩ ∧ String.Pos.Raw.IsValid raw ⟨n.stop⟩
  isBlank : ∀ i c, (i, c) ∈ Text.indexed 0 raw.toList →
    (∀ n ∈ spans, ¬(n.start ≤ i ∧ i < n.stop)) → Text.isBlank c
  fits : ∀ n ∈ spans, n.Fits raw
  maximal : ∀ n ∈ spans, ∀ c, (n.stop, c) ∈ Text.indexed 0 raw.toList → n.kind.continues c = false

theorem Tiles.lossless (h : Tiles 0 raw.toList spans) : Lossless raw spans := by
  have hmem (n : Span) (hn : n ∈ spans) : ∃ before r, raw.toList = before ++ n.kind.text ++ r ∧
      n.start = Text.size before ∧ n.stop = Text.size (before ++ n.kind.text) ∧ n.kind.Lexical ∧
      n.kind.EndsAt r := by
    simpa only [Nat.zero_add] using h.mem hn
  refine ⟨fun n hn => (h.start_lt_stop hn).2, h.pairwise, ?_, ?_, ?_, ?_⟩
  · intro n hn
    obtain ⟨before, r, hraw, hstart, hstop, -⟩ := hmem n hn
    rw [hstart, hstop]
    exact ⟨Text.isValid_size (hraw.trans (List.append_assoc _ _ _)), Text.isValid_size hraw⟩
  · intro i c hc houtside
    refine (h.blank_or_covered hc).resolve_right ?_
    rintro ⟨n, hn, hcovers⟩
    exact houtside n hn hcovers
  · intro n hn
    obtain ⟨before, r, hraw, hstart, hstop, hk, -⟩ := hmem n hn
    refine fits_iff.mpr ⟨hk, ?_⟩
    rw [hstart, hstop, Text.size_append]
    exact Text.slice?_of_toList hraw
  · intro n hn c hc
    obtain ⟨before, r, hraw, -, hstop, -, hr⟩ := hmem n hn
    rw [hstop] at hc
    exact hr c ((Text.mem_indexed_iff_mem_head? hraw).mp hc)

namespace Lossless

/-- What stands outside of the spans is blank, taken as a whole and not by its characters. -/
theorem blank {r : List Char} (h : Lossless raw spans) (hraw : raw.toList = before ++ gap ++ r)
    (houtside : ∀ n ∈ spans, n.stop ≤ Text.size before ∨ Text.size (before ++ gap) ≤ n.start) :
    Text.Blank gap := by
  intro c hc
  obtain ⟨a, b, rfl⟩ := List.append_of_mem hc
  refine h.isBlank (Text.size (before ++ a)) c ?_ fun n hn => ?_
  · exact Text.mem_indexed_iff.mpr ⟨before ++ a, b ++ r, by simp [hraw], (Nat.zero_add _).symm⟩
  · have hpos := c.utf8Size_pos
    have hn := houtside n hn
    simp only [Text.size_append, Text.size_cons] at hn ⊢
    omega

/-- **Spans that lose nothing tile the text**, by induction over the spans that are left. The text
in front of them is covered by the spans that were taken, and only the gap up to the next one is
new. -/
theorem tiles (h : Lossless raw spans) {us vs : List Span} (hspans : spans = us ++ vs)
    (hraw : raw.toList = before ++ s) (hus : ∀ n ∈ us, n.stop ≤ Text.size before)
    (hvs : ∀ n ∈ vs, Text.size before ≤ n.start) : Tiles (Text.size before) s vs := by
  induction vs generalizing us before s with
  | nil =>
    rw [List.append_nil] at hspans
    rw [← List.append_nil s, ← List.append_assoc] at hraw
    exact .nil (h.blank hraw fun n hn => .inl (hus n (hspans ▸ hn)))
  | cons n vs ih =>
    have hn : n ∈ spans := by simp [hspans]
    obtain ⟨hk, hslice⟩ := fits_iff.mp (h.fits n hn)
    have hlt := h.start_lt_stop n hn
    have hlater : ∀ m ∈ vs, n.stop ≤ m.start := by
      have hpairwise := h.pairwise
      rw [hspans] at hpairwise
      exact (List.pairwise_cons.mp (List.pairwise_append.mp hpairwise).2.1).1
    obtain ⟨gap, r, rfl, hstart, hstop⟩ := exists_gap hraw hslice (hvs n List.mem_cons_self)
    rw [← List.append_assoc, ← List.append_assoc] at hraw
    have hgap : Text.Blank gap := by
      rw [List.append_assoc] at hraw
      refine h.blank hraw fun m hm => ?_
      rw [Text.size_append, ← hstart]
      rw [hspans, List.mem_append, List.mem_cons] at hm
      rcases hm with hm | rfl | hm
      · exact .inl (hus m hm)
      · exact .inr (Nat.le_refl _)
      · exact .inr (hlt.le.trans (hlater m hm))
    have hlast : n.stop = Text.size (before ++ gap ++ n.kind.text) := by
      rw [hstop, ← Text.size_append, List.append_assoc]
    have hends : n.kind.EndsAt r := fun c hc =>
      h.maximal n hn c (hlast ▸ (Text.mem_indexed_iff_mem_head? hraw).mpr hc)
    refine .cons hgap hstart hstop hk hends ?_
    rw [hlast] at hlater ⊢
    have hspans : spans = us ++ [n] ++ vs := by simp [hspans]
    refine ih hspans hraw (fun m hm => ?_) hlater
    rcases List.mem_append.mp hm with hm | hm
    · have hle := hus m hm
      simp only [Text.size_append]
      omega
    · rw [List.mem_singleton.mp hm, hlast]

end Lossless

/-- **The scanner loses nothing.** The spans that it finds in a text are those that lose nothing of
it: they are not empty, in order and apart from each other, and lie between characters of the text,
with blanks only outside of them. Parentheses, words and numbers are what their spans mark, a quoted
text is what is between the quotes of its span with the doubled quotes undone, every number is a
numeral, and no token could go on behind its span. A text has such spans exactly if it is accepted,
and then the tokens are cut out at them. -/
theorem scan_lossless (raw : String) :
    (∀ spans, scan raw = some (.ok spans) ↔ Lossless raw spans) ∧
      ∀ ts, Token.scan raw.toList = .ok ts ↔
        ∃ spans, Lossless raw spans ∧ spans.mapM (token? raw) = some ts := by
  have hspans (spans : List Span) : scan raw = some (.ok spans) ↔ Lossless raw spans := by
    rw [scan_eq_some_iff_tiles]
    refine ⟨Tiles.lossless, fun h => ?_⟩
    exact h.tiles (List.nil_append spans).symm (List.nil_append _).symm (by simp) (by simp)
  refine ⟨hspans, fun ts => ?_⟩
  simp only [← hspans]
  rcases scan_eq raw with ⟨f, place, hscan, hfault, -⟩ | ⟨found, spans, hscan, hfound, hmarks⟩
  · simp [hscan, hfault]
  · simp [hscan, hfound, mapM_token?_eq hmarks]

/-- Offsets count the bytes of a letter, and of quotes that are undone. -/
example : scan "(Name eq 'Ä''s')" = some (.ok [⟨.opening, 0, 1⟩, ⟨.word "Name", 1, 5⟩,
    ⟨.word "eq", 6, 8⟩, ⟨.quoted "Ä's", 9, 16⟩, ⟨.closing, 16, 17⟩]) := by
  decide +kernel

end Span

end RecordService
