import RecordService.Proofs.Query.Token

/-!
# Blanks between tokens

The scanner finds the end of a token by looking at what follows. No token goes on into a blank, so
it makes no difference how many blanks stand around the tokens of a text, or whether there are any
where there were none: the same tokens are found, with the same lexemes
(`RecordService.Token.Respaced.scans`). Blanks inside a lexeme are not touched.

* `RecordService.Token.Scans`: the tokens of a text, without the scanner.
* `RecordService.Token.readOne_append`: a lexeme in front of another text.
* `RecordService.Token.Respaced`: the ways to change the blanks of a text.
-/

namespace RecordService.Token

/-! ### Where a token ends -/

variable {c : Char} {s s' r r' lexeme before gap after : List Char} {k : TokenKind}

/-- Whether a token that ends in front of `r` also ends in front of `r'`: there comes what came
before, or a blank, or nothing. -/
def Stops (r r' : List Char) : Prop := ∀ c ∈ r'.head?, c ∈ r.head? ∨ Text.isBlank c

theorem stops_append (hgap : Text.Blank gap) (h : gap = [] → r = r') : Stops r (gap ++ r') := by
  cases gap with
  | nil =>
    obtain rfl := h rfl
    exact fun _ => .inl
  | cons d gap =>
    rintro _ ⟨⟩
    exact .inr (hgap d List.mem_cons_self)

/-- The same text in front of both does not change that a token stops there. -/
theorem Stops.append (h : Stops r r') (s : List Char) : Stops (s ++ r) (s ++ r') := by
  cases s with
  | nil => exact h
  | cons c s => exact fun _ => .inl

/-- A run of characters that are not blank ends where it did: the other text begins with a blank, or
as the first one does. -/
theorem Stops.run {p : Char → Bool} (h : Stops r r') (hr : ∀ c ∈ r.head?, p c = false)
    (hblank : ∀ c, p c → Text.isBlank c = false) : ∀ c ∈ r'.head?, p c = false := by
  intro c hc
  rcases h c hc with hc | hc
  · exact hr c hc
  · by_contra hp
    rw [hblank c (by simpa using hp)] at hc
    exact absurd hc (by decide)

/-- No quote follows a quoted text, and another text that does not begin with a quote can follow. A
quote there would be read as the second one of a pair. -/
theorem readQuoted_append {text : List Char} (h : readQuoted s = some (text, lexeme, r)) :
    (∀ c ∈ r.head?, (c == '\'') = false) ∧
      ((∀ c ∈ r'.head?, (c == '\'') = false) →
        readQuoted (lexeme ++ r') = some (text, lexeme, r')) := by
  fun_induction readQuoted s generalizing text lexeme r with
  | case1 => simp at h
  | case2 s ih =>
    simp only [bind, Option.bind_eq_some_iff] at h
    obtain ⟨⟨text', lexeme', rest⟩, hrest, h⟩ := h
    obtain ⟨rfl, rfl, rfl⟩ :
        '\'' :: text' = text ∧ '\'' :: '\'' :: lexeme' = lexeme ∧ rest = r := by
      simpa using h
    refine ⟨(ih hrest).1, fun hr' => ?_⟩
    simp [readQuoted, (ih hrest).2 hr']
  | case3 s hs =>
    obtain ⟨rfl, rfl, rfl⟩ : [] = text ∧ ['\''] = lexeme ∧ s = r := by simpa using h
    constructor
    · rintro c hc
      cases s with
      | nil => simp at hc
      | cons d s =>
        obtain rfl : d = c := by simpa using hc
        have hd : d ≠ '\'' := fun hd => hs s (by rw [hd])
        simpa using hd
    · intro hr'
      cases r' with
      | nil => rfl
      | cons d r' =>
        have hd : d ≠ '\'' := by simpa using hr' d rfl
        simp [readQuoted, hd]
  | case4 c s hdoubled hclosing ih =>
    simp only [bind, Option.bind_eq_some_iff] at h
    obtain ⟨⟨text', lexeme', rest⟩, hrest, h⟩ := h
    obtain ⟨rfl, rfl, rfl⟩ : c :: text' = text ∧ c :: lexeme' = lexeme ∧ rest = r := by
      simpa using h
    have hc : c ≠ '\'' := hclosing
    refine ⟨(ih hrest).1, fun hr' => ?_⟩
    simp [readQuoted, hc, (ih hrest).2 hr']

/-- A run is the same run in front of another text where it stops. Words and numbers are such runs.
-/
theorem takeWhile_dropWhile_of_stops {p : Char → Bool}
    (hblank : ∀ c, p c → Text.isBlank c = false) (hr : Stops (s.dropWhile p) r') :
    (s.takeWhile p ++ r').takeWhile p = s.takeWhile p ∧ (s.takeWhile p ++ r').dropWhile p = r' :=
  Lists.takeWhile_dropWhile_append (fun _ => List.mem_takeWhile_imp)
    (hr.run Lists.head?_dropWhile hblank)

/-- **A token is read from its lexeme**, whatever follows, as long as the token stops there. -/
theorem readOne_append (h : readOne c s = .ok (k, lexeme, r)) (hr : Stops r r') :
    readOne c (lexeme ++ r') = .ok (k, lexeme, r') := by
  unfold readOne at h ⊢
  split at h
  · next hc =>
    cases h
    rw [if_pos hc]
    rfl
  next hopening =>
  rw [if_neg hopening]
  split at h
  · next hc =>
    cases h
    rw [if_pos hc]
    rfl
  next hclosing =>
  rw [if_neg hclosing]
  split at h
  · next hc =>
    rw [if_pos hc]
    split at h
    · next text lexeme' rest hquoted =>
      cases h
      obtain ⟨hend, hread⟩ := readQuoted_append hquoted
      have hquote : ∀ d, (d == '\'') = true → Text.isBlank d = false := by
        intro d hd
        rw [beq_iff_eq.mp hd]
        decide
      rw [hread (hr.run hend hquote)]
    · simp at h
  next hquote =>
  rw [if_neg hquote]
  split at h
  · next hc =>
    rw [if_pos hc]
    dsimp only at h
    split at h
    · next hnumber =>
      cases h
      obtain ⟨htake, hdrop⟩ := takeWhile_dropWhile_of_stops (fun _ => isBlank_of_continuesNumber) hr
      simp only [htake, hdrop, hnumber, if_true]
    · simp at h
  next hnumber =>
  rw [if_neg hnumber]
  split at h
  · next hc =>
    cases h
    obtain ⟨htake, hdrop⟩ := takeWhile_dropWhile_of_stops (fun _ => isBlank_of_continuesWord) hr
    simp only [hc, htake, hdrop, if_true]
  · simp at h

/-! ### The tokens of a text -/

/-- **The tokens of a text**: blanks may stand in front of each of them and at the end. -/
inductive Scans : List Char → List Token → Prop
  | nil {gap : List Char} (blank : Text.Blank gap) : Scans gap []
  | cons {gap lexeme r : List Char} {c : Char} {k : TokenKind} {ts : List Token}
      (blank : Text.Blank gap) (first : Text.isBlank c = false)
      (token : readOne c (lexeme ++ r) = .ok (k, lexeme, r)) (others : Scans r ts) :
      Scans (gap ++ c :: (lexeme ++ r)) (⟨k, c :: lexeme, c :: (lexeme ++ r)⟩ :: ts)

/-- **The tokens of a text are scanned.** The relation has the blanks and the tokens of the text as
parts, so that proofs can exchange the one and keep the other. -/
theorem scan_eq_ok_iff {ts : List Token} : scan s = .ok ts ↔ Scans s ts := by
  constructor
  · intro h
    fun_induction scan s generalizing ts with
    | case1 s hs =>
      cases h
      exact .nil (Text.skipBlank_eq_nil_iff.mp hs)
    | case2 => simp at h
    | case3 s c r hs k lexeme rest hread ih =>
      obtain ⟨us, hrest, rfl⟩ := Outcome.map_eq_ok_iff.mp h
      obtain ⟨gap, hgap, htext⟩ := Text.exists_blank_append s
      obtain rfl := append_readOne hread
      rw [htext, hs]
      exact .cons hgap (Text.isBlank_of_skipBlank hs) hread (ih hrest)
  · intro h
    induction h with
    | nil hgap => rw [scan_eq, Text.skipBlank_eq_nil_iff.mpr hgap]
    | @cons gap lexeme r c k ts hgap hc hread _ ih =>
      rw [scan_eq, Text.skipBlank_append hgap, Text.skipBlank_of_isBlank hc]
      simp only [hread, ih]
      rfl

namespace Scans

variable {ts us vs : List Token} {u v : Token}

/-- Only blanks have no tokens, so a filter without tokens is a blank one. -/
theorem blank_of_nil (h : Scans s []) : Text.Blank s := by
  cases h with
  | nil hgap => exact hgap

/-- Blanks in front of a text make no difference. -/
theorem blank_append (hgap : Text.Blank gap) (h : Scans s ts) : Scans (gap ++ s) ts := by
  cases h with
  | nil hblank => exact .nil (Text.blank_append.mpr ⟨hgap, hblank⟩)
  | cons hblank hc hread hrest =>
    rw [← List.append_assoc]
    exact .cons (Text.blank_append.mpr ⟨hgap, hblank⟩) hc hread hrest

/-- A token in front of another text where it stops is scanned, and then the tokens of this text. -/
theorem cons_of_stops (hgap : Text.Blank gap) (hc : Text.isBlank c = false)
    (hread : readOne c (lexeme ++ r) = .ok (k, lexeme, r)) (hr : Stops r r') (h : Scans r' ts) :
    Scans (gap ++ c :: (lexeme ++ r')) (⟨k, c :: lexeme, c :: (lexeme ++ r')⟩ :: ts) :=
  .cons hgap hc (readOne_append hread hr) h

/-- The text from the first token on, behind the blanks that it begins with. -/
theorem of_cons (h : Scans s (u :: ts)) :
    ∃ gap, Text.Blank gap ∧ s = gap ++ u.onward ∧ Scans u.onward (u :: ts) := by
  cases h with
  | @cons gap _ _ _ _ _ hgap hc hread hothers =>
    exact ⟨gap, hgap, rfl, .cons Text.blank_nil hc hread hothers⟩

end Scans

/-! ### Other blanks -/

/-- Whether two tokens are the same but for the text behind them. -/
structure Alike (k k' : Token) : Prop where
  kind : k.kind = k'.kind
  lexeme : k.lexeme = k'.lexeme

@[refl] theorem Alike.refl (k : Token) : Alike k k := ⟨rfl, rfl⟩

/-- A place between two adjacent tokens: `before` ends with the lexeme of the one, `after` begins
with that of the other, and `gap` is all that stands between them. -/
structure Between (s : List Char) (ts : List Token) (before gap after : List Char) : Prop where
  text : s = before ++ (gap ++ after)
  adjacent : ∃ us u v vs, ts = us ++ u :: v :: vs ∧
    Token.onward u = u.lexeme ++ (gap ++ after) ∧ Token.onward v = after

/-- **A text with other blanks** around its tokens: some are inserted in front of the text, behind
it or between two adjacent tokens, or some that stand between two tokens are exchanged. Where there
are blanks between two tokens, some have to stay. -/
inductive Respaced (s : List Char) (ts : List Token) : List Char → Prop
  | front {blanks : List Char} (blank : Text.Blank blanks) : Respaced s ts (blanks ++ s)
  | back {blanks : List Char} (blank : Text.Blank blanks) : Respaced s ts (s ++ blanks)
  | between {before gap gap' after blanks : List Char}
      (place : Between s ts before (gap ++ gap') after) (blank : Text.Blank blanks) :
      Respaced s ts (before ++ (gap ++ blanks ++ gap' ++ after))
  | exchange {before gap run gap' after blanks : List Char}
      (place : Between s ts before (gap ++ run ++ gap') after) (run_ne_nil : run ≠ [])
      (blank : Text.Blank blanks) (ne_nil : blanks ≠ []) :
      Respaced s ts (before ++ (gap ++ blanks ++ gap' ++ after))

namespace Scans

variable {ts us vs : List Token} {u : Token} {blanks : List Char}

/-- **The text behind a token** can be exchanged for another one, as long as the token stops there:
the tokens up to this one stay, and those behind it become those of the other text. -/
theorem behind (h : Scans s (us ++ u :: vs)) :
    ∃ before r, s = before ++ r ∧ u.onward = u.lexeme ++ r ∧ Scans r vs ∧
      ∀ r' vs', Stops r r' → Scans r' vs' →
        ∃ us', Scans (before ++ r') (us' ++ vs') ∧ List.Forall₂ Alike (us ++ [u]) us' := by
  generalize hts : us ++ u :: vs = ts at h
  induction h generalizing us with
  | nil => simp at hts
  | @cons gap lexeme r c k ts hgap hc hread hothers ih =>
    cases us with
    | nil =>
      obtain ⟨rfl, rfl⟩ := List.cons.inj hts
      refine ⟨gap ++ c :: lexeme, r, by simp, rfl, hothers, fun r' vs' hr hr' => ?_⟩
      refine ⟨[⟨k, c :: lexeme, c :: (lexeme ++ r')⟩], ?_, .cons ⟨rfl, rfl⟩ .nil⟩
      simpa using cons_of_stops hgap hc hread hr hr'
    | cons t us =>
      obtain ⟨rfl, htail⟩ := List.cons.inj hts
      obtain ⟨before, rest, rfl, hu, hrest, hother⟩ := ih htail
      refine ⟨gap ++ c :: (lexeme ++ before), rest, by simp, hu, hrest, fun r' vs' hr hr' => ?_⟩
      obtain ⟨us', hscans, halike⟩ := hother r' vs' hr hr'
      refine ⟨⟨k, c :: lexeme, c :: (lexeme ++ (before ++ r'))⟩ :: us', ?_, .cons ⟨rfl, rfl⟩ halike⟩
      simpa using cons_of_stops hgap hc hread (hr.append before) hscans

/-- Blanks behind a text make no difference. -/
theorem append_blank (h : Scans s ts) (hblanks : Text.Blank blanks) :
    ∃ ts', Scans (s ++ blanks) ts' ∧ List.Forall₂ Alike ts ts' := by
  rcases List.eq_nil_or_concat' ts with rfl | ⟨us, u, rfl⟩
  · exact ⟨[], .nil (Text.blank_append.mpr ⟨h.blank_of_nil, hblanks⟩), .nil⟩
  · obtain ⟨before, r, rfl, -, hr, hother⟩ := h.behind
    have hr' : Text.Blank (r ++ blanks) := Text.blank_append.mpr ⟨hr.blank_of_nil, hblanks⟩
    have hstops : Stops r (r ++ blanks) := by
      have hend : Stops [] (blanks ++ []) := stops_append hblanks fun _ => rfl
      simpa using hend.append r
    obtain ⟨us', hscans, halike⟩ := hother _ [] hstops (.nil hr')
    rw [List.append_nil, ← List.append_assoc] at hscans
    exact ⟨us', hscans, halike⟩

/-- **Other blanks between two tokens**: only blanks stand between them, and where there are any,
some have to stay. Without a blank, two words would become one. -/
theorem exchange (h : Scans s ts) (hplace : Between s ts before gap after) :
    Text.Blank gap ∧ ∀ gap', Text.Blank gap' → (gap' = [] → gap = []) →
      ∃ ts', Scans (before ++ (gap' ++ after)) ts' ∧ List.Forall₂ Alike ts ts' := by
  obtain ⟨htext, us, u, v, vs, rfl, hu, rfl⟩ := hplace
  obtain ⟨before', r, rfl, hu', hr, hother⟩ := h.behind
  obtain rfl : gap ++ v.onward = r := List.append_cancel_left (hu.symm.trans hu')
  obtain rfl : before' = before := List.append_cancel_right htext
  obtain ⟨gap₁, hgap, hfirst, hafter⟩ := hr.of_cons
  obtain rfl : gap = gap₁ := List.append_cancel_right hfirst
  refine ⟨hgap, fun gap' hgap' hstay => ?_⟩
  have hstops : Stops (gap ++ v.onward) (gap' ++ v.onward) :=
    stops_append hgap' fun hnil => by rw [hstay hnil, List.nil_append]
  obtain ⟨us', hscans, halike⟩ := hother _ _ hstops (hafter.blank_append hgap')
  have hrest : List.Forall₂ Alike (v :: vs) (v :: vs) := List.forall₂_same.mpr fun _ _ => .refl _
  refine ⟨us' ++ v :: vs, hscans, ?_⟩
  simpa using List.rel_append halike hrest

end Scans

/-- **Other blanks, the same tokens**, by one case for each place where blanks may be changed: in
front, behind and between two tokens. -/
theorem Respaced.scans {ts : List Token} (h : Respaced s ts s') (hs : Scans s ts) :
    ∃ ts', Scans s' ts' ∧ List.Forall₂ Alike ts ts' := by
  cases h with
  | front hblanks => exact ⟨ts, hs.blank_append hblanks, List.forall₂_same.mpr fun _ _ => .refl _⟩
  | back hblanks => exact hs.append_blank hblanks
  | between hplace hblanks =>
    obtain ⟨hgap, hother⟩ := hs.exchange hplace
    rw [Text.blank_append] at hgap
    refine hother _ (by simp [hgap, hblanks]) ?_
    simp +contextual
  | exchange hplace _ hblanks hne =>
    obtain ⟨hgap, hother⟩ := hs.exchange hplace
    rw [Text.blank_append, Text.blank_append] at hgap
    refine hother _ (by simp [hgap, hblanks]) ?_
    simp [hne]

end RecordService.Token
