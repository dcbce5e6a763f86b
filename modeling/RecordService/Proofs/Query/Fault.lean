import RecordService.Proofs.Lists
import RecordService.Proofs.Query.Position
import RecordService.Proofs.Query.Respacing
import RecordService.Proofs.Query.Typing

/-!
# What a failure of the parser shows

The parser leaves the end of the tokens that it is given, and where it fails, it shows something of
them: a token, what stands from a token on, or the whole text. It refuses a word that is no property,
and a literal of the comparison that it stands in (`RecordService.Filter.Shows`). Since all that is
shown is cut out of the text, a failure points into the text
(`RecordService.Filter.errors_point_into`).

* `RecordService.Filter.Shows`: the failures that tokens give rise to.
* `RecordService.Filter.Parser.Minds`: parsers that fail with nothing else. It is kept by each of the
  ways in which parsers are made of others.
* `RecordService.Filter.PointsInto`: the failures that point into a text.
-/

namespace RecordService

/-- Whether a token is a literal, whatever it is compared with. -/
def TokenKind.IsLiteral : TokenKind → Prop
  | .quoted _ | .number _ => True
  | .word s => s = "true" ∨ s = "false"
  | _ => False

namespace Filter

/-! ### Failures -/

/-- **The failures that tokens give rise to**: a fault at one of them, from one of them on or of the
whole text, a word that is no property, and a literal that its comparison cannot be made with. -/
inductive Shows (t : RecordType) (whole : List Char) (ts : List Token) : RequestError → Prop
  | whole (f : FilterFault) :
      Shows t whole ts (.malformedFilter f.message (String.ofList (Text.trimBlank whole)))
  | lexeme {k : Token} (f : FilterFault) (mem : k ∈ ts) :
      Shows t whole ts (.malformedFilter f.message (String.ofList k.lexeme))
  | onward {k : Token} (f : FilterFault) (mem : k ∈ ts) :
      Shows t whole ts (.malformedFilter f.message (String.ofList k.onward))
  | word {k : Token} {s : String} (mem : k ∈ ts) (kind : k.kind = .word s)
      (unknown : ∀ path, Path.resolve t s ≠ .ok path) : Shows t whole ts (.unresolvable t.name s)
  | literal {n o l : Token} {path : Path} {op : Comparison} (place : [n, o, l] <:+: ts)
      (name : n.kind = .word path.name) (property : Path.resolve t path.name = .ok path)
      (operator : o.kind = .word op.keyword) (literal : l.kind.IsLiteral)
      (mismatch : ∀ v, ¬Writes path l.kind v) :
      Shows t whole ts (.typeMismatch path.name path.kind (String.ofList l.lexeme))

/-- What the end of a list of tokens gives rise to, the list does. So a fault that is found further
on is one of the whole text. -/
theorem Shows.mono {t : RecordType} {whole : List Char} {ts us : List Token} {e : RequestError}
    (hs : us <:+ ts) (h : Shows t whole us e) : Shows t whole ts e := by
  cases h with
  | whole f => exact .whole f
  | lexeme f mem => exact .lexeme f (hs.subset mem)
  | onward f mem => exact .onward f (hs.subset mem)
  | word mem kind unknown => exact .word (hs.subset mem) kind unknown
  | literal place name property operator literal mismatch =>
    exact .literal (place.trans hs.isInfix) name property operator literal mismatch

/-- An outcome that shows something of the tokens `ts`, or leaves an end of them. -/
inductive Within (t : RecordType) (whole : List Char) (ts : List Token) :
    Except RequestError (Filter × List Token) → Prop
  | ok {f : Filter} {rest : List Token} (suffix : rest <:+ ts) : Within t whole ts (.ok (f, rest))
  | error {e : RequestError} (shows : Shows t whole ts e) : Within t whole ts (.error e)

/-- A parser that shows nothing but its tokens and leaves an end of them. -/
def Parser.Minds (t : RecordType) (whole : List Char) (p : Parser) : Prop :=
  ∀ ts, Within t whole ts (p.run ts)

section

variable {t : RecordType} {whole : List Char} {ts us : List Token}
  {x : Except RequestError (Filter × List Token)}

namespace Within

theorem mono (hs : us <:+ ts) (h : Within t whole us x) : Within t whole ts x := by
  cases h with
  | ok suffix => exact .ok (suffix.trans hs)
  | error shows => exact .error (shows.mono hs)

/-- What follows a part shows nothing else if the part does not, and what it does with the tokens
that are left does not. -/
theorem bind {g : Filter × List Token → Except RequestError (Filter × List Token)}
    (h : Within t whole ts x)
    (hg : ∀ f rest, x = .ok (f, rest) → rest <:+ ts → Within t whole ts (g (f, rest))) :
    Within t whole ts (x.bind g) := by
  cases h with
  | ok suffix => exact hg _ _ rfl suffix
  | error shows => exact .error shows

theorem map {g : Filter → Filter} (h : Within t whole ts x) :
    Within t whole ts (x.map fun r => (g r.1, r.2)) := by
  cases h with
  | ok suffix => exact .ok suffix
  | error shows => exact .error shows

end Within

/-! ### Comparisons -/

/-- What is no literal is shown as it is, and a literal of another kind with its property. -/
theorem literal_eq_error {p : Path} {k : Token} {e : RequestError} (h : literal p k = .error e) :
    e = .malformedFilter FilterFault.expectedLiteral.message (String.ofList k.lexeme) ∨
      k.kind.IsLiteral ∧ (∀ v, ¬Writes p k.kind v) ∧
        e = .typeMismatch p.name p.kind (String.ofList k.lexeme) := by
  have hwrites : ∀ v, ¬Writes p k.kind v := fun v hv => by
    rw [literal_eq_ok_iff.mpr hv] at h
    exact absurd h (by simp)
  unfold literal at h
  split at h
  case h_5 => exact .inl (Except.error.inj h).symm
  -- a literal of any kind is refused in the same way
  all_goals
    rename_i hk
    refine .inr ⟨by simp [hk, TokenKind.IsLiteral], hwrites, ?_⟩
    dsimp only at h
    repeat' split at h
    all_goals cases h
    all_goals rfl

/-- Behind the name of a property, a fault shows a token or the literal with this property. -/
theorem within_comparisonWith {n : Token} {path : Path} (name : n.kind = .word path.name)
    (property : Path.resolve t path.name = .ok path) :
    Within t whole (n :: ts) (Subtype.val <$> comparisonWith whole path ts) := by
  cases ts with
  | nil => exact .error (.whole _)
  | cons o us =>
    cases ho : operator? o with
    | none =>
      simp only [comparisonWith, ho]
      exact .error (.lexeme _ (by simp))
    | some op =>
      cases us with
      | nil =>
        simp only [comparisonWith, ho]
        exact .error (.whole _)
      | cons l vs =>
        have hsuffix : vs <:+ n :: o :: l :: vs := List.suffix_append [n, o, l] vs
        simp only [comparisonWith, ho]
        cases hl : literal path l with
        | ok v => exact .ok hsuffix
        | error e =>
          refine .error ?_
          rcases literal_eq_error hl with rfl | ⟨hliteral, hwrites, rfl⟩
          · exact .lexeme _ (by simp)
          · exact .literal ⟨[], vs, rfl⟩ name property (operator?_eq_some_iff.mp ho) hliteral hwrites

theorem within_closing {k : Token} {f : Filter} (hk : k ∈ ts) (hs : us <:+ ts) :
    Within t whole ts (Subtype.val <$> closing k f us) := by
  cases us with
  | nil => exact .error (.onward _ hk)
  | cons c us =>
    by_cases hc : c.kind = .closing
    · simp only [closing, if_pos hc]
      exact .ok ((List.suffix_cons c us).trans hs)
    · simp only [closing, if_neg hc]
      exact .error (.lexeme _ (hs.subset (by simp)))

/-! ### Parsers -/

section Chains

variable {w : String} {join : Filter → Filter → Filter} {p : Parser}

/-- **A chain shows nothing else**, by induction on the number of tokens: an operand leaves fewer. -/
theorem within_runChain (hp : p.Minds t whole) (left : Filter) (ts : List Token) :
    Within t whole ts (runChain w join p left ts) := by
  induction hlen : ts.length using Nat.strongRecOn generalizing left ts with
  | ind len ih =>
    by_cases hw : StartsWith w ts
    · obtain ⟨k, hk, hkind⟩ := hw
      obtain ⟨us, rfl⟩ : ∃ us, ts = k :: us := List.head?_eq_some_iff.mp hk
      rw [runChain_cons hkind]
      refine ((hp us).bind fun right rest hrun hrest => ?_).mono (List.suffix_cons k us)
      have hlt : rest.length < us.length := Parser.length_lt_of_run hrun
      exact (ih rest.length (by rw [← hlen, List.length_cons]; omega) _ rest rfl).mono hrest
    · rw [runChain_of_not_startsWith hw]
      exact .ok List.suffix_rfl

theorem Parser.Minds.chainOf (hp : p.Minds t whole) :
    Parser.Minds t whole (chainOf w join p) := by
  intro ts
  rw [run_chainOf]
  exact (hp ts).bind fun left rest _ hrest => (within_runChain hp left rest).mono hrest

theorem Parser.Minds.disjunction (hp : p.Minds t whole) : Parser.Minds t whole (disjunction p) :=
  hp.chainOf.chainOf

end Chains

/-- **An operand shows nothing else** if its parts inside a parenthesis or behind a negation do not.
Its own faults are told at its first token. -/
theorem minds_operandWith {inner : Option Parser} (h : ∀ p ∈ inner, Parser.Minds t whole p) :
    Parser.Minds t whole (operandWith t whole inner) := by
  intro ts
  cases ts with
  | nil => exact .error (.whole _)
  | cons k us =>
    have hsuffix : us <:+ k :: us := List.suffix_cons k us
    by_cases hnot : k.kind = .word "not"
    · rw [run_operandWith_not hnot]
      cases inner with
      | none => exact .error (.onward _ List.mem_cons_self)
      | some p => exact ((h p rfl us).mono hsuffix).map
    by_cases hopening : k.kind = .opening
    · rw [run_operandWith_opening hopening]
      cases inner with
      | none => exact .error (.onward _ List.mem_cons_self)
      | some p =>
        -- a parenthesis that is not closed is shown itself
        exact ((h p rfl).disjunction us).mono hsuffix |>.bind fun f rest _ hrest =>
          within_closing List.mem_cons_self hrest
    by_cases hword : ∃ s, k.kind = .word s ∧ s ∉ reserved
    · obtain ⟨s, hkind, hs⟩ := hword
      rw [run_operandWith_word hkind hs]
      cases hpath : Path.resolve t s with
      | error e =>
        obtain rfl := Path.resolve_eq_error hpath
        refine .error (.word List.mem_cons_self hkind fun path h => ?_)
        rw [hpath] at h
        exact absurd h (by simp)
      | ok path =>
        obtain ⟨rfl, -⟩ := Path.resolve_eq_ok hpath
        exact within_comparisonWith hkind hpath
    · have hreserved : ∀ s, k.kind = .word s → s ∈ reserved := fun s hs =>
        by_contra fun hn => hword ⟨s, hs, hn⟩
      rw [run_operandWith_of_no_operand hnot hopening hreserved]
      exact .error (.lexeme _ List.mem_cons_self)

/-- Operands show nothing else, by induction on the levels that are left. -/
theorem minds_operand (t : RecordType) (whole : List Char) (levels : Nat) :
    Parser.Minds t whole (operand t whole levels) := by
  induction levels with
  | zero => exact minds_operandWith (by simp)
  | succ levels ih =>
    refine minds_operandWith fun p hp => ?_
    obtain rfl : operand t whole levels = p := by simpa using hp
    exact ih

/-- **Tokens that form no filter** give rise to the failure, be it inside of an operand or behind
the last one. -/
theorem shows_of_ofTokens {e : RequestError} (h : ofTokens t whole ts = .error e) :
    Shows t whole ts e := by
  rw [ofTokens_eq] at h
  have hwithin := (minds_operand t whole maxNesting).disjunction ts
  cases hrun : (disjunction (operand t whole maxNesting)).run ts with
  | error e' =>
    rw [hrun] at h hwithin
    obtain rfl : e' = e := Except.error.inj h
    cases hwithin with
    | error shows => exact shows
  | ok r =>
    obtain ⟨f, rest⟩ := r
    rw [hrun] at h hwithin
    cases hwithin with
    | ok suffix =>
      cases rest with
      | nil => exact absurd h (by simp [Except.bind])
      | cons k rest =>
        obtain rfl := Except.error.inj h
        exact .onward _ (suffix.subset List.mem_cons_self)

end

/-! ### Texts -/

/-- **The failures that point into a text**: a fault at a part of it, a token of it that is a word
and no property, and the literal of a comparison in it with the name and the kind of its property. -/
inductive PointsInto (t : RecordType) (raw : String) : RequestError → Prop
  | malformed {fragment : String} {start stop : Nat} (f : FilterFault)
      (part : Text.slice? raw start stop = some fragment) :
      PointsInto t raw (.malformedFilter f.message fragment)
  | unresolvable {spans : List Span} {n : Span} {s : String}
      (scanned : Span.scan raw = some (.ok spans)) (mem : n ∈ spans) (word : n.kind = .word s)
      (part : Text.slice? raw n.start n.stop = some s)
      (unknown : ∀ path, Path.resolve t s ≠ .ok path) : PointsInto t raw (.unresolvable t.name s)
  | mismatch {spans : List Span} {n o l : Span} {path : Path} {op : Comparison} {value : String}
      (scanned : Span.scan raw = some (.ok spans)) (place : [n, o, l] <:+: spans)
      (name : n.kind = .word path.name) (property : Path.resolve t path.name = .ok path)
      (operator : o.kind = .word op.keyword) (literal : l.kind.IsLiteral)
      (mismatch : ∀ v, ¬Writes path l.kind v)
      (part : Text.slice? raw l.start l.stop = some value) :
      PointsInto t raw (.typeMismatch path.name path.kind value)

/-- What tokens give rise to points into their text, since each token is marked by a span of it. -/
theorem Shows.pointsInto {t : RecordType} {raw : String} {spans : List Span} {ts : List Token}
    {e : RequestError} (hscan : Span.scan raw = some (.ok spans))
    (hmarks : List.Forall₂ (Span.Marks raw) spans ts) (h : Shows t raw.toList ts e) :
    PointsInto t raw e := by
  cases h with
  | whole f =>
    obtain ⟨start, stop, hpart⟩ := Text.exists_slice?_trim raw
    exact .malformed f hpart
  | lexeme f mem =>
    obtain ⟨span, -, hmark⟩ := Lists.exists_mem_of_forall₂ hmarks mem
    exact .malformed f hmark.lexeme
  | onward f mem =>
    obtain ⟨span, -, hmark⟩ := Lists.exists_mem_of_forall₂ hmarks mem
    exact .malformed f hmark.onward
  | word mem kind unknown =>
    obtain ⟨span, hspan, hmark⟩ := Lists.exists_mem_of_forall₂ hmarks mem
    have hpart := hmark.lexeme
    rw [hmark.text, kind, TokenKind.text, String.ofList_toList] at hpart
    exact .unresolvable hscan hspan (hmark.kind.trans kind) hpart unknown
  | literal place name property operator literal mismatch =>
    obtain ⟨ds, hds, hmarks⟩ := Lists.exists_infix_of_forall₂ hmarks place
    cases hmarks with
    | cons hn hmarks =>
    cases hmarks with
    | cons ho hmarks =>
    cases hmarks with
    | cons hl hmarks =>
    cases hmarks
    refine .mismatch hscan hds (hn.kind.trans name) property (ho.kind.trans operator) ?_ ?_ hl.lexeme
    · rw [hl.kind]
      exact literal
    · rw [hl.kind]
      exact mismatch

/-- **Failures point into the text.** A text that is read in place, by the offsets of its characters,
is read to the end, and what comes out is what the parser answers. If that is a failure, it is a fault
at a part of the text, or the text has a word for a token that is no property, which is named, or it
has a comparison whose literal does not go with its property, and then the text of this literal is
named with the property and its kind. -/
theorem errors_point_into (t : RecordType) (raw : String) :
    parseAt t raw = some (parse t (some raw)) ∧
      ∀ e, parse t (some raw) = .error e → PointsInto t raw e := by
  refine ⟨parseAt_eq t raw, fun e h => ?_⟩
  rw [parse, Option.getD_some] at h
  split at h
  · simp at h
  rcases Span.scan_eq raw with ⟨f, place, hscan, -, start, stop, hpart⟩ |
    ⟨ts, spans, hscan, hspans, hmarks⟩
  · rw [hscan] at h
    obtain rfl := Except.error.inj h
    exact .malformed f hpart
  · rw [hscan] at h
    exact Shows.pointsInto hspans hmarks (shows_of_ofTokens (Outcome.map_eq_error_iff.mp h))

/-- A literal behind characters of two bytes. -/
theorem errors_point_into_umlaut :
    let raw := "Name eq 'größer' and Age eq 'ä'"
    let e := RequestError.typeMismatch "Age" .integer "'ä'"
    parse people (some raw) = .error e ∧ parseAt people raw = some (.error e) ∧
      PointsInto people raw e ∧ Text.slice? raw 30 34 = some "'ä'" := by
  intro raw e
  have he : parse people (some raw) = .error e := by decide +kernel
  obtain ⟨hread, hpoints⟩ := errors_point_into people raw
  exact ⟨he, he ▸ hread, hpoints e he, by decide +kernel⟩

end Filter

end RecordService
