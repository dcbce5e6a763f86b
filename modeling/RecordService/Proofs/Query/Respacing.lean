import RecordService.Proofs.Query.Parser
import RecordService.Proofs.Query.Spacing

/-!
# The parser and the blanks of a text

The parser decides by the kinds and the lexemes of tokens, and looks at the text around them only to
show a place of it. Two texts with alike tokens are therefore the same filter, or they have the same
fault (`RecordService.Filter.agree_ofTokens`). Together with what the scanner makes of blanks this
says that the blanks around the tokens of a filter do not matter
(`RecordService.Filter.parse_respaced`).

* `RecordService.Filter.Agree`: two outcomes that are the same but for the place that is shown.
* `RecordService.Filter.Parser.Follows`: two parsers that do the same with alike tokens. It is kept
  by each of the ways in which parsers are made of others.
-/

namespace RecordService

/-- Whether two failures are the same but for the place of a filter that they show. -/
inductive RequestError.SameFault : RequestError → RequestError → Prop
  | refl (e : RequestError) : SameFault e e
  | fragment (text place place' : String) :
      SameFault (.malformedFilter text place) (.malformedFilter text place')

namespace Filter

/-! ### Outcomes -/

/-- **Two outcomes agree** if both are results, which `R` relates, or both are the same failure but
for the place of the filter that is shown. -/
inductive Agree {α : Type} (R : α → α → Prop) :
    Except RequestError α → Except RequestError α → Prop
  | ok {a a' : α} (result : R a a') : Agree R (.ok a) (.ok a')
  | error {e e' : RequestError} (failure : e.SameFault e') : Agree R (.error e) (.error e')

namespace Agree

variable {α β : Type} {R : α → α → Prop} {S : β → β → Prop} {x x' : Except RequestError α}

/-- Faults of one kind agree, wherever they are told. -/
theorem fault (f : FilterFault) (place place' : List Char) :
    Agree R (Filter.fault f place) (Filter.fault f place') :=
  .error (.fragment _ _ _)

/-- What is done with the results of two agreeing outcomes agrees, if it does for agreeing results.
-/
theorem bind {f f' : α → Except RequestError β} (h : Agree R x x')
    (hf : ∀ a a', x = .ok a → R a a' → Agree S (f a) (f' a')) :
    Agree S (x.bind f) (x'.bind f') := by
  cases h with
  | ok hr => exact hf _ _ rfl hr
  | error he => exact .error he

theorem map {f : α → β} (h : Agree R x x') (hf : ∀ a a', R a a' → S (f a) (f a')) :
    Agree S (x.map f) (x'.map f) := by
  cases h with
  | ok hr => exact .ok (hf _ _ hr)
  | error he => exact .error he

theorem refl (x : Except RequestError α) : Agree Eq x x := by
  cases x with
  | ok a => exact .ok rfl
  | error e => exact .error (.refl e)

end Agree

/-! ### Alike tokens -/

section Tokens

open Token (Alike)

variable {k k' : Token} {ts ts' : List Token}

/-- Alike tokens are the same literal, or none. -/
theorem literal_of_alike (p : Path) (h : Alike k k') : literal p k = literal p k' := by
  obtain ⟨kind, lexeme, onward⟩ := k
  obtain ⟨kind', lexeme', onward'⟩ := k'
  obtain ⟨rfl, rfl⟩ := h
  rfl

theorem operator?_of_alike (h : Alike k k') : operator? k = operator? k' := by
  rw [operator?, operator?, h.kind]

/-- The same filter in front of alike tokens. -/
def SameFound (r r' : Filter × List Token) : Prop := r.1 = r'.1 ∧ List.Forall₂ Alike r.2 r'.2

/-- Two parsers that do the same with alike tokens. -/
def Parser.Follows (p p' : Parser) : Prop :=
  ∀ ts ts', List.Forall₂ Alike ts ts' → Agree SameFound (p.run ts) (p'.run ts')

/-- A parser leaves less than it was given, so chains of operands come to an end. -/
theorem Parser.length_lt_of_run {p : Parser} {r : Filter × List Token} (h : p.run ts = .ok r) :
    r.2.length < ts.length := by
  obtain ⟨found, -, rfl⟩ := Outcome.map_eq_ok_iff.mp h
  exact found.property

theorem agree_comparisonWith {whole whole' : List Char} (p : Path)
    (h : List.Forall₂ Alike ts ts') :
    Agree SameFound (Subtype.val <$> comparisonWith whole p ts)
      (Subtype.val <$> comparisonWith whole' p ts') := by
  cases h with
  | nil => exact .fault _ _ _
  | @cons o o' ts ts' ho h =>
    have hop := operator?_of_alike ho
    cases hop' : operator? o' with
    | none =>
      rw [hop'] at hop
      simp only [comparisonWith, hop, hop']
      exact .fault _ _ _
    | some op =>
      rw [hop'] at hop
      cases h with
      | nil =>
        simp only [comparisonWith, hop, hop']
        exact .fault _ _ _
      | @cons l l' ts ts' hl h =>
        simp only [comparisonWith, hop, hop', literal_of_alike p hl]
        cases literal p l' with
        | error e => exact .error (.refl e)
        | ok v => exact .ok ⟨rfl, h⟩

theorem agree_closing {f : Filter} (h : List.Forall₂ Alike ts ts') :
    Agree SameFound (Subtype.val <$> closing k f ts) (Subtype.val <$> closing k' f ts') := by
  cases h with
  | nil => exact .fault _ _ _
  | @cons c c' ts ts' hc h =>
    by_cases hclosing : c.kind = .closing
    · simp only [closing, if_pos hclosing, if_pos (hc.kind ▸ hclosing)]
      exact .ok ⟨rfl, h⟩
    · simp only [closing, if_neg hclosing, if_neg (hc.kind ▸ hclosing)]
      exact .fault _ _ _

/-! ### Parsers -/

section Chains

variable {w : String} {join : Filter → Filter → Filter} {p p' : Parser}

/-- **A chain goes on alike**, by induction on the number of tokens: an operand leaves fewer, and
alike tokens in both cases. -/
theorem agree_runChain (hp : p.Follows p') (left : Filter) (h : List.Forall₂ Alike ts ts') :
    Agree SameFound (runChain w join p left ts) (runChain w join p' left ts') := by
  induction hlen : ts.length using Nat.strongRecOn generalizing left ts ts' with
  | ind len ih =>
    cases h with
    | nil =>
      rw [runChain_of_not_startsWith (not_startsWith_nil w),
        runChain_of_not_startsWith (not_startsWith_nil w)]
      exact .ok ⟨rfl, .nil⟩
    | @cons k k' ts ts' hk h =>
      by_cases hw : k.kind = .word w
      · rw [runChain_cons hw, runChain_cons (hk.kind ▸ hw)]
        refine (hp ts ts' h).bind fun r r' hrun hr => ?_
        have hlt := Parser.length_lt_of_run hrun
        rw [hr.1]
        exact ih _ (by rw [← hlen, List.length_cons]; omega) _ hr.2 rfl
      · have hstart : ∀ {l : Token} {ls}, l.kind ≠ .word w → ¬StartsWith w (l :: ls) := by
          rintro l ls hl ⟨_, ⟨⟩, hw⟩
          exact hl hw
        rw [runChain_of_not_startsWith (hstart hw),
          runChain_of_not_startsWith (hstart (hk.kind ▸ hw))]
        exact .ok ⟨rfl, .cons hk h⟩

theorem Parser.Follows.chainOf (hp : p.Follows p') :
    Parser.Follows (chainOf w join p) (chainOf w join p') := by
  intro ts ts' h
  rw [run_chainOf, run_chainOf]
  refine (hp ts ts' h).bind fun r r' _ hr => ?_
  rw [hr.1]
  exact agree_runChain hp _ hr.2

theorem Parser.Follows.disjunction (hp : p.Follows p') :
    Parser.Follows (disjunction p) (disjunction p') :=
  hp.chainOf.chainOf

end Chains

section Operands

variable {t : RecordType} {whole whole' : List Char} {inner inner' : Option Parser}

/-- **An operand is read alike** if its parts inside a parenthesis or behind a negation are. The
cases are those of its first token, which has the same kind in both lists. -/
theorem follows_operandWith (h : Option.Rel Parser.Follows inner inner') :
    Parser.Follows (operandWith t whole inner) (operandWith t whole' inner') := by
  intro ts ts' hts
  cases hts with
  | nil => exact .fault _ _ _
  | @cons k k' ts ts' hk hts =>
    by_cases hnot : k.kind = .word "not"
    · rw [run_operandWith_not hnot, run_operandWith_not (hk.kind ▸ hnot)]
      cases h with
      | none => exact .fault _ _ _
      | some hp => exact (hp ts ts' hts).map fun r r' hr => ⟨congrArg Filter.not hr.1, hr.2⟩
    by_cases hopening : k.kind = .opening
    · rw [run_operandWith_opening hopening, run_operandWith_opening (hk.kind ▸ hopening)]
      cases h with
      | none => exact .fault _ _ _
      | some hp =>
        refine (hp.disjunction ts ts' hts).bind fun r r' _ hr => ?_
        rw [hr.1]
        exact agree_closing hr.2
    by_cases hword : ∃ s, k.kind = .word s ∧ s ∉ reserved
    · obtain ⟨s, hkind, hs⟩ := hword
      rw [run_operandWith_word hkind hs, run_operandWith_word (hk.kind ▸ hkind) hs]
      exact (Agree.refl _).bind fun path path' _ hpath => hpath ▸ agree_comparisonWith path hts
    · have hreserved : ∀ s, k.kind = .word s → s ∈ reserved := fun s hs =>
        by_contra fun hn => hword ⟨s, hs, hn⟩
      rw [run_operandWith_of_no_operand hnot hopening hreserved,
        run_operandWith_of_no_operand (hk.kind ▸ hnot) (hk.kind ▸ hopening) (hk.kind ▸ hreserved)]
      exact .fault _ _ _

/-- Operands are read alike, by induction on the levels that are left. -/
theorem follows_operand (t : RecordType) (whole whole' : List Char) (levels : Nat) :
    Parser.Follows (operand t whole levels) (operand t whole' levels) := by
  induction levels with
  | zero => exact follows_operandWith .none
  | succ levels ih => exact follows_operandWith (.some ih)

/-- **Alike tokens form the same filter**, or they have the same fault. The whole text, which a
fault may tell, need not be the same. -/
theorem agree_ofTokens (h : List.Forall₂ Alike ts ts') :
    Agree Eq (ofTokens t whole ts) (ofTokens t whole' ts') := by
  rw [ofTokens_eq, ofTokens_eq]
  refine ((follows_operand t whole whole' maxNesting).disjunction ts ts' h).bind fun r r' _ hr => ?_
  obtain ⟨f, rest⟩ := r
  obtain ⟨f', rest'⟩ := r'
  obtain ⟨rfl, hrest⟩ : f = f' ∧ List.Forall₂ Alike rest rest' := hr
  cases hrest with
  | nil => exact .ok rfl
  | cons hk _ =>
    dsimp only
    rw [hk.kind]
    exact .fault _ _ _

end Operands

end Tokens

/-! ### Texts -/

section Texts

variable {t : RecordType} {text text' : String} {ts : List Token}

/-- A blank text is no filter, and no fault either. -/
theorem parse_of_blank (h : Text.Blank text.toList) : parse t (some text) = .ok none := by
  simp [parse, Text.trimBlank_eq_nil_iff.mpr h]

/-- **The blanks around the tokens of a filter do not matter**: a text with others is the same
filter, or has the same fault at a place of its own, and no filter stays no filter. -/
theorem parse_respaced (hs : Token.scan text.toList = .ok ts)
    (h : Token.Respaced text.toList ts text'.toList) :
    Agree Eq (parse t (some text)) (parse t (some text')) ∧
      (Text.Blank text.toList → parse t (some text') = .ok none) := by
  have hscans := Token.scan_eq_ok_iff.mp hs
  obtain ⟨ts', hscans', halike⟩ := h.scans hscans
  cases halike with
  | nil =>
    have hblank : parse t (some text') = .ok none := parse_of_blank hscans'.blank_of_nil
    refine ⟨?_, fun _ => hblank⟩
    rw [parse_of_blank hscans.blank_of_nil, hblank]
    exact .ok rfl
  | @cons k k' ts ts' hk halike =>
    have hs' := Token.scan_eq_ok_iff.mpr hscans'
    constructor
    · rw [parse_of_scan hs (List.cons_ne_nil _ _), parse_of_scan hs' (List.cons_ne_nil _ _)]
      exact (agree_ofTokens (.cons hk halike)).map fun f f' hf => congrArg some hf
    · intro hblank
      -- a text of blanks has no tokens
      rw [scan_of_trimBlank_eq_nil (Text.trimBlank_eq_nil_iff.mpr hblank)] at hs
      exact absurd hs (by simp)

/-- A blank where there was none. -/
theorem parse_respaced_not : ∃ ts, Token.scan "not(Age eq 3)".toList = .ok ts ∧
    Token.Respaced "not(Age eq 3)".toList ts "not\t(Age eq 3)".toList ∧
    Agree Eq (parse people (some "not(Age eq 3)")) (parse people (some "not\t(Age eq 3)")) := by
  have hs : Token.scan "not(Age eq 3)".toList = .ok
      [⟨.word "not", "not".toList, "not(Age eq 3)".toList⟩,
        ⟨.opening, "(".toList, "(Age eq 3)".toList⟩,
        ⟨.word "Age", "Age".toList, "Age eq 3)".toList⟩,
        ⟨.word "eq", "eq".toList, "eq 3)".toList⟩,
        ⟨.number "3", "3".toList, "3)".toList⟩,
        ⟨.closing, ")".toList, ")".toList⟩] := by decide +kernel
  suffices h : Token.Respaced "not(Age eq 3)".toList _ "not\t(Age eq 3)".toList from
    ⟨_, hs, h, (parse_respaced hs h).1⟩
  exact @Token.Respaced.between _ _ "not".toList [] [] "(Age eq 3)".toList "\t".toList
    ⟨by decide, [], _, _, _, rfl, rfl, rfl⟩ (by decide)

end Texts

end Filter

end RecordService
