import RecordService.Proofs.Outcome
import RecordService.Proofs.Query.Grammar
import RecordService.Proofs.Text.Words

/-!
# The parser of filters follows the grammar

The parser answers with a filter for exactly the lists of tokens that the grammar derives, and with
the filter of the derivation (`RecordService.Filter.parse_eq_some_iff`).

Both directions are proved about lists of tokens with something behind them. What the parser
consumes is derived (`RecordService.Filter.Sound`), by induction on the levels that are left. What is
derived is consumed (`RecordService.Filter.reaches_of_derives`), by induction on the derivation, and
there the levels are a parameter: where they do not suffice, the parser stops with the fault of a
filter that is nested too deeply, and with no other.

A chain of operands is a loop for the parser and grows at its left end in the grammar. The two meet
in `RecordService.Filter.runChain`: after the tokens of a chain, the parser is where it would be if it
were to continue the chain from the filter of these tokens.
-/

namespace RecordService.Filter

/-! ### Comparisons -/

/-- A literal is read exactly if its token is one that writes a value for the property. The kind of
the property decides which tokens these are, so the same token may be read for one property and
refused for another. -/
theorem literal_eq_ok_iff {p : Path} {k : Token} {v : Value} :
    literal p k = .ok v ↔ Writes p k.kind v := by
  obtain ⟨kind, lexeme, onward⟩ := k
  constructor
  · intro h
    unfold literal at h
    split at h
    · rename_i hk
      rw [hk]
      split at h
      · rename_i hkind
        dsimp only at h
        split at h
        · rename_i hv
          cases h
          exact .quoted hkind hv
        · simp at h
      · simp at h
    · rename_i hk
      rw [hk]
      split at h
      · rename_i hkind
        dsimp only at h
        split at h
        · rename_i hv
          cases h
          exact .number hkind hv
        · simp at h
      · simp at h
    · rename_i hk
      rw [hk]
      split at h
      · rename_i hkind
        cases h
        exact .true hkind
      · simp at h
    · rename_i hk
      rw [hk]
      split at h
      · rename_i hkind
        cases h
        exact .false hkind
      · simp at h
    · simp [fault] at h
  · intro h
    cases h with
    | quoted hkind hv => simp [literal, hkind, hv]
    | number hkind hv => simp [literal, hkind, hv]
    | true hkind => simp [literal, hkind]
    | false hkind => simp [literal, hkind]

/-- Keywords name the comparisons one to one. -/
theorem ofKeyword?_eq_some_iff {s : String} {c : Comparison} :
    Comparison.ofKeyword? s = some c ↔ s = c.keyword := by
  constructor
  · intro h
    have hs : (c.keyword == s) = true :=
      List.find?_some (p := fun x : Comparison => x.keyword == s) h
    exact (eq_of_beq hs).symm
  · rintro rfl
    exact Comparison.ofKeyword?_keyword c

theorem operator?_eq_some_iff {k : Token} {op : Comparison} :
    operator? k = some op ↔ k.kind = .word op.keyword := by
  unfold operator?
  split
  · rename_i s hk
    rw [ofKeyword?_eq_some_iff, hk, TokenKind.word.injEq]
  · rename_i hk
    simpa using hk op.keyword

/-- The operator and the literal behind a property are two tokens, and what is left is passed on. -/
theorem comparisonWith_eq_ok_iff {whole : List Char} {p : Path} {ts rest : List Token} {f : Filter} :
    Subtype.val <$> comparisonWith whole p ts = .ok (f, rest) ↔
      ∃ o l op v, ts = o :: l :: rest ∧ o.kind = .word (Comparison.keyword op) ∧
        Writes p l.kind v ∧ f = .comparison p op v := by
  constructor
  · intro h
    obtain ⟨⟨⟨g, us⟩, hlt⟩, h, ⟨⟩⟩ := Outcome.map_eq_ok_iff.mp h
    rcases ts with _ | ⟨o, ts⟩
    · simp [comparisonWith, fault] at h
    · cases ho : operator? o with
      | none => simp [comparisonWith, ho, fault] at h
      | some op =>
        rcases ts with _ | ⟨l, ts⟩
        · simp [comparisonWith, ho, fault] at h
        · simp only [comparisonWith, ho] at h
          obtain ⟨v, hl, hcomp⟩ := Outcome.bind_eq_ok_iff.mp h
          obtain ⟨rfl, rfl⟩ := Prod.mk.inj (Subtype.mk.inj (Except.ok.inj hcomp))
          exact ⟨o, l, op, v, rfl, operator?_eq_some_iff.mp ho, literal_eq_ok_iff.mp hl, rfl⟩
  · rintro ⟨o, l, op, v, rfl, ho, hl, rfl⟩
    simp only [comparisonWith, operator?_eq_some_iff.mpr ho, literal_eq_ok_iff.mpr hl, bind,
      Except.bind, Functor.map, Except.map]

/-! ### Running a parser -/

/-- What a parser finds, without the bound on the length of the rest. -/
def Parser.run (p : Parser) (ts : List Token) : Except RequestError (Filter × List Token) :=
  Subtype.val <$> p ts

/-- What a parser finds that continues a chain after the filter `left`. -/
def runChain (w : String) (join : Filter → Filter → Filter) (operand : Parser) (left : Filter)
    (ts : List Token) : Except RequestError (Filter × List Token) :=
  Subtype.val <$> chain w join operand left ts

/-- Whether a list of tokens begins with the word `w`. -/
def StartsWith (w : String) (ts : List Token) : Prop := ∃ k, ts.head? = some k ∧ k.kind = .word w

theorem not_startsWith_nil (w : String) : ¬StartsWith w [] := by
  rintro ⟨k, hk, -⟩
  exact absurd hk (by simp)

section Chains

variable {w : String} {join : Filter → Filter → Filter} {operand : Parser} {left : Filter}

/-- A chain ends where its word does not follow. What is there is not a fault of the chain: it is
left to whoever asked for it. -/
theorem runChain_of_not_startsWith {ts : List Token} (h : ¬StartsWith w ts) :
    runChain w join operand left ts = .ok (left, ts) := by
  cases ts with
  | nil =>
    rw [runChain, chain]
    rfl
  | cons k ts =>
    have hk : ¬isWord w k = true := fun hk => h ⟨k, rfl, eq_of_beq hk⟩
    rw [runChain, chain, if_neg hk]
    rfl

/-- Where its word follows, a chain goes on with another operand. Chains associate to the left, so
what was read so far becomes the left part. -/
theorem runChain_cons {k : Token} {ts : List Token} (h : k.kind = .word w) :
    runChain w join operand left (k :: ts) =
      (operand.run ts).bind fun r => runChain w join operand (join left r.1) r.2 := by
  have hk : isWord w k = true := by simp [isWord, h]
  rw [runChain, chain, if_pos hk, Parser.run]
  cases operand ts with
  | error e => rfl
  | ok r =>
    obtain ⟨⟨right, rest⟩, hr⟩ := r
    simp only [bind, Except.bind, Functor.map, Except.map, runChain]
    cases chain w join operand (join left right) rest with
    | error e => rfl
    | ok p => rfl

theorem run_chainOf (ts : List Token) :
    (chainOf w join operand).run ts =
      (operand.run ts).bind fun r => runChain w join operand r.1 r.2 := by
  rw [Parser.run, chainOf, Parser.run]
  cases operand ts with
  | error e => rfl
  | ok r =>
    obtain ⟨⟨left, rest⟩, hr⟩ := r
    simp only [bind, Except.bind, Functor.map, Except.map, runChain]
    cases chain w join operand left rest with
    | error e => rfl
    | ok p => rfl

end Chains

section Operands

variable {t : RecordType} {whole : List Char} {inner : Option Parser} {k : Token} {ts : List Token}

theorem run_operandWith_not (h : k.kind = .word "not") :
    (operandWith t whole inner).run (k :: ts) =
      match inner with
      | none => fault .nestedTooDeeply k.onward
      | some p => (p.run ts).map fun r => (.not r.1, r.2) := by
  have hk : isWord "not" k = true := by simp [isWord, h]
  cases inner with
  | none =>
    simp only [Parser.run, operandWith, if_pos hk]
    rfl
  | some p =>
    simp only [Parser.run, operandWith, if_pos hk]
    cases p ts with
    | error e => rfl
    | ok r => rfl

theorem run_operandWith_opening (h : k.kind = .opening) :
    (operandWith t whole inner).run (k :: ts) =
      match inner with
      | none => fault .nestedTooDeeply k.onward
      | some p => ((disjunction p).run ts).bind fun r => Subtype.val <$> closing k r.1 r.2 := by
  have hk : ¬isWord "not" k = true := by simp [isWord, h]
  obtain ⟨kind, lexeme, onward⟩ := k
  cases h
  cases inner with
  | none =>
    simp only [Parser.run, operandWith, if_neg hk]
    rfl
  | some p =>
    simp only [Parser.run, operandWith, if_neg hk]
    cases disjunction p ts with
    | error e => rfl
    | ok r =>
      obtain ⟨⟨f, rest⟩, hr⟩ := r
      simp only [bind, Except.bind, Functor.map, Except.map]
      cases closing _ f rest with
      | error e => rfl
      | ok p => rfl

theorem run_operandWith_word {s : String} (h : k.kind = .word s) (hs : s ∉ reserved) :
    (operandWith t whole inner).run (k :: ts) =
      (Path.resolve t s).bind fun path => Subtype.val <$> comparisonWith whole path ts := by
  simp only [reserved, List.mem_cons, List.not_mem_nil, or_false, not_or] at hs
  have hk : ¬isWord "not" k = true := by simp [isWord, h, hs.2.2]
  have hr : ¬isReserved s = true := by simp [isReserved, hs.1, hs.2.1, hs.2.2]
  obtain ⟨kind, lexeme, onward⟩ := k
  cases h
  simp only [Parser.run, operandWith, if_neg hk, if_neg hr]
  cases Path.resolve t s with
  | error e => rfl
  | ok path =>
    simp only [bind, Except.bind, Functor.map, Except.map]
    cases comparisonWith whole path ts with
    | error e => rfl
    | ok p => rfl

/-- What is neither a negation nor a parenthesis nor a property is no operand. The fault is told at
the token that is there. -/
theorem run_operandWith_of_no_operand (hnot : k.kind ≠ .word "not") (hopening : k.kind ≠ .opening)
    (hword : ∀ s, k.kind = .word s → s ∈ reserved) :
    (operandWith t whole inner).run (k :: ts) = fault .expectedProperty k.lexeme := by
  have hk : ¬isWord "not" k = true := fun hk => hnot (eq_of_beq hk)
  cases hkind : k.kind with
  | opening => exact absurd hkind hopening
  | word s =>
    have hs := hword s hkind
    have hr : isReserved s = true := by
      simp only [reserved, List.mem_cons, List.not_mem_nil, or_false] at hs
      simpa [isReserved, or_assoc] using hs
    simp [Parser.run, operandWith, hk, hkind, hr, fault, Functor.map, Except.map]
  | _ => simp [Parser.run, operandWith, hk, hkind, fault, Functor.map, Except.map]

theorem closing_eq_ok_iff {f g : Filter} {rest : List Token} :
    Subtype.val <$> closing k f ts = .ok (g, rest) ↔
      g = f ∧ ∃ c, ts = c :: rest ∧ c.kind = .closing := by
  cases ts with
  | nil => simp [closing, fault, Functor.map, Except.map]
  | cons c ts =>
    by_cases hc : c.kind = .closing
    · simp only [closing, if_pos hc, Functor.map, Except.map, Except.ok.injEq, Prod.mk.injEq,
        List.cons.injEq]
      constructor
      · rintro ⟨rfl, rfl⟩
        exact ⟨rfl, c, ⟨rfl, rfl⟩, hc⟩
      · rintro ⟨rfl, c', ⟨-, rfl⟩, -⟩
        exact ⟨rfl, rfl⟩
    · simp only [closing, if_neg hc, fault, Functor.map, Except.map, reduceCtorEq, List.cons.injEq,
        false_iff]
      rintro ⟨-, c', ⟨rfl, -⟩, hc'⟩
      exact hc hc'

/-- **What an operand is**: a negation or a disjunction in parentheses, for which a level has to be
left, or a comparison. -/
theorem run_operandWith_eq_ok {f : Filter} {rest : List Token}
    (h : (operandWith t whole inner).run ts = .ok (f, rest)) :
    (∃ p k us g, inner = some p ∧ ts = k :: us ∧ Token.kind k = .word "not" ∧
        p.run us = .ok (g, rest) ∧ f = .not g) ∨
      (∃ p k c us, inner = some p ∧ ts = k :: us ∧ Token.kind k = .opening ∧
        (disjunction p).run us = .ok (f, c :: rest) ∧ c.kind = .closing) ∨
      ∃ k s path us, ts = k :: us ∧ Token.kind k = .word s ∧ s ∉ reserved ∧
        Path.resolve t s = .ok path ∧
        Subtype.val <$> comparisonWith whole path us = .ok (f, rest) := by
  cases ts with
  | nil => simp [Parser.run, operandWith, fault, Functor.map, Except.map] at h
  | cons k us =>
    by_cases hnot : k.kind = .word "not"
    · rw [run_operandWith_not hnot] at h
      cases inner with
      | none => simp [fault] at h
      | some p =>
        obtain ⟨r, hp, hr⟩ := Outcome.map_eq_ok_iff.mp h
        obtain ⟨rfl, rfl⟩ := Prod.mk.inj hr
        exact .inl ⟨p, k, us, r.1, rfl, rfl, hnot, hp, rfl⟩
    · cases hk : k.kind with
      | opening =>
        rw [run_operandWith_opening hk] at h
        cases inner with
        | none => simp [fault] at h
        | some p =>
          obtain ⟨⟨g, vs⟩, hp, h⟩ := Outcome.bind_eq_ok_iff.mp h
          obtain ⟨rfl, c, rfl, hc⟩ := closing_eq_ok_iff.mp h
          exact .inr (.inl ⟨p, k, c, us, rfl, rfl, hk, hp, hc⟩)
      | word s =>
        by_cases hs : s ∈ reserved
        · rw [run_operandWith_of_no_operand hnot (by simp [hk]) (by simpa [hk] using hs)] at h
          simp [fault] at h
        · rw [run_operandWith_word hk hs] at h
          obtain ⟨path, hp, h⟩ := Outcome.bind_eq_ok_iff.mp h
          exact .inr (.inr ⟨k, s, path, us, rfl, hk, hs, hp, h⟩)
      | _ =>
        rw [run_operandWith_of_no_operand hnot (by simp [hk]) (by simp [hk])] at h
        simp [fault] at h

end Operands

/-- The parser for a level of the grammar. -/
def Level.parser (t : RecordType) (whole : List Char) (levels : Nat) : Level → Parser
  | .operand => Filter.operand t whole levels
  | .conjunction => Filter.conjunction (Filter.operand t whole levels)
  | .disjunction => Filter.disjunction (Filter.operand t whole levels)

/-! ### What is consumed is derived -/

/-- **Soundness** of a parser for a level of the grammar: it consumes a derived list of tokens, whose
nesting is at most the given number of levels. -/
def Sound (t : RecordType) (L : Level) (levels : Nat) (p : Parser) : Prop :=
  ∀ ts f rest, p.run ts = .ok (f, rest) →
    ∃ used n, ts = used ++ rest ∧ n ≤ levels ∧ Derives t L (used.map Token.kind) f n

section Soundness

variable {t : RecordType} {whole : List Char} {levels : Nat} {p : Parser}

/-- A chain that is continued extends the derivation of its part so far. The induction is on the
tokens that are left, and the derivation of the left part is carried along. -/
theorem exists_derives_of_runChain {w : String} {join : Filter → Filter → Filter} {Lo Li : Level}
    (step : ∀ ks ls f g n m, Derives t Lo ks f n → Derives t Li ls g m →
      Derives t Lo (ks ++ .word w :: ls) (join f g) (max n m))
    (hp : Sound t Li levels p) (ts : List Token) :
    ∀ (before : List Token) (left f : Filter) (rest : List Token) (n : Nat), n ≤ levels →
      Derives t Lo (before.map Token.kind) left n → runChain w join p left ts = .ok (f, rest) →
      ∃ used m, ts = used ++ rest ∧ m ≤ levels ∧
        Derives t Lo ((before ++ used).map Token.kind) f m := by
  -- the rest of an operand is shorter, but not the tail of the list
  induction hlen : ts.length using Nat.strongRecOn generalizing ts with
  | ind len ih =>
    intro before left f rest n hn hleft h
    by_cases hw : StartsWith w ts
    · obtain ⟨k, hk, hkind⟩ := hw
      obtain ⟨us, rfl⟩ : ∃ us, ts = k :: us := by
        cases ts with
        | nil => simp at hk
        | cons a us => exact ⟨us, by simpa using hk⟩
      rw [runChain_cons hkind] at h
      obtain ⟨⟨right, vs⟩, hr, hchain⟩ := Outcome.bind_eq_ok_iff.mp h
      obtain ⟨used, m, rfl, hm, hright⟩ := hp us right vs hr
      have hjoin := step _ _ _ _ _ _ hleft hright
      have hshorter : vs.length < len := by
        simp only [← hlen, List.length_cons, List.length_append]
        omega
      obtain ⟨used', m', rfl, hm', hf⟩ := ih vs.length hshorter vs rfl
        (before ++ k :: used) (join left right) f rest (max n m) (by omega)
        (by simpa [hkind] using hjoin) hchain
      exact ⟨k :: used ++ used', m', by simp, hm', by simpa using hf⟩
    · rw [runChain_of_not_startsWith hw] at h
      obtain ⟨rfl, rfl⟩ : left = f ∧ ts = rest := by simpa using h
      exact ⟨[], n, rfl, hn, by simpa using hleft⟩

theorem sound_chainOf {w : String} {join : Filter → Filter → Filter} {Lo Li : Level}
    (only : ∀ ks f n, Derives t Li ks f n → Derives t Lo ks f n)
    (step : ∀ ks ls f g n m, Derives t Lo ks f n → Derives t Li ls g m →
      Derives t Lo (ks ++ .word w :: ls) (join f g) (max n m))
    (hp : Sound t Li levels p) : Sound t Lo levels (chainOf w join p) := by
  intro ts f rest h
  rw [run_chainOf] at h
  obtain ⟨⟨left, us⟩, hr, hchain⟩ := Outcome.bind_eq_ok_iff.mp h
  obtain ⟨used, n, rfl, hn, hleft⟩ := hp ts left us hr
  obtain ⟨used', m, rfl, hm, hf⟩ :=
    exists_derives_of_runChain step hp us used left f rest n hn (only _ _ _ hleft) hchain
  exact ⟨used ++ used', m, by simp, hm, hf⟩

theorem Sound.conjunction (hp : Sound t .operand levels p) :
    Sound t .conjunction levels (conjunction p) :=
  sound_chainOf (fun _ _ _ h => .operand h) (fun _ _ _ _ _ _ h h' => .and h h') hp

theorem Sound.disjunction (hp : Sound t .operand levels p) :
    Sound t .disjunction levels (disjunction p) :=
  sound_chainOf (fun _ _ _ h => .conjunction h) (fun _ _ _ _ _ _ h h' => .or h h') hp.conjunction

/-- An operand consumes what is derived if its parts do, with one level less. So soundness goes by
induction on the levels. -/
theorem sound_operandWith {inner : Option Parser}
    (h : ∀ p ∈ inner, ∃ l < levels, Sound t .operand l p) :
    Sound t .operand levels (operandWith t whole inner) := by
  intro ts f rest hrun
  rcases run_operandWith_eq_ok hrun with ⟨p, k, us, g, rfl, rfl, hk, hg, rfl⟩ |
    ⟨p, k, c, us, rfl, rfl, hk, hg, hc⟩ | ⟨k, s, path, us, rfl, hk, hs, hpath, hcomp⟩
  · obtain ⟨l, hl, hp⟩ := h p rfl
    obtain ⟨used, n, rfl, hn, hd⟩ := hp us g rest hg
    exact ⟨k :: used, n + 1, rfl, by omega, by simpa [hk] using Derives.not hd⟩
  · obtain ⟨l, hl, hp⟩ := h p rfl
    obtain ⟨used, n, rfl, hn, hd⟩ := hp.disjunction us f (c :: rest) hg
    exact ⟨k :: used ++ [c], n + 1, by simp, by omega,
      by simpa [hk, hc] using Derives.parentheses hd⟩
  · obtain ⟨o, l, op, v, rfl, ho, hl, rfl⟩ := comparisonWith_eq_ok_iff.mp hcomp
    exact ⟨[k, o, l], 0, rfl, Nat.zero_le _,
      by simpa [hk, ho] using Derives.comparison hs hpath hl⟩

theorem sound_operand (t : RecordType) (whole : List Char) (levels : Nat) :
    Sound t .operand levels (operand t whole levels) := by
  induction levels with
  | zero => exact sound_operandWith (by simp)
  | succ levels ih =>
    refine sound_operandWith fun p hp => ⟨levels, Nat.lt_succ_self _, ?_⟩
    obtain rfl : operand t whole levels = p := by simpa using hp
    exact ih

end Soundness

/-! ### What is derived is consumed -/

/-- What a parser finds behind the tokens of the filter `f` on a level: an operand is complete, and
chains may be continued. -/
def Level.resume (t : RecordType) (whole : List Char) (levels : Nat) (f : Filter)
    (rest : List Token) : Level → Except RequestError (Filter × List Token)
  | .operand => .ok (f, rest)
  | .conjunction => runChain "and" .and (Filter.operand t whole levels) f rest
  | .disjunction => runChain "or" .or (Filter.conjunction (Filter.operand t whole levels)) f rest

/-- An outcome is the expected one if `levels` suffice for the nesting `n`, and otherwise the fault
of too deep a nesting. -/
def Reaches (levels n : Nat) (outcome expected : Except RequestError (Filter × List Token)) : Prop :=
  (n ≤ levels → outcome = expected) ∧
    (levels < n → ∃ place, outcome = fault .nestedTooDeeply place)

section Completeness

variable {t : RecordType} (whole : List Char)

/-- Where the levels do not suffice, the fault is the expected one, whatever its place. -/
theorem reaches_fault {levels n : Nat} {expected : Except RequestError (Filter × List Token)}
    (h : levels < n) (place : List Char) :
    Reaches levels n (fault .nestedTooDeeply place) expected :=
  ⟨fun hn => absurd h (Nat.not_lt.mpr hn), fun _ => ⟨place, rfl⟩⟩

/-- One more level is left outside of a parenthesis or a negation, and the nesting is one more. -/
theorem Reaches.succ {levels n : Nat} {outcome expected : Except RequestError (Filter × List Token)}
    (h : Reaches levels n outcome expected) : Reaches (levels + 1) (n + 1) outcome expected :=
  ⟨fun hn => h.1 (by omega), fun hn => h.2 (by omega)⟩

/-- A fault inside passes through what is done with the filter that is expected there. -/
theorem Reaches.bind {levels n : Nat} {outcome : Except RequestError (Filter × List Token)}
    {r : Filter × List Token} (h : Reaches levels n outcome (.ok r))
    (next : Filter × List Token → Except RequestError (Filter × List Token)) :
    Reaches levels n (outcome.bind next) (next r) := by
  refine ⟨fun hn => ?_, fun hn => ?_⟩
  · rw [h.1 hn]
    rfl
  · obtain ⟨place, hplace⟩ := h.2 hn
    exact ⟨place, by rw [hplace]; rfl⟩

/-- The left part of a chain and then one more operand. The level that is needed is the greater one
of both parts, since they are not nested in each other. -/
theorem Reaches.step {levels n m : Nat} {w : String} {join : Filter → Filter → Filter} {p : Parser}
    {f g : Filter} {k : Token} {us rest : List Token}
    {outcome expected : Except RequestError (Filter × List Token)} (hk : k.kind = .word w)
    (hl : Reaches levels n outcome (runChain w join p f (k :: us)))
    (hr : Reaches levels m (p.run us) (.ok (g, rest)))
    (he : expected = runChain w join p (join f g) rest) :
    Reaches levels (max n m) outcome expected := by
  rw [runChain_cons hk] at hl
  refine ⟨fun h => ?_, fun h => ?_⟩
  · rw [hl.1 (by omega), hr.1 (by omega), he]
    rfl
  · -- the side that is met first decides where the fault is found
    by_cases hn : n ≤ levels
    · obtain ⟨place, hp⟩ := hr.2 (by omega)
      exact ⟨place, by rw [hl.1 hn, hp]; rfl⟩
    · exact hl.2 (by omega)

/-- The first operand of a chain, with what the chain makes of the rest left open. -/
theorem Reaches.first {levels n : Nat} {w : String} {join : Filter → Filter → Filter} {p : Parser}
    {f : Filter} {ts rest : List Token} (h : Reaches levels n (p.run ts) (.ok (f, rest))) :
    Reaches levels n ((chainOf w join p).run ts) (runChain w join p f rest) := by
  rw [run_chainOf]
  exact h.bind fun r => runChain w join p r.1 r.2

/-- A comparison is read whatever levels are left, since it opens none. -/
theorem reaches_comparison {s : String} {path : Path} {op : Comparison} {v : Value} {a o l : Token}
    (hs : s ∉ reserved) (hpath : Path.resolve t s = .ok path) (ha : a.kind = .word s)
    (ho : o.kind = .word op.keyword) (hl : Writes path l.kind v) (rest : List Token)
    (levels : Nat) :
    Reaches levels 0 ((Filter.operand t whole levels).run (a :: o :: l :: rest))
      (.ok (.comparison path op v, rest)) := by
  refine ⟨fun _ => ?_, fun h => absurd h (Nat.not_lt_zero _)⟩
  have hcomp : Subtype.val <$> comparisonWith whole path (o :: l :: rest) =
      .ok (.comparison path op v, rest) :=
    comparisonWith_eq_ok_iff.mpr ⟨o, l, op, v, rfl, ho, hl, rfl⟩
  cases levels with
  | zero =>
    rw [Filter.operand, run_operandWith_word ha hs, hpath]
    exact hcomp
  | succ levels =>
    rw [Filter.operand, run_operandWith_word ha hs, hpath]
    exact hcomp

/-- A negation takes a level. Without one the fault is found at the negation, otherwise the operand
behind it decides. -/
theorem reaches_not {a : Token} {us rest : List Token} {f : Filter} {n : Nat}
    (ha : a.kind = .word "not")
    (h : ∀ levels, Reaches levels n ((Filter.operand t whole levels).run us) (.ok (f, rest)))
    (levels : Nat) :
    Reaches levels (n + 1) ((Filter.operand t whole levels).run (a :: us))
      (.ok (.not f, rest)) := by
  cases levels with
  | zero =>
    rw [Filter.operand, run_operandWith_not ha]
    exact reaches_fault (Nat.succ_pos n) a.onward
  | succ levels =>
    rw [Filter.operand, run_operandWith_not ha]
    exact ((h levels).bind fun r => .ok (.not r.1, r.2)).succ

/-- A parenthesis takes a level. What is in it is a whole disjunction, in front of the parenthesis
that closes it. -/
theorem reaches_parentheses {a c : Token} {us rest : List Token} {f : Filter} {n : Nat}
    (ha : a.kind = .opening) (hc : c.kind = .closing)
    (h : ∀ levels, Reaches levels n
      ((Filter.disjunction (Filter.operand t whole levels)).run us) (.ok (f, c :: rest)))
    (levels : Nat) :
    Reaches levels (n + 1) ((Filter.operand t whole levels).run (a :: us)) (.ok (f, rest)) := by
  have hclosing : Subtype.val <$> closing a f (c :: rest) = .ok (f, rest) :=
    closing_eq_ok_iff.mpr ⟨rfl, c, rfl, hc⟩
  cases levels with
  | zero =>
    rw [Filter.operand, run_operandWith_opening ha]
    exact reaches_fault (Nat.succ_pos n) a.onward
  | succ levels =>
    rw [Filter.operand, run_operandWith_opening ha, ← hclosing]
    exact ((h levels).bind fun r => Subtype.val <$> closing a r.1 r.2).succ

/-- **Completeness**: behind the tokens of a derivation the parser resumes on the level of the
derivation, provided that no disjunction ends in front of an `and`. The induction is on the
derivation, with the tokens behind it and the levels left open, so that each part can be continued
by the next one. -/
theorem reaches_of_derives {L : Level} {ks : List TokenKind} {f : Filter} {n : Nat}
    (h : Derives t L ks f n) :
    ∀ (ts rest : List Token) (levels : Nat), ts.map Token.kind = ks →
      (L = .disjunction → ¬StartsWith "and" rest) →
      Reaches levels n ((L.parser t whole levels).run (ts ++ rest))
        (L.resume t whole levels f rest) := by
  induction h with
  | @comparison s path op k v hs hpath hl =>
    intro ts rest levels hts _
    obtain ⟨a, us, rfl, ha, hus⟩ := List.map_eq_cons_iff.mp hts
    obtain ⟨o, vs, rfl, ho, hvs⟩ := List.map_eq_cons_iff.mp hus
    obtain ⟨l, rfl, rfl⟩ := List.map_eq_singleton_iff.mp hvs
    exact reaches_comparison whole hs hpath ha ho hl rest levels
  | @not ks f n _ ih =>
    intro ts rest levels hts _
    obtain ⟨a, us, rfl, ha, hus⟩ := List.map_eq_cons_iff.mp hts
    exact reaches_not whole ha (fun levels => ih us rest levels hus (by simp)) levels
  | @parentheses ks f n _ ih =>
    intro ts rest levels hts _
    obtain ⟨a, vs, rfl, ha, hvs⟩ := List.map_eq_cons_iff.mp hts
    obtain ⟨us, cs, rfl, hus, hcs⟩ := List.map_eq_append_iff.mp hvs
    obtain ⟨c, rfl, hc⟩ := List.map_eq_singleton_iff.mp hcs
    -- the closing parenthesis continues neither kind of chain
    have hstop : ∀ w, ¬StartsWith w (c :: rest) := by
      rintro w ⟨d, hd, hw⟩
      obtain rfl : c = d := by simpa using hd
      rw [hc] at hw
      exact absurd hw (by simp)
    rw [List.cons_append, List.append_assoc]
    refine reaches_parentheses whole ha hc (fun levels => ?_) levels
    have hr := ih us (c :: rest) levels hus fun _ => hstop "and"
    rwa [Level.resume, runChain_of_not_startsWith (hstop "or")] at hr
  | operand _ ih =>
    intro ts rest levels hts _
    exact Reaches.first (ih ts rest levels hts (by simp))
  | and _ _ ihl ihr =>
    intro ts rest levels hts _
    obtain ⟨us, vs, rfl, hus, hvs⟩ := List.map_eq_append_iff.mp hts
    obtain ⟨k, ws, rfl, hk, hws⟩ := List.map_eq_cons_iff.mp hvs
    rw [List.append_assoc]
    exact Reaches.step hk (ihl us (k :: ws ++ rest) levels hus (by simp))
      (ihr ws rest levels hws (by simp)) rfl
  | conjunction _ ih =>
    intro ts rest levels hts hrest
    have hr := ih ts rest levels hts (by simp)
    simp only [Level.resume, runChain_of_not_startsWith (hrest rfl)] at hr
    exact Reaches.first hr
  | or _ _ ihl ihr =>
    intro ts rest levels hts hrest
    obtain ⟨us, vs, rfl, hus, hvs⟩ := List.map_eq_append_iff.mp hts
    obtain ⟨k, ws, rfl, hk, hws⟩ := List.map_eq_cons_iff.mp hvs
    -- the left side is a whole disjunction, which an `or` follows
    have hor : ¬StartsWith "and" (k :: ws ++ rest) := by
      rintro ⟨d, hd, hw⟩
      obtain rfl : k = d := by simpa using hd
      rw [hk] at hw
      exact absurd hw (by decide)
    have hr := ihr ws rest levels hws (by simp)
    simp only [Level.resume, runChain_of_not_startsWith (hrest rfl)] at hr
    rw [List.append_assoc]
    exact Reaches.step hk (ihl us (k :: ws ++ rest) levels hus fun _ => hor) hr rfl

end Completeness

/-! ### Whole filters -/

section Whole

variable {t : RecordType} {whole : List Char}

theorem ofTokens_eq {ts : List Token} :
    ofTokens t whole ts = ((disjunction (operand t whole maxNesting)).run ts).bind fun r =>
      match r.2 with
      | [] => .ok r.1
      | k :: _ => fault (if k.kind = .closing then .unbalanced else .trailingInput) k.onward := by
  rw [ofTokens, Parser.run]
  cases disjunction (operand t whole maxNesting) ts with
  | error e => rfl
  | ok r => rfl

/-- **Tokens that form a filter** are those that are derived with at most
`RecordService.Filter.maxNesting` levels. -/
theorem ofTokens_eq_ok_iff {ts : List Token} {f : Filter} :
    ofTokens t whole ts = .ok f ↔
      ∃ n, n ≤ maxNesting ∧ Derives t .disjunction (ts.map Token.kind) f n := by
  rw [ofTokens_eq]
  constructor
  · intro h
    obtain ⟨⟨g, rest⟩, hr, h⟩ := Outcome.bind_eq_ok_iff.mp h
    cases rest with
    | cons k rest => simp [fault] at h
    | nil =>
      obtain rfl := Except.ok.inj h
      obtain ⟨used, n, rfl, hn, hd⟩ := (sound_operand t whole maxNesting).disjunction ts g [] hr
      exact ⟨n, hn, by simpa using hd⟩
  · rintro ⟨n, hn, hd⟩
    have hr := (reaches_of_derives whole hd ts [] maxNesting rfl fun _ => not_startsWith_nil _).1 hn
    rw [Level.resume, runChain_of_not_startsWith (not_startsWith_nil _), List.append_nil] at hr
    simp only [Level.parser] at hr
    rw [hr]
    rfl

/-- Tokens that are derived with too many levels are refused for that reason alone. With a single
other fault they would have no derivation. -/
theorem ofTokens_of_maxNesting_lt {ts : List Token} {f : Filter} {n : Nat}
    (hd : Derives t .disjunction (ts.map Token.kind) f n) (hn : maxNesting < n) :
    ∃ place, ofTokens t whole ts = fault .nestedTooDeeply place := by
  obtain ⟨place, hr⟩ := (reaches_of_derives whole hd ts [] maxNesting rfl fun _ =>
    not_startsWith_nil _).2 hn
  rw [List.append_nil] at hr
  simp only [Level.parser] at hr
  refine ⟨place, ?_⟩
  rw [ofTokens_eq, hr]
  rfl

/-- A text without tokens is the only one that is no filter at all. -/
theorem scan_of_trimBlank_eq_nil {s : List Char} (h : Text.trimBlank s = []) :
    Token.scan s = .ok [] := by
  have hs : Text.skipBlank s = [] :=
    Text.skipBlank_eq_nil_iff.mpr (Text.trimBlank_eq_nil_iff.mp h)
  unfold Token.scan
  split
  · rfl
  · rename_i c r hc
    rw [hs] at hc
    exact absurd hc (by simp)

theorem parse_of_scan {text : String} {ts : List Token} (hs : Token.scan text.toList = .ok ts)
    (hts : ts ≠ []) : parse t (some text) = some <$> ofTokens t text.toList ts := by
  have htrim : ¬(Text.trimBlank text.toList).isEmpty = true := by
    intro h
    rw [scan_of_trimBlank_eq_nil (by simpa using h)] at hs
    exact hts (Except.ok.inj hs).symm
  simp only [parse, Option.getD_some, if_neg htrim, hs]

/-- What becomes a filter has tokens that form it. So a property of filters from texts can be proved
on tokens. -/
theorem scan_of_parse {text : String} {f : Filter} (h : parse t (some text) = .ok (some f)) :
    ∃ ts, Token.scan text.toList = .ok ts ∧ ofTokens t text.toList ts = .ok f := by
  unfold parse at h
  simp only [Option.getD_some] at h
  split at h
  · simp at h
  · split at h
    · simp [fault] at h
    · rename_i ts hs
      obtain ⟨g, hg, hgf⟩ := Outcome.map_eq_ok_iff.mp h
      obtain rfl := Option.some.inj hgf
      exact ⟨ts, hs, hg⟩

/-- **The parser accepts the grammar**: a text with at least one token is the filter `e` if all of
its tokens are derived as the disjunction `e`, no comparison lying under more than 64 parentheses and
negations, and only then. -/
theorem parse_eq_some_iff {text : String} {ts : List Token}
    (hs : Token.scan text.toList = .ok ts) (hts : ts ≠ []) {e : Filter} :
    parse t (some text) = .ok (some e) ↔
      ∃ n, n ≤ 64 ∧ Derives t .disjunction (ts.map Token.kind) e n := by
  have hmap : some <$> ofTokens t text.toList ts = .ok (some e) ↔
      ofTokens t text.toList ts = .ok e := by
    refine Outcome.map_eq_ok_iff.trans ?_
    simp
  rw [parse_of_scan hs hts, hmap]
  exact ofTokens_eq_ok_iff

/-- A negation binds tighter than a conjunction. -/
theorem parse_not_and :
    parse people (some "not Name eq 'Ann' and Age gt 3") = .ok (some (.and
      (.not (.comparison people.named .eq (.text "Ann")))
      (.comparison people.age .gt (.integer 3)))) := by
  have hs : (Token.scan "not Name eq 'Ann' and Age gt 3".toList).map (List.map Token.kind) =
      .ok [.word "not", .word "Name", .word "eq", .quoted "Ann", .word "and", .word "Age",
        .word "gt", .number "3"] := by decide +kernel
  cases hk : Token.scan "not Name eq 'Ann' and Age gt 3".toList with
  | error e =>
    rw [hk] at hs
    exact absurd hs (by simp [Except.map])
  | ok ts =>
    rw [hk] at hs
    have hkinds : ts.map Token.kind = _ := Except.ok.inj hs
    refine (parse_eq_some_iff hk (by rintro rfl; simp at hkinds)).mpr ⟨1, by decide, ?_⟩
    rw [hkinds]
    have hname : Derives people .operand
        [.word "Name", .word (Comparison.keyword .eq), .quoted "Ann"]
        (.comparison people.named .eq (.text "Ann")) 0 :=
      .comparison (by decide) rfl (.quoted (.inl rfl) rfl)
    have hage : Derives people .operand
        [.word "Age", .word (Comparison.keyword .gt), .number "3"]
        (.comparison people.age .gt (.integer 3)) 0 :=
      .comparison (by decide) rfl (.number (.inl rfl) rfl)
    exact .conjunction (.and (.operand (.not hname)) hage)

end Whole

end RecordService.Filter
