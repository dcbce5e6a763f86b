import RecordService.Proofs.Query.Typing
import RecordService.Proofs.Sql.Grammar

/-!
# Filters mean the same in statements

The database reads the condition of a statement as the filter that the statement was made for: the
lexemes of the condition are read back operator by operator, where parentheses and `NOT` stand as the
grammar wants them (`RecordService.Sql.Reading.reads_condition`), and the condition that is read has
the truth of the filter on every row (`RecordService.Sql.Reading.truth_meaning`).

* `RecordService.Sql.Reading.conditionLexemes`: the lexemes of the condition of a filter.
* `RecordService.Sql.Reading.meaning`: the condition that they are read as.
-/

namespace RecordService.Sql.Reading

/-! ### Lexemes of conditions -/

/-- The lexemes of a column that is compared. -/
def columnLexemes (p : Path) : List Lexeme :=
  .name p.name :: if p.kind = .text then [.word "collate", .name "C"] else []

/-- The lexemes of the condition of a filter whose first literal is the argument after the first `n`.
-/
def conditionLexemes (n : Nat) : Filter → List Lexeme
  | .comparison p op _ =>
    columnLexemes p ++
      [.symbol (symbol op), .argument (n + 1), .symbol "::", .word (cast p.kind)]
  | .and l r =>
    .symbol "(" :: conditionLexemes n l ++ .word "and" :: conditionLexemes (n + literalCount l) r ++
      [.symbol ")"]
  | .or l r =>
    .symbol "(" :: conditionLexemes n l ++ .word "or" :: conditionLexemes (n + literalCount l) r ++
      [.symbol ")"]
  | .not f =>
    if isBinary f then .word "not" :: conditionLexemes n f
    else .word "not" :: .symbol "(" :: conditionLexemes n f ++ [.symbol ")"]

theorem spells_comparable (p : Path) : Spells (comparable p) (columnLexemes p) := by
  unfold comparable columnLexemes
  split
  · have hcollate : run .nothing " COLLATE \"C\"".toList =
        some ([.word "collate"], .closed '"' ['C']) := by decide
    exact (spells_name p.name).append (spells_fixed hcollate (complete_closed ['C']))
      (ends_fixed [] (by decide))
  · exact spells_name p.name

theorem spells_typed (n : Nat) (k : Kind) :
    Spells (typed n k) [.argument n, .symbol "::", .word (cast k)] := by
  have hcast : run .nothing ("::" ++ cast k).toList =
      some ([.symbol "::"], .word (cast k).toList) := by
    cases k <;> decide
  have hlower : (cast k).toList.map Char.toLower = (cast k).toList := by
    cases k <;> decide
  have hfixed := spells_fixed hcast (complete_word _)
  rw [hlower, String.ofList_toList] at hfixed
  exact (spells_placeholder n).append hfixed (ends_fixed [] (by simp [stops]))

theorem spells_closing : Spells [.fixed ")"] [.symbol ")"] := by
  have hclose : run .nothing ")".toList = some ([.symbol ")"], .nothing) := by decide
  exact spells_fixed hclose complete_nothing

theorem ends_closing : Ends (render [.fixed ")"]).toList := ends_fixed [] (by decide)

/-- Two conditions in parentheses, with a word between them. The parentheses keep the reader from
joining the sides in another way. -/
theorem Spells.joined {ps qs : List Piece} {ls ms : List Lexeme} {s w : String} (hp : Spells ps ls)
    (hq : Spells qs ms) (hs : run .nothing s.toList = some ([.word w], .nothing))
    (hends : s.toList.head?.any (stops.contains ·) = true) :
    Spells (.fixed "(" :: ps ++ .fixed s :: qs ++ [.fixed ")"])
      (.symbol "(" :: ls ++ .word w :: ms ++ [.symbol ")"]) := by
  have hopen : run .nothing "(".toList = some ([.symbol "("], .nothing) := by decide
  have hinner := (hp.cons_fixed hopen).append (hq.cons_fixed hs) (ends_fixed _ hends)
  exact hinner.append spells_closing ends_closing

/-- **The condition of a filter** is read as its lexemes, by induction on the filter. -/
theorem spells_condition (n : Nat) (f : Filter) :
    Spells (condition n f) (conditionLexemes n f) := by
  induction f generalizing n with
  | comparison p op v =>
    have hop : run .nothing (" " ++ symbol op ++ " ").toList =
        some ([.symbol (symbol op)], .nothing) := by
      cases op <;> decide
    exact (spells_comparable p).append ((spells_typed (n + 1) p.kind).cons_fixed hop)
      (ends_fixed _ (by simp [stops]))
  | and l r ihl ihr =>
    have hand : run .nothing " AND ".toList = some ([.word "and"], .nothing) := by decide
    exact (ihl n).joined (ihr _) hand (by decide)
  | or l r ihl ihr =>
    have hor : run .nothing " OR ".toList = some ([.word "or"], .nothing) := by decide
    exact (ihl n).joined (ihr _) hor (by decide)
  | not f ih =>
    unfold condition conditionLexemes
    split
    · have hnot : run .nothing "NOT ".toList = some ([.word "not"], .nothing) := by decide
      exact (ih n).cons_fixed hnot
    · have hnot : run .nothing "NOT (".toList = some ([.word "not", .symbol "("], .nothing) := by
        decide
      exact ((ih n).cons_fixed hnot).append spells_closing ends_closing

/-! ### What conditions are read as -/

/-- The condition that a filter is read as whose first literal is the argument after the first `n`. -/
def meaning (n : Nat) : Filter → Condition
  | .comparison p op _ =>
    .comparison (.column p.name (if p.kind = .text then some "C" else none)) (symbol op)
      (.argument (n + 1) (cast p.kind))
  | .and l r => .and (meaning n l) (meaning (n + literalCount l) r)
  | .or l r => .or (meaning n l) (meaning (n + literalCount l) r)
  | .not f => .not (meaning n f)

/-- An operand that is joined to nothing is a whole condition. -/
theorem Reads.alone {ls rest : List Lexeme} {c : Condition} (h : Reads .negation ls c rest)
    (hand : rest.head? ≠ some (.word "and")) (hor : rest.head? ≠ some (.word "or")) :
    Reads .disjunction ls c rest :=
  .disjunction (.conjunction h (.andEnd hand)) (.orEnd hor)

/-- **Conditions are read as they are meant**, as an operand of whatever follows. So the precedence
of the words plays no part: every compound condition is in parentheses. -/
theorem reads_condition (n : Nat) (f : Filter) (rest : List Lexeme) :
    Reads .negation (conditionLexemes n f ++ rest) (meaning n f) rest := by
  induction f generalizing n rest with
  | comparison p op v =>
    refine .comparison ?_
    unfold conditionLexemes columnLexemes meaning
    split <;> rfl
  | and l r ihl ihr =>
    have hl := ihl n (.word "and" :: conditionLexemes (n + literalCount l) r ++ .symbol ")" :: rest)
    have hr := ihr (n + literalCount l) (.symbol ")" :: rest)
    have hinner : Reads .disjunction _ _ (.symbol ")" :: rest) :=
      .disjunction (.conjunction hl (.and hr (.andEnd (by simp)))) (.orEnd (by simp))
    simpa [conditionLexemes, meaning] using Reads.parentheses hinner
  | or l r ihl ihr =>
    have hl := ihl n (.word "or" :: conditionLexemes (n + literalCount l) r ++ .symbol ")" :: rest)
    have hr := ihr (n + literalCount l) (.symbol ")" :: rest)
    have hinner : Reads .disjunction _ _ (.symbol ")" :: rest) :=
      .disjunction (.conjunction hl (.andEnd (by simp)))
        (.or (.conjunction hr (.andEnd (by simp))) (.orEnd (by simp)))
    simpa [conditionLexemes, meaning] using Reads.parentheses hinner
  | not f ih =>
    unfold conditionLexemes meaning
    split
    · exact .not (ih n rest)
    · have h := (ih n (.symbol ")" :: rest)).alone (by simp) (by simp)
      simpa using Reads.not (.parentheses h)

/-! ### Truth of conditions -/

theorem columnType_eq_cast (k : Kind) : columnType k = cast k := by
  cases k <;> rfl

/-- Only texts are cast to text, so only they are collated. -/
theorem kind_of_cast_eq_text {k : Kind} (h : cast k = "text") : k = .text := by
  revert h
  cases k <;> decide

/-- The outcomes for which a symbol stands are those that the comparison accepts. The symbols are
fixed by the language, and the test by the filter. -/
theorem outcomes_symbol (op : Comparison) :
    ∃ os, outcomes (symbol op) = some os ∧ ∀ o, os.contains o = op.test o := by
  cases op <;> exact ⟨_, rfl, by rintro (_ | _ | _) <;> rfl⟩

/-- The conjunction of three-valued logic is the lesser one in the order false, unknown, true. -/
theorem degree_both (a b : Option Bool) : (if degree a ≤ degree b then a else b) = Truth.both a b := by
  rcases a with _ | _ | _ <;> rcases b with _ | _ | _ <;> rfl

/-- The disjunction is the greater one in the order false, unknown, true. -/
theorem degree_either (a b : Option Bool) :
    (if degree a ≤ degree b then b else a) = Truth.either a b := by
  rcases a with _ | _ | _ <;> rcases b with _ | _ | _ <;> rfl

section Truth

variable {t : RecordType} {row : List Value}

/-- The column of a property has the value of the row at its position, found by its name. -/
theorem typed_column {p : Path} {v : Value} {arguments : List Argument}
    (hp : Path.resolve t p.name = .ok p) (hv : row[p.index]? = some v) :
    (Operand.column p.name (if p.kind = .text then some "C" else none)).typed t row arguments =
      some ⟨v, columnType p.kind, if p.kind = .text then some "C" else none⟩ := by
  obtain ⟨-, -, hindex, a, ha, -, hkind⟩ := Path.resolve_eq_ok hp
  simp only [Operand.typed, hindex, ha, hv, hkind, bind, Option.bind_some]
  split <;> simp_all

/-- A comparison of a property with a literal of its kind has the outcome of the filter. Texts are
compared by their bytes, since the column is collated so. -/
theorem truth_comparison {p : Path} {op : Comparison} {w : Value} {n : Nat}
    {arguments : List Argument} (hfits : Filter.Fits t p w) (hrow : t.Row row)
    (hw : arguments[n]? = some (.value w)) :
    (meaning n (.comparison p op w)).truth t row arguments =
      some ((Filter.comparison p op w).evaluate row) := by
  obtain ⟨-, -, hindex, a, ha, -, hkind⟩ := Path.resolve_eq_ok hfits.resolved
  obtain ⟨v, hv⟩ : ∃ v, row[p.index]? = some v := by
    have hlt : p.index < row.length := by
      rw [hrow.length_values]
      exact (List.getElem?_eq_some_iff.mp ha).1
    exact ⟨row[p.index], List.getElem?_eq_getElem hlt⟩
  have hright : (Operand.argument (n + 1) (cast p.kind)).typed t row arguments =
      some ⟨w, cast p.kind, none⟩ := by
    simp [Operand.typed, hw, Value.kind?_of_readable hfits.literal, columnType_eq_cast]
  obtain ⟨os, hos, htest⟩ := outcomes_symbol op
  have hcollated : ¬(cast p.kind = "text" ∧
      (if p.kind = .text then some "C" else none) ≠ some "C" ∧ (none : Option String) ≠ some "C") := by
    rintro ⟨htext, hne, -⟩
    exact hne (if_pos (kind_of_cast_eq_text htext))
  have hnull : w.isNull = false := Value.isNull_of_kind? (Value.kind?_of_readable hfits.literal)
  have hcompared : (meaning n (.comparison p op w)).truth t row arguments =
      compared (symbol op) ⟨v, cast p.kind, if p.kind = .text then some "C" else none⟩
        ⟨w, cast p.kind, none⟩ := by
    simp only [meaning, Condition.truth, typed_column hfits.resolved hv, hright, columnType_eq_cast,
      bind, Option.bind_some]
  rw [hcompared]
  simp only [compared, hos, bind, Option.bind_some, ne_eq, not_true_eq_false, if_false,
    if_neg hcollated, hnull, Bool.or_false, Filter.evaluate, hv]
  rcases hrow.fits p.index a v ha hv with rfl | hvkind
  · -- `null` is compared with a value
    cases w <;> rfl
  · rw [hkind] at hvkind
    have hnumber : ∀ d, v = .decimal d → d.isNaN = false := by
      rintro d rfl
      exact hrow.isNaN d (List.mem_of_getElem? hv)
    obtain ⟨o, ho⟩ := Value.exists_compare hvkind hfits.literal hnumber
    simp [ho, Value.isNull_of_kind? hvkind, ← htest]

/-- Whether the condition of a filter has the truth of the filter, with the literals of the filter
among the arguments. -/
def Agrees (t : RecordType) (row : List Value) (f : Filter) : Prop :=
  ∀ before after : List Argument,
    (meaning before.length f).truth t row (before ++ (literals f).map .value ++ after) =
      some (f.evaluate row)

/-- Two filters side by side find their literals one after the other: those of the right one begin
behind those of the left one. -/
theorem Agrees.sides {l r : Filter} (hl : Agrees t row l) (hr : Agrees t row r)
    (before after : List Argument) :
    (meaning before.length l).truth t row
        (before ++ (literals l ++ literals r).map .value ++ after) = some (l.evaluate row) ∧
      (meaning (before.length + literalCount l) r).truth t row
        (before ++ (literals l ++ literals r).map .value ++ after) = some (r.evaluate row) := by
  have hl := hl before ((literals r).map .value ++ after)
  have hr := hr (before ++ (literals l).map .value) after
  simp only [List.append_assoc, List.length_append, List.length_map, length_literals] at hl hr
  simp only [List.map_append, List.append_assoc]
  exact ⟨hl, hr⟩

/-- **The condition of a filter has the truth of the filter**, by induction, with the arguments in
front and behind left open. -/
theorem truth_meaning {f : Filter} (hf : f.WellTyped t) (hrow : t.Row row) : Agrees t row f := by
  induction f with
  | comparison p op w =>
    intro before after
    exact truth_comparison hf hrow (by simp [literals])
  | and l r ihl ihr =>
    intro before after
    obtain ⟨hl, hr⟩ := (ihl hf.1).sides (ihr hf.2) before after
    simp only [meaning, Condition.truth, literals, hl, hr, bind, Option.bind_some, degree_both,
      Filter.evaluate]
  | or l r ihl ihr =>
    intro before after
    obtain ⟨hl, hr⟩ := (ihl hf.1).sides (ihr hf.2) before after
    simp only [meaning, Condition.truth, literals, hl, hr, bind, Option.bind_some, degree_either,
      Filter.evaluate]
  | not f ih =>
    intro before after
    simp only [meaning, Condition.truth, literals, ih hf before after, bind, Option.bind_some,
      Filter.evaluate, Truth.negate]

end Truth

end RecordService.Sql.Reading
