import RecordService.Proofs.Sql.Filter

/-!
# The statements that select records

The statements that read and count records are read completely: the columns, the table, the
condition, the sort clause and the window. Whatever the names of a record type are, the first `WHERE`
is that of the condition, and the condition ends where the sort clause begins. So the database
selects the rows that the filter accepts (`RecordService.Sql.Reading.truth_eq_evaluate`).

* `RecordService.Sql.Reading.selectLexemes`, `RecordService.Sql.Reading.countLexemes`: the lexemes of
  the statements.
-/

namespace RecordService.Sql.Reading

/-! ### Columns and tables -/

/-- The lexemes of lists with commas between them. -/
def commaLexemes : List (List Lexeme) → List Lexeme
  | [] => []
  | [ls] => ls
  | ls :: lss => ls ++ .symbol "," :: commaLexemes lss

theorem commaLexemes_cons (ls : List Lexeme) {lss : List (List Lexeme)} (h : lss ≠ []) :
    commaLexemes (ls :: lss) = ls ++ .symbol "," :: commaLexemes lss := by
  cases lss with
  | nil => exact absurd rfl h
  | cons ms lss => rfl

/-- The lexemes of the table of a record type. -/
def tableLexemes (t : RecordType) : List Lexeme := [.name t.space, .symbol ".", .name t.table]

/-- The lexemes of a column that is read. -/
def readLexemes (a : Attribute) : List Lexeme :=
  if a.kind = .blob then
    [.word "octet_length", .symbol "(", .name a.name, .symbol ")", .symbol "::", .word "int8",
      .word "as", .name a.name]
  else [.name a.name, .symbol "::", .word (cast a.kind), .word "as", .name a.name]

/-- Items that are spelled one by one are spelled with commas between them. -/
theorem spells_separated {α : Type} (f : α → List Piece) (g : α → List Lexeme)
    (h : ∀ a, Spells (f a) (g a)) (as : List α) :
    Spells (separated [.fixed ", "] (as.map f)) (commaLexemes (as.map g)) := by
  have hcomma : run .nothing ", ".toList = some ([.symbol ","], .nothing) := by decide
  induction as with
  | nil => exact spells_nil
  | cons a as ih =>
    cases as with
    | nil => exact h a
    | cons b as =>
      have hrest := ih.cons_fixed hcomma
      simpa [separated, commaLexemes] using (h a).append hrest (ends_fixed _ (by decide))

theorem spells_tableName (t : RecordType) : Spells (tableName t) (tableLexemes t) := by
  have h := (spells_name t.table).append_left (run_qualifier t.space)
  simpa [tableName, tableLexemes] using h

theorem spells_readColumn (a : Attribute) : Spells (readColumn a) (readLexemes a) := by
  unfold readColumn readLexemes
  split
  · have hlength : run .nothing "octet_length(".toList =
        some ([.word "octet_length", .symbol "("], .nothing) := by decide
    have has : run .nothing ")::int8 AS ".toList =
        some ([.symbol ")", .symbol "::", .word "int8", .word "as"], .nothing) := by decide
    have hname := (spells_name a.name).append ((spells_name a.name).cons_fixed has)
      (ends_fixed _ (by decide))
    exact hname.cons_fixed hlength
  · have has : run .nothing ("::" ++ cast a.kind ++ " AS ").toList =
        some ([.symbol "::", .word (cast a.kind), .word "as"], .nothing) := by
      cases a.kind <;> decide
    exact (spells_name a.name).append ((spells_name a.name).cons_fixed has)
      (ends_fixed _ (by simp [stops]))

/-! ### Clauses -/

/-- The lexemes of the clause for an optional filter. -/
def whereLexemes : Option Filter → List Lexeme
  | some f => .word "where" :: conditionLexemes 0 f
  | none => []

/-- The lexemes of the words for a direction. -/
def directionLexemes : Direction → List Lexeme
  | .ascending => [.word "asc", .word "nulls", .word "last"]
  | .descending => [.word "desc", .word "nulls", .word "first"]

/-- The lexemes of a term of a sort clause. -/
def sortLexemes (t : OrderTerm) : List Lexeme := columnLexemes t.path ++ directionLexemes t.direction

/-- The lexemes of the sort clause of an order. -/
def orderLexemes (o : Order) : List Lexeme :=
  .word "order" :: .word "by" ::
    commaLexemes (o.terms.map sortLexemes ++ [[.name Schema.identityName, .word "asc"]])

/-- The lexemes of the clauses for a window. -/
def windowLexemes (skip : Nat) (top : Option Nat) : List Lexeme :=
  (match top with
    | some n => [.word "limit", .number (Text.natural n)]
    | none => []) ++
  if 0 < skip then [.word "offset", .number (Text.natural skip)] else []

theorem spells_whereClause (f : Option Filter) : Spells (whereClause f) (whereLexemes f) := by
  cases f with
  | none => exact spells_nil
  | some f =>
    have hwhere : run .nothing " WHERE ".toList = some ([.word "where"], .nothing) := by decide
    exact (spells_condition 0 f).cons_fixed hwhere

theorem spells_sortTerm (t : OrderTerm) : Spells (sortTerm t) (sortLexemes t) := by
  have hdirection : Spells [.fixed (directionWords t.direction)] (directionLexemes t.direction) ∧
      (directionWords t.direction).toList.head?.any (stops.contains ·) = true := by
    cases t.direction with
    | ascending =>
      have hwords : run .nothing " ASC NULLS LAST".toList =
          some ([.word "asc", .word "nulls"], .word "LAST".toList) := by decide
      exact ⟨spells_fixed hwords (complete_word _), by decide⟩
    | descending =>
      have hwords : run .nothing " DESC NULLS FIRST".toList =
          some ([.word "desc", .word "nulls"], .word "FIRST".toList) := by decide
      exact ⟨spells_fixed hwords (complete_word _), by decide⟩
  exact (spells_comparable t.path).append hdirection.1 (ends_fixed _ hdirection.2)

theorem spells_orderClause (o : Order) : Spells (orderClause o) (orderLexemes o) := by
  have horder : run .nothing " ORDER BY ".toList =
      some ([.word "order", .word "by"], .nothing) := by decide
  have hasc : run .nothing " ASC".toList = some ([], .word "ASC".toList) := by decide
  have hidentity : Spells [.name Schema.identityName, .fixed " ASC"]
      [.name Schema.identityName, .word "asc"] :=
    (spells_name _).append (spells_fixed hasc (complete_word _)) (ends_fixed _ (by decide))
  -- the identity is one more item of the list
  have hitems := spells_separated (α := Option OrderTerm)
    (fun t => t.elim [.name Schema.identityName, .fixed " ASC"] sortTerm)
    (fun t => t.elim [.name Schema.identityName, .word "asc"] sortLexemes)
    (fun t => by cases t with
      | none => exact hidentity
      | some t => exact spells_sortTerm t)
    (o.terms.map some ++ [none])
  simpa [orderClause, orderLexemes, Function.comp_def] using hitems.cons_fixed horder

theorem spells_keyword_natural {s : String} {ls : List Lexeme}
    (hs : run .nothing s.toList = some (ls, .nothing)) (n : Nat) :
    Spells [.fixed (s ++ Text.natural n)] (ls ++ [.number (Text.natural n)]) := by
  have hrun : run .nothing (s ++ Text.natural n).toList =
      some (ls, .number (Text.natural n).toList) := by
    rw [String.toList_append, run_append, hs]
    simp [run_natural]
  simpa using spells_fixed hrun (complete_number _)

theorem ends_offset (skip : Nat) :
    Ends (render (if 0 < skip then [.fixed (" OFFSET " ++ Text.natural skip)] else [])).toList := by
  split
  · exact ends_fixed _ (by simp [stops])
  · exact ends_nil

theorem spells_windowClause (skip : Nat) (top : Option Nat) :
    Spells (windowClause skip top) (windowLexemes skip top) := by
  have hlimit : run .nothing " LIMIT ".toList = some ([.word "limit"], .nothing) := by decide
  have hoffset : run .nothing " OFFSET ".toList = some ([.word "offset"], .nothing) := by decide
  have hskip : Spells (if 0 < skip then [.fixed (" OFFSET " ++ Text.natural skip)] else [])
      (if 0 < skip then [.word "offset", .number (Text.natural skip)] else []) := by
    split
    · exact spells_keyword_natural hoffset skip
    · exact spells_nil
  unfold windowClause windowLexemes
  cases top with
  | none => exact spells_nil.append hskip (ends_offset skip)
  | some n => exact (spells_keyword_natural hlimit n).append hskip (ends_offset skip)

/-! ### Whole statements -/

/-- The lexemes in front of the condition of a statement that reads records. -/
def selectHead (t : RecordType) : List Lexeme :=
  .word "select" :: commaLexemes (t.attributes.map readLexemes) ++ .word "from" :: tableLexemes t

/-- The lexemes in front of the condition of a statement that counts records. -/
def countHead (t : RecordType) : List Lexeme :=
  [.word "select", .word "count", .symbol "(", .symbol "*", .symbol ")", .word "from"] ++
    tableLexemes t

theorem ends_whereClause (f : Option Filter) : Ends (render (whereClause f)).toList := by
  cases f with
  | none => exact ends_nil
  | some f => exact ends_fixed _ (by decide)

theorem ends_windowClause (skip : Nat) (top : Option Nat) :
    Ends (render (windowClause skip top)).toList := by
  unfold windowClause
  cases top with
  | none => exact ends_offset skip
  | some n => exact ends_fixed _ (by simp [stops])

theorem spells_select (t : RecordType) (s : Selection) :
    Spells (select t s).pieces
      (selectHead t ++ whereLexemes s.filter ++ orderLexemes s.order ++ windowLexemes s.skip s.top) := by
  have hselect : run .nothing "SELECT ".toList = some ([.word "select"], .nothing) := by decide
  have hfrom : run .nothing " FROM ".toList = some ([.word "from"], .nothing) := by decide
  have hcolumns : Spells (readColumns t) (commaLexemes (t.attributes.map readLexemes)) :=
    spells_separated readColumn readLexemes spells_readColumn t.attributes
  have hhead : Spells (.fixed "SELECT " :: readColumns t ++ .fixed " FROM " :: tableName t)
      (selectHead t) :=
    (hcolumns.cons_fixed hselect).append ((spells_tableName t).cons_fixed hfrom)
      (ends_fixed _ (by decide))
  have hwhere := hhead.append (spells_whereClause s.filter) (ends_whereClause s.filter)
  have horder := hwhere.append (spells_orderClause s.order) (ends_fixed _ (by decide))
  exact horder.append (spells_windowClause s.skip s.top) (ends_windowClause s.skip s.top)

theorem spells_count (t : RecordType) (f : Option Filter) :
    Spells (count t f).pieces (countHead t ++ whereLexemes f) := by
  have hcount : run .nothing "SELECT COUNT(*) FROM ".toList =
      some ([.word "select", .word "count", .symbol "(", .symbol "*", .symbol ")", .word "from"],
        .nothing) := by decide
  exact ((spells_tableName t).cons_fixed hcount).append (spells_whereClause f) (ends_whereClause f)

/-! ### The condition of a statement -/

theorem mem_commaLexemes {l : Lexeme} {lss : List (List Lexeme)} (h : l ∈ commaLexemes lss) :
    l = .symbol "," ∨ ∃ ls ∈ lss, l ∈ ls := by
  induction lss with
  | nil => simp [commaLexemes] at h
  | cons ls lss ih =>
    cases lss with
    | nil => exact .inr ⟨ls, by simp, by simpa [commaLexemes] using h⟩
    | cons ms lss =>
      simp only [commaLexemes, List.mem_append, List.mem_cons] at h
      rcases h with h | h | h
      · exact .inr ⟨ls, by simp, h⟩
      · exact .inl h
      · rcases ih h with h | ⟨ns, hns, hl⟩
        · exact .inl h
        · exact .inr ⟨ns, by simp [hns], hl⟩

theorem word_of_mem_readLexemes {a : Attribute} {w : String} (h : .word w ∈ readLexemes a) :
    w ∈ ["octet_length", "int8", "as"] ∨ ∃ k, w = cast k := by
  unfold readLexemes at h
  split at h
  · exact .inl (by simpa using h)
  · simp only [List.mem_cons, reduceCtorEq, Lexeme.word.injEq, List.not_mem_nil, or_false,
      false_or] at h
    rcases h with rfl | rfl
    · exact .inr ⟨a.kind, rfl⟩
    · exact .inl (by simp)

/-- The words in front of the condition. No name is taken for one, so no column can pass for the
beginning of the condition. -/
theorem word_of_mem_selectHead {t : RecordType} {w : String} (h : .word w ∈ selectHead t) :
    w ∈ ["select", "from", "octet_length", "int8", "as"] ∨ ∃ k, w = cast k := by
  simp only [selectHead, tableLexemes, List.cons_append, List.mem_cons, List.mem_append,
    List.not_mem_nil, or_false, reduceCtorEq, Lexeme.word.injEq] at h
  rcases h with rfl | h | rfl
  · exact .inl (by simp)
  · rcases mem_commaLexemes h with h | ⟨ls, hls, h⟩
    · simp at h
    · obtain ⟨a, -, rfl⟩ := List.mem_map.mp hls
      rcases word_of_mem_readLexemes h with h | h
      · exact .inl (List.mem_cons_of_mem _ (List.mem_cons_of_mem _ h))
      · exact .inr h
  · exact .inl (by simp)

theorem ne_cast {w : String} (h : Kind.all.all (w != cast ·) = true) (k : Kind) : w ≠ cast k := by
  have hk : k ∈ Kind.all := by cases k <;> decide
  simpa using List.all_eq_true.mp h k hk

/-- The first `WHERE` of a query is that of its condition. -/
theorem where_notMem_selectHead (t : RecordType) : .word "where" ∉ selectHead t := by
  intro h
  rcases word_of_mem_selectHead h with h | ⟨k, h⟩
  · exact absurd h (by decide)
  · exact ne_cast (by decide) k h

theorem where_notMem_countHead (t : RecordType) : .word "where" ∉ countHead t := by
  simp [countHead, tableLexemes]

/-- The lexemes from the first of some words on. -/
theorem dropWhile_word {w : String} {before after : List Lexeme} (h : .word w ∉ before) :
    (before ++ .word w :: after).dropWhile (· != .word w) = .word w :: after := by
  have hne : ∀ l ∈ before, (l != .word w) = true := by
    intro l hl
    have hl' : l ≠ .word w := by
      rintro rfl
      exact h hl
    simpa using hl'
  simp [List.dropWhile_append_of_pos hne]

theorem behindWhere_append {before after : List Lexeme} (h : .word "where" ∉ before) :
    behindWhere (before ++ .word "where" :: after) = after := by
  rw [behindWhere, dropWhile_word h, List.drop_one, List.tail_cons]

/-- A statement with the condition of a filter behind its first `WHERE` has this condition. What
follows must begin another clause, or else it would be read on. -/
theorem hasCondition_of_spells {s : Statement} {f : Filter} {before rest : List Lexeme}
    (hs : Spells s.pieces (before ++ .word "where" :: conditionLexemes 0 f ++ rest))
    (hbefore : .word "where" ∉ before) (hrest : ∀ l ∈ rest.head?, l ∈ clauses) :
    HasCondition s (meaning 0 f) := by
  have hstop : ∀ w, .word w ∉ clauses → rest.head? ≠ some (.word w) := by
    intro w hw hhead
    exact hw (hrest _ hhead)
  refine ⟨_, rest, hs.scan, ?_, hrest⟩
  rw [List.append_assoc, List.cons_append, behindWhere_append hbefore]
  exact (reads_condition 0 f rest).alone (hstop "and" (by decide)) (hstop "or" (by decide))

/-- **Filters mean the same in statements**: for an accepted filter and any row of the record type,
each statement that reads or counts records with this filter has one condition, and the condition is
true, false or unknown for the row exactly as the filter is. -/
theorem truth_eq_evaluate {t : RecordType} {text : String} {f : Filter}
    (h : Filter.parse t (some text) = .ok (some f)) {row : List Value} (hrow : t.Row row)
    {s : Statement}
    (hs : s = count t (some f) ∨ ∃ selection : Selection,
      selection.filter = some f ∧ s = select t selection) :
    ∃ c, (∀ c', HasCondition s c' ↔ c' = c) ∧ c.truth t row s.arguments = some (f.evaluate row) := by
  have harguments : s.arguments = (literals f).map .value := by
    rcases hs with rfl | ⟨selection, hfilter, rfl⟩
    · rfl
    · simp [select, hfilter, whereArguments]
  have hcondition : HasCondition s (meaning 0 f) := by
    rcases hs with rfl | ⟨selection, hfilter, rfl⟩
    · have hspells : Spells (count t (some f)).pieces
          (countHead t ++ .word "where" :: conditionLexemes 0 f ++ []) := by
        simpa [whereLexemes] using spells_count t (some f)
      exact hasCondition_of_spells hspells (where_notMem_countHead t) (by simp)
    · have hspells : Spells (select t selection).pieces
          (selectHead t ++ .word "where" :: conditionLexemes 0 f ++
            (orderLexemes selection.order ++ windowLexemes selection.skip selection.top)) := by
        simpa [whereLexemes, hfilter] using spells_select t selection
      exact hasCondition_of_spells hspells (where_notMem_selectHead t)
        (by simp [orderLexemes, clauses])
  refine ⟨meaning 0 f, fun c' => ⟨fun hc' => hc'.unique hcondition, fun hc' => hc' ▸ hcondition⟩, ?_⟩
  have htruth := truth_meaning (Filter.wellTyped_of_parse h) hrow [] []
  simpa [harguments] using htruth

/-- An unknown name does not matter where the age settles it. -/
theorem truth_select_people :
    let f : Filter := .or (.comparison Filter.people.named .eq (.text "Ann"))
      (.comparison Filter.people.age .gt (.integer 3))
    let s := select Filter.people { filter := some f, top := some 10 }
    ∃ c, (∀ c', HasCondition s c' ↔ c' = c) ∧
      c.truth Filter.people [.integer 1, .null, .integer 5] s.arguments = some (some true) := by
  have hparse : Filter.parse Filter.people (some "Name eq 'Ann' or Age gt 3") =
      .ok (some (.or (.comparison Filter.people.named .eq (.text "Ann"))
        (.comparison Filter.people.age .gt (.integer 3)))) := by
    decide +kernel
  have hrow : Filter.people.Row [.integer 1, .null, .integer 5] := by
    refine ⟨rfl, ?_, by simp⟩
    rintro (_ | _ | _ | i) a v ha hv
    · cases ha
      cases hv
      exact .inr rfl
    · cases hv
      exact .inl rfl
    · cases ha
      cases hv
      exact .inr rfl
    · simp at hv
  exact truth_eq_evaluate hparse hrow (.inr ⟨{ filter := some _, top := some 10 }, rfl, rfl⟩)

end RecordService.Sql.Reading
