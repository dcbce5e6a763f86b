import RecordService.Proofs.Sql.Layout

/-!
# What clients give stays beside the text

The literals of filters, the values of records and all other arguments of a statement are sent
beside its text. The text is the same whatever they are, and its placeholders, read from the left to
the right, are the numbers of the arguments in order. Names may contain dollar signs and digits:
what is quoted is no placeholder. In the condition of a statement, every comparison of the filter
has a placeholder of its own, whose argument is the literal of this comparison
(`RecordService.Sql.Reading.literals_are_arguments`).

* `RecordService.Sql.Reading.Aligned`: statements with one placeholder for each argument.
* `RecordService.Sql.Reading.Condition.comparisons`: the comparisons of a condition.
-/

namespace RecordService.Sql.Reading

/-- Whether the text of a statement can be read, and has a placeholder for each argument, in order.
-/
def Aligned (s : Statement) : Prop :=
  ∃ ls, scan s.text.toList = some ls ∧ placeholders ls = List.range' 1 s.arguments.length

theorem Laid.aligned {s : Statement} {xs : List String}
    (h : Laid s.pieces (List.range' 1 s.arguments.length) xs) : Aligned s := by
  obtain ⟨ls, hls, hns⟩ := h.spells
  exact ⟨ls, hls.scan, hns⟩

/-- **Every statement of an operation is aligned**: its placeholders are the numbers of its
arguments, each of them once. -/
theorem aligned_statement (q : Operation) : Aligned q.statement := (laid_statement q).aligned

theorem aligned_stageCreate : Aligned stageCreate := (laid_word (by decide +kernel)).aligned

theorem aligned_stageChunk (seq : Nat) (chunk : Bytes) : Aligned (stageChunk seq chunk) := by
  have hchunk := (laid_placeholder 2).append laid_closing ends_closing
  have hall := (laid_placeholder 1).append (hchunk.cons_fixed (s := ", ") (by decide))
    (ends_fixed _ (by decide))
  exact (hall.cons_fixed (by decide +kernel)).aligned

theorem aligned_storageMode (t : RecordType) (column : String) :
    Aligned (storageMode t column) := by
  have hcolumn := (laid_placeholder 3).append
    (laid_word (s := " AND NOT a.attisdropped") (by decide)) (ends_fixed _ (by decide))
  have htable := (laid_placeholder 2).append
    (hcolumn.cons_fixed (s := " AND a.attname = ") (by decide)) (ends_fixed _ (by decide))
  have hall := (laid_placeholder 1).append
    (htable.cons_fixed (s := " AND c.relname = ") (by decide)) (ends_fixed _ (by decide))
  exact (hall.cons_fixed (by decide +kernel)).aligned

/-! ### The condition of a filter -/

/-- The comparisons of a condition from left to right. -/
def Condition.comparisons : Condition → List (Operand × String × Operand)
  | comparison left operator right => [(left, operator, right)]
  | and left right => left.comparisons ++ right.comparisons
  | or left right => left.comparisons ++ right.comparisons
  | not inner => inner.comparisons

/-- What a comparison of a filter is read as if its literal is the argument with number `n`. -/
def compares (n : Nat) (c : Path × Comparison × Value) : Operand × String × Operand :=
  (.column c.1.name (if c.1.kind = .text then some "C" else none), symbol c.2.1,
    .argument n (cast c.1.kind))

theorem literals_eq_map_comparisons (f : Filter) : literals f = f.comparisons.map (·.2.2) := by
  induction f with
  | comparison p op v => rfl
  | and l r ihl ihr => rw [literals, Filter.comparisons, List.map_append, ihl, ihr]
  | or l r ihl ihr => rw [literals, Filter.comparisons, List.map_append, ihl, ihr]
  | not f ih => exact ih

theorem length_comparisons (f : Filter) : f.comparisons.length = literalCount f := by
  rw [← length_literals, literals_eq_map_comparisons, List.length_map]

/-- **Every comparison of a filter has a placeholder of its own**, in the order of the comparisons.
No two of them share an argument, even if their literals are equal. -/
theorem comparisons_meaning (n : Nat) (f : Filter) :
    (meaning n f).comparisons = f.comparisons.mapIdx fun i c => compares (n + i + 1) c := by
  -- the right one of two filters counts on from where the left one ends
  have hsides (n : Nat) (l r : Filter) :
      (l.comparisons.mapIdx fun i c => compares (n + i + 1) c) ++
          (r.comparisons.mapIdx fun i c => compares (n + literalCount l + i + 1) c) =
        (l.comparisons ++ r.comparisons).mapIdx fun i c => compares (n + i + 1) c := by
    rw [List.mapIdx_append, length_comparisons]
    simp only [Nat.add_assoc, Nat.add_comm, Nat.add_left_comm]
  induction f generalizing n with
  | comparison p op v => rfl
  | and l r ihl ihr => rw [meaning, Condition.comparisons, ihl, ihr, hsides, Filter.comparisons]
  | or l r ihl ihr => rw [meaning, Condition.comparisons, ihl, ihr, hsides, Filter.comparisons]
  | not f ih => exact ih n

theorem hasCondition_count (t : RecordType) (f : Filter) :
    HasCondition (count t (some f)) (meaning 0 f) := by
  have hspells : Spells (count t (some f)).pieces
      (countHead t ++ .word "where" :: conditionLexemes 0 f ++ []) := by
    simpa [whereLexemes] using spells_count t (some f)
  exact hasCondition_of_spells hspells (where_notMem_countHead t) (by simp)

theorem hasCondition_select (t : RecordType) {f : Filter} {s : Selection} (hf : s.filter = some f) :
    HasCondition (select t s) (meaning 0 f) := by
  have hspells : Spells (select t s).pieces
      (selectHead t ++ .word "where" :: conditionLexemes 0 f ++
        (orderLexemes s.order ++ windowLexemes s.skip s.top)) := by
    simpa [whereLexemes, hf] using spells_select t s
  exact hasCondition_of_spells hspells (where_notMem_selectHead t) (by simp [orderLexemes, clauses])

/-- **Literals are arguments.** The texts of two operations that differ in their literals and values
only are equal. The placeholders of every statement, from the left to the right, are the numbers of
its arguments, also where a statement is the same for all record types. A statement that reads or
counts records with a filter has one condition, which compares what the filter compares, one
placeholder for each literal, and its arguments are the literals in the order of these placeholders.
-/
theorem literals_are_arguments :
    (∀ q q' : Operation, q.withoutData = q'.withoutData → q.statement.text = q'.statement.text) ∧
    (∀ q : Operation, Aligned q.statement) ∧
    (Aligned stageCreate ∧ (∀ seq chunk, Aligned (stageChunk seq chunk)) ∧
      ∀ t column, Aligned (storageMode t column)) ∧
    ∀ (t : RecordType) (f : Filter) (s : Statement),
      (s = count t (some f) ∨ ∃ selection : Selection,
        selection.filter = some f ∧ s = select t selection) →
      ∃ c, (∀ c', HasCondition s c' ↔ c' = c) ∧
        c.comparisons = (f.comparisons.mapIdx fun i c => compares (i + 1) c) ∧
        s.arguments = f.comparisons.map fun c => .value c.2.2 := by
  refine ⟨?_, aligned_statement,
    ⟨aligned_stageCreate, aligned_stageChunk, aligned_storageMode⟩, ?_⟩
  · intro q q' h
    have hpieces : q.statement.pieces = q'.statement.pieces := by
      rw [← q.pieces_withoutData, h, q'.pieces_withoutData]
    rw [Statement.text, Statement.text, hpieces]
  · intro t f s hs
    have hcondition : HasCondition s (meaning 0 f) := by
      rcases hs with rfl | ⟨selection, hfilter, rfl⟩
      · exact hasCondition_count t f
      · exact hasCondition_select t hfilter
    have harguments : s.arguments = (literals f).map .value := by
      rcases hs with rfl | ⟨selection, hfilter, rfl⟩
      · rfl
      · simp [select, hfilter, whereArguments]
    refine ⟨meaning 0 f, fun c' => ⟨fun hc' => hc'.unique hcondition, ?_⟩, ?_, ?_⟩
    · rintro rfl
      exact hcondition
    · simpa using comparisons_meaning 0 f
    · rw [harguments, literals_eq_map_comparisons, List.map_map]
      rfl

/-- Two searches for files share their text, although the names of the ledger look like placeholders
and ends of statements. -/
theorem literals_are_arguments_ledger :
    let file : Path := ⟨"Ledger", "$1\"FileName", 2, .text⟩
    let number : Path := ⟨"Ledger", "Id", 0, .integer⟩
    let f (v w : Value) : Filter := .and (.comparison file .ne v) (.not (.comparison number .lt w))
    let s := count ledger (some (f (.text "$3\"") (.integer 7)))
    s.text = (count ledger (some (f (.text "' OR 1 = 1; --") (.integer 20)))).text ∧ Aligned s ∧
      ∃ c, (∀ c', HasCondition s c' ↔ c' = c) ∧
        c.comparisons =
          [(.column "$1\"FileName" (some "C"), "<>", .argument 1 "text"),
            (.column "Id" none, "<", .argument 2 "int8")] ∧
        s.arguments = [.value (.text "$3\""), .value (.integer 7)] := by
  intro file number f s
  obtain ⟨htext, haligned, -, hcondition⟩ := literals_are_arguments
  exact ⟨htext (.count ledger (some _)) (.count ledger (some _)) rfl,
    haligned (.count ledger (some _)),
    hcondition ledger (f (.text "$3\"") (.integer 7)) s (.inl rfl)⟩

end RecordService.Sql.Reading
