import RecordService.Proofs.Sql.Ordering
import RecordService.Proofs.Sql.Statement
import RecordService.Proofs.Store.Listing

/-!
# Listings mean the same in statements

The sort clause of a statement names the terms of the order, each with the place of `null`, and then
the identity. Since identities differ, only one order of the rows agrees with it, whatever order the
database keeps its rows in: the one that the store in memory brings them in
(`RecordService.Sql.Reading.answers_select_iff`).

* `RecordService.Sql.Reading.presentation`: what the sort clause and the window are read as.
* `RecordService.Sql.Reading.compareRows_items`: the order of two rows by the items that are read.
-/

namespace RecordService.Sql.Reading

/-! ### The sort clause of an order -/

/-- The item that a term of an order is read as. -/
def item (term : OrderTerm) : SortItem where
  operand := .column term.path.name (if term.path.kind = .text then some "C" else none)
  descending := term.direction = .descending
  nullsFirst := term.direction = .descending

/-- The item behind those of an order. -/
def identityItem : SortItem where
  operand := .column Schema.identityName none
  descending := false
  nullsFirst := false

/-- What the sort clause and the window of a selection are read as. -/
def presentation (s : Selection) : Presentation where
  items := s.order.terms.map item ++ [identityItem]
  window := { limit := s.top, offset := s.skip }

theorem sortItem?_sortLexemes (term : OrderTerm) (rest : List Lexeme) :
    sortItem? (sortLexemes term ++ rest) = some (item term, rest) := by
  unfold sortLexemes columnLexemes item
  split <;> cases term.direction <;> rfl

/-- **Orders are read as they are meant**, if no comma and no word on the place of `null` follows. -/
theorem readsItems_order (terms : List OrderTerm) {rest : List Lexeme}
    (hcomma : rest.head? ≠ some (.symbol ",")) (hnulls : nulls false rest = (false, rest)) :
    ReadsItems (commaLexemes (terms.map sortLexemes ++ [[.name Schema.identityName, .word "asc"]]) ++
      rest) (terms.map item ++ [identityItem]) rest := by
  induction terms with
  | nil =>
    refine .last ?_ hcomma
    have hdirection : sortItem? (.name Schema.identityName :: .word "asc" :: rest) =
        some (⟨.column Schema.identityName none, false, (nulls false rest).1⟩,
          (nulls false rest).2) := rfl
    rw [List.map_nil, List.nil_append, commaLexemes, List.cons_append, List.cons_append,
      List.nil_append, hdirection, hnulls]
    rfl
  | cons term terms ih =>
    rw [List.map_cons, List.cons_append, List.map_cons, List.cons_append,
      commaLexemes_cons _ (by simp), List.append_assoc, List.cons_append]
    exact .more (sortItem?_sortLexemes term _) ih

theorem count?_natural (n : Nat) : (Lexeme.number (Text.natural n)).count? = some n := by
  simp [Lexeme.count?, Text.natural, Text.digits?_toDigits]

theorem window?_windowLexemes (skip : Nat) (top : Option Nat) :
    window? (windowLexemes skip top) = some { limit := top, offset := skip } := by
  unfold windowLexemes
  rcases Nat.eq_zero_or_pos skip with rfl | hskip
  · cases top with
    | none => rfl
    | some n => simp [window?, count?_natural]
  · cases top with
    | none => simp [window?, count?_natural, hskip]
    | some n => simp [window?, count?_natural, hskip]

/-! ### The statement of a selection -/

/-- The words of a condition. No name is taken for one, since names are lexemes of their own. -/
theorem word_of_mem_conditionLexemes {n : Nat} {f : Filter} {w : String}
    (h : .word w ∈ conditionLexemes n f) :
    w ∈ ["and", "or", "not", "collate"] ∨ ∃ k, w = cast k := by
  induction f generalizing n with
  | comparison p op v =>
    simp only [conditionLexemes, columnLexemes, List.cons_append, List.mem_cons, List.mem_append,
      reduceCtorEq, Lexeme.word.injEq, List.not_mem_nil, or_false, false_or] at h
    rcases h with h | rfl
    · split at h
      · exact .inl (by simpa using Or.inr (Or.inr (Or.inr h)))
      · simp at h
    · exact .inr ⟨p.kind, rfl⟩
  | and l r ihl ihr =>
    simp only [conditionLexemes, List.cons_append, List.mem_cons, List.mem_append, reduceCtorEq,
      Lexeme.word.injEq, List.not_mem_nil, or_false, false_or] at h
    rcases h with h | rfl | h
    · exact ihl h
    · exact .inl (by simp)
    · exact ihr h
  | or l r ihl ihr =>
    simp only [conditionLexemes, List.cons_append, List.mem_cons, List.mem_append, reduceCtorEq,
      Lexeme.word.injEq, List.not_mem_nil, or_false, false_or] at h
    rcases h with h | rfl | h
    · exact ihl h
    · exact .inl (by simp)
    · exact ihr h
  | not f ih =>
    unfold conditionLexemes at h
    split at h
    · rcases List.mem_cons.mp h with h | h
      · exact .inl (by simp_all)
      · exact ih h
    · simp only [List.cons_append, List.mem_cons, List.mem_append, reduceCtorEq,
        Lexeme.word.injEq, List.not_mem_nil, or_false, false_or] at h
      rcases h with rfl | h
      · exact .inl (by simp)
      · exact ih h

/-- The first `ORDER` is that of the sort clause, whatever the columns and the filter are named. -/
theorem order_notMem (t : RecordType) (f : Option Filter) :
    .word "order" ∉ selectHead t ++ whereLexemes f := by
  intro h
  rcases List.mem_append.mp h with h | h
  · rcases word_of_mem_selectHead h with h | ⟨k, h⟩
    · exact absurd h (by decide)
    · exact ne_cast (by decide) k h
  · cases f with
    | none => simp [whereLexemes] at h
    | some f =>
      have h : .word "order" ∈ conditionLexemes 0 f := by simpa [whereLexemes] using h
      rcases word_of_mem_conditionLexemes h with h | ⟨k, h⟩
      · exact absurd h (by decide)
      · exact ne_cast (by decide) k h

/-- The window ends the sort clause: what follows it is neither a comma nor a word on the place of
`null`. -/
theorem windowLexemes_stop (skip : Nat) (top : Option Nat) :
    (windowLexemes skip top).head? ≠ some (.symbol ",") ∧
      nulls false (windowLexemes skip top) = (false, windowLexemes skip top) := by
  unfold windowLexemes
  cases top with
  | none =>
    by_cases hskip : 0 < skip
    · rw [if_pos hskip]
      exact ⟨by simp, rfl⟩
    · rw [if_neg hskip]
      exact ⟨by simp, rfl⟩
  | some n => exact ⟨by simp, rfl⟩

theorem hasPresentation_select (t : RecordType) (s : Selection) :
    HasPresentation (select t s) (presentation s) := by
  obtain ⟨hcomma, hnulls⟩ := windowLexemes_stop s.skip s.top
  refine ⟨_, _, _, (spells_select t s).scan, ?_, readsItems_order s.order.terms hcomma hnulls,
    window?_windowLexemes s.skip s.top⟩
  rw [List.append_assoc, orderLexemes, List.cons_append, dropWhile_word (order_notMem t s.filter)]
  rfl

/-! ### The order of rows -/

section

variable {t : RecordType} {arguments : List Argument} {a b : List Value}

/-- The operand of the item of a term has the value that the term sorts by, and texts are collated
by their bytes. -/
theorem typed_item (arguments : List Argument) {term : OrderTerm}
    (hp : Path.resolve t term.path.name = .ok term.path) (ha : t.Row a) :
    ∃ v, (item term).operand.typed t a arguments = some v ∧ v.value = term.value a ∧
      ¬(v.type = "text" ∧ v.collation ≠ some "C") := by
  obtain ⟨-, -, -, column, hcolumn, -⟩ := Path.resolve_eq_ok hp
  refine ⟨_, typed_column hp (ha.getElem?_eq hcolumn), rfl, ?_⟩
  rintro ⟨htext, hne⟩
  rw [columnType_eq_cast] at htext
  exact hne (if_pos (kind_of_cast_eq_text htext))

/-- **A term orders rows as its item does.** The directions agree, and so does the place of `null`,
which is last when ascending and first when descending in both. -/
theorem compare_item {term : OrderTerm} (hp : Path.resolve t term.path.name = .ok term.path)
    (ha : t.Row a) (hb : t.Row b) :
    (item term).compare t arguments a b = some (term.compare a b) := by
  obtain ⟨-, -, -, column, hcolumn, -⟩ := Path.resolve_eq_ok hp
  obtain ⟨v, hv, hvalue, hcollated⟩ := typed_item arguments hp ha
  obtain ⟨w, hw, hother, -⟩ := typed_item arguments hp hb
  have hsuits : v.value.Suits column.kind := hvalue ▸ ha.suits hcolumn
  have hsuits' : w.value.Suits column.kind := hother ▸ hb.suits hcolumn
  rw [OrderTerm.compare_eq, ← hvalue, ← hother]
  simp only [SortItem.compare, hv, hw, bind, Option.bind_some, hcollated, if_false]
  -- both sides place `null` before they compare any values
  rcases eq_or_ne v.value .null with hnull | hnull
  · rcases eq_or_ne w.value .null with hnull' | hnull'
    · rw [hnull, hnull']
      cases term.direction <;> rfl
    · rw [hnull, Value.isNull_eq_false hnull', Value.sortCompare_null_left hnull']
      cases hd : term.direction <;> simp [item, hd, Value.isNull]
  · rcases eq_or_ne w.value .null with hnull' | hnull'
    · rw [hnull', Value.isNull_eq_false hnull, Value.sortCompare_null_right hnull]
      cases hd : term.direction <;> simp [item, hd, Value.isNull]
    · rw [Value.isNull_eq_false hnull, Value.isNull_eq_false hnull',
        Value.sortCompare_of_ne hnull hnull', Value.compare_eq_some hsuits hsuits' hnull hnull']
      cases hd : term.direction <;> simp [item, hd]

theorem compare_identityItem {d : Schema.Document} {r : Registry}
    (hd : Registry.ofDocument d = .ok r) (ht : t ∈ r.types) {i j : Int}
    (hi : a[t.identity]? = some (.integer i)) (hj : b[t.identity]? = some (.integer j)) :
    identityItem.compare t arguments a b = some (compare i j) := by
  obtain ⟨column, hcolumn, -, hkind⟩ := (Registry.resolved_of_ofDocument hd).identity t ht
  have hindex := Registry.index?_identity hd ht
  simp [SortItem.compare, identityItem, Operand.typed, hindex, hcolumn, hi, hj, hkind, columnType,
    Value.isNull, Value.compare]

/-- **The items order rows as the order does**, and then by identity. The last item is the one that
the statement adds to every order. -/
theorem compareRows_items {d : Schema.Document} {r : Registry}
    (hd : Registry.ofDocument d = .ok r) (ht : t ∈ r.types) (ha : t.Row a) (hb : t.Row b) {i j : Int}
    (hi : a[t.identity]? = some (.integer i)) (hj : b[t.identity]? = some (.integer j))
    {terms : List OrderTerm}
    (hterms : ∀ term ∈ terms, Path.resolve t term.path.name = .ok term.path) :
    compareRows t arguments (terms.map item ++ [identityItem]) a b =
      some ((Order.compare ⟨terms⟩ a b).then (compare i j)) := by
  induction terms with
  | nil =>
    have hidentity : identityItem.compare t arguments a b = some (compare i j) :=
      compare_identityItem hd ht hi hj
    simp only [List.map_nil, List.nil_append, compareRows, hidentity, bind, Option.bind_some]
    cases compare i j <;> rfl
  | cons term terms ih =>
    obtain ⟨hterm, hrest⟩ := List.forall_mem_cons.mp hterms
    simp only [List.map_cons, List.cons_append, compareRows, compare_item hterm ha hb, ih hrest,
      Order.compare_cons, bind, Option.bind_some]
    cases term.compare a b <;> rfl

/-- Of two rows with different identities, one comes before the other if it is not greater. There
are no ties to leave to the database. -/
theorem precedes_iff_compareRows {d : Schema.Document} {r : Registry}
    (hd : Registry.ofDocument d = .ok r) (ht : t ∈ r.types) (ha : t.Row a) (hb : t.Row b) {i j : Int}
    (hi : a[t.identity]? = some (.integer i)) (hj : b[t.identity]? = some (.integer j))
    (hij : i ≠ j) {o : Order} (ho : o.Suits t)
    (hterms : ∀ term ∈ o.terms, Path.resolve t term.path.name = .ok term.path) :
    Order.Precedes t o.terms a b ↔
      ∃ c, compareRows t arguments (o.terms.map item ++ [identityItem]) a b = some c ∧ c ≠ .gt := by
  rw [compareRows_items hd ht ha hb hi hj hterms, Order.precedes_iff ha hb hi hj ho]
  simp only [Option.some.injEq, exists_eq_left']
  cases o.compare a b with
  | lt => simp
  | gt => simp
  | eq =>
    have hle : compare i j ≠ .gt ↔ i < j := by
      rw [ne_eq, Int.compare_eq_gt]
      omega
    simp [hle]

/-- **Rows are in the order of a query exactly if the items of its sort clause agree.** Identities
differ, in whatever order the rows are. -/
theorem pairwise_precedes_iff {d : Schema.Document} {r : Registry}
    (hd : Registry.ofDocument d = .ok r) (ht : t ∈ r.types) {table : Table}
    (hascending : (table.rows.map Prod.fst).Pairwise (· < ·)) (htyped : table.Typed t) {o : Order}
    (ho : o.Suits t) (hterms : ∀ term ∈ o.terms, Path.resolve t term.path.name = .ok term.path)
    {f : Option Filter} {l : List (List Value)} (hperm : l.Perm (table.kept f)) :
    l.Pairwise (Order.Precedes t o.terms) ↔ l.Pairwise fun a b =>
      ∃ c, compareRows t arguments (o.terms.map item ++ [identityItem]) a b = some c ∧ c ≠ .gt := by
  -- the identities differ in the table, and so they do in any order of its rows
  have hdistinct : l.Pairwise fun a b => a[t.identity]? ≠ b[t.identity]? := by
    refine (hperm.pairwise_iff fun h => h.symm).mpr ?_
    refine (Table.pairwise_kept hascending htyped).imp ?_
    rintro a b ⟨i, j, hi, hj, hlt⟩ heq
    rw [hi, hj] at heq
    cases heq
    exact absurd hlt (Int.lt_irrefl _)
  have hiff : ∀ a ∈ l, ∀ b ∈ l, a[t.identity]? ≠ b[t.identity]? →
      (Order.Precedes t o.terms a b ↔ ∃ c,
        compareRows t arguments (o.terms.map item ++ [identityItem]) a b = some c ∧ c ≠ .gt) := by
    intro a ha b hb hne
    obtain ⟨hrow, i, hi⟩ := Table.typed_of_mem_kept htyped (hperm.subset ha)
    obtain ⟨hother, j, hj⟩ := Table.typed_of_mem_kept htyped (hperm.subset hb)
    have hij : i ≠ j := by
      rintro rfl
      exact hne (hi.trans hj.symm)
    exact precedes_iff_compareRows hd ht hrow hother hi hj hij ho hterms
  constructor
  · intro h
    refine (h.and hdistinct).imp_of_mem ?_
    rintro a b ha hb ⟨hab, hne⟩
    exact (hiff a ha b hb hne).mp hab
  · intro h
    refine (h.and hdistinct).imp_of_mem ?_
    rintro a b ha hb ⟨hab, hne⟩
    exact (hiff a ha b hb hne).mpr hab

end

/-! ### Answers -/

/-- The rows that the store in memory answers with: a window on the sorted rows. -/
theorem map_values_select {m : Memory} {t : RecordType} (htyped : (m.table t.name).Typed t)
    (s : Selection) :
    (m.select t s).map Record.values =
      (presentation s).window.shown ((m.table t.name).sorted s.filter s.order) := by
  have hshown : ∀ l : List (List Value), window s.skip s.top l = (presentation s).window.shown l := by
    intro l
    unfold window Window.shown presentation
    cases s.top <;> rfl
  have hmem : ∀ a ∈ window s.skip s.top ((m.table t.name).sorted s.filter s.order),
      a ∈ (m.table t.name).kept s.filter := by
    intro a ha
    have hsorted : a ∈ (m.table t.name).sorted s.filter s.order := by
      unfold window at ha
      split at ha
      · exact List.mem_of_mem_drop (List.mem_of_mem_take ha)
      · exact List.mem_of_mem_drop ha
    exact List.mem_mergeSort.mp hsorted
  rw [Memory.select_eq, List.map_map, ← hshown]
  conv_rhs => rw [← List.map_id (window _ _ _)]
  refine List.map_congr_left fun a ha => ?_
  exact Record.values_ofValues_of_row (Table.typed_of_mem_kept htyped (hmem a ha)).1

/-- **Listings mean the same in statements.** For every order that was read for a record type, every
filter and every window, the statement has one sort clause and window. Over the rows that the filter
accepts, in whatever order the database keeps them, it has exactly one answer: the records that the
store in memory answers with when it has these rows. -/
theorem answers_select_iff {d : Schema.Document} {r : Registry}
    (hd : Registry.ofDocument d = .ok r) {t : RecordType} (ht : t ∈ r.types) {text : Option String}
    {o : Order} (ho : Order.parse t text = .ok o) (filter : Option Filter) (skip : Nat)
    (top : Option Nat) {m : Memory}
    (hascending : ((m.table t.name).rows.map Prod.fst).Pairwise (· < ·))
    (htyped : (m.table t.name).Typed t) {rows : List (List Value)}
    (hrows : rows.Perm ((m.table t.name).rows.map (·.2.values))) :
    let s : Selection := { filter, order := o, skip, top }
    ∃ p, (∀ p', HasPresentation (select t s) p' ↔ p' = p) ∧
      ∀ answer, p.Answers t (select t s).arguments (rows.filter (passes filter)) answer ↔
        answer = (m.select t s).map Record.values := by
  intro s
  have hpresentation := hasPresentation_select t s
  have hsuits := Order.suits_of_parse ho
  have hresolved : ∀ term ∈ o.terms, Path.resolve t term.path.name = .ok term.path :=
    fun term hterm => (Order.resolved_of_parse ho term hterm).1
  have hkept : (rows.filter (passes filter)).Perm ((m.table t.name).kept filter) := hrows.filter _
  refine ⟨presentation s, fun p => ⟨fun h => h.unique hpresentation, fun h => h ▸ hpresentation⟩,
    fun answer => ?_⟩
  rw [map_values_select htyped]
  -- an answer shows sorted rows, and there is only one way to sort them
  constructor
  · rintro ⟨sorted, hperm, hsorted, rfl⟩
    have hperm := hperm.trans hkept
    have hprecedes :=
      (pairwise_precedes_iff hd ht hascending htyped hsuits hresolved hperm).mpr hsorted
    rw [Table.eq_sorted hascending htyped hsuits hperm hprecedes]
  · rintro rfl
    have hperm : ((m.table t.name).sorted filter o).Perm ((m.table t.name).kept filter) :=
      List.mergeSort_perm _ _
    have hprecedes := Table.pairwise_sorted (f := filter) hascending htyped hsuits
    exact ⟨_, hperm.trans hkept.symm,
      (pairwise_precedes_iff hd ht hascending htyped hsuits hresolved hperm).mp hprecedes, rfl⟩

/-- Whatever order the database keeps five photos in, it answers with the two of equal names. -/
theorem answers_select_shelf :
    ∃ p, HasPresentation (select Memory.photo { order := Records.byName, skip := 2, top := some 2 }) p ∧
      ∀ answer, p.Answers Memory.photo [] [[.integer 5, .null, .text "b"],
          [.integer 3, .null, .text "a"], [.integer 1, .null, .text "b"],
          [.integer 2, .null, .null], [.integer 4, .null, .text "b"]] answer ↔
        answer = [[.integer 4, .null, .text "b"], [.integer 5, .null, .text "b"]] := by
  have halbum : Registry.ofDocument Memory.album = .ok ⟨[Memory.photo]⟩ := rfl
  have hascending : (((Memory.run Records.shelf).memory.table Memory.photo.name).rows.map
      Prod.fst).Pairwise (· < ·) := by
    rw [Records.rows_shelf]
    decide
  have hrows : List.Perm [[.integer 5, .null, .text "b"], [.integer 3, .null, .text "a"],
      [.integer 1, .null, .text "b"], [.integer 2, .null, .null], [.integer 4, .null, .text "b"]]
      (((Memory.run Records.shelf).memory.table Memory.photo.name).rows.map (·.2.values)) := by
    rw [Records.rows_shelf]
    decide
  obtain ⟨p, hp, hanswers⟩ := answers_select_iff halbum (List.mem_singleton_self _)
    Records.parse_byName none 2 (some 2) hascending Records.typed_shelf hrows
  have hselect : ((Memory.run Records.shelf).memory.select Memory.photo
      { order := Records.byName, skip := 2, top := some 2 }).map Record.values =
        [[.integer 4, .null, .text "b"], [.integer 5, .null, .text "b"]] := by
    rw [Memory.select_eq, Records.sorted_shelf]
    rfl
  refine ⟨p, (hp p).mpr rfl, fun answer => ?_⟩
  rw [← hselect]
  exact hanswers answer

end RecordService.Sql.Reading
