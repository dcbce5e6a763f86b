import RecordService.Proofs.Sql.Operation
import RecordService.Proofs.Sql.Statement

/-!
# How statements are put together

The text of a statement is put together from fixed texts, quoted names and placeholders. It is read
here as it is put together, part by part, in two ways: lexeme by lexeme as the database reads it,
for its placeholders, and with nothing in mind but double quotes, for its names. A name runs from a
double quote to the next one that is not doubled, whatever stands between them
(`RecordService.Sql.Reading.marks`). All statements are laid out so that no part runs into the next
one (`RecordService.Sql.Reading.laid_statement`).

* `RecordService.Sql.Reading.placeholders`: the placeholders of a list of lexemes.
* `RecordService.Sql.Reading.Mark`, `RecordService.Sql.Reading.marks`: a text as its quotes divide
  it.
* `RecordService.Sql.Reading.Laid`: the placeholders and the names of parts of a statement.
-/

namespace RecordService.Sql

namespace Reading

/-! ### Placeholders of lexemes -/

/-- The number of a placeholder. -/
def Lexeme.argument? : Lexeme → Option Nat
  | argument n => some n
  | _ => none

/-- The placeholders of a list of lexemes from left to right. -/
def placeholders (ls : List Lexeme) : List Nat := ls.filterMap Lexeme.argument?

@[simp] theorem placeholders_append (ls ms : List Lexeme) :
    placeholders (ls ++ ms) = placeholders ls ++ placeholders ms := List.filterMap_append

/-! ### Quoted names of texts -/

/-- A part of a text, as double quotes divide it. -/
inductive Mark where
  /-- A character outside of names. -/
  | plain (c : Char)
  /-- A quoted name, with the doubled quotes inside undone. -/
  | name (s : String)
deriving DecidableEq

/-- The name that a part of a text is. -/
def Mark.name? : Mark → Option String
  | plain _ => none
  | name s => some s

/-- What a part of a text is outside of names: a character, or `none` in the place of a name. -/
def Mark.outside : Mark → Option Char
  | plain c => some c
  | name _ => none

/-- The parts of a text, from the outside of names on, or from the inside of a name on of which this
much has been read. It must not end within a name. -/
def marks : Option (List Char) → List Char → Option (List Mark)
  | none, [] => some []
  | none, c :: cs =>
    if c = '"' then marks (some []) cs else (marks none cs).map (.plain c :: ·)
  | some _, [] => none
  | some s, '"' :: '"' :: cs => marks (some (s ++ ['"'])) cs
  | some s, c :: cs =>
    if c = '"' then (marks none cs).map (.name (String.ofList s) :: ·)
    else marks (some (s ++ [c])) cs

/-- A quote that is not doubled ends a name, and the text behind it is plain again. -/
theorem marks_closing (s : List Char) {cs : List Char} (h : cs.head? ≠ some '"') :
    marks (some s) ('"' :: cs) = (marks none cs).map (.name (String.ofList s) :: ·) := by
  rw [marks, if_pos rfl]
  rintro cs' - rfl
  exact h rfl

theorem marks_inside (s : List Char) {c : Char} {cs : List Char} (h : c ≠ '"') :
    marks (some s) (c :: cs) = marks (some (s ++ [c])) cs := by
  rw [marks, if_neg h]
  rintro cs' rfl -
  exact h rfl

/-- **Texts side by side** are divided one by one, unless two quotes meet between them. These would
be read as one doubled quote, which is why parts of statements do not touch with quotes. -/
theorem marks_append {o : Option (List Char)} {s r : List Char} {ms ns : List Mark}
    (hs : marks o s = some ms) (hr : marks none r = some ns)
    (h : s.getLast? = some '"' → r.head? ≠ some '"') : marks o (s ++ r) = some (ms ++ ns) := by
  -- what is required of the last character of a text is required of the same character of its rest
  have hrest {c : Char} {cs : List Char}
      (h : (c :: cs).getLast? = some '"' → r.head? ≠ some '"') :
      cs.getLast? = some '"' → r.head? ≠ some '"' := by
    intro hlast
    exact h (by simp [List.getLast?_cons, hlast])
  fun_induction marks o s generalizing ms with
  | case1 =>
    obtain rfl := Option.some.inj hs
    exact hr
  | case2 cs ih =>
    rw [List.cons_append, marks, if_pos rfl]
    exact ih hs (hrest h)
  | case3 c cs hc ih =>
    obtain ⟨ks, hks, rfl⟩ := Option.map_eq_some_iff.mp hs
    rw [List.cons_append, marks, if_neg hc, ih hks (hrest h)]
    rfl
  | case4 => cases hs
  | case5 s cs ih =>
    rw [List.cons_append, List.cons_append, marks]
    exact ih hs (hrest (hrest h))
  | case6 s cs hsingle ih =>
    obtain ⟨ks, hks, rfl⟩ := Option.map_eq_some_iff.mp hs
    have hhead : (cs ++ r).head? ≠ some '"' := by
      cases cs with
      | nil => exact h rfl
      | cons c cs =>
        intro hc
        obtain rfl : c = '"' := by simpa using hc
        exact hsingle cs rfl rfl
    rw [List.cons_append, marks_closing s hhead, ih hks (hrest h)]
    rfl
  | case7 s c cs hsingle hc ih =>
    rw [List.cons_append, marks_inside s hc]
    exact ih hs (hrest h)

theorem marks_of_notMem {s : List Char} (h : '"' ∉ s) : marks none s = some (s.map .plain) := by
  induction s with
  | nil => rfl
  | cons c s ih =>
    obtain ⟨hc, hs⟩ := not_or.mp (mt List.mem_cons.mpr h)
    rw [marks, if_neg (Ne.symm hc), ih hs]
    rfl

/-- Doubled quotes are quotes inside a name, and the quote behind them ends it. -/
theorem marks_doubled (body s : List Char) :
    marks (some s) (body.flatMap (fun c => if c = '"' then [c, c] else [c]) ++ ['"']) =
      some [.name (String.ofList (s ++ body))] := by
  induction body generalizing s with
  | nil => simp [marks]
  | cons c body ih =>
    by_cases hc : c = '"'
    · subst hc
      simp [marks, ih]
    · simp [marks_inside, hc, ih]

/-- **Quoted names are names**, whatever their characters are. -/
theorem marks_quote (s : String) : marks none (quote s).toList = some [.name s] := by
  have hquote : (quote s).toList =
      '"' :: (s.toList.flatMap (fun c => if c = '"' then [c, c] else [c]) ++ ['"']) := by
    simp [quote]
  rw [hquote, marks, if_pos rfl, marks_doubled]
  simp

/-! ### Parts of statements -/

/-- How double quotes divide the text of a part. -/
def marksOf (p : Piece) : List Mark := (marks none p.render.toList).getD []

/-- **Parts that are read part by part**, with their placeholders and their names. -/
structure Laid (ps : List Piece) (ns : List Nat) (xs : List String) : Prop where
  /-- The database reads the text, with these placeholders. -/
  spells : ∃ ls, Spells ps ls ∧ placeholders ls = ns
  /-- Double quotes divide the text as they divide its parts. -/
  marks : marks none (render ps).toList = some (ps.flatMap marksOf)
  names : (ps.flatMap marksOf).filterMap Mark.name? = xs

variable {ps qs : List Piece} {ns ms : List Nat} {xs ys : List String}

theorem toList_render (ps : List Piece) :
    (render ps).toList = ps.flatMap fun p => p.render.toList := by
  induction ps with
  | nil => simp [render]
  | cons p ps ih => rw [toList_render_cons, ih, List.flatMap_cons]

theorem laid_nil : Laid [] [] [] := ⟨⟨[], spells_nil, rfl⟩, rfl, rfl⟩

/-- **Parts side by side** are read one by one if the second one ends the first. Every statement is
put together by this lemma, so nothing is proved of whole texts. -/
theorem Laid.append (hp : Laid ps ns xs) (hq : Laid qs ms ys) (he : Ends (render qs).toList) :
    Laid (ps ++ qs) (ns ++ ms) (xs ++ ys) := by
  obtain ⟨ls, hls, rfl⟩ := hp.spells
  obtain ⟨ks, hks, rfl⟩ := hq.spells
  have hquote : (render qs).toList.head? ≠ some '"' := by
    intro h
    exact absurd (he '"' h) (by decide)
  refine ⟨⟨ls ++ ks, hls.append hks he, placeholders_append ls ks⟩, ?_, ?_⟩
  · rw [toList_render_append, marks_append hp.marks hq.marks fun _ => hquote, List.flatMap_append]
  · rw [List.flatMap_append, List.filterMap_append, hp.names, hq.names]

theorem marksOf_name (s : String) : marksOf (.name s) = [.name s] := by
  rw [marksOf, Piece.render, marks_quote]
  rfl

theorem laid_name (s : String) : Laid [.name s] [] [s] := by
  refine ⟨⟨_, spells_name s, rfl⟩, ?_, ?_⟩
  · simpa [render, Piece.render, marksOf_name] using marks_quote s
  · simp [marksOf_name, Mark.name?]

/-- Parts without quotes have no names, so only their placeholders are to be known. -/
theorem Spells.laid {ls : List Lexeme} (h : Spells ps ls)
    (hplain : ∀ p ∈ ps, '"' ∉ p.render.toList) : Laid ps (placeholders ls) [] := by
  have hmarks : ∀ p ∈ ps, marksOf p = p.render.toList.map .plain := by
    intro p hp
    rw [marksOf, marks_of_notMem (hplain p hp)]
    rfl
  have htext : ps.flatMap marksOf = (render ps).toList.map .plain := by
    rw [toList_render, List.map_flatMap]
    exact List.flatMap_congr hmarks
  refine ⟨⟨ls, h, rfl⟩, ?_, ?_⟩
  · rw [htext]
    refine marks_of_notMem ?_
    rw [toList_render, List.mem_flatMap]
    rintro ⟨p, hp, hquote⟩
    exact hplain p hp hquote
  · rw [htext, List.filterMap_map]
    exact List.filterMap_eq_nil_iff.mpr fun c _ => rfl

theorem quote_notMem_natural (n : Nat) : '"' ∉ (Text.natural n).toList := by
  intro h
  have hdigit := Text.isDigit_of_mem_toDigits (n := n) (c := '"') (by simpa [Text.natural] using h)
  exact absurd hdigit (by decide)

theorem laid_placeholder (n : Nat) : Laid [.placeholder n] [n] [] := by
  refine (spells_placeholder n).laid ?_
  intro p hp
  obtain rfl := List.mem_singleton.mp hp
  simpa [Piece.render] using quote_notMem_natural n

/-- Whether a fixed text is read for itself: it leaves nothing open at its end, and has neither
placeholders nor quotes. -/
def isPlain (s : String) : Bool :=
  !s.toList.contains '"' &&
    (run .nothing s.toList).any fun x => x.2 = .nothing && (placeholders x.1).isEmpty

/-- A fixed text that passes the test has no quotes and no placeholders. The test is computed, so
each fixed text is checked by `decide`. -/
theorem run_of_isPlain {s : String} (h : isPlain s = true) :
    '"' ∉ s.toList ∧ ∃ ls, run .nothing s.toList = some (ls, .nothing) ∧ placeholders ls = [] := by
  obtain ⟨hquote, hrun⟩ := Bool.and_eq_true_iff.mp h
  obtain ⟨⟨ls, o⟩, hls, hx⟩ := (Option.any_eq_true _ _).mp hrun
  obtain ⟨rfl, hnone⟩ : o = .nothing ∧ placeholders ls = [] := by simpa using hx
  exact ⟨by simpa using hquote, ls, hls, hnone⟩

theorem Laid.cons_fixed {s : String} (hs : isPlain s = true) (hq : Laid qs ms ys) :
    Laid (.fixed s :: qs) ms ys := by
  obtain ⟨hplain, ls, hls, hnone⟩ := run_of_isPlain hs
  obtain ⟨ks, hks, hms⟩ := hq.spells
  have hfixed := marks_of_notMem hplain
  have hpart : marksOf (.fixed s) = s.toList.map .plain := by
    rw [marksOf, Piece.render, hfixed]
    rfl
  refine ⟨⟨ls ++ ks, hks.cons_fixed hls, ?_⟩, ?_, ?_⟩
  · rw [placeholders_append, hnone, hms, List.nil_append]
  · rw [toList_render_cons, Piece.render, marks_append hfixed hq.marks, List.flatMap_cons, hpart]
    intro hlast
    exact absurd (List.mem_of_getLast? hlast) hplain
  · rw [List.flatMap_cons, List.filterMap_append, hq.names, hpart, List.filterMap_map]
    have hchars : s.toList.filterMap (Mark.name? ∘ .plain) = [] :=
      List.filterMap_eq_nil_iff.mpr fun c _ => rfl
    rw [hchars, List.nil_append]

/-- Whether a fixed text ends in a word, and has neither placeholders nor quotes. -/
def endsInWord (s : String) : Bool :=
  !s.toList.contains '"' && (run .nothing s.toList).any fun x =>
    match x with
    | (ls, .word _) => (placeholders ls).isEmpty
    | _ => false

theorem laid_word {s : String} (hs : endsInWord s = true) : Laid [.fixed s] [] [] := by
  obtain ⟨hquote, hrun⟩ := Bool.and_eq_true_iff.mp hs
  obtain ⟨⟨ls, o⟩, hls, hx⟩ := (Option.any_eq_true _ _).mp hrun
  split at hx
  · rename_i ms w heq
    obtain ⟨rfl, rfl⟩ := Prod.mk.inj heq
    have hnone : placeholders ls = [] := List.isEmpty_iff.mp hx
    have h := (spells_fixed hls (complete_word w)).laid fun p hp => by
      obtain rfl := List.mem_singleton.mp hp
      simpa [Piece.render] using hquote
    rw [placeholders_append, hnone] at h
    exact h
  · cases hx

/-- A fixed text that ends in a number, as those of windows do. -/
theorem laid_number {s : String} (hs : isPlain s = true) (n : Nat) :
    Laid [.fixed (s ++ Text.natural n)] [] [] := by
  obtain ⟨hplain, ls, hls, hnone⟩ := run_of_isPlain hs
  have h := (spells_keyword_natural hls n).laid fun p hp => by
    obtain rfl := List.mem_singleton.mp hp
    simpa [Piece.render, hplain] using quote_notMem_natural n
  rw [placeholders_append, hnone] at h
  exact h

theorem laid_tableName (t : RecordType) : Laid (tableName t) [] [t.space, t.table] := by
  have hspace := laid_name t.space
  have htable : Laid [.fixed ".", .name t.table] [] [t.table] :=
    (laid_name t.table).cons_fixed (by decide)
  have hparts : tableName t = [.name t.space] ++ [.fixed ".", .name t.table] := rfl
  -- a point does not end what stands in front of it, but it is no quote
  have hpoint : (render [.fixed ".", .name t.table]).toList.head? ≠ some '"' := by
    rw [toList_render_cons, Piece.render]
    simp
  refine ⟨⟨_, spells_tableName t, rfl⟩, ?_, ?_⟩
  · rw [hparts, toList_render_append, marks_append hspace.marks htable.marks fun _ => hpoint,
      List.flatMap_append]
  · rw [hparts, List.flatMap_append, List.filterMap_append, hspace.names, htable.names]
    rfl

/-- Items with commas between them have the placeholders and names of the items. -/
theorem laid_separated {α : Type} {f : α → List Piece} {g : α → List Nat} {x : α → List String}
    (h : ∀ a, Laid (f a) (g a) (x a)) (as : List α) :
    Laid (separated [.fixed ", "] (as.map f)) (as.flatMap g) (as.flatMap x) := by
  induction as with
  | nil => exact laid_nil
  | cons a as ih =>
    cases as with
    | nil => simpa [separated] using h a
    | cons b as =>
      have hrest := ih.cons_fixed (s := ", ") (by decide)
      simpa [separated] using (h a).append hrest (ends_fixed _ (by decide))

/-- Items without placeholders. -/
theorem laid_items {α : Type} {f : α → List Piece} {x : α → List String}
    (h : ∀ a, Laid (f a) [] (x a)) (as : List α) :
    Laid (separated [.fixed ", "] (as.map f)) [] (as.flatMap x) := by
  have hlaid := laid_separated h as
  rwa [List.flatMap_eq_nil_iff.mpr fun _ _ => rfl] at hlaid

/-- Items with a placeholder each are numbered from one on, as the arguments are. -/
theorem laid_numbered {α : Type} {f : Nat → α → List Piece} {x : α → List String}
    (h : ∀ i a, Laid (f i a) [i + 1] (x a)) (as : List α) :
    Laid (separated [.fixed ", "] (as.mapIdx f)) (List.range' 1 as.length) (as.flatMap x) := by
  have hlaid := laid_separated (fun w : α × Nat => h w.2 w.1) as.zipIdx
  have hitems : as.zipIdx.map (fun w => f w.2 w.1) = as.mapIdx f := List.mapIdx_eq_zipIdx_map.symm
  have hnumbers : as.zipIdx.flatMap (fun w => [w.2 + 1]) = List.range' 1 as.length := by
    calc as.zipIdx.flatMap (fun w => [w.2 + 1])
        = (as.zipIdx.map Prod.snd).map (1 + ·) := by
          simp only [← List.map_eq_flatMap, List.map_map, Function.comp_def, Nat.add_comm]
      _ = List.range' 1 as.length := by
          rw [List.zipIdx_map_snd, List.map_add_range']
  have hnames : as.zipIdx.flatMap (fun w => x w.1) = as.flatMap x := by
    calc as.zipIdx.flatMap (fun w => x w.1)
        = (as.zipIdx.map Prod.fst).flatMap x := by rw [List.flatMap_map]
      _ = as.flatMap x := by rw [List.zipIdx_map_fst]
  rwa [hitems, hnumbers, hnames] at hlaid

/-! ### Clauses -/

theorem laid_comparable (p : Path) : Laid (comparable p) [] (comparedNames p) := by
  have hname := laid_name p.name
  unfold comparable comparedNames
  split
  · have hcollate : run .nothing " COLLATE \"C\"".toList =
        some ([.word "collate"], .closed '"' ['C']) := by decide
    have hlaid : Laid [.fixed " COLLATE \"C\""] [] ["C"] :=
      ⟨⟨_, spells_fixed hcollate (complete_closed ['C']), rfl⟩, by decide, by decide⟩
    exact hname.append hlaid (ends_fixed _ (by decide))
  · exact hname

theorem laid_typed (n : Nat) (k : Kind) : Laid (typed n k) [n] [] := by
  have hcast : endsInWord ("::" ++ cast k) = true := by
    cases k <;> decide
  exact (laid_placeholder n).append (laid_word hcast) (ends_fixed _ (by simp [stops]))

theorem laid_closing : Laid [.fixed ")"] [] [] := laid_nil.cons_fixed (by decide)

/-- Two conditions in parentheses, with a word between them. Their placeholders and names come one
after the other. -/
theorem Laid.joined {s : String} (hp : Laid ps ns xs) (hq : Laid qs ms ys) (hs : isPlain s = true)
    (hends : s.toList.head?.any (stops.contains ·) = true) :
    Laid (.fixed "(" :: ps ++ .fixed s :: qs ++ [.fixed ")"]) (ns ++ ms) (xs ++ ys) := by
  have hopen : isPlain "(" = true := by decide
  have hinner := (hp.cons_fixed hopen).append (hq.cons_fixed hs) (ends_fixed _ hends)
  have hall := hinner.append laid_closing ends_closing
  rwa [List.append_nil, List.append_nil] at hall

/-- **The literals of a condition are numbered** from left to right, by induction on the filter: the
right side goes on where the left one ends. -/
theorem laid_condition (n : Nat) (f : Filter) :
    Laid (condition n f) (List.range' (n + 1) (literalCount f))
      (f.comparisons.flatMap (comparedNames ·.1)) := by
  -- the right one of two conditions counts on from where the left one ends
  have hcount (n a b : Nat) : List.range' (n + 1) (a + b) =
      List.range' (n + 1) a ++ List.range' (n + a + 1) b := by
    rw [Nat.add_right_comm, List.range'_append_1]
  induction f generalizing n with
  | comparison p op v =>
    have hop : isPlain (" " ++ symbol op ++ " ") = true := by
      cases op <;> decide
    have hvalue := (laid_typed (n + 1) p.kind).cons_fixed hop
    have hall := (laid_comparable p).append hvalue (ends_fixed _ (by simp [stops]))
    simpa [condition, literalCount, Filter.comparisons] using hall
  | and l r ihl ihr =>
    rw [literalCount, hcount, Filter.comparisons, List.flatMap_append]
    exact (ihl n).joined (ihr _) (by decide) (by decide)
  | or l r ihl ihr =>
    rw [literalCount, hcount, Filter.comparisons, List.flatMap_append]
    exact (ihl n).joined (ihr _) (by decide) (by decide)
  | not f ih =>
    have hinner : ∀ s, isPlain s = true → Laid (.fixed s :: condition n f) _ _ :=
      fun s hs => (ih n).cons_fixed hs
    rw [literalCount, Filter.comparisons, condition]
    split
    · exact hinner "NOT " (by decide)
    · have hclosed := (hinner "NOT (" (by decide)).append laid_closing ends_closing
      rwa [List.append_nil, List.append_nil] at hclosed

theorem laid_whereClause (f : Option Filter) :
    Laid (whereClause f) (List.range' 1 (whereArguments f).length) (filterNames f) := by
  cases f with
  | none => exact laid_nil
  | some f =>
    have hlength : (whereArguments (some f)).length = literalCount f := by simp [whereArguments]
    rw [hlength]
    exact (laid_condition 0 f).cons_fixed (by decide)

theorem laid_sortTerm (t : OrderTerm) : Laid (sortTerm t) [] (comparedNames t.path) := by
  have hwords : endsInWord (directionWords t.direction) = true := by
    cases t.direction <;> decide
  have hends : (directionWords t.direction).toList.head?.any (stops.contains ·) = true := by
    cases t.direction <;> decide
  have hall := (laid_comparable t.path).append (laid_word hwords) (ends_fixed _ hends)
  rwa [List.append_nil, List.append_nil] at hall

theorem laid_orderClause (o : Order) : Laid (orderClause o) [] (orderNames o) := by
  have hidentity : Laid [.name Schema.identityName, .fixed " ASC"] [] [Schema.identityName] :=
    (laid_name _).append (laid_word (by decide)) (ends_fixed _ (by decide))
  -- the identity is one more item of the list
  have hitem : ∀ t : Option OrderTerm,
      Laid (t.elim [.name Schema.identityName, .fixed " ASC"] sortTerm) []
        (t.elim [Schema.identityName] (comparedNames ·.path)) := by
    rintro (_ | t)
    · exact hidentity
    · exact laid_sortTerm t
  have hitems := (laid_items hitem (o.terms.map some ++ [none])).cons_fixed (s := " ORDER BY ")
    (by decide)
  simpa [orderClause, orderNames, List.flatMap_map, Function.comp_def] using hitems

theorem laid_windowClause (skip : Nat) (top : Option Nat) : Laid (windowClause skip top) [] [] := by
  have hskip :
      Laid (if 0 < skip then [.fixed (" OFFSET " ++ Text.natural skip)] else []) [] [] := by
    split
    · exact laid_number (by decide) skip
    · exact laid_nil
  unfold windowClause
  cases top with
  | none => exact laid_nil.append hskip (ends_offset skip)
  | some n => exact (laid_number (by decide) n).append hskip (ends_offset skip)

theorem laid_readColumn (a : Attribute) : Laid (readColumn a) [] [a.name, a.name] := by
  have hname := laid_name a.name
  unfold readColumn
  split
  · have hread := hname.append (hname.cons_fixed (s := ")::int8 AS ") (by decide))
      (ends_fixed _ (by decide))
    exact hread.cons_fixed (by decide)
  · have has : isPlain ("::" ++ cast a.kind ++ " AS ") = true := by
      cases a.kind <;> decide
    exact hname.append (hname.cons_fixed has) (ends_fixed _ (by simp [stops]))

theorem laid_readColumns (t : RecordType) : Laid (readColumns t) [] (readNames t) :=
  laid_items laid_readColumn t.attributes

theorem laid_returning (t : RecordType) :
    Laid (.fixed " RETURNING " :: readColumns t) [] (readNames t) :=
  (laid_readColumns t).cons_fixed (by decide)

/-- The condition on the identity has the placeholder of the identity, whose number is behind those
of the written values. -/
theorem laid_byIdentity (n : Nat) : Laid (byIdentity n) [n] [Schema.identityName] := by
  have hvalue := (laid_placeholder n).cons_fixed (s := " = ") (by decide)
  exact ((laid_name _).append hvalue (ends_fixed _ (by decide))).cons_fixed (by decide)

theorem ends_byIdentity (n : Nat) : Ends (render (byIdentity n)).toList := ends_fixed _ (by decide)

/-! ### Statements -/

/-- The name of a table behind fixed words. -/
theorem laid_table {s : String} (hs : isPlain s = true) (t : RecordType) :
    Laid (.fixed s :: tableName t) [] (tableNames t) := (laid_tableName t).cons_fixed hs

/-- All columns of a table. -/
theorem laid_readTable (t : RecordType) :
    Laid (.fixed "SELECT " :: readColumns t ++ .fixed " FROM " :: tableName t) []
      (readNames t ++ tableNames t) :=
  ((laid_readColumns t).cons_fixed (by decide)).append (laid_table (by decide) t)
    (ends_fixed _ (by decide))

theorem laid_select (t : RecordType) (s : Selection) :
    Laid (select t s).pieces (List.range' 1 (select t s).arguments.length)
      (readNames t ++ tableNames t ++ filterNames s.filter ++ orderNames s.order) := by
  have hwhere := (laid_readTable t).append (laid_whereClause s.filter) (ends_whereClause s.filter)
  have horder := hwhere.append (laid_orderClause s.order) (ends_fixed _ (by decide))
  have hall := horder.append (laid_windowClause s.skip s.top) (ends_windowClause s.skip s.top)
  rw [List.append_nil, List.append_nil, List.append_nil] at hall
  exact hall

theorem laid_count (t : RecordType) (f : Option Filter) :
    Laid (count t f).pieces (List.range' 1 (count t f).arguments.length)
      (tableNames t ++ filterNames f) :=
  (laid_table (by decide) t).append (laid_whereClause f) (ends_whereClause f)

theorem laid_selectById (t : RecordType) (id : Int) :
    Laid (selectById t id).pieces [1] (readNames t ++ tableNames t ++ [Schema.identityName]) :=
  (laid_readTable t).append (laid_byIdentity 1) (ends_byIdentity 1)

theorem laid_insert (r : Record) :
    Laid (insert r).pieces (List.range' 1 (insert r).arguments.length)
      (tableNames r.type ++ writtenNames r.type ++ readNames r.type) := by
  have hhead := laid_table (s := "INSERT INTO ") (by decide) r.type
  rw [arguments_insert, List.length_map, length_writtenValues, pieces_insert, writtenNames]
  split
  · rename_i hempty
    have hvalues := (laid_word (s := " DEFAULT VALUES") (by decide)).append (laid_returning r.type)
      (ends_fixed _ (by decide))
    rw [List.isEmpty_iff.mp hempty]
    exact hhead.append hvalues (ends_fixed _ (by decide))
  · have hcolumns := laid_items (fun a : Attribute => laid_name a.name) (writtenAttributes r.type)
    have hnumbers := laid_numbered (fun i (a : Attribute) => laid_typed (i + 1) a.kind)
      (writtenAttributes r.type)
    have hfront := hhead.append (hcolumns.cons_fixed (s := " (") (by decide))
      (ends_fixed _ (by decide))
    have hmiddle := hfront.append (hnumbers.cons_fixed (s := ") VALUES (") (by decide))
      (ends_fixed _ (by decide))
    have hall := hmiddle.append ((laid_returning r.type).cons_fixed (s := ")") (by decide))
      (ends_fixed _ (by decide))
    rw [List.flatMap_eq_nil_iff.mpr fun _ _ => rfl] at hall
    simp only [List.append_nil, ← List.map_eq_flatMap] at hall
    exact hall

theorem laid_update (r : Record) (id : Int) :
    Laid (update r id).pieces (List.range' 1 (update r id).arguments.length)
      (Operation.update r id).names := by
  rw [arguments_update, List.length_append, List.length_map, length_writtenValues, pieces_update,
    Operation.names, writtenNames, List.isEmpty_map]
  split
  · rename_i hempty
    rw [List.isEmpty_iff.mp hempty]
    exact laid_selectById r.type id
  · have hnumbers := laid_numbered (fun i (a : Attribute) => (laid_name a.name).append
      ((laid_typed (i + 1) a.kind).cons_fixed (s := " = ") (by decide)) (ends_fixed _ (by decide)))
      (writtenAttributes r.type)
    have hfront := (laid_table (s := "UPDATE ") (by decide) r.type).append
      (hnumbers.cons_fixed (s := " SET ") (by decide)) (ends_fixed _ (by decide))
    have hmiddle := hfront.append (laid_byIdentity ((writtenAttributes r.type).length + 1))
      (ends_byIdentity _)
    have hall := hmiddle.append (laid_returning r.type) (ends_fixed _ (by decide))
    have hlast : List.range' 1 ((writtenAttributes r.type).length + [identityArgument id].length) =
        List.range' 1 (writtenAttributes r.type).length ++
          [(writtenAttributes r.type).length + 1] := by
      rw [List.length_singleton, List.range'_concat, Nat.one_mul, Nat.add_comm]
    simp only [List.append_nil, ← List.map_eq_flatMap] at hall
    rw [hlast]
    exact hall

theorem laid_delete (t : RecordType) (id : Int) :
    Laid (delete t id).pieces [1] (tableNames t ++ [Schema.identityName]) :=
  (laid_table (by decide) t).append (laid_byIdentity 1) (ends_byIdentity 1)

theorem laid_lockRow (t : RecordType) (id : Int) :
    Laid (lockRow t id).pieces [1] (tableNames t ++ [Schema.identityName]) := by
  have hhead := (laid_table (s := "SELECT 1 FROM ") (by decide) t).append (laid_byIdentity 1)
    (ends_byIdentity 1)
  have hall := hhead.append (laid_word (s := " FOR UPDATE") (by decide)) (ends_fixed _ (by decide))
  rw [List.append_nil] at hall
  exact hall

theorem laid_assemble (t : RecordType) (column : String) (id : Int) :
    Laid (assemble t column id).pieces [1] (tableNames t ++ [column, Schema.identityName]) := by
  -- the staged chunks are put together by a fixed text, whose constants are empty
  have hsum : Laid [.fixed (" = COALESCE((SELECT string_agg(chunk, ''::bytea ORDER BY seq) " ++
      "FROM pg_temp.entity_rest_blob_stage), ''::bytea)")] [] [] :=
    laid_nil.cons_fixed (by decide +kernel)
  have hcolumn := (laid_name column).append hsum (ends_fixed _ (by decide))
  have hfront := (laid_table (s := "UPDATE ") (by decide) t).append
    (hcolumn.cons_fixed (s := " SET ") (by decide)) (ends_fixed _ (by decide))
  have hall := hfront.append (laid_byIdentity 1) (ends_byIdentity 1)
  rw [List.append_nil, List.append_assoc] at hall
  exact hall

theorem laid_contentLength (t : RecordType) (column : String) (id : Int) :
    Laid (contentLength t column id).pieces [1]
      (column :: tableNames t ++ [Schema.identityName]) := by
  have hcolumn := (laid_name column).cons_fixed (s := "SELECT octet_length(") (by decide)
  have hhead := hcolumn.append (laid_table (s := ")::int8 FROM ") (by decide) t)
    (ends_fixed _ (by decide))
  exact hhead.append (laid_byIdentity 1) (ends_byIdentity 1)

theorem laid_contentChunk (t : RecordType) (column : String) (offset length : Nat) (id : Int) :
    Laid (contentChunk t column offset length id).pieces [1, 2, 3]
      (column :: tableNames t ++ [Schema.identityName]) := by
  have hcolumn := (laid_name column).cons_fixed (s := "SELECT substring(") (by decide)
  have hoffset := hcolumn.append ((laid_placeholder 1).cons_fixed (s := " FROM ") (by decide))
    (ends_fixed _ (by decide))
  have hlength := hoffset.append ((laid_placeholder 2).cons_fixed (s := "::int4 FOR ") (by decide))
    (ends_fixed _ (by decide))
  have hhead := hlength.append (laid_table (s := "::int4) FROM ") (by decide) t)
    (ends_fixed _ (by decide))
  exact hhead.append (laid_byIdentity 3) (ends_byIdentity 3)

/-- **All statements are laid out part by part**: their placeholders are the numbers of their
arguments, and their names are those of the schema. -/
theorem laid_statement (q : Operation) :
    Laid q.statement.pieces (List.range' 1 q.statement.arguments.length) q.names := by
  cases q with
  | select t s => exact laid_select t s
  | count t f => exact laid_count t f
  | selectById t id => exact laid_selectById t id
  | insert r => exact laid_insert r
  | update r id => exact laid_update r id
  | delete t id => exact laid_delete t id
  | lockRow t id => exact laid_lockRow t id
  | assemble t p id => exact laid_assemble t p.name id
  | contentLength t p id => exact laid_contentLength t p.name id
  | contentChunk t p offset length id => exact laid_contentChunk t p.name offset length id

end Reading

end RecordService.Sql
