import RecordService.Proofs.Text.Numeral
import RecordService.Sql.Statement

/-!
# How a statement is cut into lexemes

The database reads the text of a statement character by character. A quoted identifier runs from a
double quote to the next one that is not doubled, a placeholder is a dollar sign with digits, and
words are folded to small letters. Of the operator characters only those are read that statements
use.

What has been begun is the state of the reader (`RecordService.Sql.Reading.Open`), so that a text can be read
in parts. The parts of a statement are read one by one, provided that none goes on into the next
(`RecordService.Sql.Reading.Spells.append`).

* `RecordService.Sql.Reading.Lexeme`: the lexemes.
* `RecordService.Sql.Reading.run`: reading from a state on.
* `RecordService.Sql.Reading.scan`: the lexemes of a whole text, if it can be read.
* `RecordService.Sql.Reading.Spells`: the lexemes of a part of a statement.
-/

namespace RecordService.Sql.Reading

/-- A lexeme of a statement. -/
inductive Lexeme where
  /-- A keyword or a plain identifier, in small letters. -/
  | word (s : String)
  /-- A quoted identifier, with the doubled quotes inside undone. -/
  | name (s : String)
  /-- A text between single quotes, with the doubled quotes inside undone. -/
  | constant (s : String)
  | number (s : String)
  /-- A placeholder with its number. -/
  | argument (n : Nat)
  | symbol (s : String)
deriving DecidableEq

/-- What the reader has begun. -/
inductive Open where
  | nothing
  | word (s : List Char)
  | number (s : List Char)
  | argument (digits : List Char)
  | operator (s : List Char)
  | colon
  /-- The inside of a quoted text, up to some place. -/
  | quoted (quote : Char) (s : List Char)
  /-- The same behind a quote that ends the text unless it is doubled. -/
  | closed (quote : Char) (s : List Char)
deriving DecidableEq

/-! ### Characters -/

/-- Blank characters. -/
def isSpace (c : Char) : Bool := [' ', '\t', '\n', '\x0b', '\x0c', '\r'].contains c

/-- The characters that a word may begin with. -/
def isLetter (c : Char) : Bool := c.isAlpha || c == '_' || 128 ≤ c.toNat

/-- The characters of operators. -/
def isOperator (c : Char) : Bool := ['*', '<', '>', '='].contains c

/-- The characters that are lexemes by themselves. -/
def isPunctuation (c : Char) : Bool := ['(', ')', ',', '.', ';'].contains c

/-! ### The reader -/

/-- The lexeme that has been begun, if it may end here. -/
def Open.close : Open → Option (List Lexeme)
  | nothing => some []
  | word s => some [.word (String.ofList (s.map Char.toLower))]
  | number s => some [.number (String.ofList s)]
  | argument [] => none
  | argument ds => some [.argument (Nat.ofDigitChars 10 ds 0)]
  | operator s => some [.symbol (String.ofList s)]
  | colon => none
  | quoted _ _ => none
  | closed q s => some [if q = '"' then .name (String.ofList s) else .constant (String.ofList s)]

/-- What a character begins, or the lexeme that it is. -/
def start (c : Char) : Option (List Lexeme × Open) :=
  if isSpace c then some ([], .nothing)
  else if isLetter c then some ([], .word [c])
  else if c.isDigit then some ([], .number [c])
  else if c = '$' then some ([], .argument [])
  else if c = ':' then some ([], .colon)
  else if c = '"' || c = '\'' then some ([], .quoted c [])
  else if isOperator c then some ([], .operator [c])
  else if isPunctuation c then some ([.symbol (String.singleton c)], .nothing)
  else none

/-- A character that does not continue what has been begun. -/
def Open.turn (o : Open) (c : Char) : Option (List Lexeme × Open) := do
  let ls ← o.close
  let (ms, o) ← start c
  some (ls ++ ms, o)

/-- What the next character does: the lexemes that are complete now, and what is open then. A number
is not followed by a letter immediately. -/
def Open.step : Open → Char → Option (List Lexeme × Open)
  | nothing, c => start c
  | word s, c =>
    if isLetter c || c.isDigit || c = '$' then some ([], word (s ++ [c])) else (word s).turn c
  | number s, c =>
    if c.isDigit || c = '.' then some ([], number (s ++ [c]))
    else if isLetter c then none
    else (number s).turn c
  | argument ds, c =>
    if c.isDigit then some ([], argument (ds ++ [c]))
    else if isLetter c then none
    else (argument ds).turn c
  | operator s, c => if isOperator c then some ([], operator (s ++ [c])) else (operator s).turn c
  | colon, c => if c = ':' then some ([.symbol "::"], nothing) else none
  | quoted q s, c => some ([], if c = q then closed q s else quoted q (s ++ [c]))
  | closed q s, c => if c = q then some ([], quoted q (s ++ [c])) else (closed q s).turn c

/-- Reads a text from a state on: the lexemes that it completes, and what is open at its end. -/
def run (o : Open) : List Char → Option (List Lexeme × Open)
  | [] => some ([], o)
  | c :: s => do
    let (ls, o) ← o.step c
    let (ms, o) ← run o s
    some (ls ++ ms, o)

/-- The lexemes of a text. -/
def scan (s : List Char) : Option (List Lexeme) := do
  let (ls, o) ← run .nothing s
  let ms ← o.close
  some (ls ++ ms)

@[simp] theorem step_nothing (c : Char) : Open.nothing.step c = start c := rfl

/-- Reading two texts in a row: the second is read with what the first left open. -/
theorem run_append (o : Open) (s r : List Char) :
    run o (s ++ r) = (run o s).bind fun x => (run x.2 r).map fun y => (x.1 ++ y.1, y.2) := by
  induction s generalizing o with
  | nil =>
    cases h : run o r with
    | none => simp [run, h]
    | some y => simp [run, h]
  | cons c s ih =>
    simp only [List.cons_append, run, bind]
    cases o.step c with
    | none => rfl
    | some x =>
      obtain ⟨ls, o'⟩ := x
      simp only [Option.bind_some, ih]
      cases run o' s with
      | none => rfl
      | some y =>
        obtain ⟨ms, o''⟩ := y
        simp only [Option.bind_some]
        cases run o'' r with
        | none => rfl
        | some z => simp

theorem start_of_isDigit {c : Char} (h : c.isDigit) : start c = some ([], .number [c]) := by
  have hall : ['0', '1', '2', '3', '4', '5', '6', '7', '8', '9'].all
      (fun c => start c = some ([], .number [c])) = true := by decide
  exact of_decide_eq_true (List.all_eq_true.mp hall c (Text.mem_digits h))

/-! ### Where lexemes end -/

/-- The characters that end any word, number, placeholder or quoted text in front of them. -/
def stops : List Char := [' ', ',', ')', ':']

/-- Whether a text ends any word, number, placeholder or quoted text in front of it. -/
def Ends (s : List Char) : Prop := ∀ c ∈ s.head?, c ∈ stops

/-- Whether what has been begun is complete, and the lexemes that it is then. -/
def Open.Complete (o : Open) (ls : List Lexeme) : Prop :=
  o.close = some ls ∧ ∀ c ∈ stops, o.step c = o.turn c

/-- The characters that end lexemes are in no class that goes on. -/
theorem not_of_mem_stops {p : Char → Bool} (h : stops.all (!p ·) = true) {c : Char}
    (hc : c ∈ stops) : p c = false := by
  simpa using List.all_eq_true.mp h c hc

theorem complete_nothing : Open.nothing.Complete [] := by
  refine ⟨rfl, fun c _ => ?_⟩
  cases h : start c <;> simp [Open.turn, Open.close, h]

theorem complete_word (s : List Char) :
    (Open.word s).Complete [.word (String.ofList (s.map Char.toLower))] := by
  refine ⟨rfl, fun c hc => ?_⟩
  have h : (isLetter c || c.isDigit || c = '$') = false :=
    not_of_mem_stops (p := fun c => isLetter c || c.isDigit || c = '$') (by decide) hc
  simp [Open.step, h]

theorem complete_number (s : List Char) : (Open.number s).Complete [.number (String.ofList s)] := by
  refine ⟨rfl, fun c hc => ?_⟩
  have hdigit : (c.isDigit || c = '.') = false :=
    not_of_mem_stops (p := fun c => c.isDigit || c = '.') (by decide) hc
  have hletter : isLetter c = false := not_of_mem_stops (p := isLetter) (by decide) hc
  simp [Open.step, hdigit, hletter]

theorem complete_argument {ds : List Char} (hds : ds ≠ []) :
    (Open.argument ds).Complete [.argument (Nat.ofDigitChars 10 ds 0)] := by
  refine ⟨?_, fun c hc => ?_⟩
  · cases ds with
    | nil => exact absurd rfl hds
    | cons d ds => rfl
  · have hdigit : c.isDigit = false := not_of_mem_stops (p := Char.isDigit) (by decide) hc
    have hletter : isLetter c = false := not_of_mem_stops (p := isLetter) (by decide) hc
    simp [Open.step, hdigit, hletter]

theorem complete_closed (s : List Char) :
    (Open.closed '"' s).Complete [.name (String.ofList s)] := by
  refine ⟨rfl, fun c hc => ?_⟩
  have h : decide (c = '"') = false := not_of_mem_stops (p := (· = '"')) (by decide) hc
  simp [Open.step, of_decide_eq_false h]

/-- What is complete stands for itself, and the text behind it is read as if it stood alone. So
parts that end in a complete lexeme are read apart from what follows. -/
theorem run_cons_of_complete {o : Open} {ls : List Lexeme} (ho : o.Complete ls) {c : Char}
    (hc : c ∈ stops) (s : List Char) :
    run o (c :: s) = (run .nothing (c :: s)).map fun x => (ls ++ x.1, x.2) := by
  have hturn : o.step c = (start c).map fun x => (ls ++ x.1, x.2) := by
    rw [ho.2 c hc, Open.turn, ho.1]
    cases start c <;> rfl
  simp only [run, hturn, step_nothing, bind]
  cases start c with
  | none => rfl
  | some x =>
    obtain ⟨ms, o'⟩ := x
    simp only [Option.map_some, Option.bind_some]
    cases run o' s with
    | none => rfl
    | some y => simp

/-! ### Parts of statements -/

theorem toList_render_append (ps qs : List Piece) :
    (render (ps ++ qs)).toList = (render ps).toList ++ (render qs).toList := by
  simp [render, String.join_append]

theorem toList_render_cons (p : Piece) (ps : List Piece) :
    (render (p :: ps)).toList = p.render.toList ++ (render ps).toList := by
  simp [render, String.join_cons]

theorem ends_nil : Ends (render []).toList := by simp [Ends, render]

theorem ends_fixed {s : String} (ps : List Piece)
    (hs : s.toList.head?.any (stops.contains ·) = true) :
    Ends (render (.fixed s :: ps)).toList := by
  intro c hc
  cases hhead : s.toList.head? with
  | none => simp [hhead] at hs
  | some d =>
    rw [toList_render_cons, Piece.render, List.head?_append, hhead] at hc
    obtain rfl : d = c := by simpa using hc
    simpa [hhead] using hs

/-- The text of these parts is complete in itself, and these are its lexemes. -/
def Spells (ps : List Piece) (ls : List Lexeme) : Prop :=
  ∃ ms ns o, run .nothing (render ps).toList = some (ms, o) ∧ o.Complete ns ∧ ms ++ ns = ls

/-- What a part spells is what its text is read as. -/
theorem Spells.scan {ps : List Piece} {ls : List Lexeme} (h : Spells ps ls) :
    scan (render ps).toList = some ls := by
  obtain ⟨ms, ns, o, hrun, ho, rfl⟩ := h
  simp [Reading.scan, hrun, ho.1]

theorem spells_nil : Spells [] [] := ⟨[], [], .nothing, rfl, complete_nothing, rfl⟩

/-- **Parts side by side** are read one by one if the second one ends the first. A word in front of
a blank ends there, and in front of another letter it would not. -/
theorem Spells.append {ps qs : List Piece} {ls ms : List Lexeme} (hp : Spells ps ls)
    (hq : Spells qs ms) (he : Ends (render qs).toList) : Spells (ps ++ qs) (ls ++ ms) := by
  obtain ⟨ls₁, ls₂, o, hrun, ho, rfl⟩ := hp
  obtain ⟨ms₁, ms₂, o', hrun', ho', rfl⟩ := hq
  cases hs : (render qs).toList with
  | nil =>
    -- nothing is added to what the first part leaves open
    rw [hs] at hrun'
    obtain ⟨rfl, rfl⟩ : [] = ms₁ ∧ Open.nothing = o' := by simpa [run] using hrun'
    obtain rfl : [] = ms₂ := by simpa [Open.close] using ho'.1
    exact ⟨ls₁, ls₂, o, by simp [toList_render_append, hs, hrun], ho, by simp⟩
  | cons c s =>
    have hc : c ∈ stops := he c (by simp [hs])
    rw [hs] at hrun'
    refine ⟨ls₁ ++ (ls₂ ++ ms₁), ms₂, o', ?_, ho', by simp⟩
    rw [toList_render_append, run_append, hrun, hs]
    simp [run_cons_of_complete ho hc, hrun']

/-- Parts that leave nothing open may stand in front of anything, also in front of what ends
nothing. -/
theorem Spells.append_left {ps qs : List Piece} {ls ms : List Lexeme}
    (hp : run .nothing (render ps).toList = some (ls, .nothing)) (hq : Spells qs ms) :
    Spells (ps ++ qs) (ls ++ ms) := by
  obtain ⟨ms₁, ms₂, o, hrun, ho, rfl⟩ := hq
  refine ⟨ls ++ ms₁, ms₂, o, ?_, ho, by simp⟩
  rw [toList_render_append, run_append, hp]
  simp [hrun]

theorem Spells.cons_fixed {s : String} {qs : List Piece} {ls ms : List Lexeme}
    (hs : run .nothing s.toList = some (ls, .nothing)) (hq : Spells qs ms) :
    Spells (.fixed s :: qs) (ls ++ ms) := by
  have hp : run .nothing (render [.fixed s]).toList = some (ls, .nothing) := by
    simpa [render, Piece.render] using hs
  exact hq.append_left hp

theorem spells_fixed {s : String} {ls ms : List Lexeme} {o : Open}
    (hs : run .nothing s.toList = some (ls, o)) (ho : o.Complete ms) :
    Spells [.fixed s] (ls ++ ms) :=
  ⟨ls, ms, o, by simpa [render, Piece.render] using hs, ho, rfl⟩

/-- Doubled quotes are quotes inside, so no name ends before its last character. -/
theorem run_doubled (body s : List Char) :
    run (.quoted '"' s) (body.flatMap (fun c => if c = '"' then [c, c] else [c]) ++ ['"']) =
      some ([], .closed '"' (s ++ body)) := by
  induction body generalizing s with
  | nil => simp [run, Open.step]
  | cons c body ih =>
    by_cases hc : c = '"'
    · subst hc
      simp [run, Open.step, ih]
    · simp [run, Open.step, hc, ih]

theorem run_quote (s : String) :
    run .nothing (render [.name s]).toList = some ([], .closed '"' s.toList) := by
  have hquote : (render [.name s]).toList =
      '"' :: (s.toList.flatMap (fun c => if c = '"' then [c, c] else [c]) ++ ['"']) := by
    simp [render, Piece.render, quote]
  have hstart : start '"' = some ([], .quoted '"' []) := by decide
  rw [hquote, run, step_nothing, hstart]
  simp [run_doubled]

/-- **Quoted names are names**, whatever their characters are. -/
theorem spells_name (s : String) : Spells [.name s] [.name s] :=
  ⟨[], [.name s], .closed '"' s.toList, run_quote s, by simpa using complete_closed s.toList, rfl⟩

/-- A name in front of a point leaves nothing open, as the name of a space in front of that of a
table. -/
theorem run_qualifier (s : String) :
    run .nothing (render [.name s, .fixed "."]).toList =
      some ([.name s, .symbol "."], .nothing) := by
  have hpoint : (Open.closed '"' s.toList).step '.' =
      some ([.name s, .symbol "."], .nothing) := by
    have hstart : start '.' = some ([.symbol "."], .nothing) := by decide
    simp [Open.step, Open.turn, Open.close, hstart]
  have htext : (render [.name s, .fixed "."]).toList = (render [.name s]).toList ++ ['.'] := by
    simp [render, Piece.render]
  rw [htext, run_append, run_quote]
  simp [run, hpoint]

theorem run_argument_digits {ds : List Char} (hds : ∀ c ∈ ds, c.isDigit) (s : List Char) :
    run (.argument s) ds = some ([], .argument (s ++ ds)) := by
  induction ds generalizing s with
  | nil => simp [run]
  | cons d ds ih =>
    have hd : d.isDigit := hds d (by simp)
    have h := ih (fun c hc => hds c (by simp [hc])) (s ++ [d])
    simp [run, Open.step, hd, h]

theorem run_number_digits {ds : List Char} (hds : ∀ c ∈ ds, c.isDigit) (s : List Char) :
    run (.number s) ds = some ([], .number (s ++ ds)) := by
  induction ds generalizing s with
  | nil => simp [run]
  | cons d ds ih =>
    have hd : d.isDigit := hds d (by simp)
    have h := ih (fun c hc => hds c (by simp [hc])) (s ++ [d])
    simp [run, Open.step, hd, h]

/-- Digits at the beginning of a lexeme are a number, which goes on as long as digits follow. -/
theorem run_natural (n : Nat) :
    run .nothing (Text.natural n).toList = some ([], .number (Text.natural n).toList) := by
  have hdigits : ∀ c ∈ (Text.natural n).toList, c.isDigit := by
    simpa [Text.natural] using fun c => Text.isDigit_of_mem_toDigits (n := n) (c := c)
  have hne : (Text.natural n).toList ≠ [] := by simp [Text.natural, Nat.toDigits_ne_nil]
  cases hds : (Text.natural n).toList with
  | nil => exact absurd hds hne
  | cons d ds =>
    rw [hds] at hdigits
    have hstart : start d = some ([], .number [d]) := start_of_isDigit (hdigits d (by simp))
    have hmore := run_number_digits (fun c hc => hdigits c (List.mem_cons_of_mem d hc)) [d]
    rw [run, step_nothing, hstart]
    simp [hmore]

/-- **Placeholders are arguments** with their number. -/
theorem spells_placeholder (n : Nat) : Spells [.placeholder n] [.argument n] := by
  have hcomplete := complete_argument (Nat.toDigits_ne_nil (n := n) (b := 10))
  rw [Nat.ofDigitChars_ten_toDigits] at hcomplete
  refine ⟨[], [.argument n], .argument (Nat.toDigits 10 n), ?_, hcomplete, rfl⟩
  have htext : (render [.placeholder n]).toList = '$' :: Nat.toDigits 10 n := by
    simp [render, Piece.render, Text.natural]
  have hstart : start '$' = some ([], .argument []) := by decide
  rw [htext, run, step_nothing, hstart]
  simp [run_argument_digits fun c => Text.isDigit_of_mem_toDigits]

end RecordService.Sql.Reading
