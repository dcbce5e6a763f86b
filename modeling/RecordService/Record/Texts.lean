import RecordService.Record.Basic

/-!
# Records from texts

Clients give the values of a record as texts by name. The texts become values of the kinds of the
attributes; what cannot be read is an error, the first one in the order of the names.

* `RecordService.Texts`: texts by name, in the order of the names.
* `RecordService.Record.ofTexts`: the record with these values.
* `RecordService.Record.text`: the text of a property.
-/

namespace RecordService

/-- Texts by name. Every name occurs once, and the names are in order. -/
structure Texts where
  entries : List (String × String)
  ordered : entries.Pairwise fun a b => a.1 < b.1

namespace Texts

/-- No texts. -/
def empty : Texts := ⟨[], .nil⟩

/-- An entry put in its place, instead of an entry with the same name. -/
def insertEntry (name text : String) : List (String × String) → List (String × String)
  | [] => [(name, text)]
  | (n, s) :: es =>
    if name < n then (name, text) :: (n, s) :: es
    else if name = n then (name, text) :: es
    else (n, s) :: insertEntry name text es

theorem mem_insertEntry {name text : String} {e : String × String} {es : List (String × String)}
    (h : e ∈ insertEntry name text es) : e = (name, text) ∨ e ∈ es := by
  fun_induction insertEntry name text es with
  | case1 => simpa using h
  | case2 n s es _ => simpa using h
  | case3 s es _ => rcases List.mem_cons.mp h with h | h <;> simp [h]
  | case4 n s es _ _ ih =>
    rcases List.mem_cons.mp h with h | h
    · simp [h]
    · rcases ih h with h | h <;> simp [h]

/-- An entry is put where its name belongs, so the entries stay in the order of their names. -/
theorem ordered_insertEntry {name text : String} {es : List (String × String)}
    (h : es.Pairwise fun a b => a.1 < b.1) :
    (insertEntry name text es).Pairwise fun a b => a.1 < b.1 := by
  fun_induction insertEntry name text es with
  | case1 => simp
  | case2 n s es hlt =>
    refine List.pairwise_cons.mpr ⟨fun e he => ?_, h⟩
    rcases List.mem_cons.mp he with rfl | he
    · exact hlt
    · exact String.lt_trans hlt ((List.pairwise_cons.mp h).1 e he)
  | case3 s es _ =>
    exact List.pairwise_cons.mpr ⟨(List.pairwise_cons.mp h).1, (List.pairwise_cons.mp h).2⟩
  | case4 n s es hlt hne ih =>
    refine List.pairwise_cons.mpr ⟨fun e he => ?_, ih (List.pairwise_cons.mp h).2⟩
    rcases mem_insertEntry he with rfl | he
    · exact String.not_le.mp fun hle => hne (String.le_antisymm (String.not_lt.mp hlt) hle).symm
    · exact (List.pairwise_cons.mp h).1 e he

/-- The texts with one more, which takes the place of a text with the same name. -/
def insert (ts : Texts) (name text : String) : Texts :=
  ⟨insertEntry name text ts.entries, ordered_insertEntry ts.ordered⟩

/-- The texts without the one with a name. -/
def erase (ts : Texts) (name : String) : Texts :=
  ⟨ts.entries.filter (·.1 != name), ts.ordered.filter _⟩

/-- The texts of a list; of two with one name the later counts. -/
def ofList (es : List (String × String)) : Texts :=
  es.foldl (fun ts e => ts.insert e.1 e.2) empty

/-- The texts with another identity. -/
def withIdentity (ts : Texts) (id : Int) : Texts := ts.insert Schema.identityName (Text.integer id)

end Texts

namespace Record

/-- The value of a property that a text stands for. The empty text stands for `null` where that is
allowed, except that a text property takes it as it is. -/
def valueOf (t : RecordType) (p : Path) (text : String) : Except RequestError Value :=
  if text.isEmpty ∧ p.kind ≠ .text then
    if t.attributes[p.index]?.any (·.nullable) then .ok .null
    else .error (.typeMismatch p.name p.kind text)
  else
    match Value.coerce p.kind text with
    | some v => .ok v
    | none => .error (.typeMismatch p.name p.kind text)

/-- The record with one more value, given as a text by name. -/
def setText (r : Record) (name text : String) : Except RequestError Record := do
  let p ← Path.resolve r.type name
  r.set p (← valueOf r.type p text)

/-- The record of a type with the values that texts stand for; what is not given is `null`. -/
def ofTexts (t : RecordType) (ts : Texts) : Except RequestError Record :=
  ts.entries.foldlM (fun r e => r.setText e.1 e.2) (empty t)

/-- The text of a property. -/
def text (r : Record) (p : Path) : Except RequestError String := Value.display <$> r.value p

end Record

end RecordService
