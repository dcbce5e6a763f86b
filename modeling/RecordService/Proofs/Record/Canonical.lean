import RecordService.Proofs.Calendar.Text
import RecordService.Proofs.Decimal.Text
import RecordService.Proofs.Query.Literal
import RecordService.Proofs.Record.Acceptance
import RecordService.Proofs.Store.Saving

/-!
# Canonical texts

A value can have many texts, and one of them is written. Reading the written text gives the value
again: the spellings of numbers and truth values, the forms of moments and the empty text that clears
an attribute settle after one pass. So a record that was made from texts is made again from the texts
that it shows for the same names (`RecordService.Record.retells_ofTexts`).

* `RecordService.Value.coerce_display`: a value is read back from its written text.
* `RecordService.Attribute.Takes.display`: so an attribute takes the written text for the value.
* `RecordService.Record.shown`: the text that a record shows for a name.
* `RecordService.Record.Retells`: texts that show the values of a record.
-/

namespace RecordService

namespace Value

variable {k : Kind} {s : String} {v : Value}

/-- A value that a kind can have is read back from its written text, by one case for each kind. -/
theorem coerce_display_of_readable (h : v.Readable k) : coerce k v.display = some v := by
  cases k with
  | integer =>
    cases v with
    | integer n => simp [coerce, display, Text.readInteger?_integer h.1 h.2]
    | _ => exact h.elim
  | reference =>
    cases v with
    | reference n => simp [coerce, display, Text.readInteger?_integer h.1 h.2]
    | _ => exact h.elim
  | decimal =>
    cases v with
    | decimal d =>
      have hfinite : d.isFinite := h
      have hread : Decimal.read? (d.render Decimal.plain) = some d :=
        Decimal.read?_render (.inl rfl) hfinite
      simp [coerce, display, hread, hfinite]
    | _ => exact h.elim
  | text =>
    cases v with
    | text s => rfl
    | _ => exact h.elim
  | boolean =>
    cases v with
    | boolean b => cases b <;> decide
    | _ => exact h.elim
  | dateTime =>
    cases v with
    | dateTime t => simp [coerce, display, DateTime.read?_render]
    | _ => exact h.elim
  | blob => cases v <;> exact h.elim

/-- **A value is read back from its written text**, however it was spelled before. So showing a
record and reading it again settles in one step. -/
theorem coerce_display (h : coerce k s = some v) : coerce k v.display = some v :=
  coerce_display_of_readable (readable_of_coerce h)

/-- Decimals that are read are finite numbers, so they equal themselves. -/
theorem isNaN_of_readable {d : Decimal} (h : (decimal d).Readable k) : d.isNaN = false := by
  cases k with
  | decimal =>
    have hfinite : d.magnitude < Decimal.infinityBits := by simpa [Readable, Decimal.isFinite] using h
    simpa [Decimal.isNaN] using hfinite.le
  | _ => exact h.elim

/-- Only texts can be empty. For other kinds an empty text stands for `null`. -/
theorem coerce_empty (h : k ≠ .text) : coerce k "" = none := by
  cases k with
  | text => exact absurd rfl h
  | _ => decide

end Value

/-- **An attribute takes the written text of a value for this value**, if it took any text for it. -/
theorem Attribute.Takes.display {a : Attribute} {s : String} {v : Value} (h : a.Takes s v) :
    a.Takes v.display v := by
  cases h with
  | cleared hnullable hkind => exact .cleared hnullable hkind
  | read _ hread =>
    have hback := Value.coerce_display hread
    refine .read ?_ hback
    by_cases hkind : a.kind = .text
    · exact .inr hkind
    · refine .inl fun hempty => ?_
      rw [hempty, Value.coerce_empty hkind] at hback
      simp at hback

namespace Record

variable {t : RecordType} {ts us : Texts} {r : Record}

/-- The text that a record shows for a name. -/
def shown (r : Record) (name : String) : Except RequestError String := do
  r.text (← Path.resolve r.type name)

/-- Whether some texts are those that a record shows for the names of other texts. -/
structure Retells (r : Record) (ts us : Texts) : Prop where
  names : us.entries.map (·.1) = ts.entries.map (·.1)
  texts : ∀ n s, (n, s) ∈ us.entries → r.shown n = .ok s

/-- The record shows a text for each name that it was made from: that of the value at its place. -/
theorem shown_of_names {n : String} {i : Nat} {a : Attribute} {v : Value} (hn : r.type.Names n i a)
    (hv : r.values[i]? = some v) : r.shown n = .ok v.display := by
  have hresolve := RecordType.resolve_of_names hn
  have howns := owns_of_resolve hresolve
  simp only [shown, hresolve, bind, Except.bind, text, value, if_pos howns,
    List.getD_eq_getElem?_getD, hv, Option.getD_some]
  rfl

/-- Every name that a record was made from has a text again, as names were resolved when it was
made. -/
theorem exists_retells (h : ofTexts t ts = .ok r) : ∃ us, r.Retells ts us := by
  have hshown : ∀ n s, (n, s) ∈ ts.entries → ∃ v, r.shown n = .ok (Value.display v) := by
    obtain ⟨rfl, hgiven⟩ := taken_of_ofTexts h
    intro n s hmem
    obtain ⟨i, a, v, hn, -, hv⟩ := hgiven n s hmem
    exact ⟨v, shown_of_names hn hv⟩
  refine ⟨⟨ts.entries.map fun e => (e.1, (r.shown e.1).toOption.getD ""),
    List.pairwise_map.mpr ts.ordered⟩, by simp, ?_⟩
  intro n s hmem
  obtain ⟨e, he, heq⟩ := List.mem_map.mp hmem
  obtain ⟨rfl, rfl⟩ := Prod.mk.inj heq
  obtain ⟨v, hv⟩ := hshown e.1 e.2 he
  simp [hv, Except.toOption]

/-- The record is made again from what it shows. Names without a text stay `null`, as they were. -/
theorem Retells.ofTexts (h : Record.ofTexts t ts = .ok r) (hr : r.Retells ts us) :
    Record.ofTexts t us = .ok r := by
  obtain ⟨rfl, hgiven⟩ := taken_of_ofTexts h
  refine ofTexts_eq_ok rfl (fun n s hmem => ?_) fun i hi hother => ?_
  · have hname : n ∈ ts.entries.map (·.1) := hr.names ▸ List.mem_map_of_mem hmem
    obtain ⟨⟨_, u⟩, hu, rfl⟩ := List.mem_map.mp hname
    obtain ⟨i, a, v, hn, hv, hvalue⟩ := hgiven _ u hu
    obtain rfl := Except.ok.inj ((shown_of_names hn hvalue).symm.trans (hr.texts _ s hmem))
    exact ⟨i, a, v, hn, hv.display, hvalue⟩
  · refine null_of_ofTexts h hi fun n s a hmem => ?_
    have hname : n ∈ us.entries.map (·.1) := hr.names ▸ List.mem_map_of_mem hmem
    obtain ⟨⟨_, u⟩, hu, rfl⟩ := List.mem_map.mp hname
    exact hother _ u a hu

/-- A record from texts equals itself, as it has no decimal that is not a number. -/
theorem same_self_of_ofTexts (h : ofTexts t ts = .ok r) : r.same r := by
  have hholds := holds_of_ofTexts h
  refine same_self fun d hd => ?_
  obtain ⟨i, hi, hvalue⟩ := List.mem_iff_getElem.mp hd
  have hlt : i < t.attributes.length := by rwa [r.length_values, hholds.type] at hi
  have hread := hholds.readable (List.getElem?_eq_getElem hlt)
    (List.getElem?_eq_some_iff.mpr ⟨hi, hvalue⟩)
  exact Value.isNaN_of_readable (hread.resolve_left (by simp))

/-- **Texts settle after one pass.** A text that is coerced to a value is written in a form that is
coerced to the same one, and a record that was made from texts is made again, equal to itself, from
the texts that it shows. -/
theorem retells_ofTexts :
    (∀ (k : Kind) (s : String) (v : Value), Value.coerce k s = some v →
      Value.coerce k v.display = some v) ∧
    ∀ (t : RecordType) (ts : Texts) (r : Record), ofTexts t ts = .ok r →
      (∃ us, r.Retells ts us) ∧ ∀ us, r.Retells ts us →
        ofTexts t us = .ok r ∧ r.same r ∧ r.Retells us us := by
  refine ⟨fun k s v => Value.coerce_display, fun t ts r h => ⟨exists_retells h, fun us hr => ?_⟩⟩
  exact ⟨hr.ofTexts h, same_self_of_ofTexts h, rfl, hr.texts⟩

/-- Visits, with an attribute of most kinds. -/
def visit : RecordType where
  name := "Visit"
  space := "public"
  table := "Visit"
  attributes := [
    { name := "Id", kind := .integer, nullable := false, sidecar := none, target := none },
    { name := "Begun", kind := .dateTime, nullable := false, sidecar := none, target := none },
    { name := "Fee", kind := .decimal, nullable := true, sidecar := none, target := none },
    { name := "Note", kind := .text, nullable := true, sidecar := none, target := none },
    { name := "Paid", kind := .boolean, nullable := true, sidecar := none, target := none }]
  identity := 0

/-- A visit from half a second into a leap second on, as a client may write it. -/
def visit.spelled : Texts where
  entries := [("Begun", "2017-01-01T00:59:60.5+01:00"), ("Fee", "+12.50e0"), ("Id", "+07"),
    ("Note", ""), ("Paid", "TRUE")]
  ordered := by decide

/-- The same visit as it is shown. -/
def visit.shown : Texts where
  entries := [("Begun", "2016-12-31T23:59:60.500"), ("Fee", "12.5"), ("Id", "7"), ("Note", ""),
    ("Paid", "true")]
  ordered := by decide

/-- What is shown of the visit is read as the same visit. -/
theorem retells_ofTexts_visit :
    ∃ r, ofTexts visit visit.spelled = .ok r ∧ r.Retells visit.spelled visit.shown ∧
      ofTexts visit visit.shown = .ok r ∧ r.same r ∧
      Value.coerce .boolean "true" = some (.boolean true) := by
  have htexts : ∀ e ∈ visit.shown.entries,
      (ofTexts visit visit.spelled).bind (·.shown e.1) = .ok e.2 := by
    decide +kernel
  obtain ⟨hvalues, hrecords⟩ := retells_ofTexts
  cases hr : ofTexts visit visit.spelled with
  | error e =>
    have hnone := htexts _ (List.mem_cons_self ..)
    rw [hr] at hnone
    cases hnone
  | ok r =>
    rw [hr] at htexts
    have hretells : r.Retells visit.spelled visit.shown := ⟨rfl, fun n s => htexts (n, s)⟩
    obtain ⟨hagain, hsame, -⟩ := (hrecords visit visit.spelled r hr).2 visit.shown hretells
    exact ⟨r, rfl, hretells, hagain, hsame, hvalues .boolean "TRUE" (.boolean true) (by decide)⟩

end Record

end RecordService
