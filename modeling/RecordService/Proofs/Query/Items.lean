import RecordService.Proofs.Query.Order
import RecordService.Proofs.Text.Words

/-!
# The texts of orders

The parser of orders accepts exactly the texts whose items, between commas, are a property and
perhaps a direction, and gives a term for each of them. A printed order has items of this form
again, with one blank in front of all but the first, so it is read back as it was
(`RecordService.Order.parse_exactly`). What makes this work for properties of any name is where the
name comes from: it was a word of an item, and so it has neither blanks nor commas.

* `RecordService.Order.Item`: what an item writes.
* `RecordService.OrderTerm.Legible`: the terms that are read back from what is printed.
-/

namespace RecordService

/-! ### Directions -/

theorem Direction.isWord_keyword (d : Direction) : Text.IsWord d.keyword.toList := by
  have hall : d.keyword.toList.all (!Text.isBlank ·) = true := by cases d <;> decide
  refine ⟨by cases d <;> decide, fun c hc => ?_⟩
  simpa using List.all_eq_true.mp hall c hc

namespace Order

variable {t : RecordType} {item whole : List Char} {ws : List (List Char)} {term : OrderTerm}
  {o : Order}

theorem direction_some_eq_ok_iff {w : List Char} {d : Direction} :
    direction (some w) = .ok d ↔ w = d.keyword.toList := by
  have hne : Direction.ascending.keyword.toList ≠ Direction.descending.keyword.toList := by decide
  simp only [direction]
  split
  · next h => cases d <;> simp [h, hne]
  · next h =>
    split
    · next h' => cases d <;> simp [h', hne.symm]
    · next h' => cases d <;> simp [fault, h, h']

/-! ### Items -/

/-- A word that names a property to sort by: one of the record type, without binary content. -/
structure Names (t : RecordType) (word : List Char) (p : Path) : Prop where
  resolved : Path.resolve t (String.ofList word) = .ok p
  ne_blob : p.kind ≠ .blob

/-- **What an item writes**: a property alone, in ascending order, or a property and then a
direction. -/
inductive Item (t : RecordType) (item : List Char) : OrderTerm → Prop
  | alone {name : List Char} {p : Path} (words : Text.Splits item [name])
      (property : Names t name p) : Item t item ⟨p, .ascending⟩
  | directed {name : List Char} {p : Path} {d : Direction}
      (words : Text.Splits item [name, d.keyword.toList]) (property : Names t name p) :
      Item t item ⟨p, d⟩

/-- What becomes of the property of an item: a term, if it is a property of the record type that has
an order. -/
theorem term_eq_ok_iff {name : List Char} {d : Direction} :
    (do
      let path ← Path.resolve t (String.ofList name)
      if path.kind = .blob then
        .error (.badRequest ("cannot sort by binary property " ++ path.name))
      else .ok ⟨path, d⟩) = Except.ok term ↔ ∃ p, Names t name p ∧ term = ⟨p, d⟩ := by
  refine Outcome.bind_eq_ok_iff.trans ⟨?_, ?_⟩
  · rintro ⟨p, hp, h⟩
    split at h
    · simp at h
    · next hkind => exact ⟨p, ⟨hp, hkind⟩, (Except.ok.inj h).symm⟩
  · rintro ⟨p, hp, rfl⟩
    exact ⟨p, hp.resolved, if_neg hp.ne_blob⟩

/-- The items that are read, by their words. There are one or two of them, and a third one is a
fault. -/
theorem parseItem_eq_ok_iff :
    parseItem t whole ws = .ok term ↔ ∃ name p, Names t name p ∧
      (ws = [name] ∧ term = ⟨p, .ascending⟩ ∨
        ∃ d : Direction, ws = [name, d.keyword.toList] ∧ term = ⟨p, d⟩) := by
  rcases ws with _ | ⟨name, _ | ⟨w, _ | ⟨extra, ws⟩⟩⟩
  · simp [parseItem, fault]
  · -- without a second word the direction is the default
    refine Iff.trans (term_eq_ok_iff (d := .ascending)) ?_
    simp
  · refine Outcome.bind_eq_ok_iff.trans ?_
    simp only [List.head?_cons, direction_some_eq_ok_iff, List.drop_succ_cons, List.drop_zero,
      term_eq_ok_iff]
    constructor
    · rintro ⟨d, rfl, p, hp, rfl⟩
      exact ⟨name, p, hp, .inr ⟨d, rfl, rfl⟩⟩
    · rintro ⟨_, p, hp, ⟨⟨⟩, -⟩ | ⟨d, ⟨⟩, rfl⟩⟩
      exact ⟨d, rfl, p, hp, rfl⟩
  · refine Outcome.bind_eq_ok_iff.trans ?_
    simp [fault]

/-- **Items are read by what they write.** The blanks around the words do not matter. -/
theorem parseItem_words_eq_ok_iff :
    parseItem t whole (Text.words item) = .ok term ↔ Item t item term := by
  rw [parseItem_eq_ok_iff]
  constructor
  · rintro ⟨name, p, hp, ⟨hws, rfl⟩ | ⟨d, hws, rfl⟩⟩
    · exact .alone (Text.splits_iff.mpr hws) hp
    · exact .directed (Text.splits_iff.mpr hws) hp
  · intro h
    cases h with
    | alone hws hp => exact ⟨_, _, hp, .inl ⟨Text.splits_iff.mp hws, rfl⟩⟩
    | directed hws hp => exact ⟨_, _, hp, .inr ⟨_, Text.splits_iff.mp hws, rfl⟩⟩

/-! ### Whole orders -/

/-- A blank text is the empty order, as no text is. -/
theorem parse_of_blank {text : Option String} (h : Text.Blank (text.getD "").toList) :
    parse t text = .ok {} :=
  if_pos (by rw [Text.trimBlank_eq_nil_iff.mpr h]; rfl)

/-- A text that is not blank is read item by item. The terms are in the order of the items, and no
item is passed over. -/
theorem parse_eq_ok_iff {text : Option String} (h : ¬Text.Blank (text.getD "").toList) :
    parse t text = .ok o ↔
      List.Forall₂ (Item t) ((text.getD "").toList.splitOn ',') o.terms := by
  have htrim : ¬(Text.trimBlank (text.getD "").toList).isEmpty = true := by
    rwa [List.isEmpty_iff, Text.trimBlank_eq_nil_iff]
  rw [parse, if_neg htrim]
  refine Outcome.bind_eq_ok_iff.trans ?_
  simp only [Outcome.mapM_eq_ok_iff, parseItem_words_eq_ok_iff]
  constructor
  · rintro ⟨terms, hterms, ⟨⟩⟩
    exact hterms
  · exact fun hterms => ⟨o.terms, hterms, rfl⟩

/-- A text that is not blank is read if all of its items can be, so one item that cannot be read
refuses the whole text. -/
theorem exists_parse_iff {text : Option String} (h : ¬Text.Blank (text.getD "").toList) :
    (∃ o, parse t text = .ok o) ↔
      ∀ item ∈ (text.getD "").toList.splitOn ',', ∃ term, Item t item term := by
  constructor
  · rintro ⟨o, ho⟩ item hitem
    have hterms := (parse_eq_ok_iff h).mp ho
    obtain ⟨i, hi, rfl⟩ := List.getElem_of_mem hitem
    exact ⟨_, hterms.get hi (hterms.length_eq ▸ hi)⟩
  · intro hitems
    obtain ⟨terms, hterms⟩ := Outcome.exists_mapM
      (f := fun item => parseItem t [] (Text.words item))
      fun item hitem => (hitems item hitem).imp fun _ => parseItem_words_eq_ok_iff.mpr
    simp only [Outcome.mapM_eq_ok_iff, parseItem_words_eq_ok_iff] at hterms
    exact ⟨⟨terms⟩, (parse_eq_ok_iff h).mpr hterms⟩

end Order

/-! ### Printed orders -/

/-- The text of a term. -/
def OrderTerm.text (term : OrderTerm) : List Char :=
  term.path.name.toList ++ ' ' :: term.direction.keyword.toList

/-- Whether a term is read back from its text, also in front of a comma: its property is a word
without commas, and leads back to itself. -/
structure OrderTerm.Legible (t : RecordType) (term : OrderTerm) : Prop where
  word : Text.IsWord term.path.name.toList
  comma : ',' ∉ term.path.name.toList
  property : Order.Names t term.path.name.toList term.path

namespace Order

variable {t : RecordType} {item : List Char} {term : OrderTerm} {o : Order}

/-- What an item without commas writes is legible. A property whose name has a comma cannot be
written, since the comma would end the item. -/
theorem Item.legible (h : Item t item term) (hcomma : ',' ∉ item) : term.Legible t := by
  -- in both forms the first word is the name of the property
  obtain ⟨name, hword, hmem, hp⟩ : ∃ name, Text.IsWord name ∧ (∀ c ∈ name, c ∈ item) ∧
      Names t name term.path := by
    cases h with
    | alone hws hp => exact ⟨_, (hws.mem List.mem_cons_self).1, (hws.mem List.mem_cons_self).2, hp⟩
    | directed hws hp =>
      exact ⟨_, (hws.mem List.mem_cons_self).1, (hws.mem List.mem_cons_self).2, hp⟩
  obtain ⟨hname, -⟩ := Path.resolve_eq_ok hp.resolved
  obtain rfl : term.path.name.toList = name := by rw [hname, String.toList_ofList]
  exact ⟨hword, fun hc => hcomma (hmem ',' hc), hp⟩

/-- A legible term is written by its text, also behind blanks, as they stand behind a comma. -/
theorem item_text (h : term.Legible t) {gap : List Char} (hgap : Text.Blank gap) :
    Item t (gap ++ term.text) term := by
  have hblank : Text.Blank [' '] := by decide
  have hws := Text.splits_pair hgap h.word hblank (by simp) term.direction.isWord_keyword
  rw [List.append_assoc] at hws
  exact .directed hws h.property

theorem comma_notMem_text (h : term.Legible t) : ',' ∉ term.text := by
  have hkeyword : ',' ∉ term.direction.keyword.toList := by
    cases term.direction <;> decide
  simp [OrderTerm.text, h.comma, hkeyword]

/-- The blank that is printed behind a comma belongs to the item that follows. -/
theorem intercalate_comma_blank (first : List Char) (items : List (List Char)) :
    [',', ' '].intercalate (first :: items) =
      [','].intercalate (first :: items.map fun item => ' ' :: item) := by
  induction items generalizing first with
  | nil => simp
  | cons item items ih =>
    rw [List.map_cons, List.intercalate_cons_cons, List.intercalate_cons_cons, ih]
    cases items with
    | nil => simp
    | cons next items => simp [List.intercalate_cons_cons]

/-- The text of an order consists of the texts of its terms, with commas between them. -/
theorem toList_render (term : OrderTerm) (terms : List OrderTerm) :
    (render ⟨term :: terms⟩).toList =
      [','].intercalate (term.text :: (terms.map OrderTerm.text).map fun item => ' ' :: item) := by
  have htext (term : OrderTerm) :
      (term.path.name ++ " " ++ term.direction.keyword).toList = term.text := by
    simp [OrderTerm.text]
  rw [render, String.toList_intercalate, List.map_map]
  simp only [Function.comp_def, htext]
  exact intercalate_comma_blank term.text (terms.map OrderTerm.text)

/-- **The text of an order has the items of its terms**, where these are legible: no text of a term
has a comma, so the text is split where it was put together. -/
theorem forall₂_item_render {terms : List OrderTerm} (hterm : term.Legible t)
    (hterms : ∀ other ∈ terms, other.Legible t) :
    List.Forall₂ (Item t) ((render ⟨term :: terms⟩).toList.splitOn ',') (term :: terms) := by
  rw [toList_render, List.splitOn_intercalate ',' ?_ (List.cons_ne_nil _ _)]
  · refine .cons (item_text hterm Text.blank_nil) ?_
    rw [List.map_map, List.forall₂_map_left_iff, List.forall₂_same]
    have hgap : Text.Blank [' '] := by decide
    exact fun other hother => item_text (hterms other hother) hgap
  · intro item hitem
    rcases List.mem_cons.mp hitem with rfl | hitem
    · exact comma_notMem_text hterm
    · simp only [List.map_map, List.mem_map, Function.comp_apply] at hitem
      obtain ⟨other, hother, rfl⟩ := hitem
      simp [comma_notMem_text (hterms other hother)]

/-- What is printed of a legible term is not blank, so it is not taken for the empty order. -/
theorem not_blank_render {terms : List OrderTerm} (hterm : term.Legible t) :
    ¬Text.Blank (render ⟨term :: terms⟩).toList := by
  obtain ⟨c, name, hname⟩ := List.exists_cons_of_ne_nil hterm.word.ne_nil
  have hc := hterm.word.isBlank c (hname ▸ List.mem_cons_self)
  obtain ⟨rest, hrest⟩ : ∃ rest, (render ⟨term :: terms⟩).toList = c :: rest := by
    rw [toList_render, OrderTerm.text, hname]
    cases terms with
    | nil => simp
    | cons other terms => simp [List.intercalate_cons_cons]
  intro hblank
  rw [hrest] at hblank
  simp [hblank c List.mem_cons_self] at hc

/-- The terms of an order that was read are legible, since an item between commas has none. -/
theorem legible_of_parse {text : Option String} (ho : parse t text = .ok o) :
    ∀ term ∈ o.terms, term.Legible t := by
  by_cases h : Text.Blank (text.getD "").toList
  · rw [parse_of_blank h] at ho
    obtain rfl := Except.ok.inj ho
    simp
  · have hitems := (parse_eq_ok_iff h).mp ho
    intro term hterm
    obtain ⟨i, hi, rfl⟩ := List.getElem_of_mem hterm
    have hi' := hitems.length_eq ▸ hi
    exact (hitems.get hi' hi).legible (Text.not_mem_of_mem_splitOn (List.getElem_mem hi'))

/-- **Orders are read exactly, and read back from what is printed of them.** A blank text is the
empty order. Any other text is an order if each of its items between commas writes a term: it
consists of a property that is not binary, and perhaps a direction. The order has these terms, one
for each item. The printed text of an order that was read is that order again. -/
theorem parse_exactly (t : RecordType) (text : Option String) :
    let whole := (text.getD "").toList
    (Text.Blank whole → parse t text = .ok {}) ∧
      (¬Text.Blank whole →
        ((∃ o, parse t text = .ok o) ↔ ∀ item ∈ whole.splitOn ',', ∃ term, Item t item term) ∧
        ∀ o, parse t text = .ok o ↔ List.Forall₂ (Item t) (whole.splitOn ',') o.terms) ∧
      ∀ o, parse t text = .ok o → parse t (some o.render) = .ok o := by
  refine ⟨parse_of_blank, fun h => ⟨exists_parse_iff h, fun o => parse_eq_ok_iff h⟩, fun o ho => ?_⟩
  have hlegible := legible_of_parse ho
  obtain ⟨_ | ⟨term, terms⟩⟩ := o
  · exact parse_of_blank (by decide)
  · obtain ⟨hterm, hterms⟩ := List.forall_mem_cons.mp hlegible
    refine (parse_eq_ok_iff ?_).mpr (forall₂_item_render hterm hterms)
    exact not_blank_render hterm

/-- Properties that are called like the directions. -/
def compass : RecordType where
  name := "Compass"
  space := "public"
  table := "Compass"
  attributes := [
    { name := "Id", kind := .integer, nullable := false, sidecar := none, target := none },
    { name := "asc", kind := .decimal, nullable := true, sidecar := none, target := none },
    { name := "größe#", kind := .text, nullable := true, sidecar := none, target := none }]
  identity := 0

/-- The first word of an item is a property, whatever it is called; any blanks separate words. -/
example : (parse compass (some " asc desc,\u3000größe#\tasc ,asc")).map render =
    .ok "asc desc, größe# asc, asc asc" := by decide +kernel

end Order

end RecordService
