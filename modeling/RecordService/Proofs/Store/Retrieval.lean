import RecordService.Proofs.Query.Canonical
import RecordService.Proofs.Record.Texts
import RecordService.Proofs.Store.Effect
import RecordService.Proofs.Store.Listing

/-!
# What is written can be found

A text that is given for an attribute of a new record goes through the mapping of texts to values,
and a literal of a filter goes through the scanner and the parser. Where the text is a literal of
the kind of the attribute, both read it as the same value, and this value is equal to itself in the
order of values. So the filter that compares the attribute with the text finds the record
(`RecordService.Records.saved_is_found`).

* `RecordService.Filter.IsLiteral`: the texts that are literals of a kind.
* `RecordService.Filter.literalText`: how they are written in a filter.
* `RecordService.Filter.parse_comparison`: a filter of one comparison.
-/

namespace RecordService

/-! ### Literals -/

namespace Filter

/-- The texts that are literals of a kind. -/
def IsLiteral : Kind → String → Prop
  | .text, _ => True
  | .dateTime, s => s ≠ ""
  | .integer, s => Numeral s.toList
  | .reference, s => Numeral s.toList
  | .decimal, s => Numeral s.toList
  | .boolean, s => s = "true" ∨ s = "false"
  | .blob, _ => False

/-- A literal of a kind as it stands in a filter: texts and moments are quoted. -/
def literalText : Kind → String → String
  | .text, s => quoteText s
  | .dateTime, s => quoteText s
  | _, s => s

/-- A literal is not empty, except that a text may be. An empty text for another kind means that
there is no value. -/
theorem IsLiteral.not_isEmpty {k : Kind} {s : String} (h : IsLiteral k s) :
    ¬(s.isEmpty ∧ k ≠ .text) := by
  rintro ⟨hempty, hk⟩
  obtain rfl := String.isEmpty_iff.mp hempty
  have hnumeral : ¬Numeral "".toList := by
    rintro ⟨sign, whole, fraction, htext, -, hwhole, -⟩
    simp [hwhole.1] at htext
  cases k with
  | text => exact hk rfl
  | dateTime => exact h rfl
  | boolean => rcases h with h | h <;> exact absurd h (by decide)
  | blob => exact h
  | integer => exact hnumeral h
  | decimal => exact hnumeral h
  | reference => exact hnumeral h

theorem IsLiteral.ne_blob {k : Kind} {s : String} (h : IsLiteral k s) : k ≠ .blob := by
  rintro rfl
  exact h

/-- **Literals are tokens** for the value that their text stands for. -/
theorem IsLiteral.writes {p : Path} {s : String} {v : Value} (h : IsLiteral p.kind s)
    (hv : Value.coerce p.kind s = some v) :
    ∃ k : TokenKind, k.Lexical ∧ k.text = (literalText p.kind s).toList ∧ Writes p k v := by
  cases hk : p.kind with
  | text => exact ⟨.quoted s, trivial, rfl, .quoted (.inl hk) hv⟩
  | dateTime => exact ⟨.quoted s, trivial, rfl, .quoted (.inr hk) hv⟩
  | integer =>
    rw [hk] at h
    exact ⟨.number s, isNumber_iff_numeral.mpr h, rfl, .number (.inl hk) hv⟩
  | decimal =>
    rw [hk] at h
    exact ⟨.number s, isNumber_iff_numeral.mpr h, rfl, .number (.inr (.inl hk)) hv⟩
  | reference =>
    rw [hk] at h
    exact ⟨.number s, isNumber_iff_numeral.mpr h, rfl, .number (.inr (.inr hk)) hv⟩
  | boolean =>
    rw [hk] at h hv
    rcases h with rfl | rfl
    · obtain rfl : .boolean true = v := by simpa [Value.coerce, Value.readBoolean?] using hv
      exact ⟨.word "true", TokenKind.lexical_word (by decide), rfl, .true hk⟩
    · obtain rfl : .boolean false = v := by simpa [Value.coerce, Value.readBoolean?] using hv
      exact ⟨.word "false", TokenKind.lexical_word (by decide), rfl, .false hk⟩
  | blob =>
    rw [hk] at h
    exact h.elim

/-- **A filter of one comparison** is read as it is written. -/
theorem parse_comparison {t : RecordType} {s literal : String} {p : Path} (op : Comparison)
    {k : TokenKind} {v : Value} (hword : (TokenKind.word s).Lexical) (hname : s ∉ reserved)
    (hp : Path.resolve t s = .ok p) (hk : k.Lexical) (htext : k.text = literal.toList)
    (hv : Writes p k v) :
    parse t (some (s ++ " " ++ op.keyword ++ " " ++ literal)) =
      .ok (some (.comparison p op v)) := by
  have hkinds : Token.kinds (s ++ " " ++ op.keyword ++ " " ++ literal).toList =
      .ok [.word s, .word op.keyword, k] := by
    have hliteral := Token.kinds_text_append hk Token.ends_nil
    have hop := Token.kinds_word (lexical_keyword op) k.text
    have hall := Token.kinds_word hword (op.keyword.toList ++ ' ' :: k.text)
    rw [List.append_nil, Token.kinds_nil] at hliteral
    rw [hop, hliteral] at hall
    simpa [htext] using hall
  obtain ⟨ts, hts, hmap⟩ := Token.kinds_eq_ok_iff.mp hkinds
  have hne : ts ≠ [] := by
    rintro rfl
    simp at hmap
  have hderives : Derives t .disjunction (ts.map Token.kind) (.comparison p op v) 0 := by
    rw [hmap]
    exact .conjunction (.operand (.comparison hname hp hv))
  rw [parse_of_scan hts hne, ofTokens_eq_ok_iff.mpr ⟨0, Nat.zero_le _, hderives⟩]
  rfl

end Filter

/-! ### Values -/

/-- A value that a text stands for is equal to itself. Decimals from texts are numbers, so the
exception does not arise. -/
theorem Value.compare_self {k : Kind} {v : Value} (h : v.Readable k) : v.compare v = some .eq := by
  cases v with
  | null => cases k <;> exact h.elim
  | blob n => cases k <;> exact h.elim
  | decimal d =>
    have hnumber : d.isNaN = false := by
      have hfinite : d.magnitude < Decimal.infinityBits := by
        cases k with
        | decimal => simpa [Readable, Decimal.isFinite] using h
        | _ => exact h.elim
      simpa [Decimal.isNaN] using Nat.le_of_lt hfinite
    simp [Value.compare, Decimal.compare, hnumber]
  | integer n => exact congrArg some Std.ReflCmp.compare_self
  | reference n => exact congrArg some Std.ReflCmp.compare_self
  | text s => exact congrArg some Std.ReflCmp.compare_self
  | boolean b => exact congrArg some Std.ReflCmp.compare_self
  | dateTime t =>
    have hself : t.compare t = .eq := Std.ReflCmp.compare_self
    exact congrArg some hself

/-! ### Records -/

/-- The value of a record for a literal that was given for one of its attributes. -/
theorem Record.Holds.literal {d : Schema.Document} {r : Registry}
    (hd : Registry.ofDocument d = .ok r) {t : RecordType} (ht : t ∈ r.types)
    {es : List (String × String)} {x : Record} (hx : Holds t es x)
    {a : Attribute} (ha : a ∈ t.attributes) {text : String} (hgiven : (a.name, text) ∈ es)
    (htext : Filter.IsLiteral a.kind text) :
    ∃ p v, Path.resolve t a.name = .ok p ∧ p.kind = a.kind ∧ t.attributes[p.index]? = some a ∧
      Value.coerce a.kind text = some v ∧ x.values[p.index]? = some v := by
  obtain ⟨p, v, hp, hv, hvalue⟩ := hx.given a.name text hgiven
  have hindex := Path.getElem?_of_resolve hd ht ha hp
  obtain ⟨-, -, -, b, hb, -, hkind⟩ := Path.resolve_eq_ok hp
  obtain rfl : a = b := Option.some.inj (hindex.symm.trans hb)
  refine ⟨p, v, hp, hkind.symm, hb, ?_, hvalue⟩
  rw [Record.valueOf, ← hkind, if_neg htext.not_isEmpty] at hv
  split at hv
  · rename_i w hw
    rw [hw, Except.ok.inj hv]
  · simp at hv

namespace Memory

/-- A new row has the values of the record, except for the identity and binary content, which a
literal is not given for. -/
theorem accepts_freshValues {x : Record} {p : Path} {v : Value} {a : Attribute}
    (ha : x.type.attributes[p.index]? = some a) (hidentity : x.type.identity ≠ p.index)
    (hblob : a.kind ≠ .blob) (hx : x.values[p.index]? = some v) (hv : v.compare v = some .eq)
    (id : Int) : (Filter.comparison p .eq v).accepts (freshValues x id) := by
  have hfresh : (freshValues x id)[p.index]? = some v := by
    rw [getElem?_freshValues ha hidentity, if_neg hblob, hx]
  simp [Filter.accepts, Filter.evaluate, hfresh, hv, Comparison.test]

/-- A new record is among those that pass a filter if its values pass it, whatever the order:
without bounds, nothing that passes is cut off. -/
theorem mem_select_insert (m : Memory) {x : Record} {f : Filter} (o : Order)
    (hf : ∀ id, f.accepts (freshValues x id)) :
    (m.insert x).1 ∈ (m.insert x).2.select x.type { filter := some f, order := o } := by
  have hrows : ((m.insert x).2.table x.type.name).rows = (m.table x.type.name).rows ++
      [((m.table x.type.name).lastId + 1,
        ⟨freshValues x ((m.table x.type.name).lastId + 1),
          List.replicate x.type.attributes.length none⟩)] := by
    rw [insert, table_withTable, if_pos rfl]
    rfl
  refine List.mem_map_of_mem (List.mem_mergeSort.mpr ?_)
  rw [List.mem_filter, hrows]
  refine ⟨?_, hf _⟩
  rw [List.map_append]
  exact List.mem_append_right _ (List.mem_singleton.mpr rfl)

end Memory

namespace Records

/-- A record that is saved as a new one is inserted. So what is known of inserts applies to the
state behind the save. -/
theorem eq_insert_of_save {x saved : Record} (hnew : x.id = none) {m m' : Memory}
    (h : (save (m := StateM Memory) x).run.run m = (.ok saved, m')) : m.insert x = (saved, m') := by
  rcases run_save x m with ⟨e, he⟩ | ⟨-, ⟨-, hinsert⟩ | ⟨id, _, _, hid, -⟩⟩
  · cases he.symm.trans h
  · cases hinsert.symm.trans h
    rfl
  · cases hnew.symm.trans hid

/-- **What is written can be found.** A new record is saved that was made from texts, one of which
is a literal for its attribute. Then the filter that compares the attribute with this literal is
accepted, and in the state that the record was saved to, the query with this filter answers with the
record among others, in any order. -/
theorem saved_is_found {d : Schema.Document} {r : Registry} (hd : Registry.ofDocument d = .ok r)
    {t : RecordType} (ht : t ∈ r.types) {a : Attribute} (ha : a ∈ t.attributes)
    (hidentity : a.isIdentity = false) (hname : Filter.isIdentifier a.name)
    (hunreserved : a.name ∉ ["and", "or", "not"]) {text : String}
    (htext : Filter.IsLiteral a.kind text) {ts : Texts} (hgiven : (a.name, text) ∈ ts.entries)
    {x : Record} (hx : Record.ofTexts t ts = .ok x) (hnew : x.id = none) {m m' : Memory}
    {saved : Record} (hsaved : (save (m := StateM Memory) x).run.run m = (.ok saved, m')) :
    ∃ f, Filter.parse t (some (a.name ++ " eq " ++ Filter.literalText a.kind text)) = .ok (some f) ∧
      ∀ (orderText : Option String) (o : Order), Order.parse t orderText = .ok o →
        ∃ answers,
          (find (m := StateM Memory) t none none (some f) o).run.run m' = (.ok answers, m') ∧
          saved ∈ answers := by
  have hholds := Record.holds_of_ofTexts hx
  obtain ⟨p, v, hp, hkind, hindex, hcoerce, hvalue⟩ := hholds.literal hd ht ha hgiven htext
  rw [← hkind] at htext hcoerce ⊢
  -- the literal is read as the value of the record
  obtain ⟨k, hk, hktext, hwrites⟩ := htext.writes hcoerce
  have hparse : Filter.parse t (some (a.name ++ " eq " ++ Filter.literalText p.kind text)) =
      .ok (some (.comparison p .eq v)) := by
    have hspaces : a.name ++ " eq " = a.name ++ " " ++ Comparison.eq.keyword ++ " " := by
      simp only [String.append_assoc]
      rfl
    rw [hspaces]
    exact Filter.parse_comparison .eq (Filter.lexical_of_isIdentifier hname) hunreserved hp hk
      hktext hwrites
  -- and the record that is stored has this value
  have hne : t.identity ≠ p.index := by
    intro heq
    have hid : a.isIdentity := (Registry.isIdentity_iff hd ht hindex).mpr heq.symm
    rw [hidentity] at hid
    cases hid
  have haccepts := Memory.accepts_freshValues (hholds.type ▸ hindex) (hholds.type ▸ hne)
    (hkind ▸ htext.ne_blob) hvalue (Value.compare_self (Value.readable_of_coerce hcoerce))
  have hinsert := eq_insert_of_save hnew hsaved
  refine ⟨_, hparse, ?_⟩
  intro orderText o ho
  refine ⟨m'.select t { filter := some (.comparison p .eq v), order := o }, ?_, ?_⟩
  · rw [run_find, selection_of_nonneg (checkFilter_of_parse hparse) (checkOrder_of_parse ho)]
    · rfl
    · rintro n (h | h) <;> cases h
  · have hmem := Memory.mem_select_insert m o haccepts
    rwa [hinsert, hholds.type] at hmem

/-- A file name with a quote is found by its literal, in which the quote is doubled. -/
theorem saved_is_found_photo :
    let x : Record := ⟨Memory.photo, [.null, .null, .text "O'Brien.png"], rfl⟩
    let m := (Memory.run Memory.photo.calls).memory
    ∃ saved m' f answers, (save (m := StateM Memory) x).run.run m = (.ok saved, m') ∧
      Filter.parse Memory.photo (some "PictureFileName eq 'O''Brien.png'") = .ok (some f) ∧
      (find (m := StateM Memory) Memory.photo none none (some f) {}).run.run m' =
        (.ok answers, m') ∧
      saved ∈ answers := by
  intro x m
  have halbum : Registry.ofDocument Memory.album = .ok ⟨[Memory.photo]⟩ := rfl
  have hx : Record.ofTexts Memory.photo
      ⟨[("PictureFileName", "O'Brien.png")], List.pairwise_singleton _ _⟩ = .ok x := rfl
  have hsaved : (save (m := StateM Memory) x).run.run m =
      (.ok (m.insert x).1, (m.insert x).2) := rfl
  obtain ⟨f, hparse, hfind⟩ := saved_is_found halbum (List.mem_singleton_self _)
    (a := ⟨"PictureFileName", .text, true, none, none⟩) (by decide) (by decide) (by decide)
    (by decide) trivial (List.mem_singleton_self _) hx rfl hsaved
  obtain ⟨answers, hanswers, hmem⟩ := hfind none {} rfl
  exact ⟨_, _, f, answers, hsaved, hparse, hanswers, hmem⟩

end Records

end RecordService
