import RecordService.Proofs.Query.Parser
import RecordService.Proofs.Query.Token
import RecordService.Proofs.Schema.Registry
import RecordService.Proofs.Text.Numeral

/-!
# Accepted filters are well-typed

Every comparison of a filter that the parser answers with names an attribute of the record type, by a
word that is a property in its own right, and compares it with a value that some text stands for
under the kind of the attribute (`RecordService.Filter.wellTyped_of_parse`).

* `RecordService.Filter.Every`: what holds of every comparison of a filter.
* `RecordService.Filter.Fits`: a property and a literal that can be compared with it.
-/

namespace RecordService

/-! ### Paths -/

theorem Registry.resolve_eq_ok {reg : Registry} {name : String} {t : RecordType}
    (h : reg.resolve name = .ok t) : t ∈ reg.types ∧ t.name = name := by
  unfold Registry.resolve at h
  split at h
  · next u hu =>
    obtain rfl := Except.ok.inj h
    exact ⟨List.mem_of_find?_eq_some hu, eq_of_beq (List.find?_some hu :)⟩
  · simp at h

/-- **What a path leads to**: the attribute with its name, whose position and kind it takes along.
-/
theorem Path.resolve_eq_ok {t : RecordType} {s : String} {p : Path}
    (h : Path.resolve t s = .ok p) :
    p.name = s ∧ p.entity = t.name ∧ t.index? s = some p.index ∧
      ∃ a, t.attributes[p.index]? = some a ∧ a.name = s ∧ a.kind = p.kind := by
  unfold Path.resolve at h
  dsimp only at h
  split at h
  · rename_i q hq
    obtain rfl : q = p := Except.ok.inj h
    split at hq
    · simp only [bind, Option.bind_eq_some_iff] at hq
      obtain ⟨i, hindex, a, ha, hq⟩ := hq
      have hname : a.name = s := by
        obtain ⟨hlt, hs, -⟩ := List.findIdx?_eq_some_iff_getElem.mp hindex
        obtain ⟨_, rfl⟩ := List.getElem?_eq_some_iff.mp ha
        exact eq_of_beq hs
      cases hq
      exact ⟨hname, rfl, hindex, a, ha, hname, rfl⟩
    · simp at hq
  · simp at h

/-- A word that leads nowhere is refused as it is, with the name of the record type in which it was
looked for. -/
theorem Path.resolve_eq_error {t : RecordType} {s : String} {e : RequestError}
    (h : Path.resolve t s = .error e) : e = .unresolvable t.name s := by
  unfold Path.resolve at h
  dsimp only at h
  split at h
  · simp at h
  · exact (Except.error.inj h).symm

/-- The attributes of a document are told apart by their names, so the path of an attribute leads to
it and not to an earlier one of the same name. -/
theorem Path.getElem?_of_resolve {d : Schema.Document} {r : Registry}
    (hd : Registry.ofDocument d = .ok r) {t : RecordType} (ht : t ∈ r.types) {a : Attribute}
    (ha : a ∈ t.attributes) {p : Path} (hp : Path.resolve t a.name = .ok p) :
    t.attributes[p.index]? = some a := by
  obtain ⟨-, -, -, b, hb, hname, -⟩ := Path.resolve_eq_ok hp
  obtain rfl : b = a :=
    List.inj_on_of_nodup_map (Registry.nodup_attributes hd ht) (List.mem_of_getElem? hb) ha hname
  exact hb

/-! ### Values from texts -/

/-- The values that texts stand for under a kind. -/
def Value.Readable : Kind → Value → Prop
  | .integer, .integer n => Text.minInteger ≤ n ∧ n ≤ Text.maxInteger
  | .reference, .reference n => Text.minInteger ≤ n ∧ n ≤ Text.maxInteger
  | .decimal, .decimal d => d.isFinite
  | .text, .text _ => True
  | .boolean, .boolean _ => True
  | .dateTime, .dateTime _ => True
  | _, _ => False

/-- What a text is coerced to is a value that some text of the kind stands for. -/
theorem Value.readable_of_coerce {k : Kind} {s : String} {v : Value}
    (h : Value.coerce k s = some v) : v.Readable k := by
  cases k with
  | integer =>
    obtain ⟨n, hn, rfl⟩ := Option.map_eq_some_iff.mp h
    exact (Text.readInteger?_eq_some_iff.mp hn).2
  | reference =>
    obtain ⟨n, hn, rfl⟩ := Option.map_eq_some_iff.mp h
    exact (Text.readInteger?_eq_some_iff.mp hn).2
  | decimal =>
    obtain ⟨d, hd, rfl⟩ := Option.map_eq_some_iff.mp h
    exact (Option.filter_eq_some_iff.mp hd).2
  | text =>
    obtain rfl := Option.some.inj h
    trivial
  | boolean =>
    obtain ⟨b, -, rfl⟩ := Option.map_eq_some_iff.mp h
    trivial
  | dateTime =>
    obtain ⟨t, -, rfl⟩ := Option.map_eq_some_iff.mp h
    trivial
  | blob => exact absurd h (by simp [Value.coerce])

/-! ### Rows -/

/-- Whether these are the values of a record of a type: one for each attribute, which is `null` or of
the kind of the attribute, and no decimal that is not a number. -/
structure RecordType.Row (t : RecordType) (values : List Value) : Prop where
  length_values : values.length = t.attributes.length
  fits : ∀ (i : Nat) (a : Attribute) (v : Value), t.attributes[i]? = some a → values[i]? = some v →
    v = .null ∨ v.kind? = some a.kind
  isNaN : ∀ d, .decimal d ∈ values → d.isNaN = false

theorem Value.kind?_of_readable {k : Kind} {v : Value} (h : v.Readable k) : v.kind? = some k := by
  cases v <;> cases k <;> first | rfl | exact h.elim

theorem Value.isNull_of_kind? {k : Kind} {v : Value} (h : v.kind? = some k) : v.isNull = false := by
  cases v with
  | null => exact absurd h (by simp [kind?])
  | _ => rfl

/-- Values of one kind have an order. The exception is a decimal that is not a number, which a row
may hold but no literal stands for. -/
theorem Value.exists_compare {k : Kind} {v w : Value} (hv : v.kind? = some k) (hw : w.Readable k)
    (hnumber : ∀ d, v = .decimal d → d.isNaN = false) : ∃ o, v.compare w = some o := by
  cases v with
  | null => simp [kind?] at hv
  | decimal d =>
    obtain rfl : Kind.decimal = k := Option.some.inj hv
    cases w with
    | decimal e =>
      have he : e.isNaN = false := by
        have hfinite : e.magnitude < Decimal.infinityBits := by
          simpa [Readable, Decimal.isFinite] using hw
        simpa [Decimal.isNaN] using Nat.le_of_lt hfinite
      exact ⟨compare d.rank e.rank, by simp [Value.compare, Decimal.compare, hnumber d rfl, he]⟩
    | _ => exact hw.elim
  | integer n =>
    obtain rfl : Kind.integer = k := Option.some.inj hv
    cases w <;> first | exact ⟨_, rfl⟩ | exact hw.elim
  | reference n =>
    obtain rfl : Kind.reference = k := Option.some.inj hv
    cases w <;> first | exact ⟨_, rfl⟩ | exact hw.elim
  | text s =>
    obtain rfl : Kind.text = k := Option.some.inj hv
    cases w <;> first | exact ⟨_, rfl⟩ | exact hw.elim
  | boolean b =>
    obtain rfl : Kind.boolean = k := Option.some.inj hv
    cases w <;> first | exact ⟨_, rfl⟩ | exact hw.elim
  | dateTime m =>
    obtain rfl : Kind.dateTime = k := Option.some.inj hv
    cases w <;> first | exact ⟨_, rfl⟩ | exact hw.elim
  | blob n =>
    obtain rfl : Kind.blob = k := Option.some.inj hv
    cases w <;> exact hw.elim

namespace Filter

/-! ### Names -/

/-- Whether a name consists of letters, digits, underscores and dollar signs, and does not begin
with a digit. -/
def isIdentifier (s : String) : Bool :=
  s.toList.head?.any Token.startsWord && s.toList.tail.all fun c => Token.startsWord c || c.isDigit

theorem lexical_of_isIdentifier {s : String} (h : isIdentifier s) : (TokenKind.word s).Lexical := by
  refine TokenKind.lexical_word ?_
  obtain ⟨hhead, htail⟩ := Bool.and_eq_true_iff.mp h
  refine Bool.and_eq_true_iff.mpr ⟨hhead, List.all_eq_true.mpr fun c hc => ?_⟩
  have hclass := List.all_eq_true.mp htail c hc
  simp only [Token.startsWord, Token.continuesWord, Char.isAlphanum, Bool.or_eq_true] at hclass ⊢
  tauto

/-! ### Filters -/

/-- Whether every comparison of a filter is as `P` says. -/
def Every (P : Path → Comparison → Value → Prop) : Filter → Prop
  | comparison p op v => P p op v
  | and l r => l.Every P ∧ r.Every P
  | or l r => l.Every P ∧ r.Every P
  | not f => f.Every P

theorem Every.imp {P Q : Path → Comparison → Value → Prop} (h : ∀ p op v, P p op v → Q p op v)
    {f : Filter} (hf : f.Every P) : f.Every Q := by
  induction f with
  | comparison p op v => exact h p op v hf
  | and l r ihl ihr => exact ⟨ihl hf.1, ihr hf.2⟩
  | or l r ihl ihr => exact ⟨ihl hf.1, ihr hf.2⟩
  | not f ih => exact ih hf

/-- A property of a record type and a literal that it can be compared with. -/
structure Fits (t : RecordType) (p : Path) (v : Value) : Prop where
  resolved : Path.resolve t p.name = .ok p
  word : (TokenKind.word p.name).Lexical
  unreserved : p.name ∉ reserved
  literal : v.Readable p.kind

/-- Whether the comparisons of a filter fit the record type. -/
def WellTyped (t : RecordType) (f : Filter) : Prop := f.Every fun p _ v => Fits t p v

theorem readable_of_writes {p : Path} {k : TokenKind} {v : Value} (h : Writes p k v) :
    v.Readable p.kind := by
  cases h with
  | quoted _ hv => exact Value.readable_of_coerce hv
  | number _ hv => exact Value.readable_of_coerce hv
  | true hk =>
    rw [hk]
    trivial
  | false hk =>
    rw [hk]
    trivial

/-- Derived filters are well-typed, by induction on the derivation. -/
theorem wellTyped_of_derives {t : RecordType} {L : Level} {ks : List TokenKind} {f : Filter}
    {n : Nat} (h : Derives t L ks f n) (hks : ∀ k ∈ ks, k.Lexical) : f.WellTyped t := by
  induction h with
  | comparison hs hp hl =>
    obtain ⟨rfl, -⟩ := Path.resolve_eq_ok hp
    exact ⟨hp, hks _ (by simp), hs, readable_of_writes hl⟩
  | not _ ih => exact ih fun k hk => hks k (by simp [hk])
  | parentheses _ ih => exact ih fun k hk => hks k (by simp [hk])
  | operand _ ih => exact ih hks
  | and _ _ ihl ihr =>
    exact ⟨ihl fun k hk => hks k (by simp [hk]), ihr fun k hk => hks k (by simp [hk])⟩
  | conjunction _ ih => exact ih hks
  | or _ _ ihl ihr =>
    exact ⟨ihl fun k hk => hks k (by simp [hk]), ihr fun k hk => hks k (by simp [hk])⟩

/-- **Accepted filters are well-typed**: their properties are those of the record type, and each
literal has the kind of its property. What follows of filters from texts is proved of well-typed
ones. -/
theorem wellTyped_of_parse {t : RecordType} {text : String} {f : Filter}
    (h : parse t (some text) = .ok (some f)) : f.WellTyped t := by
  obtain ⟨ts, hs, hts⟩ := scan_of_parse h
  obtain ⟨n, -, hd⟩ := ofTokens_eq_ok_iff.mp hts
  refine wellTyped_of_derives hd fun k hk => ?_
  obtain ⟨token, htoken, rfl⟩ := List.mem_map.mp hk
  exact Token.lexical_of_scan _ hs token htoken

end Filter

end RecordService
