import RecordService.Proofs.Http.Reach
import RecordService.Proofs.Query.Path
import RecordService.Proofs.Record.Canonical
import RecordService.Proofs.Store.Copying

/-!
# Putting back what was read

A record that is read comes as a document with all of its attributes. Put back under the same
address, the document gives a text for each value that is there and none for `null`, and the identity
is that of the address again. The texts stand for the values they were written for, so the row gets
the values that it has, and the store stays exactly as it is. Only binary content is in the way: it is
shown as an object, which no request may bring (`RecordService.Http.Service.put_back`).

* `RecordService.Texts.mem_ofJson`: the texts of a document.
* `RecordService.Attribute.takes_of_memberText`: an attribute takes the text of a member for its
  value.
* `RecordService.Record.Restorable.ofTexts_members`: a record is made again from its document.
* `RecordService.Memory.update_self`: an update with a stored record.
-/

namespace RecordService

open Memory

/-! ### The texts of a document -/

namespace Texts

variable {ms : List (String × Json)} {ts us : Texts} {n s : String}

/-- A member is added as a text if it is a scalar, and left out if it is `null`. -/
theorem withMember_eq_ok_iff {m : String × Json} : ts.withMember m = .ok us ↔
    ∃ text, ofScalar m.1 m.2 = .ok text ∧ us = text.elim ts (ts.insert m.1) := by
  unfold withMember
  cases ofScalar m.1 m.2 with
  | error e => simp [bind, Except.bind]
  | ok text => cases text <;> simp [bind, Except.bind, pure, Except.pure, eq_comm]

/-- One more member brings its own text, if it has one. It must have a new name, since a text with
the same name would be replaced. -/
theorem mem_withMember {m : String × Json} (h : ts.withMember m = .ok us)
    (hnew : ∀ u, (m.1, u) ∉ ts.entries) : (n, s) ∈ us.entries ↔
      (n, s) ∈ ts.entries ∨ n = m.1 ∧ ofScalar m.1 m.2 = .ok (some s) := by
  obtain ⟨text, htext, rfl⟩ := withMember_eq_ok_iff.mp h
  rw [htext]
  cases text with
  | none => simp
  | some u =>
    have hother (hmem : (n, s) ∈ ts.entries) : n ≠ m.1 := fun hn => hnew s (hn ▸ hmem)
    simp only [Option.elim_some, mem_insert, Prod.mk.injEq, Except.ok.injEq, Option.some.injEq]
    constructor
    · rintro (⟨rfl, rfl⟩ | ⟨hmem, -⟩)
      · exact .inr ⟨rfl, rfl⟩
      · exact .inl hmem
    · rintro (hmem | ⟨rfl, rfl⟩)
      · exact .inr ⟨hmem, hother hmem⟩
      · exact .inl ⟨rfl, rfl⟩

/-- The texts of members with different names, by induction from the last one: that is where a text
is added that no later one can replace. -/
theorem mem_foldlM_withMember (hnodup : (ms.map Prod.fst).Nodup)
    (h : ms.foldlM withMember empty = .ok us) :
    (n, s) ∈ us.entries ↔ ∃ v, (n, v) ∈ ms ∧ ofScalar n v = .ok (some s) := by
  induction ms using List.reverseRecOn generalizing us n s with
  | nil =>
    obtain rfl := Except.ok.inj h
    simp [empty]
  | append_singleton ms m ih =>
    obtain ⟨k, w⟩ := m
    rw [List.map_append, List.map_singleton, List.nodup_append] at hnodup
    obtain ⟨hms, -, hother⟩ := hnodup
    rw [List.foldlM_append] at h
    obtain ⟨ts, hbefore, h⟩ := Outcome.bind_eq_ok_iff.mp h
    rw [List.foldlM_cons] at h
    obtain ⟨_, hlast, h⟩ := Outcome.bind_eq_ok_iff.mp h
    obtain rfl := Except.ok.inj h
    have hnew (u : String) : (k, u) ∉ ts.entries := by
      intro hmem
      obtain ⟨v, hv, -⟩ := (ih hms hbefore).mp hmem
      exact hother k (List.mem_map_of_mem hv) k (List.mem_singleton_self k) rfl
    rw [mem_withMember hlast hnew, ih hms hbefore]
    simp only [List.mem_append, List.mem_singleton, Prod.mk.injEq]
    constructor
    · rintro (⟨v, hv, hs⟩ | ⟨rfl, hs⟩)
      · exact ⟨v, .inl hv, hs⟩
      · exact ⟨w, .inr ⟨rfl, rfl⟩, hs⟩
    · rintro ⟨v, hv | ⟨rfl, rfl⟩, hs⟩
      · exact .inl ⟨v, hv, hs⟩
      · exact .inr ⟨rfl, hs⟩

/-- Where a member is a scalar, there are next texts. Nothing is required of the texts so far, which
is what the two trivial conditions say. -/
theorem exists_withMember (ts : Texts) (m : String × Json) (_ : True)
    (h : ∃ text, ofScalar m.1 m.2 = .ok text) : ∃ us, withMember ts m = .ok us ∧ True := by
  obtain ⟨text, htext⟩ := h
  exact ⟨_, withMember_eq_ok_iff.mpr ⟨text, htext, rfl⟩, trivial⟩

/-- Members that are all scalars give texts, whatever texts there are already. -/
theorem exists_foldlM_withMember (h : ∀ m ∈ ms, ∃ text, ofScalar m.1 m.2 = .ok text) (ts : Texts) :
    ∃ us, ms.foldlM withMember ts = .ok us :=
  (Outcome.exists_foldlM exists_withMember trivial h).imp fun _ h => h.1

/-- A member that is no scalar is refused, if not another one before it: which of several is told
depends on the order of their names. -/
theorem exists_foldlM_error (h : ∃ m ∈ ms, ∃ e, ofScalar m.1 m.2 = .error e) (ts : Texts) :
    ∃ m ∈ ms, ∃ e, ofScalar m.1 m.2 = .error e ∧ ms.foldlM withMember ts = .error e := by
  have htotal (m : String × Json) :
      (∃ text, ofScalar m.1 m.2 = .ok text) ∨ ∃ e, ofScalar m.1 m.2 = .error e := by
    cases ofScalar m.1 m.2 with
    | ok text => exact .inl ⟨text, rfl⟩
    | error e => exact .inr ⟨e, rfl⟩
  have hfault (ts : Texts) (m : String × Json) (e : RequestError) (_ : True)
      (hm : ofScalar m.1 m.2 = .error e) : withMember ts m = .error e := by
    simp only [withMember, hm, bind, Except.bind]
  rcases Outcome.good_or_first_fault htotal ms with hall | ⟨before, m, after, e, rfl, hbefore, hm⟩
  · obtain ⟨m, hm, e, he⟩ := h
    obtain ⟨text, htext⟩ := hall m hm
    simp [htext] at he
  · exact ⟨m, by simp, e, hm,
      Outcome.foldlM_of_first_fault exists_withMember hfault trivial hbefore hm⟩

/-- Sorting leaves one member of each name. -/
theorem nodup_sortMembers (ms : List (String × Json)) :
    ((Json.sortMembers ms).map Prod.fst).Nodup := by
  refine List.pairwise_map.mpr ((Json.pairwise_sortMembers ms).imp fun {a b} h heq => ?_)
  exact String.lt_irrefl b.1 (heq ▸ h)

/-- Where the names are different to begin with, it leaves all of them. -/
theorem mem_sortMembers_of_nodup (hnodup : (ms.map Prod.fst).Nodup) {m : String × Json} :
    m ∈ Json.sortMembers ms ↔ m ∈ ms := by
  have hreverse : (ms.reverse.map Prod.fst).Nodup := by simpa [List.map_reverse] using hnodup
  rw [Json.mem_sortMembers, Json.member?, Lists.lookup_eq_some_iff_of_nodup hreverse,
    List.mem_reverse]

/-- **The texts of a document** are those of its members. The document of a record has different
names, so none of them hides another. -/
theorem mem_ofJson (hnodup : (ms.map Prod.fst).Nodup) (h : ofJson (.object ms) = .ok us) :
    (n, s) ∈ us.entries ↔ ∃ v, (n, v) ∈ ms ∧ ofScalar n v = .ok (some s) := by
  simp only [mem_foldlM_withMember (nodup_sortMembers ms) h, mem_sortMembers_of_nodup hnodup]

/-- A document of scalars gives texts. -/
theorem exists_ofJson (hnodup : (ms.map Prod.fst).Nodup)
    (h : ∀ m ∈ ms, ∃ text, ofScalar m.1 m.2 = .ok text) : ∃ us, ofJson (.object ms) = .ok us :=
  exists_foldlM_withMember (fun m hm => h m ((mem_sortMembers_of_nodup hnodup).mp hm)) empty

/-- What is wrong with a member is that it is no scalar, and the message tells its name. -/
theorem ofScalar_eq_error {v : Json} {e : RequestError} (h : ofScalar n v = .error e) :
    e = .badRequest s!"property {n} must be a scalar" := by
  cases v <;> first | exact (Except.error.inj h).symm | cases h

/-- A document with a member that is no scalar gives no texts, whatever else it holds. -/
theorem ofJson_error (hnodup : (ms.map Prod.fst).Nodup)
    (h : ∃ m ∈ ms, ∃ e, ofScalar m.1 m.2 = .error e) :
    ∃ text, ofJson (.object ms) = .error (.badRequest text) := by
  obtain ⟨m, hm, e, he⟩ := h
  obtain ⟨k, -, e, hk, hfold⟩ :=
    exists_foldlM_error ⟨m, (mem_sortMembers_of_nodup hnodup).mpr hm, e, he⟩ empty
  rw [ofScalar_eq_error hk] at hfold
  exact ⟨_, hfold⟩

end Texts

/-! ### The record of a document -/

section

variable {d : Schema.Document} {reg : Registry} {t : RecordType} {record : Record} {i : Nat}
  {a : Attribute} {v : Value} {s : String}

/-- The text of a value that is written as a scalar, `none` for `null`. -/
def Value.memberText : Value → Option String
  | null => none
  | decimal x => some (x.render Decimal.json)
  | v => some v.display

/-- A value that is not binary content is written as a scalar, whose text is again the text of the
value. So nothing is lost between the document that is shown and the texts that are read from it. -/
theorem Value.ofScalar_toJson (hv : ∀ n, v ≠ .blob n) (name : String) :
    Texts.ofScalar name v.toJson = .ok v.memberText := by
  cases v with
  | blob n => exact absurd rfl (hv n)
  | _ => rfl

/-- Only `null` is written without a text. -/
theorem Value.isSome_memberText (hv : v ≠ .null) : v.memberText.isSome := by
  cases v with
  | null => exact absurd rfl hv
  | _ => rfl

/-- **An attribute takes the text of a member for the value that it was written for.** For decimals
and moments this is the round trip of their printers, proved where these are defined. -/
theorem Attribute.takes_of_memberText (h : v.Readable a.kind) (hs : v.memberText = some s) :
    a.Takes s v := by
  have hread : Value.coerce a.kind s = some v := by
    cases v with
    | decimal x =>
      obtain rfl : x.render Decimal.json = s := Option.some.inj hs
      have hkind : a.kind = .decimal := (Option.some.inj (Value.kind?_of_readable h)).symm
      have hfinite : x.isFinite := by rwa [hkind] at h
      have hback : Decimal.read? (x.render Decimal.json) = some x :=
        Decimal.read?_render (.inr rfl) hfinite
      simp [hkind, Value.coerce, hback, hfinite]
    | null => cases hs
    | _ =>
      obtain rfl := Option.some.inj hs
      exact Value.coerce_display_of_readable h
  refine .read ?_ hread
  by_cases hkind : a.kind = .text
  · exact .inr hkind
  · refine .inl fun hempty => ?_
    rw [hempty, Value.coerce_empty hkind] at hread
    simp at hread

/-- The members of a record as a document. -/
def Record.members (record : Record) : List (String × Json) :=
  (record.type.attributes.zip record.values).map fun (a, v) => (a.name, v.toJson)

/-- The members of a record are its attributes with their values, each at its position. -/
theorem Record.mem_members {m : String × Json} : m ∈ record.members ↔
    ∃ (i : Nat) (a : Attribute) (v : Value), record.type.attributes[i]? = some a ∧
      record.values[i]? = some v ∧ m = (a.name, v.toJson) := by
  unfold members
  rw [List.mem_map]
  constructor
  · rintro ⟨⟨a, v⟩, hmem, rfl⟩
    obtain ⟨i, hi⟩ := List.mem_iff_getElem?.mp hmem
    obtain ⟨ha, hv⟩ := List.getElem?_zip_eq_some.mp hi
    exact ⟨i, a, v, ha, hv, rfl⟩
  · rintro ⟨i, a, v, ha, hv, rfl⟩
    exact ⟨(a, v), List.mem_of_getElem? (List.getElem?_zip_eq_some.mpr ⟨ha, hv⟩), rfl⟩

/-- They have different names, as the attributes do. -/
theorem Record.nodup_members (hnodup : (record.type.attributes.map (·.name)).Nodup) :
    (record.members.map Prod.fst).Nodup := by
  have hnames : record.members.map Prod.fst = record.type.attributes.map (·.name) := by
    simp only [members, List.map_map]
    rw [← List.map_fst_zip record.length_values.ge, List.map_map, List.map_fst_zip
      record.length_values.ge]
    rfl
  rw [hnames]
  exact hnodup

/-- The name of an attribute leads back to the attribute, if it is a path of one segment. A name
with a separator would be split, and lead nowhere. -/
theorem RecordType.names_of_getElem? (hd : Registry.ofDocument d = .ok reg) (ht : t ∈ reg.types)
    (ha : t.attributes[i]? = some a) (hsegment : Path.isSegment a.name) : t.Names a.name i a :=
  (names_iff (Registry.nodup_attributes hd ht)).mpr ⟨hsegment, ha, rfl⟩

/-- A stored record: under its identity, and with values that texts can give. -/
structure Record.Restorable (record : Record) (id : Int) : Prop where
  identity : record.values[record.type.identity]? = some (.integer id)
  told : record.type.Told record.values

/-- Whether a record shows no binary content. -/
def Record.Bare (record : Record) : Prop :=
  ∀ (i : Nat) (a : Attribute), record.type.attributes[i]? = some a → a.kind = .blob →
    record.values[i]? = some .null

namespace Record.Restorable

variable {id : Int}

/-- A value that is there can be given as a text under the name of its attribute. The identity is
left out, since it comes from the address and not from the document. -/
theorem readable (h : record.Restorable id) (hbare : record.Bare)
    (ha : record.type.attributes[i]? = some a) (hv : record.values[i]? = some v)
    (hplace : i ≠ record.type.identity) (hnull : v ≠ .null) :
    Path.isSegment a.name ∧ v.Readable a.kind := by
  have hkind : a.kind ≠ .blob := fun hkind =>
    hnull (Option.some.inj (hv.symm.trans (hbare i a ha hkind)))
  exact (h.told.given i a v ⟨ha, hplace, hkind⟩ hv).resolve_left hnull

/-- A bare record shows no length of content, and nothing else is shown as an object. -/
theorem ne_blob (h : record.Restorable id) (hbare : record.Bare)
    (ha : record.type.attributes[i]? = some a) (hv : record.values[i]? = some v) (n : Nat) :
    v ≠ .blob n := by
  rintro rfl
  by_cases hplace : i = record.type.identity
  · simp [hplace, h.identity] at hv
  · obtain ⟨-, hread⟩ := h.readable hbare ha hv hplace (by simp)
    cases hkind : a.kind <;> rw [hkind] at hread <;> exact hread.elim

/-- The texts of the document are those of the values that are there. A `null` has no text, and the
record that is made again has `null` where no text was given. -/
theorem mem_texts (h : record.Restorable id) (hbare : record.Bare)
    (hnodup : (record.type.attributes.map (·.name)).Nodup) {ts : Texts}
    (hts : Texts.ofJson (.object record.members) = .ok ts) {n : String} :
    (n, s) ∈ ts.entries ↔ ∃ (i : Nat) (a : Attribute) (v : Value),
      record.type.attributes[i]? = some a ∧ record.values[i]? = some v ∧ n = a.name ∧
        v.memberText = some s := by
  rw [Texts.mem_ofJson (nodup_members hnodup) hts]
  constructor
  · rintro ⟨j, hj, hs⟩
    obtain ⟨i, a, v, ha, hv, hm⟩ := mem_members.mp hj
    obtain ⟨rfl, rfl⟩ := Prod.mk.inj hm
    rw [Value.ofScalar_toJson (h.ne_blob hbare ha hv)] at hs
    exact ⟨i, a, v, ha, hv, rfl, Except.ok.inj hs⟩
  · rintro ⟨i, a, v, ha, hv, rfl, hs⟩
    refine ⟨_, mem_members.mpr ⟨i, a, v, ha, hv, rfl⟩, ?_⟩
    rw [Value.ofScalar_toJson (h.ne_blob hbare ha hv), hs]

/-- The document of a bare record gives texts: without binary content, all of its members are
scalars. -/
theorem exists_texts (h : record.Restorable id) (hbare : record.Bare)
    (hnodup : (record.type.attributes.map (·.name)).Nodup) :
    ∃ ts, Texts.ofJson (.object record.members) = .ok ts := by
  refine Texts.exists_ofJson (nodup_members hnodup) fun m hm => ?_
  obtain ⟨i, a, v, ha, hv, rfl⟩ := mem_members.mp hm
  exact ⟨_, Value.ofScalar_toJson (h.ne_blob hbare ha hv) a.name⟩

/-- **A record is made again from its document**, if it has no binary content. The identity of the
address is put in place of the one in the document, and it is the same. -/
theorem ofTexts_members (h : record.Restorable id) (hbare : record.Bare)
    (hd : Registry.ofDocument d = .ok reg) (ht : record.type ∈ reg.types)
    (hmin : Text.minInteger ≤ id) (hmax : id ≤ Text.maxInteger) :
    ∃ ts, Texts.ofJson (.object record.members) = .ok ts ∧
      Record.ofTexts record.type (ts.withIdentity id) = .ok record := by
  have hnodup := Registry.nodup_attributes hd ht
  obtain ⟨ts, hts⟩ := h.exists_texts hbare hnodup
  obtain ⟨b, hb, hname, hkind⟩ := (Registry.resolved_of_ofDocument hd).identity _ ht
  have hidentity : record.type.Names Schema.identityName record.type.identity b :=
    hname ▸ RecordType.names_of_getElem? hd ht hb (hname ▸ by decide)
  refine ⟨ts, hts, ofTexts_eq_ok rfl (fun n s hmem => ?_) fun i hi hother => ?_⟩
  · rcases Texts.mem_insert.mp hmem with heq | ⟨hmem, hne⟩
    · obtain ⟨rfl, rfl⟩ := Prod.mk.inj heq
      have hread : (Value.integer id).Readable b.kind := hkind ▸ ⟨hmin, hmax⟩
      exact ⟨_, b, .integer id, hidentity, Attribute.takes_of_memberText hread rfl, h.identity⟩
    · obtain ⟨i, a, v, ha, hv, rfl, hs⟩ := (h.mem_texts hbare hnodup hts).mp hmem
      have hplace : i ≠ record.type.identity := by
        rintro rfl
        exact hne (Option.some.inj (ha.symm.trans hb) ▸ hname)
      have hnull : v ≠ .null := by
        rintro rfl
        cases hs
      obtain ⟨hsegment, hread⟩ := h.readable hbare ha hv hplace hnull
      exact ⟨i, a, v, RecordType.names_of_getElem? hd ht ha hsegment,
        Attribute.takes_of_memberText hread hs, hv⟩
  · have ha := List.getElem?_eq_getElem hi
    obtain ⟨v, hv⟩ : ∃ v, record.values[i]? = some v :=
      ⟨_, List.getElem?_eq_getElem (record.length_values.symm ▸ hi)⟩
    by_cases hplace : i = record.type.identity
    · subst hplace
      exact absurd hidentity (hother _ _ b (Texts.mem_insert.mpr (.inl rfl)))
    · -- a value that is there has a text under the name of its attribute
      by_contra hne
      have hnull : v ≠ .null := fun hnull => hne (hnull ▸ hv)
      obtain ⟨s, hs⟩ := Option.isSome_iff_exists.mp (Value.isSome_memberText hnull)
      have hmem := (h.mem_texts hbare hnodup hts).mpr ⟨i, _, _, ha, hv, rfl, hs⟩
      obtain ⟨hsegment, -⟩ := h.readable hbare ha hv hplace hnull
      have hnames := RecordType.names_of_getElem? hd ht ha hsegment
      refine hother _ s _ (Texts.mem_insert.mpr (.inr ⟨hmem, fun heq => hplace ?_⟩)) hnames
      exact (hnames.unique (heq ▸ hidentity)).1

end Record.Restorable

end

/-! ### The store -/

/-- The record types of a registry are resolved by their names, which are different. -/
theorem Registry.Resolved.resolve {r : Registry} (hr : r.Resolved) {t : RecordType}
    (ht : t ∈ r.types) : r.resolve t.name = .ok t := by
  cases h : r.resolve t.name with
  | ok u =>
    obtain ⟨hu, hname⟩ := Registry.resolve_eq_ok h
    rw [hr.eq_of_name hu ht hname]
  | error e =>
    have hfound : (r.find? t.name).isSome := by
      rw [Registry.find?, List.find?_isSome]
      exact ⟨t, ht, by simp⟩
    obtain ⟨u, hu⟩ := Option.isSome_iff_exists.mp hfound
    simp [Registry.resolve, hu] at h

namespace Memory

variable {r : Registry} {m : Memory} {n : Nat} {t : RecordType} {id : Int} {record : Record}

/-- Putting back the table that is found leaves all tables as they are, also the one that is found
first among several of one name. -/
theorem replace_lookup {entity : String} {table : Table} {tables : List (String × Table)}
    (h : tables.lookup entity = some table) : replace entity table tables = tables := by
  induction tables with
  | nil => cases h
  | cons e tables ih =>
    obtain ⟨name, other⟩ := e
    unfold replace
    split
    · next hname =>
      subst hname
      simp only [List.lookup_cons, beq_self_eq_true] at h
      rw [Option.some.inj h]
    · next hname =>
      rw [List.lookup_cons, beq_false_of_ne (Ne.symm hname)] at h
      rw [ih h]

/-- A table that is there may be put in its own place, and the store is the same, not merely a store
with the same contents. -/
theorem withTable_self (hrow : m.row? t id = some row) :
    m.withTable t.name (m.table t.name) = m := by
  unfold row? table at hrow
  cases hlookup : m.tables.lookup t.name with
  | none => simp [hlookup, Table.row?] at hrow
  | some table =>
    rw [withTable, Memory.table, hlookup, Option.getD_some, replace_lookup hlookup]

/-- **An update with a stored record** changes nothing, and gives the record back: the merge with
the stored row keeps its lengths of content and takes the other values, which are the same. -/
theorem update_self (h : m.Consistent r n) (hr : r.Resolved) (ht : t ∈ r.types)
    (hrecord : m.get t id = some record) : m.update record = .ok (record, m) := by
  obtain ⟨row, hrow, hconsistent, rfl, hvalues⟩ := row_of_get h hr ht hrecord
  have hid := id_of_get h hr ht hrecord
  have hmerged : mergedValues record.type row.values record.values = row.values := by
    refine List.ext_getElem? fun i => ?_
    cases ha : record.type.attributes[i]? with
    | none =>
      have hle := List.getElem?_eq_none_iff.mp ha
      rw [List.getElem?_eq_none, List.getElem?_eq_none]
      · rwa [hconsistent.length_values]
      · simpa [mergedValues] using .inl hle
    | some a =>
      rw [getElem?_mergedValues ha hconsistent.length_values record.length_values, hvalues, ite_self]
  have htable := h.table hr ht
  have hsame : (m.table record.type.name).modify id (fun other => { other with values := row.values }) =
      m.table record.type.name := by
    refine Table.modify_eq_self fun other hother => ?_
    obtain rfl : row = other :=
      Option.some.inj (hrow.symm.trans (htable.row?_eq_some_iff.mpr hother))
    rfl
  have hback : Record.ofValues record.type row.values = record := by
    rw [Memory.get, hrow] at hrecord
    exact Option.some.inj hrecord
  simp only [update, hid, hrow, hmerged, hsame, withTable_self hrow, hback]

end Memory

/-! ### Requests -/

namespace Http

/-- A request for the record at an address. -/
structure Request.Views (s : Service) (a : Address) (r : Request) : Prop where
  method : r.method = .get
  target : ∃ t raw segment, Target.read? r.target = some t ∧
    Route.ofSegments? t.segments = some (.set raw) ∧ segment? raw = some segment ∧
    Address.read segment = .ok a
  size : r.body.length ≤ s.bodyLimit

namespace Service

variable {d : Schema.Document} {s : Service} {t : RecordType} {id : Int} {record : Record}
  {m : Memory} {r : Request}

/-- A request to view a record is answered with what reading the record gives. -/
theorem respond_get (h : r.Views s ⟨t.name, some id⟩) :
    s.respond (m := StateM Memory) r = answer (Entities.read s.registry ⟨t.name, some id⟩) := by
  obtain ⟨target, raw, segment, htarget, hroute, hsegment, ha⟩ := h.target
  have hsize : ¬s.bodyLimit < r.body.length := Nat.not_lt.mpr h.size
  simp only [respond, respondFully, htarget, hroute, onSet, hsize, h.method, hsegment, atAddress,
    readSet, ha]
  rfl

/-- A record that is there is read, and shown with all of its attributes. -/
theorem run_read (ht : s.registry.resolve t.name = .ok t) (hrecord : m.get t id = some record) :
    (Entities.read (m := StateM Memory) s.registry ⟨t.name, some id⟩).run.run m =
      (.ok (.data 200 record.toJson), m) := by
  have hload : (Entities.load (m := StateM Memory) s.registry ⟨t.name, some id⟩).run.run m =
      (.ok record, m) :=
    calc (Entities.load (m := StateM Memory) s.registry ⟨t.name, some id⟩).run.run m
      _ = _ := run_bind_of_ok (run_liftM_ok ht) _
      _ = _ := run_bind_of_ok (run_liftM_ok (e := Address.requireId ⟨t.name, some id⟩) rfl) _
      _ = _ := run_bind_of_ok (Records.run_findById t id m) _
      _ = (.ok record, m) := by rw [hrecord]; rfl
  exact run_bind_of_ok hload _

/-- A stored record is saved without any change. That the required values are there is known of
every row, so the check lets the record pass. -/
theorem run_save_self (hd : Registry.ofDocument d = .ok s.registry) {n : Nat}
    (hm : m.Consistent s.registry n) (ht : t ∈ s.registry.types)
    (hrecord : m.get t id = some record) (hcomplete : record.type.Complete record.values) :
    (Records.save (m := StateM Memory) record).run.run m = (.ok record, m) := by
  have hr := Registry.resolved_of_ofDocument hd
  have hid := id_of_get hm hr ht hrecord
  have htype : record.type ∈ s.registry.types := by
    obtain ⟨_, -, -, rfl, -⟩ := row_of_get hm hr ht hrecord
    exact ht
  have hrequired := Records.checkRequired_of_complete hd htype hcomplete
  calc (Records.save (m := StateM Memory) record).run.run m
    _ = _ := run_bind_of_ok (run_liftM_ok hrequired) _
    _ = _ := by
      simp only [hid]
      exact run_store_change_of_ok (update_self hm hr ht hrecord)

/-- **A document that gives a stored record** leaves it as it is. What the document looks like does
not matter here, only the record that its texts make. -/
theorem run_update_self (hd : Registry.ofDocument d = .ok s.registry) {n : Nat}
    (hm : m.Consistent s.registry n) (ht : t ∈ s.registry.types)
    (hrecord : m.get t id = some record) (hcomplete : record.type.Complete record.values)
    {ts : Texts} {ms : List (String × Json)} (hts : Texts.ofJson (.object ms) = .ok ts)
    (hgives : Record.ofTexts t (ts.withIdentity id) = .ok record) :
    (Entities.update (m := StateM Memory) s.registry ⟨t.name, some id⟩ (.object ms)).run.run m =
      (.ok (.data 200 record.toJson), m) := by
  have hresolve := (Registry.resolved_of_ofDocument hd).resolve ht
  calc (Entities.update (m := StateM Memory) s.registry ⟨t.name, some id⟩ (.object ms)).run.run m
    _ = _ := run_bind_of_ok (run_liftM_ok (e := Address.requireRecord ⟨t.name, some id⟩ "update") rfl) _
    _ = _ := run_bind_of_ok (run_liftM_ok hts) _
    _ = _ := run_bind_of_ok (run_liftM_ok hresolve) _
    _ = _ := run_bind_of_ok (run_liftM_ok hgives) _
    _ = _ := run_bind_of_ok (run_save_self hd hm ht hrecord hcomplete) _

/-- A document that gives no texts is refused before the store is looked at. -/
theorem run_update_error {a : Address} {ms : List (String × Json)} {e : RequestError}
    (ha : a.id = some id) (hts : Texts.ofJson (.object ms) = .error e) :
    (Entities.update (m := StateM Memory) s.registry a (.object ms)).run.run m = (.error e, m) := by
  have hrequire : a.requireRecord "update" = .ok id := by simp [Address.requireRecord, ha]
  calc (Entities.update (m := StateM Memory) s.registry a (.object ms)).run.run m
    _ = _ := run_bind_of_ok (run_liftM_ok hrequire) _
    _ = (.error e, m) := by
      rw [hts]
      rfl

/-- What a reached store knows about a record in it: the record stands under its identity, and what
clients chose of its values was told by texts. -/
theorem Kept.restorable {w : World} (h : s.Kept w) (hd : Registry.ofDocument d = .ok s.registry)
    (ht : t ∈ s.registry.types) (hrecord : w.memory.get t id = some record) :
    record.Restorable id := by
  obtain ⟨n, hm⟩ := h.consistent
  obtain ⟨row, hrow, hconsistent, rfl, hvalues⟩ :=
    row_of_get hm (Registry.resolved_of_ofDocument hd) ht hrecord
  exact ⟨hvalues ▸ hconsistent.identity, hvalues ▸ h.told _ ht id row hrow⟩

/-- A record shows no binary content exactly if there is none, not even an empty one: a length is
shown as soon as content was committed, whatever the length is. -/
theorem Kept.bare_iff {w : World} (h : s.Kept w) (hd : Registry.ofDocument d = .ok s.registry)
    (ht : t ∈ s.registry.types) (hrecord : w.memory.get t id = some record) :
    record.Bare ↔ ∀ name content, w.memory.content t id name = .ok content → content = none := by
  obtain ⟨n, hm⟩ := h.consistent
  obtain ⟨row, hrow, hconsistent, rfl, hvalues⟩ :=
    row_of_get hm (Registry.resolved_of_ofDocument hd) ht hrecord
  constructor
  · intro hbare name content hcontent
    obtain ⟨i, other, hi, hother, rfl⟩ := content_eq_ok_iff.mp hcontent
    obtain rfl : row = other := Option.some.inj (hrow.symm.trans hother)
    obtain ⟨a, ha, -, hblob⟩ := blobIndex_eq_ok hi
    exact (hconsistent.null_iff ha hblob).mp (hvalues ▸ hbare i a ha hblob)
  · intro hnone i a ha hblob
    rw [hvalues, hconsistent.null_iff ha hblob]
    have hindex :=
      (RecordType.index?_eq_some_iff (Registry.nodup_attributes hd ht)).mpr ⟨a, ha, rfl⟩
    exact hnone a.name _ (content_eq_ok_iff.mpr
      ⟨i, row, blobIndex_of_index? hindex ha hblob, hrow, rfl⟩)

/-- Binary content is shown as an object, even if it is empty, so the document of such a record
gives no texts. -/
theorem Kept.ofJson_error {w : World} (h : s.Kept w) (hd : Registry.ofDocument d = .ok s.registry)
    (ht : t ∈ s.registry.types) (hrecord : w.memory.get t id = some record)
    (hcontent : ¬record.Bare) :
    ∃ text, Texts.ofJson (.object record.members) = .error (.badRequest text) := by
  obtain ⟨n, hm⟩ := h.consistent
  obtain ⟨row, -, hconsistent, rfl, hvalues⟩ :=
    row_of_get hm (Registry.resolved_of_ofDocument hd) ht hrecord
  obtain ⟨i, a, ha, hblob, hv⟩ : ∃ (i : Nat) (a : Attribute), record.type.attributes[i]? = some a ∧
      a.kind = .blob ∧ record.values[i]? ≠ some .null := by
    simpa [Record.Bare] using hcontent
  rw [hvalues, hconsistent.blob i a ha hblob] at hv
  refine Texts.ofJson_error (Record.nodup_members (Registry.nodup_attributes hd ht)) ?_
  cases hc : row.content i with
  | none => simp [hc, Value.showing] at hv
  | some c =>
    have hvalue : record.values[i]? = some (.blob c.length) := by
      rw [hvalues, hconsistent.blob i a ha hblob, hc, Value.showing]
    exact ⟨_, Record.mem_members.mpr ⟨i, a, _, ha, hvalue, rfl⟩, _, rfl⟩

/-- **Reading a record and putting it back changes nothing**, in every state that a service comes to.

* Without binary content the request succeeds, and returns the record as it was read.
* With content, even if it is empty, the request is refused. -/
theorem put_back (hd : Registry.ofDocument d = .ok s.registry) {events : List Event}
    (hevents : ∀ e ∈ events, e.UsesTypesOf s.registry) (ht : t ∈ s.registry.types)
    (hrecord : (s.reach events).memory.get t id = some record) {get put : Request}
    (hget : get.Views s ⟨t.name, some id⟩)
    (hput : put.Brings s .put ⟨t.name, some id⟩ record.members) :
    (s.respond (m := StateM Memory) get).run (s.reach events).memory =
        (.data 200 (.object record.members), (s.reach events).memory) ∧
      ((s.respond (m := StateM Memory) put).run (s.reach events).memory).2 =
        (s.reach events).memory ∧
      (record.Bare ↔ ∀ name content, (s.reach events).memory.content t id name = .ok content →
        content = none) ∧
      (record.Bare → ((s.respond (m := StateM Memory) put).run (s.reach events).memory).1 =
        .data 200 (.object record.members)) ∧
      (¬record.Bare → ∃ text,
        ((s.respond (m := StateM Memory) put).run (s.reach events).memory).1 =
          .ofError (.badRequest text)) := by
  have hkept := kept_reach hd hevents
  generalize (s.reach events) = w at hkept hrecord ⊢
  have hr := Registry.resolved_of_ofDocument hd
  have hrestorable := hkept.restorable hd ht hrecord
  obtain ⟨n, hm⟩ := hkept.consistent
  obtain ⟨_, _, _, -, -, -, haddress⟩ := hput.target
  obtain ⟨hmin, hmax⟩ := Address.range_of_read haddress
  obtain ⟨_, -, -, htype, -⟩ := row_of_get hm hr ht hrecord
  have hfound : (s.respond (m := StateM Memory) get).run w.memory =
      (.data 200 (.object record.members), w.memory) := by
    rw [respond_get hget, run_answer, run_read (hr.resolve ht) hrecord]
    rfl
  rw [hput.respond_put, run_answer]
  have hcontent := hkept.bare_iff hd ht hrecord
  refine ⟨hfound, ?_⟩
  by_cases hbare : record.Bare
  · obtain ⟨ts, hts, hgives⟩ := hrestorable.ofTexts_members hbare hd (htype ▸ ht) hmin hmax
    rw [htype] at hgives
    rw [run_update_self hd hm ht hrecord hrestorable.told.complete hts hgives]
    exact ⟨rfl, hcontent, fun _ => rfl, fun hnot => absurd hbare hnot⟩
  · obtain ⟨text, htext⟩ := hkept.ofJson_error hd ht hrecord hbare
    rw [run_update_error rfl htext]
    exact ⟨rfl, hcontent, fun h => absurd h hbare, fun _ => ⟨text, rfl⟩⟩

end Service

open Memory.print (bringing brings)

/-- A request counts for every service that takes a body of its size. -/
theorem Request.Brings.of_le {s u : Service} {method : Method} {a : Address}
    {ms : List (String × Json)} {r : Request} (h : r.Brings s method a ms)
    (hlimit : s.bodyLimit ≤ u.bodyLimit) : r.Brings u method a ms :=
  ⟨h.method, h.target, h.size.trans hlimit, h.json⟩

/-! ### A photo that is put back -/

namespace Service.album

/-- A service for the album. -/
def service : Service := ⟨⟨[photo]⟩, 100⟩

/-- The last member of a photo, up to the end of a document. -/
def fileName : List Char :=
  ['"', 'P', 'i', 'c', 't', 'u', 'r', 'e', 'F', 'i', 'l', 'e', 'N', 'a', 'm', 'e', '"', ':', 'n',
    'u', 'l', 'l', '\x7d']

/-- The members of the first photo from its picture on. -/
def picture (content : List Char) : List Char :=
  '"' :: 'P' :: 'i' :: 'c' :: 't' :: 'u' :: 'r' :: 'e' :: '"' :: ':' :: (content ++ ',' :: fileName)

/-- All members of the first photo. -/
def numbered (content : List Char) : List Char :=
  '"' :: 'I' :: 'd' :: '"' :: ':' :: '1' :: ',' :: picture content

/-- The first photo as a document. -/
def whole (content : List Char) : String := String.ofList ('\x7b' :: numbered content)

/-- A photo without anything. -/
def bare : String := String.ofList ('\x7b' :: fileName)

theorem readMembers_fileName :
    (Json.Raw.readMembers fileName).map Subtype.val =
      some ([("PictureFileName".toList.map .char, .null)], []) := by
  have hvalue : (Json.Raw.readValue ['n', 'u', 'l', 'l', '\x7d']).map Subtype.val =
      Json.Raw.readScalar ['n', 'u', 'l', 'l', '\x7d'] :=
    Json.Raw.map_readValue_scalar rfl (by decide) (by decide)
  exact Json.Raw.map_readMembers_last rfl hvalue rfl

theorem documentIn?_bare : documentIn? bare = some (.object [("PictureFileName", .null)]) := by
  have hread : (Json.Raw.readValue ('\x7b' :: fileName)).map Subtype.val =
      ((Json.Raw.readMembers fileName).map Subtype.val).map fun p => (.object p.1, p.2) :=
    Json.Raw.map_readValue_object rfl (by decide) (by decide)
  rw [readMembers_fileName] at hread
  exact documentIn?_ofList hread

/-- The members of the first photo. -/
def members (content : Json) : List (String × Json) :=
  [("Id", .ofInt 1), ("Picture", content), ("PictureFileName", .null)]

/-- A text around a value is read by reading the value, so that only the two values below have to be
read step by step. -/
theorem documentIn?_whole {content : List Char} {v : Json.Raw}
    (h : (Json.Raw.readValue (content ++ ',' :: fileName)).map Subtype.val =
      some (v, ',' :: fileName)) {j : Json} (hv : v.value? (Json.maxDepth - 1) = some j) :
    documentIn? (whole content) = some (.object (members j)) := by
  have hid : (Json.Raw.readValue ('1' :: ',' :: picture content)).map Subtype.val =
      Json.Raw.readScalar ('1' :: ',' :: picture content) :=
    Json.Raw.map_readValue_scalar rfl (by decide) (by decide)
  have hpicture := Json.Raw.map_readMembers_cons (s := picture content) rfl h rfl readMembers_fileName
  have hread : (Json.Raw.readValue ('\x7b' :: numbered content)).map Subtype.val =
      ((Json.Raw.readMembers (numbered content)).map Subtype.val).map fun p => (.object p.1, p.2) :=
    Json.Raw.map_readValue_object rfl (by decide) (by decide)
  rw [Json.Raw.map_readMembers_cons (s := numbered content) rfl hid rfl hpicture] at hread
  rw [whole, documentIn?_ofList hread]
  have hv : v.value? 126 = some j := hv
  simp only [Json.maxDepth, Json.Raw.value?, Json.Raw.members?, hv]
  rfl

theorem documentIn?_empty :
    documentIn? (whole ['n', 'u', 'l', 'l']) = some (.object (members .null)) := by
  have hread : (Json.Raw.readValue ('n' :: 'u' :: 'l' :: 'l' :: ',' :: fileName)).map Subtype.val =
      Json.Raw.readScalar ('n' :: 'u' :: 'l' :: 'l' :: ',' :: fileName) :=
    Json.Raw.map_readValue_scalar rfl (by decide) (by decide)
  exact documentIn?_whole hread rfl

/-- An empty picture behind its first brace. -/
def length : List Char := ['"', 'l', 'e', 'n', 'g', 't', 'h', '"', ':', '0', '\x7d']

theorem documentIn?_refused :
    documentIn? (whole ('\x7b' :: length)) = some (.object (members (Value.toJson (.blob 0)))) := by
  let rest := length ++ ',' :: fileName
  have hnumber : (Json.Raw.readValue ('0' :: '\x7d' :: ',' :: fileName)).map Subtype.val =
      Json.Raw.readScalar ('0' :: '\x7d' :: ',' :: fileName) :=
    Json.Raw.map_readValue_scalar rfl (by decide) (by decide)
  have hread : (Json.Raw.readValue ('\x7b' :: rest)).map Subtype.val =
      ((Json.Raw.readMembers rest).map Subtype.val).map fun p => (.object p.1, p.2) :=
    Json.Raw.map_readValue_object rfl (by decide) (by decide)
  rw [Json.Raw.map_readMembers_last (s := rest) rfl hnumber rfl] at hread
  exact documentIn?_whole hread rfl

theorem ofJson_bare : Texts.ofJson (.object [("PictureFileName", .null)]) = .ok .empty := by
  have hsort : Json.sortMembers [("PictureFileName", .null)] = [("PictureFileName", .null)] := by
    simp [Json.sortMembers]
  simp only [Texts.ofJson, hsort]
  rfl

/-- A photo without anything is sent. -/
def sent : List Event := [.request (bringing .post "/Photo" bare)]

/-- Then a picture without any bytes is uploaded. -/
def uploaded : List Event :=
  sent ++ [.transfer (.openSink photo 1 "Picture"), .transfer (.commit 0)]

/-- A request for the first photo. -/
def viewing : Request where
  method := .get
  target := "/Photo(1)"

theorem reach_sent : service.reach sent = { memory := (Memory.insert {} (Record.empty photo)).2 } := by
  have hbare : (Bytes.ofText bare).length ≤ 100 ∧ (Bytes.ofText bare).textPart = bare := by
    decide +kernel
  have hpost : (bringing .post "/Photo" bare).Brings service .post ⟨"Photo", none⟩ _ :=
    (brings "Photo" rfl (by decide +kernel) (by decide +kernel) hbare documentIn?_bare).of_le le_rfl
  have hreach : service.reach sent = { memory := ((service.respond (m := StateM Memory)
    (bringing .post "/Photo" bare)).run {}).2 } := rfl
  rw [hreach, hpost.respond_post, Entities.create_eq, ofJson_bare]
  rfl

/-- What a request after some events leads to. -/
def outcome (events : List Event) (r : Request) : Response × Memory :=
  (service.respond (m := StateM Memory) r).run (service.reach events).memory

theorem views_viewing : viewing.Views service ⟨"Photo", some 1⟩ :=
  ⟨rfl, ⟨⟨["Photo(1)"], []⟩, "Photo(1)", "Photo(1)", rfl, by decide +kernel, by decide +kernel,
    by decide +kernel⟩, Nat.zero_le _⟩

/-- A request that puts the first photo back. -/
def restoring (content : List Char) : Request := bringing .put "/Photo(1)" (whole content)

theorem brings_restoring {content : List Char} {j : Json}
    (htext : (Bytes.ofText (whole content)).length ≤ 100 ∧
      (Bytes.ofText (whole content)).textPart = whole content)
    (hdocument : documentIn? (whole content) = some (.object (members j))) :
    (restoring content).Brings service .put ⟨"Photo", some 1⟩ (members j) :=
  (brings "Photo(1)" rfl (by decide +kernel) (by decide +kernel) htext hdocument).of_le le_rfl

end Service.album

open Service.album in
/-- The first photo is put back as long as it has no picture. Even an empty picture is refused. -/
theorem Service.put_back_photo :
    let w := (service.reach sent).memory
    let u := (service.reach uploaded).memory
    outcome sent viewing = (.data 200 (.object (members .null)), w) ∧
      outcome sent (restoring ['n', 'u', 'l', 'l']) = (.data 200 (.object (members .null)), w) ∧
      outcome uploaded viewing = (.data 200 (.object (members (Value.toJson (.blob 0)))), u) ∧
      ∃ text, outcome uploaded (restoring ('\x7b' :: length)) = (.ofError (.badRequest text), u) := by
  have halbum : Registry.ofDocument album = .ok service.registry := rfl
  have hevents : ∀ e ∈ uploaded, e.UsesTypesOf service.registry := by
    simp [uploaded, sent, Event.UsesTypesOf, Call.isTransfer, Call.UsesTypesOf, service]
  have hphoto : photo ∈ service.registry.types := List.mem_singleton_self photo
  have hsent : (service.reach sent).memory.get photo 1 =
      some ⟨photo, [.integer 1, .null, .null], rfl⟩ := by
    rw [reach_sent]
    rfl
  have huploaded : (service.reach uploaded).memory.get photo 1 =
      some ⟨photo, [.integer 1, .blob 0, .null], rfl⟩ := by
    rw [Service.reach, uploaded, List.foldl_append, ← Service.reach, reach_sent]
    rfl
  obtain ⟨hview, hkept, -, hback, -⟩ := put_back halbum
    (fun e he => hevents e (List.mem_append_left _ he)) hphoto hsent views_viewing
    (brings_restoring (by decide +kernel) documentIn?_empty)
  obtain ⟨hviewed, hsame, -, -, hrefused⟩ := put_back halbum hevents hphoto huploaded views_viewing
    (brings_restoring (by decide +kernel) documentIn?_refused)
  have hbare : Record.Bare ⟨photo, [.integer 1, .null, .null], rfl⟩ := by
    rintro (_ | _ | _ | i) a ha hkind
    · cases ha
      cases hkind
    · rfl
    · rfl
    · simp [photo] at ha
  have hfilled : ¬Record.Bare ⟨photo, [.integer 1, .blob 0, .null], rfl⟩ := fun h =>
    absurd (h 1 _ rfl rfl) (by decide)
  obtain ⟨text, htext⟩ := hrefused hfilled
  exact ⟨hview, Prod.ext (hback hbare) hkept, hviewed, text, Prod.ext htext hsame⟩

end Http

end RecordService
