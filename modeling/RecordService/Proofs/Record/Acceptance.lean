import RecordService.Proofs.Record.Texts
import RecordService.Proofs.Store.Transfer
import RecordService.Proofs.Text.Utf8

/-!
# Which texts make a record

Texts by name make a record all together or not at all. What counts is each entry on its own: its
name has to lead to an attribute, and its text has to be one that this attribute takes. A record that
is made has exactly the values that its texts are taken for, and `null` elsewhere; where there is
none, the error tells the fault of the first entry at fault, in the order of the encoded names
(`RecordService.Record.judges_ofTexts`).

* `RecordService.RecordType.Names`: the attribute that a name leads to.
* `RecordService.Attribute.Takes`: the value that an attribute takes a text for.
* `RecordService.RecordType.Good`, `RecordService.RecordType.Fault`: entries that can be set, and the
  errors of those that cannot.
* `RecordService.Record.Judges`: the outcome that some texts should have.
-/

namespace RecordService

/-! ### Entries -/

/-- Whether a name, which has to be a path of one segment, leads to an attribute at a position. -/
def RecordType.Names (t : RecordType) (name : String) (i : Nat) (a : Attribute) : Prop :=
  Path.isSegment name ∧ t.index? name = some i ∧ t.attributes[i]? = some a

/-- The value that an attribute takes a text for. -/
inductive Attribute.Takes (a : Attribute) : String → Value → Prop
  /-- The empty text clears the attribute where that is allowed. -/
  | cleared : a.nullable → a.kind ≠ .text → a.Takes "" .null
  /-- Other texts, and every text of a text attribute, are read by the kind. -/
  | read {s : String} {v : Value} :
      (s ≠ "" ∨ a.kind = .text) → Value.coerce a.kind s = some v → a.Takes s v

/-- An attribute takes a text for one value at most. -/
theorem Attribute.Takes.unique {a : Attribute} {s : String} {v w : Value} (hv : a.Takes s v)
    (hw : a.Takes s w) : v = w := by
  cases hv with
  | cleared _ hkind =>
    cases hw with
    | cleared => rfl
    | read hs _ => exact absurd hs (by simp [hkind])
  | read hs hread =>
    cases hw with
    | cleared _ hkind => exact absurd hs (by simp [hkind])
    | read _ hread' => exact Option.some.inj (hread.symm.trans hread')

namespace RecordType

/-- Whether an entry can be set. -/
def Good (t : RecordType) (e : String × String) : Prop :=
  ∃ i a v, t.Names e.1 i a ∧ a.Takes e.2 v

/-- What is wrong with an entry that cannot be set. -/
inductive Fault (t : RecordType) : String × String → RequestError → Prop
  /-- The name leads nowhere. -/
  | name {n s : String} : (∀ i a, ¬t.Names n i a) → t.Fault (n, s) (.unresolvable t.name n)
  /-- The attribute does not take the text. -/
  | text {n s : String} {i : Nat} {a : Attribute} : t.Names n i a → (∀ v, ¬a.Takes s v) →
      t.Fault (n, s) (.typeMismatch a.name a.kind s)

variable {t : RecordType} {n m s : String} {i : Nat} {a b : Attribute}

theorem Names.name_eq (h : t.Names n i a) : a.name = n := by
  obtain ⟨hlt, hname, -⟩ := List.findIdx?_eq_some_iff_getElem.mp h.2.1
  obtain ⟨_, rfl⟩ := List.getElem?_eq_some_iff.mp h.2.2
  exact eq_of_beq hname

/-- **Two names never lead to one attribute.** So no text overwrites another one, and the order in
which they are set does not matter to the values. -/
theorem Names.name_inj (h : t.Names n i a) (h' : t.Names m i b) : n = m := by
  obtain rfl : a = b := Option.some.inj (h.2.2.symm.trans h'.2.2)
  rw [← h.name_eq, ← h'.name_eq]

theorem Names.unique {j : Nat} (h : t.Names n i a) (h' : t.Names n j b) : i = j ∧ a = b := by
  obtain rfl : i = j := Option.some.inj (h.2.1.symm.trans h'.2.1)
  exact ⟨rfl, Option.some.inj (h.2.2.symm.trans h'.2.2)⟩

/-- A name leads to a property, with the position and the kind of its attribute. -/
theorem resolve_of_names (h : t.Names n i a) :
    Path.resolve t n = .ok ⟨t.name, a.name, i, a.kind⟩ := by
  simp [Path.resolve, h.1, h.2.1, h.2.2]

theorem resolve_of_not_names (h : ∀ i a, ¬t.Names n i a) :
    Path.resolve t n = .error (.unresolvable t.name n) := by
  cases hp : Path.resolve t n with
  | ok p =>
    obtain ⟨-, -, hindex, a, ha, -⟩ := Path.resolve_eq_ok hp
    have hsegment : Path.isSegment n := by
      by_contra hno
      simp [Path.resolve, hno] at hp
    exact absurd ⟨hsegment, hindex, ha⟩ (h p.index a)
  | error e =>
    unfold Path.resolve at hp
    dsimp only at hp
    split at hp
    · simp at hp
    · rw [Except.error.inj hp]

end RecordType

/-! ### One entry -/

namespace Record

open RecordType

variable {t : RecordType} {r r' : Record} {n s : String} {i : Nat} {a : Attribute} {v : Value}
  {e : RequestError} {es : List (String × String)}

/-- The value of a text is the one that its attribute takes it for. -/
theorem valueOf_of_takes (ha : t.attributes[i]? = some a) (h : a.Takes s v) :
    valueOf t ⟨t.name, a.name, i, a.kind⟩ s = .ok v := by
  cases h with
  | cleared hnullable hkind => simp [valueOf, hkind, ha, hnullable]
  | read hs hv =>
    have hread : ¬(s.isEmpty ∧ a.kind ≠ .text) := by
      rintro ⟨hempty, hkind⟩
      exact hs.elim (fun hne => hne (by simpa using hempty)) hkind
    simp only [valueOf, if_neg hread, hv]

/-- A text that the attribute takes for nothing does not match its type. -/
theorem valueOf_of_not_takes (ha : t.attributes[i]? = some a) (h : ∀ v, ¬a.Takes s v) :
    valueOf t ⟨t.name, a.name, i, a.kind⟩ s = .error (.typeMismatch a.name a.kind s) := by
  by_cases hs : s.isEmpty ∧ a.kind ≠ .text
  · have hrequired : a.nullable = false := by
      by_contra hnullable
      obtain rfl : s = "" := by simpa using hs.1
      exact h .null (.cleared (by simpa using hnullable) hs.2)
    simp only [valueOf, if_pos hs, ha, Option.any_some, hrequired, Bool.false_eq_true, if_false]
  · cases hv : Value.coerce a.kind s with
    | some v =>
      refine absurd (Attribute.Takes.read ?_ hv) (h v)
      by_cases hempty : s = ""
      · exact .inr (by simpa [hempty] using hs)
      · exact .inl hempty
    | none => simp only [valueOf, if_neg hs, hv]

/-- An entry that can be set is set at its position, and leaves all others. -/
theorem setText_of_takes (hr : r.type = t) (hn : t.Names n i a) (hs : a.Takes s v) :
    r.setText n s = .ok (r.setAt i v) := by
  subst hr
  have howns := owns_of_resolve (resolve_of_names hn)
  simp only [setText, resolve_of_names hn, valueOf_of_takes hn.2.2 hs, bind, Except.bind, set,
    if_pos howns]

/-- An entry at fault fails with its fault, whatever the record holds. So the fault does not depend
on the entries before. -/
theorem setText_of_fault (hr : r.type = t) (h : t.Fault (n, s) e) : r.setText n s = .error e := by
  subst hr
  cases h with
  | name hn => simp [setText, resolve_of_not_names hn, bind, Except.bind]
  | text hn hs =>
    simp [setText, resolve_of_names hn, valueOf_of_not_takes hn.2.2 hs, bind, Except.bind]

/-- Every entry can be set or is at fault: its name is resolved or not, and its text is taken or
not. -/
theorem good_or_fault (t : RecordType) (x : String × String) : t.Good x ∨ ∃ e, t.Fault x e := by
  by_cases hn : ∃ i a, t.Names x.1 i a
  · obtain ⟨i, a, hn⟩ := hn
    by_cases hs : ∃ v, a.Takes x.2 v
    · obtain ⟨v, hs⟩ := hs
      exact .inl ⟨i, a, v, hn, hs⟩
    · exact .inr ⟨_, .text hn fun v hv => hs ⟨v, hv⟩⟩
  · exact .inr ⟨_, .name fun i a h => hn ⟨i, a, h⟩⟩

/-! ### All entries -/

/-- Where an entry can be set, there is a next record of the same type. -/
theorem exists_setText_of_good (r : Record) (x : String × String) (hr : r.type = t)
    (hx : t.Good x) : ∃ r', r.setText x.1 x.2 = .ok r' ∧ r'.type = t := by
  obtain ⟨i, a, v, hn, hs⟩ := hx
  exact ⟨r.setAt i v, setText_of_takes hr hn hs, hr⟩

/-- The first entry at fault decides, whatever comes after it. Entries are set in the order of their
names. -/
theorem foldlM_of_fault {x : String × String} {before after : List (String × String)}
    (hr : r.type = t) (hbefore : ∀ y ∈ before, t.Good y) (hx : t.Fault x e) :
    (before ++ x :: after).foldlM (fun r e => r.setText e.1 e.2) r = .error e :=
  Outcome.foldlM_of_first_fault exists_setText_of_good (fun _ _ _ hr hx => setText_of_fault hr hx)
    hr hbefore hx

/-- A record that is made has no entry at fault. -/
theorem good_of_ofTexts {ts : Texts} (h : ofTexts t ts = .ok r) : ∀ x ∈ ts.entries, t.Good x := by
  rcases Outcome.good_or_first_fault (good_or_fault t) ts.entries with
    hgood | ⟨before, x, after, e, heq, hbefore, hx⟩
  · exact hgood
  · rw [ofTexts, heq, foldlM_of_fault rfl hbefore hx] at h
    simp at h

theorem eq_of_values {x y : Record} (htype : x.type = y.type) (h : x.values = y.values) : x = y := by
  cases x
  cases y
  simp_all

theorem exists_ofTexts {ts : Texts} (h : ∀ x ∈ ts.entries, t.Good x) :
    ∃ r, ofTexts t ts = .ok r :=
  (Outcome.exists_foldlM exists_setText_of_good rfl h).imp fun _ h => h.1

/-- The record has the values that its texts are taken for. None of them was overwritten, since
names are unique. -/
theorem taken_of_ofTexts {ts : Texts} (h : ofTexts t ts = .ok r) :
    r.type = t ∧ ∀ n s, (n, s) ∈ ts.entries →
      ∃ i a v, t.Names n i a ∧ a.Takes s v ∧ r.values[i]? = some v := by
  have hholds := holds_of_ofTexts h
  refine ⟨hholds.type, fun n s hmem => ?_⟩
  obtain ⟨i, a, v, hn, hs⟩ := good_of_ofTexts h _ hmem
  obtain ⟨p, w, hp, hw, hvalue⟩ := hholds.given n s hmem
  obtain rfl := Except.ok.inj ((resolve_of_names hn).symm.trans hp)
  obtain rfl := Except.ok.inj ((valueOf_of_takes hn.2.2 hs).symm.trans hw)
  exact ⟨i, a, v, hn, hs, hvalue⟩

/-- All other values of the record are `null`, as they were in the empty record that the texts were
set in. -/
theorem null_of_ofTexts {ts : Texts} (h : ofTexts t ts = .ok r) (hi : i < t.attributes.length)
    (hother : ∀ n s a, (n, s) ∈ ts.entries → ¬t.Names n i a) : r.values[i]? = some .null := by
  refine (holds_of_ofTexts h).absent i hi fun n s p hmem hp heq => ?_
  obtain ⟨j, a, v, hn, -⟩ := good_of_ofTexts h _ hmem
  obtain rfl := Except.ok.inj ((resolve_of_names hn).symm.trans hp)
  exact hother n s a hmem (heq ▸ hn)

/-- An error is the fault of the first entry at fault, in the order of the names. -/
theorem fault_of_ofTexts {ts : Texts} (h : ofTexts t ts = .error e) :
    ∃ x ∈ ts.entries, t.Fault x e ∧ ∀ y ∈ ts.entries, ¬t.Good y → y = x ∨ x.1 < y.1 := by
  rcases Outcome.good_or_first_fault (good_or_fault t) ts.entries with
    hgood | ⟨before, x, after, e', heq, hbefore, hx⟩
  · obtain ⟨r, hr⟩ := exists_ofTexts hgood
    rw [hr] at h
    simp at h
  · obtain rfl : e' = e := by
      rw [ofTexts, heq, foldlM_of_fault rfl hbefore hx] at h
      exact Except.error.inj h
    have hordered := ts.ordered
    rw [heq] at hordered ⊢
    refine ⟨x, by simp, hx, fun y hy hbad => ?_⟩
    rcases List.mem_append.mp hy with hy | hy
    · exact absurd (hbefore y hy) hbad
    · rcases List.mem_cons.mp hy with rfl | hy
      · exact .inl rfl
      · exact .inr ((List.pairwise_cons.mp (List.pairwise_append.mp hordered).2.1).1 y hy)

/-- A record is made from all texts that its attributes take for its values, if it is `null`
elsewhere. -/
theorem ofTexts_eq_ok {ts : Texts} (hr : r.type = t)
    (hgiven : ∀ n s, (n, s) ∈ ts.entries →
      ∃ i a v, t.Names n i a ∧ a.Takes s v ∧ r.values[i]? = some v)
    (habsent : ∀ i < t.attributes.length,
      (∀ n s a, (n, s) ∈ ts.entries → ¬t.Names n i a) → r.values[i]? = some .null) :
    ofTexts t ts = .ok r := by
  have hgood : ∀ x ∈ ts.entries, t.Good x := by
    intro x hx
    obtain ⟨i, a, v, hn, hs, -⟩ := hgiven x.1 x.2 hx
    exact ⟨i, a, v, hn, hs⟩
  obtain ⟨r', hr'⟩ := exists_ofTexts hgood
  obtain ⟨htype, hgiven'⟩ := taken_of_ofTexts hr'
  rw [hr', eq_of_values (htype.trans hr.symm)]
  refine List.ext_getElem (by rw [r'.length_values, r.length_values, htype, hr]) fun i hi hi' => ?_
  rw [← Option.some_inj, ← List.getElem?_eq_getElem hi, ← List.getElem?_eq_getElem hi']
  by_cases h : ∃ n s a, (n, s) ∈ ts.entries ∧ t.Names n i a
  · obtain ⟨n, s, a, hmem, hn⟩ := h
    obtain ⟨j, b, v, hj, hv, hvalue⟩ := hgiven n s hmem
    obtain ⟨k, c, w, hk, hw, hvalue'⟩ := hgiven' n s hmem
    obtain ⟨rfl, rfl⟩ := hn.unique hj
    obtain ⟨rfl, rfl⟩ := hn.unique hk
    rw [hvalue, hvalue', hv.unique hw]
  · have hother : ∀ n s a, (n, s) ∈ ts.entries → ¬t.Names n i a :=
      fun n s a hmem hn => h ⟨n, s, a, hmem, hn⟩
    have hlt : i < t.attributes.length := by rwa [r.length_values, hr] at hi'
    rw [null_of_ofTexts hr' hlt hother, habsent i hlt hother]

/-- The outcome that texts should have when a record of a type is made from them. -/
structure Judges (t : RecordType) (ts : Texts) (o : Except RequestError Record) : Prop where
  /-- There is a record exactly if every entry can be set. -/
  accepts : (∃ r, o = .ok r) ↔ ∀ x ∈ ts.entries, t.Good x
  /-- The record has the values that its texts are taken for. -/
  given : ∀ r, o = .ok r → r.type = t ∧ ∀ n s, (n, s) ∈ ts.entries →
    ∃ i a v, t.Names n i a ∧ a.Takes s v ∧ r.values[i]? = some v
  /-- All other values of the record are `null`. -/
  absent : ∀ r, o = .ok r → ∀ i < t.attributes.length,
    (∀ n s a, (n, s) ∈ ts.entries → ¬t.Names n i a) → r.values[i]? = some .null
  /-- No two entries are set at one position. -/
  apart : ∀ x ∈ ts.entries, ∀ y ∈ ts.entries, ∀ i a b, t.Names x.1 i a → t.Names y.1 i b → x = y
  /-- An error is the fault of an entry, and the entries at fault besides have greater names. -/
  refuses : ∀ e, o = .error e → ∃ x ∈ ts.entries, t.Fault x e ∧
    ∀ y ∈ ts.entries, ¬t.Good y → y = x ∨ Bytes.ofText x.1 < Bytes.ofText y.1

/-- **Texts make a record all together or not at all**, for every type and all texts. A fault is the
one of the least name at fault, so it does not depend on how the texts were given. -/
theorem judges_ofTexts (t : RecordType) (ts : Texts) : Judges t ts (ofTexts t ts) where
  accepts := ⟨fun ⟨_, hr⟩ => good_of_ofTexts hr, exists_ofTexts⟩
  given r hr := taken_of_ofTexts hr
  absent r hr i hi hother := null_of_ofTexts hr hi hother
  apart x hx y hy i a b hxa hyb :=
    List.inj_on_of_nodup_map ts.nodup_names hx hy (hxa.name_inj hyb)
  refuses e he := by
    obtain ⟨x, hx, hfault, hfirst⟩ := fault_of_ofTexts he
    refine ⟨x, hx, hfault, fun y hy hbad => ?_⟩
    rw [Bytes.ofText_lt_iff]
    exact hfirst y hy hbad

end Record

end RecordService
