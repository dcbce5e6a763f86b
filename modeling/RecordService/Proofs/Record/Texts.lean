import Mathlib.Data.List.Induction
import RecordService.Proofs.Lists
import RecordService.Proofs.Outcome
import RecordService.Proofs.Query.Typing
import RecordService.Record.Texts

/-!
# Records from texts

A record that is made from texts has, for each text, the value that it stands for at the place of its
attribute, and `null` everywhere else (`RecordService.Record.holds_of_ofTexts`).

* `RecordService.Texts.mem_insert`, `RecordService.Texts.mem_erase`: texts with one more, and with one
  less. Texts with the same entries are the same.
* `RecordService.Record.Holds`: a record with the values that some texts stand for.
-/

namespace RecordService

/-! ### Texts by name -/

namespace Texts

variable {ts us : Texts} {name n text : String} {e : String × String}

theorem nodup_names (ts : Texts) : (ts.entries.map (·.1)).Nodup := by
  refine List.pairwise_map.mpr (ts.ordered.imp fun {a b} h heq => ?_)
  exact String.lt_irrefl b.1 (heq ▸ h)

/-- Texts with the same entries are the same, since the names put the entries in order. -/
theorem ext_of_mem (h : ∀ e, e ∈ ts.entries ↔ e ∈ us.entries) : ts = us := by
  cases ts with
  | mk es hes =>
    cases us with
    | mk fs hfs =>
      obtain rfl : es = fs := Lists.eq_of_ordered hes hfs h
      rfl

theorem mem_insertEntry_iff {es : List (String × String)} (h : es.Pairwise fun a b => a.1 < b.1) :
    e ∈ insertEntry name text es ↔ e = (name, text) ∨ e ∈ es ∧ e.1 ≠ name := by
  have hne {a b : String} (hlt : a < b) : b ≠ a := fun heq => String.lt_irrefl _ (heq ▸ hlt)
  fun_induction insertEntry name text es with
  | case1 => simp
  | case2 m s es hlt =>
    -- all entries behind the place have greater names
    have hkeep : ∀ d ∈ (m, s) :: es, d.1 ≠ name := by
      intro d hd
      rcases List.mem_cons.mp hd with rfl | hd
      · exact hne hlt
      · exact hne (String.lt_trans hlt ((List.pairwise_cons.mp h).1 d hd))
    rw [List.mem_cons, and_iff_left_of_imp (hkeep e)]
  | case3 s es _ =>
    have hkeep : ∀ d ∈ es, d.1 ≠ name := fun d hd => hne ((List.pairwise_cons.mp h).1 d hd)
    rw [List.mem_cons, List.mem_cons, or_and_right, and_iff_left_of_imp (hkeep e)]
    refine or_congr_right ⟨.inr, fun hmem => hmem.resolve_left ?_⟩
    rintro ⟨rfl, hname⟩
    exact hname rfl
  | case4 m s es hlt hother ih =>
    have hrest : e ∈ insertEntry name text es ↔ e = (name, text) ∨ e ∈ es ∧ e.1 ≠ name :=
      ih (List.pairwise_cons.mp h).2
    rw [List.mem_cons, hrest, List.mem_cons, or_and_right, or_left_comm]
    refine or_congr_right (or_congr_left (and_iff_left_of_imp ?_).symm)
    rintro rfl
    exact Ne.symm hother

/-- Another text for a name replaces the one that was there. -/
theorem mem_insert :
    e ∈ (ts.insert name text).entries ↔ e = (name, text) ∨ e ∈ ts.entries ∧ e.1 ≠ name :=
  mem_insertEntry_iff ts.ordered

theorem mem_erase : e ∈ (ts.erase name).entries ↔ e ∈ ts.entries ∧ e.1 ≠ name := by
  simp [erase]

theorem erase_insert_self (ts : Texts) (name text : String) :
    (ts.insert name text).erase name = ts.erase name := by
  refine ext_of_mem fun e => ?_
  rw [mem_erase, mem_erase, mem_insert]
  constructor
  · rintro ⟨rfl | h, hne⟩
    · exact absurd rfl hne
    · exact h
  · exact fun h => ⟨.inr h, h.2⟩

theorem erase_insert_of_ne (ts : Texts) (h : n ≠ name) (text : String) :
    (ts.insert n text).erase name = (ts.erase name).insert n text := by
  refine ext_of_mem fun e => ?_
  rw [mem_erase, mem_insert, mem_insert, mem_erase]
  constructor
  · rintro ⟨rfl | ⟨hmem, hn⟩, hname⟩
    · exact .inl rfl
    · exact .inr ⟨⟨hmem, hname⟩, hn⟩
  · rintro (rfl | ⟨⟨hmem, hname⟩, hn⟩)
    · exact ⟨.inl rfl, h⟩
    · exact ⟨.inr ⟨hmem, hn⟩, hname⟩

theorem insert_erase (ts : Texts) (name text : String) :
    (ts.erase name).insert name text = ts.insert name text := by
  refine ext_of_mem fun e => ?_
  rw [mem_insert, mem_insert, mem_erase, and_assoc, and_self]

end Texts

/-! ### Records -/

namespace Record

variable {t : RecordType} {r : Record} {es : List (String × String)} {v : Value}

/-- A value that stands for a text is one that the attribute can have, or `null`. -/
theorem readable_of_valueOf {p : Path} {text : String} (h : valueOf t p text = .ok v) :
    v = .null ∨ v.Readable p.kind := by
  unfold valueOf at h
  split at h
  · split at h
    · exact .inl (Except.ok.inj h).symm
    · simp at h
  · split at h
    · next w hw =>
      obtain rfl := Except.ok.inj h
      exact .inr (Value.readable_of_coerce hw)
    · simp at h

/-- A record of a type with the values that some texts stand for, and no others. -/
structure Holds (t : RecordType) (es : List (String × String)) (r : Record) : Prop where
  type : r.type = t
  given : ∀ n s, (n, s) ∈ es → ∃ p v, Path.resolve t n = .ok p ∧ valueOf t p s = .ok v ∧
    r.values[p.index]? = some v
  absent : ∀ i < t.attributes.length,
    (∀ n s p, (n, s) ∈ es → Path.resolve t n = .ok p → p.index ≠ i) → r.values[i]? = some .null

theorem holds_empty (t : RecordType) : Holds t [] (empty t) := by
  refine ⟨rfl, by simp, fun i hi _ => ?_⟩
  simp [empty, hi]

/-- Paths of different names lead to different attributes. -/
theorem eq_of_index {n m : String} {p q : Path} (hp : Path.resolve t n = .ok p)
    (hq : Path.resolve t m = .ok q) (h : p.index = q.index) : n = m := by
  obtain ⟨-, -, -, a, ha, rfl, -⟩ := Path.resolve_eq_ok hp
  obtain ⟨-, -, -, b, hb, rfl, -⟩ := Path.resolve_eq_ok hq
  rw [h, hb] at ha
  rw [Option.some.inj ha]

/-- What a text that is accepted does to a record: it sets one value, at the position of the name.
-/
theorem setText_eq_ok {r' : Record} {n s : String} (h : r.setText n s = .ok r') :
    ∃ p v, Path.resolve r.type n = .ok p ∧ valueOf r.type p s = .ok v ∧ r' = r.setAt p.index v := by
  obtain ⟨p, hp, h⟩ := Outcome.bind_eq_ok_iff.mp h
  obtain ⟨v, hv, h⟩ := Outcome.bind_eq_ok_iff.mp h
  unfold set at h
  split at h
  · exact ⟨p, v, hp, hv, (Except.ok.inj h).symm⟩
  · simp at h

/-- **One more text** is set beside the others. -/
theorem Holds.setText (h : Holds t es r) {r' : Record} {n s : String}
    (hn : ∀ e ∈ es, e.1 ≠ n) (hset : r.setText n s = .ok r') : Holds t (es ++ [(n, s)]) r' := by
  obtain ⟨p, v, hp, hv, rfl⟩ := setText_eq_ok hset
  rw [h.type] at hp hv
  refine ⟨h.type, ?_, ?_⟩
  · intro m u hmem
    rcases List.mem_append.mp hmem with hmem | hmem
    · obtain ⟨q, w, hq, hw, hvalue⟩ := h.given m u hmem
      have hne : p.index ≠ q.index := fun heq => hn _ hmem (eq_of_index hp hq heq).symm
      exact ⟨q, w, hq, hw, by rwa [setAt, List.getElem?_set_ne hne]⟩
    · obtain ⟨rfl, rfl⟩ := Prod.mk.inj (List.mem_singleton.mp hmem)
      obtain ⟨-, -, -, a, ha, -⟩ := Path.resolve_eq_ok hp
      have hlt : p.index < r.values.length := by
        rw [r.length_values, h.type]
        exact (List.getElem?_eq_some_iff.mp ha).1
      exact ⟨p, v, hp, hv, by rw [setAt, List.getElem?_set_self hlt]⟩
  · intro i hi hother
    have hne : p.index ≠ i := hother n s p (by simp) hp
    rw [setAt, List.getElem?_set_ne hne]
    exact h.absent i hi fun m u q hmem => hother m u q (List.mem_append_left _ hmem)

/-- **A record from texts** has the values that they stand for, by induction from the last one. The
names before it differ, so what they set is still there. -/
theorem holds_of_ofTexts {ts : Texts} (h : ofTexts t ts = .ok r) : Holds t ts.entries r := by
  have hordered := ts.ordered
  unfold ofTexts at h
  generalize ts.entries = es at h hordered
  induction es using List.reverseRecOn generalizing r with
  | nil =>
    obtain rfl := Except.ok.inj h
    exact holds_empty t
  | append_singleton es e ih =>
    rw [List.foldlM_append] at h
    obtain ⟨r', hbefore, h⟩ := Outcome.bind_eq_ok_iff.mp h
    rw [List.foldlM_cons] at h
    obtain ⟨r'', hset, h⟩ := Outcome.bind_eq_ok_iff.mp h
    obtain rfl := Except.ok.inj h
    obtain ⟨hfirst, -, hlast⟩ := List.pairwise_append.mp hordered
    refine (ih hbefore hfirst).setText (fun d hd heq => ?_) hset
    exact String.lt_irrefl _ (heq ▸ hlast d hd e (by simp))

/-- Every value of a record from texts is one that its attribute can have. -/
theorem Holds.readable (h : Holds t es r) {i : Nat} {a : Attribute} (ha : t.attributes[i]? = some a)
    (hv : r.values[i]? = some v) : v = .null ∨ v.Readable a.kind := by
  by_cases hgiven : ∃ n s p, (n, s) ∈ es ∧ Path.resolve t n = .ok p ∧ p.index = i
  · obtain ⟨n, s, p, hmem, hp, rfl⟩ := hgiven
    obtain ⟨q, w, hq, hw, hvalue⟩ := h.given n s hmem
    obtain rfl : p = q := Except.ok.inj (hp.symm.trans hq)
    obtain ⟨-, -, -, b, hb, -, hkind⟩ := Path.resolve_eq_ok hp
    rw [ha] at hb
    rw [hv] at hvalue
    rw [Option.some.inj hb, hkind, Option.some.inj hvalue]
    exact readable_of_valueOf hw
  · have hnull := h.absent i (List.getElem?_eq_some_iff.mp ha).1 fun n s p hmem hp heq =>
      hgiven ⟨n, s, p, hmem, hp, heq⟩
    exact .inl (Option.some.inj (hv.symm.trans hnull))

end Record

end RecordService
