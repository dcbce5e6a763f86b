import Mathlib.Logic.Basic
import RecordService.Proofs.Query.Typing

/-!
# Unknown answers

A comparison has no answer where two values have no order. In a filter that the parser accepts every
literal is of the kind of its attribute, so on a row of the record type this happens only for `null`,
and the answer of a whole filter is unknown only because an attribute that it mentions is `null`
(`RecordService.Filter.unknown_only_of_null`).

* `RecordService.Filter.Mentions`: the properties in a filter.
* `RecordService.Filter.MeetsNull`: an attribute that a filter mentions is `null` in a row.
-/

namespace RecordService

/-! ### Three-valued logic -/

namespace Truth

variable {a b : Option Bool}

/-- A conjunction is unknown only if one of its sides is. -/
theorem both_eq_none (h : both a b = none) : a = none ∨ b = none := by
  rcases a with _ | _ | _ <;> rcases b with _ | _ | _ <;> simp [both] at h ⊢

theorem either_eq_none (h : either a b = none) : a = none ∨ b = none := by
  rcases a with _ | _ | _ <;> rcases b with _ | _ | _ <;> simp [either] at h ⊢

end Truth

namespace Filter

variable {t : RecordType} {f l r : Filter} {p : Path} {values : List Value}

/-- Whether a filter mentions a property. -/
def Mentions (p : Path) : Filter → Prop
  | comparison q _ _ => q = p
  | and l r => l.Mentions p ∨ r.Mentions p
  | or l r => l.Mentions p ∨ r.Mentions p
  | not f => f.Mentions p

/-- Whether an attribute that a filter mentions is `null` in a row. -/
def MeetsNull (t : RecordType) (values : List Value) (f : Filter) : Prop :=
  ∃ p, f.Mentions p ∧ (∃ a, t.attributes[p.index]? = some a ∧ a.name = p.name) ∧
    values[p.index]? = some .null

theorem MeetsNull.mono (h : f.MeetsNull t values) {g : Filter}
    (hg : ∀ p, f.Mentions p → g.Mentions p) : g.MeetsNull t values := by
  obtain ⟨p, hp, hnull⟩ := h
  exact ⟨p, hg p hp, hnull⟩

/-- A comparison has an answer unless the attribute is `null`, since the value and the literal have
one kind, and a row of the type holds no decimal that is not a number. -/
theorem meetsNull_comparison {op : Comparison} {v : Value} (hfits : Fits t p v)
    (hrow : t.Row values) (h : (comparison p op v).evaluate values = none) :
    (comparison p op v).MeetsNull t values := by
  obtain ⟨-, -, -, a, ha, hname, hkind⟩ := Path.resolve_eq_ok hfits.resolved
  refine ⟨p, rfl, ⟨a, ha, hname⟩, ?_⟩
  have hlt : p.index < values.length := by
    rw [hrow.length_values]
    exact (List.getElem?_eq_some_iff.mp ha).1
  have hvalue : values[p.index]? = some values[p.index] := List.getElem?_eq_getElem hlt
  -- any other value is of the kind of the literal, and so has an order with it
  rcases hrow.fits p.index a _ ha hvalue with hnull | hvkind
  · rw [hvalue, hnull]
  · have hnumber : ∀ d, values[p.index] = .decimal d → d.isNaN = false := fun d hd =>
      hrow.isNaN d (hd ▸ List.getElem_mem hlt)
    obtain ⟨o, ho⟩ := Value.exists_compare (hvkind.trans (congrArg some hkind)) hfits.literal hnumber
    simp [evaluate, hvalue, ho] at h

/-- **An answer is unknown only because of a `null`**, by induction on the filter: a side that is
unknown meets a `null`, and its attributes are mentioned by the whole. -/
theorem meetsNull_of_evaluate (hf : f.WellTyped t) (hrow : t.Row values)
    (h : f.evaluate values = none) : f.MeetsNull t values := by
  induction f with
  | comparison p op v => exact meetsNull_comparison hf hrow h
  | and l r ihl ihr =>
    rcases Truth.both_eq_none h with h | h
    · exact (ihl hf.1 h).mono fun _ => .inl
    · exact (ihr hf.2 h).mono fun _ => .inr
  | or l r ihl ihr =>
    rcases Truth.either_eq_none h with h | h
    · exact (ihl hf.1 h).mono fun _ => .inl
    · exact (ihr hf.2 h).mono fun _ => .inr
  | not f ih => exact (ih hf (Option.map_eq_none_iff.mp h)).mono fun _ => id

/-- A filter whose answer is known is either true or false, and exactly one of it and its opposite
accepts the row. -/
theorem xor_accepts_not (h : f.evaluate values ≠ none) :
    Xor (f.accepts values = true) ((not f).accepts values = true) := by
  obtain ⟨b, hb⟩ := Option.ne_none_iff_exists'.mp h
  cases b <;> simp [accepts, evaluate, Truth.negate, hb, Xor]

/-- **A filter is unknown only because of a `null`**: some attribute that it mentions. Where none of
them is `null`, exactly one of the filter and its opposite is certainly true. -/
theorem unknown_only_of_null {raw : Option String} (h : parse t raw = .ok (some f))
    (hrow : t.Row values) :
    (f.evaluate values = none → f.MeetsNull t values) ∧
      (¬f.MeetsNull t values →
        Xor (f.accepts values = true) ((not f).accepts values = true)) := by
  -- a missing text is read as an empty one
  have hparse : parse t (some (raw.getD "")) = .ok (some f) := h
  have hnull := meetsNull_of_evaluate (wellTyped_of_parse hparse) hrow
  exact ⟨hnull, fun hno => xor_accepts_not (mt hnull hno)⟩

/-- A person, whose name may be missing. -/
theorem people.row {name : Value} (h : name = .null ∨ ∃ s, name = .text s) (id age : Int) :
    people.Row [.integer id, name, .integer age] := by
  refine ⟨rfl, ?_, ?_⟩
  · rintro (_ | _ | _ | i) a v ha hv
    · cases ha
      cases hv
      exact .inr rfl
    · cases ha
      cases hv
      rcases h with rfl | ⟨s, rfl⟩
      · exact .inl rfl
      · exact .inr rfl
    · cases ha
      cases hv
      exact .inr rfl
    · simp at hv
  · rintro d hd
    rcases h with rfl | ⟨s, rfl⟩ <;> simp at hd

/-- A missing name leaves the answer open where the age does not settle it, and where both are there
the answer is known. -/
theorem unknown_only_of_null_people :
    let f : Filter := .or (.comparison people.named .eq (.text "Ann"))
      (.not (.comparison people.age .gt (.integer 3)))
    parse people (some "Name eq 'Ann' or not Age gt 3") = .ok (some f) ∧
      people.Row [.integer 1, .null, .integer 5] ∧ people.Row [.integer 2, .text "Bo", .integer 5] ∧
      f.MeetsNull people [.integer 1, .null, .integer 5] ∧
      Xor (f.accepts [.integer 2, .text "Bo", .integer 5] = true)
        ((not f).accepts [.integer 2, .text "Bo", .integer 5] = true) := by
  intro f
  have hparse : parse people (some "Name eq 'Ann' or not Age gt 3") = .ok (some f) := by
    decide +kernel
  have hunnamed : people.Row [.integer 1, .null, .integer 5] := people.row (by simp) 1 5
  have hnamed : people.Row [.integer 2, .text "Bo", .integer 5] := people.row (by simp) 2 5
  refine ⟨hparse, hunnamed, hnamed, ?_, ?_⟩
  · exact (unknown_only_of_null hparse hunnamed).1 rfl
  · refine (unknown_only_of_null hparse hnamed).2 ?_
    rintro ⟨p, rfl | rfl, -, hnull⟩
    · simp [people.named] at hnull
    · simp [people.age] at hnull

end Filter

end RecordService
