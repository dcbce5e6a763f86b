import RecordService.Proofs.Query.Canonical

/-!
# Printing filters

A filter need not come from the parser, so one can be printed that no text stands for. Where the
names of its properties are words that lead to them, and the texts of its literals stand for these
literals, the canonical text is read as the filter again, up to the limit on nesting, and is refused
beyond it. It is never read as another filter (`RecordService.Filter.parse_render_of_printable`).

* `RecordService.Filter.Printable`: a property and a literal that can be printed.
-/

namespace RecordService

/-! ### Equal values -/

/-- Numbers are only equal at the same distance from zero. Zeros differ in their signs and not in
this. -/
theorem Decimal.magnitude_eq_of_same {d e : Decimal} (h : d.same e) : d.magnitude = e.magnitude := by
  have hrank : d.rank = e.rank := by
    unfold Decimal.same Decimal.compare at h
    split at h
    · simp at h
    · exact Int.compare_eq_eq.mp (by simpa using h)
  unfold rank at hrank
  split at hrank <;> split at hrank <;> omega

/-- What is equal to a value that some text stands for is such a value as well. -/
theorem Value.readable_of_same {k : Kind} {v w : Value} (hw : w.Readable k) (h : w.same v) :
    v.Readable k := by
  cases w with
  | decimal e =>
    cases v with
    | decimal d =>
      cases k with
      | decimal =>
        have hfinite : e.magnitude < Decimal.infinityBits := by
          simpa [Readable, Decimal.isFinite] using hw
        simpa [Readable, Decimal.isFinite, ← Decimal.magnitude_eq_of_same h] using hfinite
      | _ => exact hw.elim
    | _ => simp [same] at h
  | _ =>
    obtain rfl := eq_of_beq h
    exact hw

/-- A value that its text stands for is one that some text stands for. -/
theorem Value.ReadsBack.readable {k : Kind} {v : Value} (h : v.ReadsBack k) : v.Readable k := by
  obtain ⟨w, hw, hsame⟩ := h
  exact readable_of_same (readable_of_coerce hw) hsame

namespace Filter

/-! ### Printable filters -/

/-- A property that its name leads to, and a literal whose text stands for it under the kind of the
property. The name is one word, and none of the words of the grammar. -/
structure Printable (t : RecordType) (p : Path) (v : Value) : Prop where
  resolved : Path.resolve t p.name = .ok p
  identifier : isIdentifier p.name
  unreserved : p.name ∉ ["and", "or", "not"]
  readsBack : v.ReadsBack p.kind

variable {t : RecordType}

theorem Printable.fits {p : Path} {v : Value} (h : Printable t p v) : Fits t p v where
  resolved := h.resolved
  word := lexical_of_isIdentifier h.identifier
  unreserved := h.unreserved
  literal := h.readsBack.readable

/-- **Printing is faithful**, and its limit is exact. The canonical text of a filter that can be
printed is read as this filter if no comparison lies under more than 64 operators, and is refused as
nested too deeply otherwise. In no case it is read as another filter. -/
theorem parse_render_of_printable {e : Filter} (he : e.Every fun p _ v => Printable t p v) :
    (e.nesting ≤ 64 → ∃ g, parse t (some e.render) = .ok (some g) ∧ g.same e) ∧
      (64 < e.nesting → ∃ fragment, parse t (some e.render) =
        .error (.malformedFilter "filter nested too deeply" fragment)) ∧
      ∀ g, parse t (some e.render) = .ok (some g) → g.same e := by
  have htyped : e.WellTyped t := he.imp fun _ _ _ h => h.fits
  have hback : e.Every fun p _ v => p.kind = .decimal ∨ p.kind = .dateTime → v.ReadsBack p.kind :=
    he.imp fun _ _ _ h _ => h.readsBack
  obtain ⟨hread, hrefused⟩ := parse_render_of_wellTyped htyped hback
  have hlimit : 64 < e.nesting → ∃ fragment, parse t (some e.render) =
      .error (.malformedFilter "filter nested too deeply" fragment) := by
    intro hn
    obtain ⟨place, hplace⟩ := hrefused hn
    exact ⟨String.ofList place, hplace⟩
  refine ⟨hread, hlimit, fun g hg => ?_⟩
  rcases Nat.lt_or_ge 64 e.nesting with hn | hn
  · obtain ⟨fragment, herror⟩ := hlimit hn
    rw [hg] at herror
    cases herror
  · obtain ⟨g', hg', hsame⟩ := hread hn
    obtain rfl : g = g' := by
      rw [hg] at hg'
      exact Option.some.inj (Except.ok.inj hg')
    exact hsame

/-- A filter with all operators, and a name with a quote in it, is read again. A chain is refused
that is one operator too long. -/
theorem parse_render_of_printable_people :
    let e : Filter := .not (.and (.comparison people.named .eq (.text "O'Hara"))
      (.or (.comparison people.age .lt (.integer (-3))) people.infant))
    e.render = "not (Name eq 'O''Hara' and (Age lt -3 or Age eq 1))" ∧
      (∃ g, parse people (some e.render) = .ok (some g) ∧ g.same e) ∧
      ∃ fragment, parse people (some (orChain people.infant 65).render) =
        .error (.malformedFilter "filter nested too deeply" fragment) := by
  intro e
  have hnamed : Printable people people.named (.text "O'Hara") :=
    ⟨rfl, by decide, by decide, .text "O'Hara", rfl, by decide⟩
  have hage {n : Int} (h : (Value.integer n).ReadsBack .integer) :
      Printable people people.age (.integer n) :=
    ⟨rfl, by decide, by decide, h⟩
  have hminus : Printable people people.age (.integer (-3)) := hage ⟨.integer (-3), rfl, by decide⟩
  have hinfant : people.infant.Every fun p _ v => Printable people p v :=
    hage ⟨.integer 1, rfl, by decide⟩
  have he : e.Every fun p _ v => Printable people p v := ⟨hnamed, hminus, hinfant⟩
  refine ⟨by decide, (parse_render_of_printable he).1 (by decide), ?_⟩
  refine (parse_render_of_printable (every_orChain hinfant 65)).2.1 ?_
  rw [nesting_orChain]
  decide

end Filter

end RecordService
