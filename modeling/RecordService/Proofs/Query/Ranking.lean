import RecordService.Proofs.Query.Order

/-!
# Orders rank records

What a sort relies on: on the records of a type, the comparison by an order that was read from a text
is a total preorder, whatever its terms are. The comparison of two values leaves some pairs without
an answer, and those are not told apart by the order for sorting, which could spoil the transitivity;
but two values of one kind always have an answer, and they tie only if they are equal
(`RecordService.Order.ranks_of_parse`).

* `RecordService.Value.compare_eq_eq_iff`: when two values of one kind tie.
* `RecordService.Order.Ranks`: the laws of a total preorder.
* `RecordService.Order.compare_of_null`: where the first term places what is `null`.
-/

namespace RecordService

/-! ### Values that tie -/

theorem Date.eq_of_compare {a b : Date} (h : a.compare b = .eq) : a = b := by
  unfold Date.compare at h
  simp only [Ordering.then_eq_eq, compare_eq_iff_eq] at h
  obtain ⟨hyear, hmonth, hday⟩ := h
  cases a
  cases b
  simp_all

theorem DateTime.eq_of_compare {a b : DateTime} (h : a.compare b = .eq) : a = b := by
  unfold DateTime.compare at h
  simp only [Ordering.then_eq_eq, compare_eq_iff_eq] at h
  obtain ⟨hdate, hsecond, hnano⟩ := h
  have hdate := Date.eq_of_compare hdate
  cases a
  cases b
  simp_all

namespace Value

variable {k : Kind} {v w : Value}

/-- **Values of one kind tie exactly if they are equal.** Equality is the one of values, by which a
zero equals its opposite. -/
theorem compare_eq_eq_iff (hv : v.kind? = some k) (hw : w.kind? = some k) :
    v.compare w = some .eq ↔ v.same w := by
  have hkind := hv.trans hw.symm
  cases v with
  | null => simp [kind?] at hv
  | integer n =>
    cases w with
    | integer m => simp [Value.compare, same]
    | _ => simp [kind?] at hkind
  | reference n =>
    cases w with
    | reference m => simp [Value.compare, same]
    | _ => simp [kind?] at hkind
  | decimal d =>
    cases w with
    | decimal e => simp [Value.compare, same, Decimal.same]
    | _ => simp [kind?] at hkind
  | text s =>
    cases w with
    | text u => simp [Value.compare, same]
    | _ => simp [kind?] at hkind
  | boolean b =>
    cases w with
    | boolean c => simp [Value.compare, same]
    | _ => simp [kind?] at hkind
  | dateTime t =>
    cases w with
    | dateTime u =>
      have hties : t.compare u = .eq ↔ t = u :=
        ⟨DateTime.eq_of_compare, fun h => h ▸ Std.ReflCmp.compare_self⟩
      simp [Value.compare, same, hties]
    | _ => simp [kind?] at hkind
  | blob n =>
    cases w with
    | blob m => simp [Value.compare, same]
    | _ => simp [kind?] at hkind

/-- Two values of an attribute are sorted by their order, which they always have. So the tie that
sorting falls back to is never used for them. -/
theorem exists_sortCompare (hv : v.Suits k) (hw : w.Suits k) (hnull : v ≠ .null)
    (hother : w ≠ .null) :
    ∃ o, v.compare w = some o ∧ v.sortCompare w = o ∧ (o = .eq ↔ v.same w) := by
  have hcompare := compare_eq_some hv hw hnull hother
  refine ⟨v.keyCompare w, hcompare, ?_, ?_⟩
  · rw [sortCompare_of_ne hnull hother, hcompare]
    rfl
  · rw [← compare_eq_eq_iff (hv.kind.resolve_left hnull) (hw.kind.resolve_left hother), hcompare,
      Option.some.injEq]

end Value

/-! ### Records -/

namespace Order

variable {t : RecordType} {o : Order} {a b c : List Value}

/-- **The laws of a total preorder** for the comparison of the records of a type. -/
structure Ranks (o : Order) (t : RecordType) : Prop where
  refl : ∀ a, t.Row a → o.compare a a = .eq
  swap : ∀ a b, t.Row a → t.Row b → o.compare b a = (o.compare a b).swap
  trans : ∀ a b c, t.Row a → t.Row b → t.Row c →
    o.compare a b ≠ .gt → o.compare b c ≠ .gt → o.compare a c ≠ .gt
  ties : Equivalence fun a b : { values : List Value // t.Row values } => o.compare a.1 b.1 = .eq

/-- The comparison by properties of a record type is part of a transitive one between all lists of
values, and so it ranks the records of the type. -/
theorem ranks_of_suits (ho : Suits t o) : o.Ranks t where
  refl a ha := by
    rw [compare_eq_totalCompare ho ha ha]
    exact Std.ReflCmp.compare_self
  swap a b ha hb := compare_swap ho ha hb
  trans a b c ha hb hc := by
    rw [compare_eq_totalCompare ho ha hb, compare_eq_totalCompare ho hb hc,
      compare_eq_totalCompare ho ha hc]
    simp only [← Ordering.isLE_iff_ne_gt]
    exact Std.TransCmp.isLE_trans
  ties := by
    refine ⟨fun a => ?_, fun {a b} hab => ?_, fun {a b c} hab hbc => ?_⟩
    · rw [compare_eq_totalCompare ho a.2 a.2]
      exact Std.ReflCmp.compare_self
    · rw [compare_swap ho a.2 b.2, hab]
      rfl
    · rw [compare_eq_totalCompare ho a.2 b.2] at hab
      rw [compare_eq_totalCompare ho b.2 c.2] at hbc
      rw [compare_eq_totalCompare ho a.2 c.2]
      exact Std.TransCmp.eq_trans hab hbc

/-- **Where `null` goes**: a record without the value that the first term sorts by comes after those
that have it when ascending, and before them when descending. -/
theorem compare_of_null {term : OrderTerm} (terms : List OrderTerm) (ha : term.value a = .null)
    (hb : term.value b ≠ .null) :
    Order.compare ⟨term :: terms⟩ a b = match term.direction with
      | .ascending => .gt
      | .descending => .lt := by
  rw [compare_cons, OrderTerm.compare_eq, ha, Value.sortCompare_null_left hb]
  cases term.direction <;> rfl

/-- **Orders rank records.** The comparison by an accepted order is a total preorder on the records of
the type, and its ties are an equivalence. What is `null` under the first term comes last when
ascending and first when descending. Two values that are sorted by always have an order, and tie only
if they are equal. -/
theorem ranks_of_parse {text : Option String} (ho : parse t text = .ok o) :
    o.Ranks t ∧
      (∀ term terms, o.terms = term :: terms → ∀ a b, t.Row a → t.Row b →
        a[term.path.index]? = some .null → b[term.path.index]? ≠ some .null →
          (term.direction = .ascending → o.compare a b = .gt ∧ o.compare b a = .lt) ∧
          (term.direction = .descending → o.compare a b = .lt ∧ o.compare b a = .gt)) ∧
      ∀ k v w, Value.Suits k v → Value.Suits k w → v ≠ .null → w ≠ .null →
        ∃ c, v.compare w = some c ∧ v.sortCompare w = c ∧ (c = .eq ↔ v.same w) := by
  have hsuits := suits_of_parse ho
  have hranks := ranks_of_suits hsuits
  refine ⟨hranks, ?_, fun k v w => Value.exists_sortCompare⟩
  rintro term terms hterms a b ha hb hnull hother
  obtain ⟨column, hcolumn⟩ := hsuits term (by simp [hterms])
  have hvalue : term.value a = .null := by
    simp [OrderTerm.value, List.getD_eq_getElem?_getD, hnull]
  have hpresent : term.value b ≠ .null := by
    intro h
    rw [hb.getElem?_eq hcolumn] at hother
    exact hother (congrArg some h)
  obtain rfl : o = ⟨term :: terms⟩ := by
    cases o
    exact congrArg Order.mk hterms
  have hforth := compare_of_null terms hvalue hpresent
  constructor
  · intro hdirection
    rw [hdirection] at hforth
    exact ⟨hforth, by rw [hranks.swap a b ha hb, hforth]; rfl⟩
  · intro hdirection
    rw [hdirection] at hforth
    exact ⟨hforth, by rw [hranks.swap a b ha hb, hforth]; rfl⟩

/-- Wares with a price, which may be missing. -/
def wares : RecordType where
  name := "Ware"
  space := "public"
  table := "Ware"
  attributes := [
    { name := "Id", kind := .integer, nullable := false, sidecar := none, target := none },
    { name := "Price", kind := .decimal, nullable := true, sidecar := none, target := none }]
  identity := 0

/-- The order by price, the greatest first. -/
def wares.dearest : Order := ⟨[⟨⟨"Ware", "Price", 1, .decimal⟩, .descending⟩]⟩

theorem wares.row {price : Value} (h : price = .null ∨ ∃ d, price = .decimal d ∧ d.isNaN = false)
    (id : Int) : wares.Row [.integer id, price] := by
  refine ⟨rfl, ?_, ?_⟩
  · rintro (_ | _ | i) a v ha hv
    · cases ha
      cases hv
      exact .inr rfl
    · cases ha
      cases hv
      rcases h with rfl | ⟨d, rfl, -⟩
      · exact .inl rfl
      · exact .inr rfl
    · simp at hv
  · intro d hd
    rcases h with rfl | ⟨e, rfl, he⟩
    · simp at hd
    · obtain rfl : d = e := by simpa using hd
      exact he

/-- The ware without a price comes first, and prices that differ only in the sign of zero tie, because
they are equal as numbers. -/
theorem ranks_of_parse_wares :
    parse wares (some "Price desc") = .ok wares.dearest ∧ wares.dearest.Ranks wares ∧
      wares.dearest.compare [.integer 1, .null] [.integer 2, .decimal (.zero true)] = .lt ∧
      wares.dearest.compare [.integer 2, .decimal (.zero true)]
        [.integer 3, .decimal (.zero false)] = .eq ∧
      (Value.decimal (.zero true)).same (.decimal (.zero false)) := by
  have hparse : parse wares (some "Price desc") = .ok wares.dearest := by decide +kernel
  obtain ⟨hranks, hnull, hvalues⟩ := ranks_of_parse hparse
  have hnone : wares.Row [.integer 1, .null] := wares.row (.inl rfl) 1
  have hzero (sign : Bool) (id : Int) : wares.Row [.integer id, .decimal (.zero sign)] :=
    wares.row (.inr ⟨_, rfl, rfl⟩) id
  have hties : wares.dearest.compare [.integer 2, .decimal (.zero true)]
      [.integer 3, .decimal (.zero false)] = .eq := by decide
  have hsuits (sign : Bool) : Value.Suits .decimal (.decimal (.zero sign)) := by
    refine ⟨.inr rfl, fun d hd => ?_⟩
    cases hd
    rfl
  obtain ⟨c, hcompare, -, hsame⟩ :=
    hvalues .decimal _ _ (hsuits true) (hsuits false) (by simp) (by simp)
  obtain rfl : Ordering.eq = c := Option.some.inj hcompare
  exact ⟨hparse, hranks, ((hnull _ _ rfl _ _ hnone (hzero true 2) rfl (by simp)).2 rfl).1, hties,
    hsame.mp rfl⟩

end Order

end RecordService
