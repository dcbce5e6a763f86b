import Mathlib.Order.Basic
import RecordService.Proofs.Query.Typing
import RecordService.Query.Order

/-!
# The order of records

What it means that one record comes before another: the first term of the order that tells the two
apart decides, `null` coming last in ascending and first in descending direction, and where no term
does, the identities decide. The comparison that records are sorted by says just that, and on the
records of a type it is one that sorting can rely on.

* `RecordService.Direction.Leads`, `RecordService.Value.Ties`: the order of two values.
* `RecordService.Order.Precedes`: the order of two records, which can be computed.
* `RecordService.Order.precedes_iff`: what the comparison of two records tells of their order.
* `RecordService.Order.compare_eq_totalCompare`: on the records of a type, the comparison is part of
  a transitive one between all lists of values.
-/

namespace RecordService

/-! ### Moments -/

instance : Std.TransCmp Date.compare :=
  inferInstanceAs (Std.TransCmp
    (compareLex (compareOn Date.year) (compareLex (compareOn Date.month) (compareOn Date.day))))

instance : Ord Date := ⟨Date.compare⟩

instance : Std.TransOrd Date := inferInstanceAs (Std.TransCmp Date.compare)

instance : Std.TransCmp DateTime.compare :=
  inferInstanceAs (Std.TransCmp (compareLex (compareOn DateTime.date)
    (compareLex (compareOn DateTime.second) (compareOn DateTime.nano))))

instance : Ord DateTime := ⟨DateTime.compare⟩

instance : Std.TransOrd DateTime := inferInstanceAs (Std.TransCmp DateTime.compare)

/-! ### Values -/

namespace Value

variable {k : Kind} {v w : Value}

/-- Whether an attribute of a kind can have a value: `null`, or one of the kind, and no decimal that
is not a number. -/
structure Suits (k : Kind) (v : Value) : Prop where
  kind : v = .null ∨ v.kind? = some k
  isNaN : ∀ d, v = .decimal d → d.isNaN = false

theorem isNull_eq_false (h : v ≠ .null) : v.isNull = false := by
  cases v with
  | null => exact absurd rfl h
  | _ => rfl

/-- The number that a value is ordered by. -/
def number? : Value → Option Int
  | integer n => some n
  | reference n => some n
  | decimal d => some d.rank
  | boolean b => some b.toNat
  | blob length => some length
  | _ => none

/-- The text that a value is ordered by. -/
def text? : Value → Option String
  | text s => some s
  | _ => none

/-- The moment that a value is ordered by. -/
def moment? : Value → Option DateTime
  | dateTime t => some t
  | _ => none

/-- The order by what values are ordered by. -/
def keyCompare : Value → Value → Ordering :=
  compareLex (compareOn number?) (compareLex (compareOn text?) (compareOn moment?))

/-- An order between all values, those of different kinds included. -/
def totalCompare : Value → Value → Ordering := compareLex (compareOn isNull) keyCompare

instance : Std.TransCmp keyCompare :=
  inferInstanceAs (Std.TransCmp
    (compareLex (compareOn number?) (compareLex (compareOn text?) (compareOn moment?))))

instance : Std.TransCmp totalCompare :=
  inferInstanceAs (Std.TransCmp (compareLex (compareOn isNull) keyCompare))

/-- Exchanging two values exchanges less and greater. -/
theorem totalCompare_swap (v w : Value) : v.totalCompare w = (w.totalCompare v).swap :=
  Std.OrientedCmp.eq_swap

/-- Values are compared by their numbers, their texts and their moments. A value has at most one of
these, so at most one of them decides. -/
theorem keyCompare_eq (v w : Value) :
    v.keyCompare w = (compare v.number? w.number?).then
      ((compare v.text? w.text?).then (compare v.moment? w.moment?)) := rfl

/-- Two values of one kind have an order, unless one of them is `null`. -/
theorem compare_eq_some (hv : v.Suits k) (hw : w.Suits k) (hnull : v ≠ .null) (hother : w ≠ .null) :
    v.compare w = some (v.keyCompare w) := by
  have hkind := (hv.kind.resolve_left hnull).trans (hw.kind.resolve_left hother).symm
  -- values of one kind differ in one of the three keys only
  have hnumber : ∀ n m, v.number? = some n → w.number? = some m → v.text? = w.text? →
      v.moment? = w.moment? → v.keyCompare w = compare n m := by
    intro n m hn hm htext hmoment
    rw [keyCompare_eq, hn, hm, htext, hmoment, Std.ReflOrd.compare_self, Std.ReflOrd.compare_self]
    exact Ordering.then_eq
  cases v with
  | null => exact absurd rfl hnull
  | integer n =>
    cases w with
    | integer m =>
      rw [hnumber n m rfl rfl rfl rfl]
      rfl
    | _ => simp [kind?] at hkind
  | reference n =>
    cases w with
    | reference m =>
      rw [hnumber n m rfl rfl rfl rfl]
      rfl
    | _ => simp [kind?] at hkind
  | decimal d =>
    cases w with
    | decimal e =>
      rw [hnumber d.rank e.rank rfl rfl rfl rfl]
      simp [Value.compare, Decimal.compare, hv.isNaN, hw.isNaN]
    | _ => simp [kind?] at hkind
  | boolean b =>
    cases w with
    | boolean c =>
      rw [hnumber b.toNat c.toNat rfl rfl rfl rfl]
      cases b <;> cases c <;> rfl
    | _ => simp [kind?] at hkind
  | blob n =>
    cases w with
    | blob m =>
      rw [hnumber n m rfl rfl rfl rfl]
      simp [Value.compare, Nat.compare_eq_ite_lt, Int.compare_eq_ite_lt]
    | _ => simp [kind?] at hkind
  | text s =>
    cases w with
    | text s' => exact congrArg some (Ordering.then_eq (o := compare s s')).symm
    | _ => simp [kind?] at hkind
  | dateTime t =>
    cases w with
    | dateTime u => rfl
    | _ => simp [kind?] at hkind

theorem compare_null_left (w : Value) : Value.null.compare w = none := by cases w <;> rfl

theorem compare_null_right (v : Value) : v.compare .null = none := by cases v <;> rfl

/-- The order for sorting, apart from the place of `null`: it is the comparison, with a tie where
that fails. -/
theorem sortCompare_of_ne (hv : v ≠ .null) (hw : w ≠ .null) :
    v.sortCompare w = (v.compare w).getD .eq := by
  simp [sortCompare, isNull_eq_false hv, isNull_eq_false hw]

theorem sortCompare_null_left (hw : w ≠ .null) : Value.null.sortCompare w = .gt := by
  simp [sortCompare, isNull]

theorem sortCompare_null_right (hv : v ≠ .null) : v.sortCompare .null = .lt := by
  simp [sortCompare, isNull]

/-- The values of an attribute are sorted by the order between all values. This one is transitive
without conditions, while the order for sorting ties values of different kinds and is not. -/
theorem sortCompare_eq_totalCompare (hv : v.Suits k) (hw : w.Suits k) :
    v.sortCompare w = v.totalCompare w := by
  have htotal : v.totalCompare w = (compare v.isNull w.isNull).then (v.keyCompare w) := rfl
  rcases eq_or_ne v .null with rfl | hnull
  · rcases eq_or_ne w .null with rfl | hother
    · rfl
    · rw [sortCompare_null_left hother, htotal, isNull_eq_false hother]
      rfl
  · rcases eq_or_ne w .null with rfl | hother
    · rw [sortCompare_null_right hnull, htotal, isNull_eq_false hnull]
      rfl
    · rw [sortCompare_of_ne hnull hother, compare_eq_some hv hw hnull hother, htotal,
        isNull_eq_false hnull, isNull_eq_false hother]
      rfl

/-- Whether neither of two values comes before the other. -/
def Ties (v w : Value) : Prop := v = .null ∧ w = .null ∨ v.compare w = some .eq

instance (v w : Value) : Decidable (v.Ties w) := inferInstanceAs (Decidable (_ ∨ _))

theorem sortCompare_eq_lt :
    v.sortCompare w = .lt ↔ v ≠ .null ∧ (w = .null ∨ v.compare w = some .lt) := by
  rcases eq_or_ne v .null with rfl | hv
  · rcases eq_or_ne w .null with rfl | hw
    · simp [sortCompare, isNull]
    · simp [sortCompare_null_left hw]
  · rcases eq_or_ne w .null with rfl | hw
    · simp [sortCompare_null_right hv, hv]
    · rw [sortCompare_of_ne hv hw]
      cases v.compare w <;> simp [hv, hw]

theorem sortCompare_eq_gt :
    v.sortCompare w = .gt ↔ w ≠ .null ∧ (v = .null ∨ v.compare w = some .gt) := by
  rcases eq_or_ne v .null with rfl | hv
  · rcases eq_or_ne w .null with rfl | hw
    · simp [sortCompare, isNull]
    · simp [sortCompare_null_left hw, hw]
  · rcases eq_or_ne w .null with rfl | hw
    · simp [sortCompare_null_right hv]
    · rw [sortCompare_of_ne hv hw]
      cases v.compare w <;> simp [hv, hw]

/-- Values of one kind tie in sorting exactly if both are `null` or neither is greater. -/
theorem sortCompare_eq_eq (hv : v.Suits k) (hw : w.Suits k) :
    v.sortCompare w = .eq ↔ v.Ties w := by
  unfold Ties
  rcases eq_or_ne v .null with rfl | hnull
  · rcases eq_or_ne w .null with rfl | hother
    · simp [sortCompare, isNull]
    · simp [sortCompare_null_left hother, compare_null_left, hother]
  · rcases eq_or_ne w .null with rfl | hother
    · simp [sortCompare_null_right hnull, compare_null_right, hnull]
    · simp [sortCompare_of_ne hnull hother, compare_eq_some hv hw hnull hother, hnull]

end Value

/-! ### Terms -/

/-- Whether the first of two values comes first in a direction. What is `null` comes after all
values, and so before all of them in the opposite direction. -/
def Direction.Leads : Direction → Value → Value → Prop
  | .ascending, v, w => v ≠ .null ∧ (w = .null ∨ v.compare w = some .lt)
  | .descending, v, w => w ≠ .null ∧ (v = .null ∨ v.compare w = some .gt)

instance (d : Direction) (v w : Value) : Decidable (d.Leads v w) :=
  match d with
  | .ascending => inferInstanceAs (Decidable (_ ∧ _))
  | .descending => inferInstanceAs (Decidable (_ ∧ _))

namespace OrderTerm

variable {t : RecordType} {term : OrderTerm} {a b : List Value}

/-- The value of a record that a term sorts by. -/
def value (term : OrderTerm) (values : List Value) : Value := values.getD term.path.index .null

theorem compare_eq :
    term.compare a b = match term.direction with
      | .ascending => (term.value a).sortCompare (term.value b)
      | .descending => ((term.value a).sortCompare (term.value b)).swap := rfl

theorem compare_eq_lt :
    term.compare a b = .lt ↔ term.direction.Leads (term.value a) (term.value b) := by
  rw [compare_eq]
  unfold Direction.Leads
  cases term.direction with
  | ascending => exact Value.sortCompare_eq_lt
  | descending =>
    dsimp only
    rw [Ordering.swap_eq_lt, Value.sortCompare_eq_gt]

theorem compare_eq_eq {k : Kind} (ha : (term.value a).Suits k) (hb : (term.value b).Suits k) :
    term.compare a b = .eq ↔ (term.value a).Ties (term.value b) := by
  rw [← Value.sortCompare_eq_eq ha hb, compare_eq]
  cases term.direction with
  | ascending => exact Iff.rfl
  | descending => exact Ordering.swap_eq_eq

/-- The order of two lists of values by one term, whatever the values are. -/
def totalCompare (term : OrderTerm) (a b : List Value) : Ordering :=
  match term.direction with
  | .ascending => (term.value a).totalCompare (term.value b)
  | .descending => (term.value b).totalCompare (term.value a)

instance (term : OrderTerm) : Std.TransCmp term.totalCompare where
  eq_swap {a b} := by
    unfold totalCompare
    cases term.direction with
    | ascending => exact Value.totalCompare_swap _ _
    | descending => exact Value.totalCompare_swap _ _
  isLE_trans {a b c} hab hbc := by
    unfold totalCompare at *
    cases hdirection : term.direction with
    | ascending =>
      simp only [hdirection] at hab hbc ⊢
      exact Std.TransCmp.isLE_trans hab hbc
    | descending =>
      simp only [hdirection] at hab hbc ⊢
      exact Std.TransCmp.isLE_trans hbc hab

theorem compare_eq_totalCompare {k : Kind} (ha : (term.value a).Suits k)
    (hb : (term.value b).Suits k) : term.compare a b = term.totalCompare a b := by
  rw [compare_eq, totalCompare]
  cases term.direction with
  | ascending => exact Value.sortCompare_eq_totalCompare ha hb
  | descending =>
    dsimp only
    rw [Value.totalCompare_swap, ← Value.sortCompare_eq_totalCompare ha hb]

end OrderTerm

/-! ### Rows -/

section

variable {t : RecordType} {values : List Value} {i : Nat} {a : Attribute}

theorem RecordType.Row.getElem?_eq (h : t.Row values) (ha : t.attributes[i]? = some a) :
    values[i]? = some (values.getD i .null) := by
  have hlt : i < values.length := by
    rw [h.length_values]
    exact (List.getElem?_eq_some_iff.mp ha).1
  simp [List.getD_eq_getElem?_getD, List.getElem?_eq_getElem hlt]

/-- The values of a record of a type suit its attributes, so a term compares values of one kind. -/
theorem RecordType.Row.suits (h : t.Row values) (ha : t.attributes[i]? = some a) :
    (values.getD i .null).Suits a.kind := by
  have hvalue := h.getElem?_eq ha
  refine ⟨h.fits i a _ ha hvalue, ?_⟩
  intro d hd
  exact h.isNaN d (hd ▸ List.mem_of_getElem? hvalue)

end

namespace Order

/-- Whether the terms of an order are properties of a record type. -/
def Suits (t : RecordType) (o : Order) : Prop :=
  ∀ term ∈ o.terms, ∃ a, t.attributes[term.path.index]? = some a

/-- **The order of two records** of a type by some terms: the first term that tells them apart
decides, and where none does, the lesser identity comes first. -/
inductive Precedes (t : RecordType) : List OrderTerm → List Value → List Value → Prop
  | leads {term : OrderTerm} {terms : List OrderTerm} {a b : List Value}
      (values : term.direction.Leads (term.value a) (term.value b)) : Precedes t (term :: terms) a b
  | ties {term : OrderTerm} {terms : List OrderTerm} {a b : List Value}
      (values : (term.value a).Ties (term.value b)) (rest : Precedes t terms a b) :
      Precedes t (term :: terms) a b
  | identity {a b : List Value} {i j : Int} (first : a[t.identity]? = some (.integer i))
      (second : b[t.identity]? = some (.integer j)) (lt : i < j) : Precedes t [] a b

variable {t : RecordType} {a b : List Value}

/-- One record comes before another by the first term, or by the later ones where the first ties. -/
theorem precedes_cons_iff {term : OrderTerm} {terms : List OrderTerm} :
    Precedes t (term :: terms) a b ↔ term.direction.Leads (term.value a) (term.value b) ∨
      (term.value a).Ties (term.value b) ∧ Precedes t terms a b := by
  constructor
  · intro h
    cases h with
    | leads hleads => exact .inl hleads
    | ties hties hrest => exact .inr ⟨hties, hrest⟩
  · rintro (hleads | ⟨hties, hrest⟩)
    · exact .leads hleads
    · exact .ties hties hrest

/-- The identity among the values of a record. -/
def identity? (t : RecordType) (values : List Value) : Option Int :=
  match values[t.identity]? with
  | some (.integer i) => some i
  | _ => none

theorem identity?_eq_some_iff {i : Int} :
    identity? t a = some i ↔ a[t.identity]? = some (.integer i) := by
  unfold identity?
  split
  · next h => simp [h]
  · next h =>
    simp only [reduceCtorEq, false_iff]
    exact h i

/-- Behind all terms, the lesser identity comes first. -/
theorem precedes_nil_iff :
    Precedes t [] a b ↔ (identity? t a).any fun i => (identity? t b).any (i < ·) := by
  simp only [Option.any_eq_true, identity?_eq_some_iff, decide_eq_true_eq]
  constructor
  · intro h
    cases h with
    | identity hfirst hsecond hlt => exact ⟨_, hfirst, _, hsecond, hlt⟩
  · rintro ⟨i, hfirst, j, hsecond, hlt⟩
    exact .identity hfirst hsecond hlt

instance decidablePrecedes : (terms : List OrderTerm) → Decidable (Precedes t terms a b)
  | [] => decidable_of_iff' _ precedes_nil_iff
  | _ :: terms =>
    have := decidablePrecedes terms
    decidable_of_iff' _ precedes_cons_iff

theorem compare_cons (term : OrderTerm) (terms : List OrderTerm) (a b : List Value) :
    Order.compare ⟨term :: terms⟩ a b = (term.compare a b).then (Order.compare ⟨terms⟩ a b) := rfl

/-- The comparison of two records tells their order, together with their identities. The terms are
taken one by one. -/
theorem precedes_iff (ha : t.Row a) (hb : t.Row b) {i j : Int}
    (hi : a[t.identity]? = some (.integer i)) (hj : b[t.identity]? = some (.integer j))
    {terms : List OrderTerm} (hterms : Suits t ⟨terms⟩) :
    Precedes t terms a b ↔
      Order.compare ⟨terms⟩ a b = .lt ∨ Order.compare ⟨terms⟩ a b = .eq ∧ i < j := by
  -- on both sides, the first term that tells the records apart decides
  induction terms with
  | nil =>
    have hcompare : Order.compare ⟨[]⟩ a b = .eq := rfl
    simp only [hcompare, reduceCtorEq, true_and, false_or]
    constructor
    · intro h
      cases h with
      | identity hfirst hsecond hlt =>
        cases hi.symm.trans hfirst
        cases hj.symm.trans hsecond
        exact hlt
    · exact .identity hi hj
  | cons term terms ih =>
    obtain ⟨⟨column, hcolumn⟩, hrest⟩ := List.forall_mem_cons.mp hterms
    have hlt : term.compare a b = .lt ↔ term.direction.Leads (term.value a) (term.value b) :=
      OrderTerm.compare_eq_lt
    have heq : term.compare a b = .eq ↔ (term.value a).Ties (term.value b) :=
      OrderTerm.compare_eq_eq (ha.suits hcolumn) (hb.suits hcolumn)
    rw [precedes_cons_iff, ih hrest, compare_cons, Ordering.then_eq_lt, Ordering.then_eq_eq, hlt,
      heq, and_or_left, or_assoc, and_assoc]

/-- The order of two lists of values, whatever the values are. -/
def totalCompare (o : Order) : List Value → List Value → Ordering :=
  o.terms.foldr (fun term rest => compareLex term.totalCompare rest) fun _ _ => .eq

instance (o : Order) : Std.TransCmp o.totalCompare := by
  unfold totalCompare
  induction o.terms with
  | nil => exact { eq_swap := rfl, isLE_trans := fun _ _ => rfl }
  | cons term terms ih =>
    have : Std.TransCmp _ := ih
    rw [List.foldr_cons]
    infer_instance

/-- On the records of a type, the comparison is part of a transitive one between all lists of
values. That is what makes sorting well defined. -/
theorem compare_eq_totalCompare {o : Order} (ho : Suits t o) (ha : t.Row a) (hb : t.Row b) :
    o.compare a b = o.totalCompare a b := by
  obtain ⟨terms⟩ := o
  induction terms with
  | nil => rfl
  | cons term terms ih =>
    obtain ⟨⟨column, hcolumn⟩, hrest⟩ := List.forall_mem_cons.mp ho
    rw [compare_cons, ih hrest,
      OrderTerm.compare_eq_totalCompare (ha.suits hcolumn) (hb.suits hcolumn)]
    rfl

theorem compare_swap {o : Order} (ho : Suits t o) (ha : t.Row a) (hb : t.Row b) :
    o.compare b a = (o.compare a b).swap := by
  rw [compare_eq_totalCompare ho ha hb, compare_eq_totalCompare ho hb ha]
  exact Std.OrientedCmp.eq_swap

/-- Of two records at most one comes before the other, so there is only one order to list them in.
-/
theorem Precedes.asymm {o : Order} (ho : Suits t o) (ha : t.Row a) (hb : t.Row b) {i j : Int}
    (hi : a[t.identity]? = some (.integer i)) (hj : b[t.identity]? = some (.integer j))
    (h : Precedes t o.terms a b) : ¬Precedes t o.terms b a := by
  intro hback
  rw [precedes_iff hb ha hj hi ho, compare_swap ho ha hb, Ordering.swap_eq_lt,
    Ordering.swap_eq_eq] at hback
  rcases (precedes_iff ha hb hi hj ho).mp h with hlt | ⟨heq, hij⟩
  · simp [hlt] at hback
  · simp only [heq, reduceCtorEq, true_and, false_or] at hback
    omega

/-! ### Orders from texts -/

theorem resolved_of_parseItem {whole : List Char} {words : List (List Char)} {term : OrderTerm}
    (h : parseItem t whole words = .ok term) :
    Path.resolve t term.path.name = .ok term.path ∧ term.path.kind ≠ .blob := by
  unfold parseItem at h
  split at h
  · simp [fault] at h
  · obtain ⟨d, -, h⟩ := Outcome.bind_eq_ok_iff.mp h
    split at h
    · simp [fault] at h
    · obtain ⟨path, hpath, h⟩ := Outcome.bind_eq_ok_iff.mp h
      split at h
      · simp at h
      · rename_i hkind
        cases h
        obtain ⟨hname, -⟩ := Path.resolve_eq_ok hpath
        exact ⟨hname.symm ▸ hpath, hkind⟩

/-- **Accepted orders** have properties of the record type, none of them with binary content, which
has no order. -/
theorem resolved_of_parse {text : Option String} {o : Order} (h : parse t text = .ok o) :
    ∀ term ∈ o.terms, Path.resolve t term.path.name = .ok term.path ∧ term.path.kind ≠ .blob := by
  unfold parse at h
  dsimp only at h
  split at h
  · cases h
    simp
  · obtain ⟨terms, hterms, h⟩ := Outcome.bind_eq_ok_iff.mp h
    cases h
    intro term hterm
    obtain ⟨i, hi, rfl⟩ := List.getElem_of_mem hterm
    have hall := Outcome.forall₂_of_mapM hterms
    exact resolved_of_parseItem (hall.get (hall.length_eq ▸ hi) hi)

/-- An order that was read for a type suits it. -/
theorem suits_of_parse {text : Option String} {o : Order} (h : parse t text = .ok o) :
    Suits t o := by
  intro term hterm
  obtain ⟨-, -, -, a, ha, -⟩ := Path.resolve_eq_ok (resolved_of_parse h term hterm).1
  exact ⟨a, ha⟩

end Order

end RecordService
