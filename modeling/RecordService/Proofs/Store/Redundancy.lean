import RecordService.Proofs.Store.Listing

/-!
# Terms without effect

Two kinds of terms of an order make no difference. A term whose property an earlier term has is
never met by records that this earlier term tells apart, and it ties where the earlier one does,
whatever the directions and the values are. And behind a term for the identity no term is met by
different stored records. So leaving such terms out changes neither the comparison of records, nor
the order of a table, nor the answer to a query (`RecordService.Order.redundant_terms`).

* `RecordService.Order.withoutRepeats`: an order without its repeated properties.
* `RecordService.RecordType.Apart`: rows with different identities.
* `RecordService.Table.Identified`: a table of rows that all have different identities.
-/

namespace RecordService

/-! ### Ties -/

theorem Value.sortCompare_self (v : Value) : v.sortCompare v = .eq := by
  cases v with
  | null => rfl
  | decimal d =>
    cases hd : d.isNaN <;> simp [sortCompare, isNull, Value.compare, Decimal.compare, hd]
  | dateTime t =>
    have ht : t.compare t = .eq := Std.ReflCmp.compare_self
    simp [sortCompare, isNull, Value.compare, ht]
  | _ => simp [sortCompare, isNull, Value.compare]

namespace OrderTerm

variable {term other : OrderTerm} {a b : List Value}

theorem compare_eq_eq_iff :
    term.compare a b = .eq ↔ (term.value a).sortCompare (term.value b) = .eq := by
  rw [compare_eq]
  cases term.direction with
  | ascending => exact Iff.rfl
  | descending => exact Ordering.swap_eq_eq

/-- **Terms of one property tie together**, whatever their directions are, since a direction only
exchanges less and greater. -/
theorem compare_eq_eq_of_path (hpath : other.path = term.path) (h : term.compare a b = .eq) :
    other.compare a b = .eq := by
  rw [compare_eq_eq_iff] at h ⊢
  rwa [value, value, hpath]

end OrderTerm

namespace Order

variable {o : Order} {term : OrderTerm} {before after terms : List OrderTerm} {a b : List Value}

theorem compare_self (o : Order) (a : List Value) : o.compare a a = .eq := by
  obtain ⟨terms⟩ := o
  induction terms with
  | nil => rfl
  | cons term terms ih =>
    have hterm : term.compare a a = .eq :=
      OrderTerm.compare_eq_eq_iff.mpr (Value.sortCompare_self _)
    rw [compare_cons, hterm, ih]
    rfl

/-- The terms behind are asked where those in front tie. -/
theorem compare_append (before after : List OrderTerm) (a b : List Value) :
    Order.compare ⟨before ++ after⟩ a b =
      (Order.compare ⟨before⟩ a b).then (Order.compare ⟨after⟩ a b) := by
  induction before with
  | nil => rfl
  | cons term before ih =>
    rw [List.cons_append, compare_cons, compare_cons, ih, Ordering.then_assoc]

/-! ### Repeated properties -/

/-- Whether two terms have the same property. -/
def sameProperty (term other : OrderTerm) : Bool := term.path == other.path

/-- **An order without its repeated properties**: without every term whose property is that of an
earlier term. -/
def withoutRepeats (o : Order) : Order := ⟨o.terms.eraseDupsBy sameProperty⟩

/-- Where a term ties, the later terms of its property do not matter: they tie as well. -/
theorem compare_filter (h : term.compare a b = .eq) (terms : List OrderTerm) :
    Order.compare ⟨terms.filter fun other => sameProperty other term = false⟩ a b =
      Order.compare ⟨terms⟩ a b := by
  induction terms with
  | nil => rfl
  | cons other terms ih =>
    by_cases hpath : other.path = term.path
    · have hsame : sameProperty other term = true := beq_iff_eq.mpr hpath
      rw [List.filter_cons_of_neg (by simp [hsame]), ih, compare_cons,
        OrderTerm.compare_eq_eq_of_path hpath h]
      rfl
    · have hsame : sameProperty other term = false := beq_eq_false_iff_ne.mpr hpath
      rw [List.filter_cons_of_pos (by simp [hsame]), compare_cons, compare_cons, ih]

/-- **Repeated properties do not matter** to the comparison of two records. A repeated term is asked
only where the first one of its property tied. -/
theorem compare_eraseDupsBy (terms : List OrderTerm) (a b : List Value) :
    Order.compare ⟨terms.eraseDupsBy sameProperty⟩ a b = Order.compare ⟨terms⟩ a b := by
  match terms with
  | [] => rw [List.eraseDupsBy_nil]
  | term :: terms =>
    rw [List.eraseDupsBy_cons, compare_cons, compare_cons, compare_eraseDupsBy]
    -- a term that tells the records apart decides, and one that ties makes its repeats tie
    cases hterm : term.compare a b with
    | lt => rfl
    | gt => rfl
    | eq => rw [compare_filter hterm]
termination_by terms.length
decreasing_by exact Nat.lt_succ_of_le (List.length_filter_le _ _)

theorem compare_withoutRepeats (o : Order) : o.withoutRepeats.compare = o.compare := by
  funext a b
  exact compare_eraseDupsBy o.terms a b

/-- The properties of an order are those of its terms without repeats, so both pass the same check.
-/
theorem all_path_eraseDupsBy (P : Path → Bool) (terms : List OrderTerm) :
    (terms.eraseDupsBy sameProperty).all (fun term => P term.path) =
      terms.all fun term => P term.path := by
  match terms with
  | [] => rw [List.eraseDupsBy_nil]
  | term :: terms =>
    rw [List.eraseDupsBy_cons, List.all_cons, List.all_cons, all_path_eraseDupsBy]
    cases hterm : P term.path with
    | false => rfl
    | true =>
      rw [Bool.true_and, Bool.true_and, Bool.eq_iff_iff, List.all_eq_true, List.all_eq_true]
      constructor
      · intro h other hother
        by_cases hpath : other.path = term.path
        · rwa [hpath]
        · exact h other (List.mem_filter.mpr ⟨hother, by simp [sameProperty, hpath]⟩)
      · exact fun h other hother => h other (List.mem_of_mem_filter hother)
termination_by terms.length
decreasing_by exact Nat.lt_succ_of_le (List.length_filter_le _ _)

/-! ### Behind the identity -/

/-- A term that tells two records apart leaves nothing to decide for the later ones. -/
theorem compare_append_cons (h : term.compare a b ≠ .eq) (rest : List OrderTerm) :
    Order.compare ⟨before ++ term :: rest⟩ a b = Order.compare ⟨before ++ term :: after⟩ a b := by
  rw [compare_append, compare_append, compare_cons, compare_cons]
  cases hterm : term.compare a b with
  | lt => rfl
  | gt => rfl
  | eq => exact absurd hterm h

end Order

/-- Whether two rows have different identities. -/
def RecordType.Apart (t : RecordType) (a b : List Value) : Prop :=
  ∃ i j : Int, a[t.identity]? = some (.integer i) ∧ b[t.identity]? = some (.integer j) ∧ i ≠ j

/-- **The identity tells different rows apart**, in either direction. -/
theorem OrderTerm.compare_ne_eq_of_apart {t : RecordType} {term : OrderTerm} {a b : List Value}
    (hidentity : term.path.index = t.identity) (h : t.Apart a b) : term.compare a b ≠ .eq := by
  obtain ⟨i, j, ha, hb, hne⟩ := h
  have hvalue {values : List Value} {k : Int} (hk : values[t.identity]? = some (.integer k)) :
      term.value values = .integer k := by
    simp [value, hidentity, List.getD_eq_getElem?_getD, hk]
  rw [Ne, compare_eq_eq_iff, hvalue ha, hvalue hb]
  simpa [Value.sortCompare, Value.isNull, Value.compare] using hne

/-- A table whose rows have their identities in them, each of them another one. -/
structure Table.Identified (t : RecordType) (table : Table) : Prop where
  nodup_ids : (table.rows.map Prod.fst).Nodup
  identity : ∀ id row, (id, row) ∈ table.rows → row.values[t.identity]? = some (.integer id)

namespace Table

variable {t : RecordType} {table : Table} {f : Option Filter} {o : Order} {a b : List Value}

theorem Consistent.identified {n : Nat} (h : table.Consistent t n) : table.Identified t :=
  ⟨h.nodup_ids, fun id row hrow => (h.rows id row hrow).2.2.identity⟩

/-- Different rows of a table have different identities. -/
theorem Identified.apart (h : table.Identified t) (ha : a ∈ table.kept f) (hb : b ∈ table.kept f)
    (hne : a ≠ b) : t.Apart a b := by
  obtain ⟨⟨i, row⟩, hrow, rfl⟩ := List.mem_map.mp (List.mem_of_mem_filter ha)
  obtain ⟨⟨j, other⟩, hother, rfl⟩ := List.mem_map.mp (List.mem_of_mem_filter hb)
  refine ⟨i, j, h.identity i row hrow, h.identity j other hother, ?_⟩
  rintro rfl
  have hsame := List.inj_on_of_nodup_map h.nodup_ids hrow hother rfl
  exact hne (congrArg (fun p : Int × Row => p.2.values) hsame)

/-- **Tables are in the same order** by two orders that agree on rows with different identities. A
row is never compared with another one of its identity, because there is none. -/
theorem Identified.sorted_eq (h : table.Identified t) {o o' : Order}
    (heq : ∀ a b, t.Apart a b → o'.compare a b = o.compare a b) :
    table.sorted f o' = table.sorted f o := by
  refine Lists.mergeSort_congr fun a ha b hb => ?_
  by_cases hab : a = b
  · rw [hab, Order.compare_self, Order.compare_self]
  · rw [heq a b (h.apart ha hb hab)]

end Table

/-! ### Queries -/

namespace Records

variable {t : RecordType} {f : Option Filter} {o o' : Order} {top skip : Option Int} {m : Memory}

/-- The answer to a query depends on the order through the check and the sorting of the table, and
on nothing else of it. -/
theorem run_find_congr (hcheck : checkOrder t o' = checkOrder t o)
    (hsorted : (m.table t.name).sorted f o' = (m.table t.name).sorted f o) :
    (find (m := StateM Memory) t top skip f o').run.run m =
      (find (m := StateM Memory) t top skip f o).run.run m := by
  have hselect (skip : Nat) (top : Option Nat) :
      m.select t { filter := f, order := o', skip, top } =
        m.select t { filter := f, order := o, skip, top } := by
    rw [Memory.select_eq, Memory.select_eq, hsorted]
  rw [run_find, run_find, selection, selection, hcheck]
  cases nonNegative "$skip" (skip.getD 0) with
  | error e => rfl
  | ok skip =>
    cases top.mapM (nonNegative "$top") with
    | error e => rfl
    | ok top =>
      cases checkFilter t f with
      | error e => rfl
      | ok _ =>
        cases checkOrder t o with
        | error e => rfl
        | ok _ => exact congrArg (fun records => (Except.ok records, m)) (hselect skip top)

theorem checkOrder_withoutRepeats (t : RecordType) (o : Order) :
    checkOrder t o.withoutRepeats = checkOrder t o := by
  rw [checkOrder, checkOrder, Order.withoutRepeats,
    Order.all_path_eraseDupsBy fun p => p.entity == t.name]

theorem checkOrder_eq_ok_iff :
    checkOrder t o = .ok () ↔ ∀ term ∈ o.terms, term.path.entity = t.name := by
  simp [checkOrder]

end Records

namespace Order

/-- **Terms without effect.** Leaving out every term whose property is that of an earlier one
changes neither the comparison of any two rows, nor the order of any table, nor the answer to any
query. Nor does leaving out terms behind one for the identity, as long as different rows have
different identities, which stored rows always do. -/
theorem redundant_terms (o : Order) :
    (∀ a b, o.withoutRepeats.compare a b = o.compare a b) ∧
      (∀ (table : Table) f, table.sorted f o.withoutRepeats = table.sorted f o) ∧
      (∀ t top skip f m,
        (Records.find (m := StateM Memory) t top skip f o.withoutRepeats).run.run m =
          (Records.find (m := StateM Memory) t top skip f o).run.run m) ∧
      ∀ (t : RecordType) before term after rest, o.terms = before ++ term :: after →
        rest.Sublist after → term.path.index = t.identity →
        let o' : Order := ⟨before ++ term :: rest⟩
        (∀ a b, t.Apart a b → o'.compare a b = o.compare a b) ∧
          (∀ (table : Table) f, table.Identified t → table.sorted f o' = table.sorted f o) ∧
          ∀ d r, Registry.ofDocument d = .ok r → t ∈ r.types →
            (∀ term ∈ o.terms, term.path.entity = t.name) →
            ∀ calls : List Memory.Call, (∀ c ∈ calls, c.UsesTypesOf r) → ∀ top skip f,
              let m := (Memory.run calls).memory
              (Records.find (m := StateM Memory) t top skip f o').run.run m =
                (Records.find (m := StateM Memory) t top skip f o).run.run m := by
  have hsorted (table : Table) (f : Option Filter) :
      table.sorted f o.withoutRepeats = table.sorted f o := by
    rw [Table.sorted, Table.sorted, compare_withoutRepeats]
  refine ⟨fun a b => congrFun (congrFun (compare_withoutRepeats o) a) b, hsorted, ?_, ?_⟩
  · intro t top skip f m
    exact Records.run_find_congr (Records.checkOrder_withoutRepeats t o) (hsorted _ f)
  · intro t before term after rest hterms hrest hidentity o'
    have ho : o = ⟨before ++ term :: after⟩ := by rw [← hterms]
    have hcompare : ∀ a b, t.Apart a b → o'.compare a b = o.compare a b := by
      intro a b hab
      rw [ho]
      exact compare_append_cons (OrderTerm.compare_ne_eq_of_apart hidentity hab) rest
    have htable (table : Table) (f : Option Filter) (h : table.Identified t) :
        table.sorted f o' = table.sorted f o := h.sorted_eq hcompare
    refine ⟨hcompare, htable, ?_⟩
    intro d r hd ht hentity calls hcalls top skip f m
    have hr := Registry.resolved_of_ofDocument hd
    have hidentified := ((Memory.invariant_run hr hcalls).memory.table hr ht).identified
    have hsubset : o'.terms ⊆ o.terms := by
      rw [hterms]
      exact (((List.Sublist.refl before).append (hrest.cons_cons term))).subset
    refine Records.run_find_congr ?_ (htable _ f hidentified)
    rw [Records.checkOrder_eq_ok_iff.mpr hentity]
    exact Records.checkOrder_eq_ok_iff.mpr fun other hother => hentity other (hsubset hother)

/-- The repeated property goes, though its direction is another one. -/
example : (parse Memory.photo (some "PictureFileName, Id desc, PictureFileName desc")).map
    (fun o => o.withoutRepeats.render) = .ok "PictureFileName asc, Id desc" := by decide +kernel

end Order

end RecordService
