import Mathlib.Data.List.Induction
import RecordService.Proofs.Lists
import RecordService.Proofs.Query.Order
import RecordService.Proofs.Store.History
import RecordService.Proofs.Store.Lookup
import RecordService.Store.Records

/-!
# Listing records

A query answers with a window on one list: that of the records which pass its filter, each of them
once, in the order of its terms and then of the identities. Sorting is stable and the store keeps
the rows of a table in the order of their identities, so the identities decide where the terms do
not.

* `RecordService.Table.Ascending`: the rows of a table in the order of their identities.
* `RecordService.Memory.ascending_run`: runs keep all rows in that order.
* `RecordService.Memory.Listing`: the list that a query shows a window on.
* `RecordService.Records.find_window`: what a query answers with.
-/

namespace RecordService

/-! ### Rows in the order of their identities -/

/-- Whether the rows of a table are in the order of their identities, and new ones come last. -/
structure Table.Ascending (table : Table) : Prop where
  pairwise_ids : (table.rows.map Prod.fst).Pairwise (· < ·)
  le_lastId : ∀ id ∈ table.rows.map Prod.fst, id ≤ table.lastId

namespace Table

variable {table : Table}

/-- A new row comes last, since its identity is above all others. -/
theorem Ascending.append (h : table.Ascending) (f : Int → Row) : (table.append f).Ascending := by
  refine ⟨?_, ?_⟩
  · rw [Table.append, List.map_append, List.pairwise_append]
    refine ⟨h.pairwise_ids, by simp, ?_⟩
    intro id hid next hnext
    have hle := h.le_lastId id hid
    obtain rfl : next = table.lastId + 1 := by simpa using hnext
    omega
  · intro id hid
    rw [Table.append, List.map_append, List.mem_append] at hid
    rcases hid with hid | hid
    · have hle := h.le_lastId id hid
      simp only [Table.append]
      omega
    · obtain rfl : id = table.lastId + 1 := by simpa using hid
      exact Int.le_refl _

theorem Ascending.modify (h : table.Ascending) (id : Int) (f : Row → Row) :
    (table.modify id f).Ascending := by
  refine ⟨?_, ?_⟩
  · rw [map_fst_modify]
    exact h.pairwise_ids
  · rw [map_fst_modify]
    exact h.le_lastId

theorem Ascending.erase (h : table.Ascending) (id : Int) : (table.erase id).Ascending := by
  have hsublist : ((table.erase id).rows.map Prod.fst).Sublist (table.rows.map Prod.fst) :=
    List.filter_sublist.map Prod.fst
  exact ⟨h.pairwise_ids.sublist hsublist, fun k hk => h.le_lastId k (hsublist.subset hk)⟩

end Table

namespace Memory

/-- Whether all tables of a store have their rows in the order of their identities. -/
def Ascending (m : Memory) : Prop := ∀ entity, (m.table entity).Ascending

theorem Ascending.withTable {m : Memory} (h : m.Ascending) {entity : String} {table : Table}
    (htable : table.Ascending) : (m.withTable entity table).Ascending := by
  intro e
  rw [table_withTable]
  split
  · exact htable
  · exact h e

/-- **Calls keep the rows in order.** No call but an insert adds a row, and its identity is the
greatest. -/
theorem Ascending.step {w : World} (h : w.memory.Ascending) (c : Call) :
    (w.step c).memory.Ascending := by
  have heffect := w.effect_step c
  generalize (w.step c).memory = m at heffect ⊢
  cases heffect with
  | nothing => exact h
  | insert record => exact h.withTable ((h record.type.name).append _)
  | update hm =>
    obtain ⟨id, old, -, -, rfl⟩ := update_eq_ok hm
    exact h.withTable ((h _).modify id _)
  | delete hm =>
    rw [delete_eq_ok hm]
    exact h.withTable ((h _).erase _)
  | commit _ hm =>
    rw [commit_eq_ok hm]
    exact h.withTable ((h _).modify _ _)

/-- Runs keep the rows in order, by induction from the last call. The selection relies on it: a
stable sort of ascending rows leaves equal ones in the order of their identities. -/
theorem ascending_run (calls : List Call) : (run calls).memory.Ascending := by
  induction calls using List.reverseRecOn with
  | nil => exact fun _ => ⟨List.Pairwise.nil, by simp [run, Memory.table]⟩
  | append_singleton calls c ih =>
    rw [run_concat]
    exact ih.step c

end Memory

/-! ### The rows of a selection -/

namespace Table

/-- The rows of a table that a filter lets through, in the order of the table. -/
def kept (table : Table) (f : Option Filter) : List (List Value) :=
  (table.rows.map (·.2.values)).filter (passes f)

/-- The rows that a selection shows a window on. -/
def sorted (table : Table) (f : Option Filter) (o : Order) : List (List Value) :=
  (kept table f).mergeSort fun a b => (o.compare a b).isLE

/-- Whether the rows of a table are rows of a record type, each with its identity in it. -/
def Typed (t : RecordType) (table : Table) : Prop :=
  ∀ id row, (id, row) ∈ table.rows →
    t.Row row.values ∧ row.values[t.identity]? = some (.integer id)

section

variable {t : RecordType} {table : Table} {f : Option Filter} {o : Order} {a b : List Value}

/-- A row that passes the filter is typed, and has an identity to be told apart by. -/
theorem typed_of_mem_kept (h : table.Typed t) (ha : a ∈ table.kept f) :
    t.Row a ∧ ∃ id, a[t.identity]? = some (.integer id) := by
  obtain ⟨⟨id, row⟩, hrow, rfl⟩ := List.mem_map.mp (List.mem_of_mem_filter ha)
  obtain ⟨hvalues, hid⟩ := h id row hrow
  exact ⟨hvalues, id, hid⟩

/-- Filtering keeps the order of the identities. -/
theorem pairwise_kept (hascending : (table.rows.map Prod.fst).Pairwise (· < ·))
    (h : table.Typed t) :
    (table.kept f).Pairwise fun a b => ∃ i j : Int,
      a[t.identity]? = some (.integer i) ∧ b[t.identity]? = some (.integer j) ∧ i < j := by
  refine List.Pairwise.filter _ ?_
  rw [List.pairwise_map] at hascending ⊢
  refine hascending.imp_of_mem fun {p q} hp hq hlt => ?_
  exact ⟨p.1, q.1, (h _ _ hp).2, (h _ _ hq).2, hlt⟩

/-- **Sorted rows are in order**, and rows that the terms do not tell apart are in the order of
their identities, because the sort is stable and the rows came in this order. -/
theorem pairwise_sorted (hascending : (table.rows.map Prod.fst).Pairwise (· < ·))
    (h : table.Typed t) (ho : o.Suits t) :
    (table.sorted f o).Pairwise (Order.Precedes t o.terms) := by
  -- on these rows the comparison is the transitive one
  have htotal : table.sorted f o =
      (table.kept f).mergeSort fun a b => (o.totalCompare a b).isLE := by
    refine Lists.mergeSort_congr fun a ha b hb => ?_
    rw [Order.compare_eq_totalCompare ho (typed_of_mem_kept h ha).1 (typed_of_mem_kept h hb).1]
  rw [htotal]
  refine (Lists.pairwise_mergeSort (pairwise_kept hascending h)).imp_of_mem fun {a b} ha hb hab => ?_
  obtain ⟨hrow, i, hi⟩ := typed_of_mem_kept h (List.mem_mergeSort.mp ha)
  obtain ⟨hother, j, hj⟩ := typed_of_mem_kept h (List.mem_mergeSort.mp hb)
  rw [Order.precedes_iff hrow hother hi hj ho, Order.compare_eq_totalCompare ho hrow hother]
  rcases hab with hlt | ⟨heq, k, l, hk, hl, hkl⟩
  · exact .inl hlt
  · cases hi.symm.trans hk
    cases hj.symm.trans hl
    exact .inr ⟨heq, hkl⟩

/-- **Only sorting puts the rows in order.** The order is strict on rows with different identities,
so a permutation that respects it is the only one. This makes the answer of a query independent of
how it is sorted. -/
theorem eq_sorted (hascending : (table.rows.map Prod.fst).Pairwise (· < ·)) (h : table.Typed t)
    (ho : o.Suits t) {l : List (List Value)} (hperm : l.Perm (table.kept f))
    (hl : l.Pairwise (Order.Precedes t o.terms)) : l = table.sorted f o := by
  refine List.Perm.eq_of_pairwise ?_ hl (pairwise_sorted hascending h ho)
    (hperm.trans (List.mergeSort_perm _ _).symm)
  intro a b ha hb hab hba
  obtain ⟨hrow, i, hi⟩ := typed_of_mem_kept h (hperm.subset ha)
  obtain ⟨hother, j, hj⟩ := typed_of_mem_kept h (List.mem_mergeSort.mp hb)
  exact absurd hba (hab.asymm ho hrow hother hi hj)

end

end Table

/-! ### Listings -/

theorem Record.values_ofValues_of_row {t : RecordType} {values : List Value} (h : t.Row values) :
    (Record.ofValues t values).values = values := Record.values_ofValues h.length_values

/-- A row passes where there is no filter, or the filter is true of it; unknown is not enough. -/
theorem passes_iff {f : Option Filter} {values : List Value} :
    passes f values = true ↔ ∀ g, f = some g → g.evaluate values = some true := by
  cases f <;> simp [passes, Filter.accepts]

namespace Memory

/-- **The list that a query shows a window on**: all stored records of a type for which the filter is
certainly true, each of them once, in the order of the terms and then of the identities. -/
structure Listing (m : Memory) (t : RecordType) (f : Option Filter) (o : Order)
    (records : List Record) : Prop where
  nodup : records.Nodup
  mem_iff : ∀ x, x ∈ records ↔
    (∃ id, m.get t id = some x) ∧ ∀ g, f = some g → g.evaluate x.values = some true
  sorted : records.Pairwise fun x y => Order.Precedes t o.terms x.values y.values

variable {r : Registry} {n : Nat} {m : Memory} {t : RecordType} {f : Option Filter} {o : Order}

theorem select_eq (m : Memory) (t : RecordType) (s : Selection) :
    m.select t s =
      (window s.skip s.top ((m.table t.name).sorted s.filter s.order)).map (Record.ofValues t) := rfl

/-- The records of a type are those of the rows of its table. -/
theorem get_eq_some_iff (h : m.Consistent r n) (hr : r.Resolved) (ht : t ∈ r.types) {id : Int}
    {x : Record} :
    m.get t id = some x ↔
      ∃ row, (id, row) ∈ (m.table t.name).rows ∧ Record.ofValues t row.values = x := by
  simp only [Memory.get, Memory.row?, Option.map_eq_some_iff,
    (h.table hr ht).row?_eq_some_iff]

/-- The rows of a type are typed as soon as its records are. So a hypothesis about what can be read
is enough. -/
theorem typed_table (h : m.Consistent r n) (hr : r.Resolved) (ht : t ∈ r.types)
    (hrows : ∀ id x, m.get t id = some x → t.Row x.values) : (m.table t.name).Typed t := by
  intro id row hrow
  have hconsistent := ((h.table hr ht).rows id row hrow).2.2
  have hvalues := hrows id _ ((get_eq_some_iff h hr ht).mpr ⟨row, hrow, rfl⟩)
  rw [Record.values_ofValues hconsistent.length_values] at hvalues
  exact ⟨hvalues, hconsistent.identity⟩

/-- Sorting the rows of a table gives a listing, so there is one. -/
theorem listing_sorted (h : m.Consistent r n) (hr : r.Resolved) (ht : t ∈ r.types)
    (hascending : m.Ascending) (htyped : (m.table t.name).Typed t) (ho : o.Suits t) :
    Listing m t f o (((m.table t.name).sorted f o).map (Record.ofValues t)) := by
  have hsorted := Table.pairwise_sorted (f := f) (hascending t.name).pairwise_ids htyped ho
  have hkept : ∀ a ∈ (m.table t.name).sorted f o, a ∈ (m.table t.name).kept f := fun a ha =>
    List.mem_mergeSort.mp ha
  have hpairwise : (((m.table t.name).sorted f o).map (Record.ofValues t)).Pairwise fun x y =>
      Order.Precedes t o.terms x.values y.values := by
    rw [List.pairwise_map]
    refine hsorted.imp_of_mem fun {a b} ha hb hab => ?_
    rwa [Record.values_ofValues_of_row (Table.typed_of_mem_kept htyped (hkept a ha)).1,
      Record.values_ofValues_of_row (Table.typed_of_mem_kept htyped (hkept b hb)).1]
  refine ⟨?_, ?_, hpairwise⟩
  · -- a record that stood there twice would precede itself
    refine hpairwise.imp_of_mem ?_
    rintro x _ hx - hprecedes rfl
    obtain ⟨a, ha, rfl⟩ := List.mem_map.mp hx
    obtain ⟨hrow, id, hid⟩ := Table.typed_of_mem_kept htyped (hkept a ha)
    rw [Record.values_ofValues_of_row hrow] at hprecedes
    exact hprecedes.asymm ho hrow hrow hid hid hprecedes
  · intro x
    simp only [List.mem_map, Table.sorted, List.mem_mergeSort, Table.kept, List.mem_filter]
    constructor
    · rintro ⟨_, ⟨⟨⟨id, row⟩, hrow, rfl⟩, hpasses⟩, rfl⟩
      refine ⟨⟨id, (get_eq_some_iff h hr ht).mpr ⟨row, hrow, rfl⟩⟩, ?_⟩
      rw [Record.values_ofValues_of_row (htyped id row hrow).1]
      exact passes_iff.mp hpasses
    · rintro ⟨⟨id, hid⟩, hpasses⟩
      obtain ⟨row, hrow, rfl⟩ := (get_eq_some_iff h hr ht).mp hid
      rw [Record.values_ofValues_of_row (htyped id row hrow).1] at hpasses
      exact ⟨row.values, ⟨⟨(id, row), hrow, rfl⟩, passes_iff.mpr hpasses⟩, rfl⟩

/-- There is only one listing. Two of them are permutations of the same records, and the order
leaves no choice between these. -/
theorem Listing.unique (h : m.Consistent r n) (hr : r.Resolved) (ht : t ∈ r.types)
    (htyped : (m.table t.name).Typed t) (ho : o.Suits t) {records others : List Record}
    (hrecords : Listing m t f o records) (hothers : Listing m t f o others) : others = records := by
  have htyped' : ∀ x ∈ records, t.Row x.values ∧ ∃ k, x.values[t.identity]? = some (.integer k) := by
    intro x hx
    obtain ⟨⟨id, hid⟩, -⟩ := (hrecords.mem_iff x).mp hx
    obtain ⟨row, hrow, rfl⟩ := (get_eq_some_iff h hr ht).mp hid
    rw [Record.values_ofValues_of_row (htyped id row hrow).1]
    exact ⟨(htyped id row hrow).1, id, (htyped id row hrow).2⟩
  have hmem : ∀ x, x ∈ others ↔ x ∈ records := fun x =>
    (hothers.mem_iff x).trans (hrecords.mem_iff x).symm
  refine List.Perm.eq_of_pairwise ?_ hothers.sorted hrecords.sorted
    ((List.perm_ext_iff_of_nodup hothers.nodup hrecords.nodup).mpr hmem)
  intro x y hx hy hxy hyx
  obtain ⟨hrow, i, hi⟩ := htyped' x ((hmem x).mp hx)
  obtain ⟨hother, j, hj⟩ := htyped' y hy
  exact absurd hyx (hxy.asymm ho hrow hother hi hj)

end Memory

/-! ### Queries -/

namespace Records

variable {t : RecordType} {f : Option Filter} {o : Order} {top skip : Option Int}

/-- A query on the store in memory, by the selection that is asked for. It fails exactly where there
is no selection, and leaves the store in any case. -/
theorem run_find (t : RecordType) (top skip : Option Int) (f : Option Filter) (o : Order)
    (m : Memory) :
    (find (m := StateM Memory) t top skip f o).run.run m =
      ((selection t top skip f o).map (m.select t), m) := by
  unfold find
  cases selection t top skip f o <;> rfl

theorem nonNegative_of_nonneg (name : String) {n : Int} (h : 0 ≤ n) :
    nonNegative name n = .ok n.toNat := if_pos h

theorem nonNegative_of_neg (name : String) {n : Int} (h : n < 0) :
    ∃ message, nonNegative name n = .error (.badRequest message) :=
  ⟨_, if_neg (Int.not_le.mpr h)⟩

/-- A filter on the properties of one entity belongs to this entity and to no other one, since every
filter has a comparison. -/
theorem belongsTo_eq {g : Filter} {entity : String} (h : g.Every fun p _ _ => p.entity = entity)
    (other : String) : g.belongsTo other = (entity == other) := by
  induction g with
  | comparison path op literal => exact congrArg (· == other) h
  | and left right ihl ihr => rw [Filter.belongsTo, ihl h.1, ihr h.2, Bool.and_self]
  | or left right ihl ihr => rw [Filter.belongsTo, ihl h.1, ihr h.2, Bool.and_self]
  | not inner ih => exact ih h

/-- A filter that was read for a type passes the check of the query. -/
theorem checkFilter_of_parse {text : Option String} (h : Filter.parse t text = .ok f) :
    checkFilter t f = .ok () := by
  refine if_pos ?_
  cases f with
  | none => rfl
  | some g =>
    cases text with
    | none => exact absurd h (by simp [Filter.parse, Text.trimBlank, Text.skipBlank])
    | some text =>
      have hentity : g.Every fun p _ _ => p.entity = t.name :=
        (Filter.wellTyped_of_parse h).imp fun _ _ _ hfits => (Path.resolve_eq_ok hfits.resolved).2.1
      exact (belongsTo_eq hentity t.name).trans (beq_self_eq_true _)

/-- An order that was read for a type passes the check of the query. -/
theorem checkOrder_of_parse {text : Option String} (h : Order.parse t text = .ok o) :
    checkOrder t o = .ok () := by
  refine if_pos (List.all_eq_true.mpr fun term hterm => ?_)
  obtain ⟨-, hentity, -⟩ := Path.resolve_eq_ok (Order.resolved_of_parse h term hterm).1
  exact beq_iff_eq.mpr hentity

theorem selection_of_nonneg (hf : checkFilter t f = .ok ()) (ho : checkOrder t o = .ok ())
    (h : ∀ n, skip = some n ∨ top = some n → 0 ≤ n) :
    selection t top skip f o =
      .ok { filter := f, order := o, skip := (skip.getD 0).toNat, top := top.map Int.toNat } := by
  have hskip : 0 ≤ skip.getD 0 := by
    cases skip with
    | none => exact Int.le_refl 0
    | some n => exact h n (.inl rfl)
  have htop : top.mapM (nonNegative "$top") = .ok (top.map Int.toNat) := by
    cases top with
    | none => rfl
    | some n =>
      rw [Option.mapM_some, nonNegative_of_nonneg _ (h n (.inr rfl))]
      rfl
  rw [selection, nonNegative_of_nonneg _ hskip, htop, hf, ho]
  rfl

/-- A bound below zero is refused, whichever of the two it is. -/
theorem selection_of_neg {n : Int} (h : skip = some n ∨ top = some n) (hn : n < 0) :
    ∃ message, selection t top skip f o = .error (.badRequest message) := by
  rcases Int.lt_or_le (skip.getD 0) 0 with hskip | hskip
  · obtain ⟨message, hmessage⟩ := nonNegative_of_neg "$skip" hskip
    refine ⟨message, ?_⟩
    rw [selection, hmessage]
    rfl
  · rcases h with rfl | rfl
    · exact absurd hn (Int.not_lt.mpr hskip)
    · obtain ⟨message, hmessage⟩ := nonNegative_of_neg "$top" hn
      refine ⟨message, ?_⟩
      rw [selection, nonNegative_of_nonneg _ hskip, Option.mapM_some, hmessage]
      rfl

/-- The positions of a window: those of the list from the skipped ones on, as many as asked for. -/
theorem getElem?_window {α : Type} (skip : Nat) (top : Option Nat) (l : List α) (i : Nat) :
    (window skip top l)[i]? = if top.all (i < ·) then l[skip + i]? else none := by
  cases top with
  | none => simp [window]
  | some n => simp [window, List.getElem?_take]

/-- **What a query answers with.** In every state that a run leads to in which the records of the
type are rows of it, and for every filter and order that were read for the type: bounds below zero
are refused, and otherwise the answer is a window on the one list of all records that pass the
filter. -/
theorem find_window {d : Schema.Document} {r : Registry} (hd : Registry.ofDocument d = .ok r)
    {calls : List Memory.Call} (hcalls : ∀ c ∈ calls, c.UsesTypesOf r) (ht : t ∈ r.types)
    (hrows : ∀ id x, (Memory.run calls).memory.get t id = some x → t.Row x.values)
    {filterText orderText : Option String} (hf : Filter.parse t filterText = .ok f)
    (ho : Order.parse t orderText = .ok o) (top skip : Option Int) :
    let m := (Memory.run calls).memory
    let found := (find (m := StateM Memory) t top skip f o).run.run m
    ((∃ n, (skip = some n ∨ top = some n) ∧ n < 0) →
      ∃ message, found = (.error (.badRequest message), m)) ∧
    ((∀ n, skip = some n ∨ top = some n → 0 ≤ n) →
      ∃ records, Memory.Listing m t f o records ∧
        (∀ others, Memory.Listing m t f o others → others = records) ∧
        ∃ answers, found = (.ok answers, m) ∧ ∀ i : Nat,
          answers[i]? =
            if top.all ((i : Int) < ·) then records[(skip.getD 0).toNat + i]? else none) := by
  have hr := Registry.resolved_of_ofDocument hd
  have hinvariant := (Memory.invariant_run hr hcalls).memory
  have htyped := Memory.typed_table hinvariant hr ht hrows
  have hsuits := Order.suits_of_parse ho
  have hlisting := Memory.listing_sorted (f := f) hinvariant hr ht (Memory.ascending_run calls)
    htyped hsuits
  dsimp only
  refine ⟨?_, ?_⟩
  · rintro ⟨n, hn, hneg⟩
    obtain ⟨message, hmessage⟩ := selection_of_neg (t := t) (f := f) (o := o) hn hneg
    refine ⟨message, ?_⟩
    rw [run_find, hmessage]
    rfl
  · intro hnonneg
    refine ⟨_, hlisting, fun others => hlisting.unique hinvariant hr ht htyped hsuits,
      (Memory.run calls).memory.select t
        { filter := f, order := o, skip := (skip.getD 0).toNat, top := top.map Int.toNat }, ?_, ?_⟩
    · rw [run_find, selection_of_nonneg (checkFilter_of_parse hf) (checkOrder_of_parse ho) hnonneg]
      rfl
    · intro i
      have hbound : (top.map Int.toNat).all (i < ·) = top.all ((i : Int) < ·) := by
        cases top <;> simp
      rw [Memory.select_eq, List.getElem?_map, getElem?_window, hbound, List.getElem?_map]
      split <;> rfl

/-! ### A shelf of photos -/

/-- A new photo with a file name. -/
def photoNamed (name : Value) : Record := ⟨Memory.photo, [.null, .null, name], rfl⟩

/-- Five photos, the second of them without a file name. -/
def shelf : List Memory.Call :=
  [.text "b", .null, .text "a", .text "b", .text "b"].map fun name => .insert (photoNamed name)

/-- The photos behind the first one. -/
def later : Filter := .comparison ⟨"Photo", "Id", 0, .integer⟩ .gt (.integer 1)

/-- By file name, the last one first. -/
def byName : Order := ⟨[⟨⟨"Photo", "PictureFileName", 2, .text⟩, .descending⟩]⟩

theorem row_photo {id : Int} {name : Value} (h : name = .null ∨ ∃ s, name = .text s) :
    Memory.photo.Row [.integer id, .null, name] := by
  refine ⟨rfl, ?_, ?_⟩
  · rintro (_ | _ | _ | i) a v ha hv
    · cases ha
      cases hv
      exact .inr rfl
    · cases hv
      exact .inl rfl
    · cases ha
      cases hv
      rcases h with rfl | ⟨s, rfl⟩
      · exact .inl rfl
      · exact .inr rfl
    · simp at hv
  · rintro d hd
    rcases h with rfl | ⟨s, rfl⟩ <;> simp at hd

theorem rows_shelf : ((Memory.run shelf).memory.table Memory.photo.name).rows =
    [(1, ⟨[.integer 1, .null, .text "b"], [none, none, none]⟩),
      (2, ⟨[.integer 2, .null, .null], [none, none, none]⟩),
      (3, ⟨[.integer 3, .null, .text "a"], [none, none, none]⟩),
      (4, ⟨[.integer 4, .null, .text "b"], [none, none, none]⟩),
      (5, ⟨[.integer 5, .null, .text "b"], [none, none, none]⟩)] := rfl

theorem typed_shelf : ((Memory.run shelf).memory.table Memory.photo.name).Typed Memory.photo := by
  intro id row hrow
  rw [rows_shelf] at hrow
  simp only [List.mem_cons, Prod.mk.injEq, List.not_mem_nil, or_false] at hrow
  rcases hrow with ⟨rfl, rfl⟩ | ⟨rfl, rfl⟩ | ⟨rfl, rfl⟩ | ⟨rfl, rfl⟩ | ⟨rfl, rfl⟩ <;>
    exact ⟨row_photo (by simp), rfl⟩

theorem parse_byName : Order.parse Memory.photo (some "PictureFileName desc") = .ok byName := by
  decide +kernel

/-- The photos by file name. Those of equal names are in the order of the identities. -/
theorem sorted_shelf :
    ((Memory.run shelf).memory.table Memory.photo.name).sorted none byName =
      [[.integer 2, .null, .null], [.integer 1, .null, .text "b"], [.integer 4, .null, .text "b"],
        [.integer 5, .null, .text "b"], [.integer 3, .null, .text "a"]] := by
  refine (Table.eq_sorted (Memory.ascending_run shelf _).pairwise_ids typed_shelf
    (Order.suits_of_parse parse_byName) ?_ (by decide)).symm
  rw [Table.kept, rows_shelf]
  decide

/-- Behind the photo without a file name, a window shows two of equal names, the lesser identity
first. -/
theorem find_window_shelf :
    ∃ answers, (find (m := StateM Memory) Memory.photo (some 2) (some 1) (some later)
        byName).run.run (Memory.run shelf).memory = (.ok answers, (Memory.run shelf).memory) ∧
      answers.map Record.id = [some 4, some 5] := by
  have halbum : Registry.ofDocument Memory.album = .ok ⟨[Memory.photo]⟩ := rfl
  have hcalls : ∀ c ∈ shelf, c.UsesTypesOf ⟨[Memory.photo]⟩ := by
    simp [shelf, Memory.Call.UsesTypesOf, photoNamed]
  have hr := Registry.resolved_of_ofDocument halbum
  have hm := (Memory.invariant_run hr hcalls).memory
  have hrows : ∀ id x, (Memory.run shelf).memory.get Memory.photo id = some x →
      Memory.photo.Row x.values := by
    intro id x hx
    obtain ⟨row, hrow, rfl⟩ :=
      (Memory.get_eq_some_iff hm hr (List.mem_singleton_self _)).mp hx
    have hvalues := (typed_shelf id row hrow).1
    rwa [Record.values_ofValues_of_row hvalues]
  have hfilter : Filter.parse Memory.photo (some "Id gt 1") = .ok (some later) := by decide +kernel
  obtain ⟨records, -, hunique, answers, hfound, hanswers⟩ :=
    (find_window halbum hcalls (List.mem_singleton_self _) hrows hfilter parse_byName (some 2)
      (some 1)).2 (by rintro n (h | h) <;> cases h <;> decide)
  have hsorted : [[.integer 2, .null, .null], [.integer 4, .null, .text "b"],
      [.integer 5, .null, .text "b"], [.integer 3, .null, .text "a"]] =
      ((Memory.run shelf).memory.table Memory.photo.name).sorted (some later) byName := by
    refine Table.eq_sorted (Memory.ascending_run shelf _).pairwise_ids typed_shelf
      (Order.suits_of_parse parse_byName) ?_ (by decide)
    rw [Table.kept, rows_shelf]
    decide
  have hlisting := hunique _ (Memory.listing_sorted hm hr (List.mem_singleton_self _)
    (Memory.ascending_run shelf) typed_shelf (Order.suits_of_parse parse_byName))
  rw [← hsorted] at hlisting
  refine ⟨answers, hfound, ?_⟩
  have hwindow : answers = (records.drop 1).take 2 := by
    apply List.ext_getElem?
    intro i
    have hbound : (i : Int) < 2 ↔ i < 2 := by omega
    simp [hanswers, List.getElem?_take, hbound, Nat.add_comm]
  rw [hwindow, ← hlisting]
  rfl

end Records

end RecordService
