import RecordService.Proofs.Store.Listing

/-!
# Queries stay within their rows

A query looks into the rows of a table by the positions that its filter and its order bring along,
and nothing checks these on the way. They fit because of where they come from: the parsers take them
from the record type that the query was read for, a query on another one is refused, and the store
keeps rows of the right length only (`RecordService.Records.access_in_range`).

* `RecordService.Filter.evaluate?`, `RecordService.Order.compare?`: the same evaluation and the same
  comparison, which come to nothing where a value is looked for beyond the end of a row.
* `RecordService.Path.Declared`: a property that is declared at its position.
-/

namespace RecordService

/-! ### Access that may fail -/

/-- The truth value of a filter, unless one of its comparisons looks beyond the end of the row. -/
def Filter.evaluate? (values : List Value) : Filter → Option (Option Bool)
  | comparison path op literal => do
    let v ← values[path.index]?
    some ((v.compare literal).map op.test)
  | and l r => do
    let a ← l.evaluate? values
    let b ← r.evaluate? values
    some (Truth.both a b)
  | or l r => do
    let a ← l.evaluate? values
    let b ← r.evaluate? values
    some (Truth.either a b)
  | not f => do
    let a ← f.evaluate? values
    some (Truth.negate a)

/-- The order of two rows by one term, unless it looks beyond the end of one of them. -/
def OrderTerm.compare? (term : OrderTerm) (a b : List Value) : Option Ordering := do
  let v ← a[term.path.index]?
  let w ← b[term.path.index]?
  match term.direction with
  | .ascending => some (v.sortCompare w)
  | .descending => some (v.sortCompare w).swap

/-- The order of two rows, unless a term needed for it looks beyond the end of one of them. -/
def Order.compare? (o : Order) (a b : List Value) : Option Ordering :=
  o.terms.foldr (fun term rest => do
    let c ← term.compare? a b
    if c = .eq then rest else some c) (some .eq)

section

variable {f : Filter} {o : Order} {term : OrderTerm} {values a b : List Value}

/-- Within the row, a filter has the truth value that it has. So the default that stands behind the
end of a row is never used. -/
theorem Filter.evaluate?_eq (h : f.Every fun p _ _ => p.index < values.length) :
    f.evaluate? values = some (f.evaluate values) := by
  induction f with
  | comparison p op v =>
    have hvalue : values[p.index]? = some values[p.index] := List.getElem?_eq_getElem h
    simp only [evaluate?, evaluate, hvalue, bind, Option.bind_some]
    cases values[p.index].compare v <;> rfl
  | and l r ihl ihr => simp only [evaluate?, evaluate, ihl h.1, ihr h.2, bind, Option.bind_some]
  | or l r ihl ihr => simp only [evaluate?, evaluate, ihl h.1, ihr h.2, bind, Option.bind_some]
  | not f ih => simp only [evaluate?, evaluate, ih h, bind, Option.bind_some]

/-- Within both rows, a term compares them as it does with defaults. -/
theorem OrderTerm.compare?_eq (ha : term.path.index < a.length) (hb : term.path.index < b.length) :
    term.compare? a b = some (term.compare a b) := by
  have hvalue {values : List Value} (h : term.path.index < values.length) :
      values[term.path.index]? = some (term.value values) := by
    simp [value, List.getD_eq_getElem?_getD, h]
  rw [compare_eq]
  simp only [compare?, hvalue ha, hvalue hb, bind, Option.bind_some]
  cases term.direction <;> rfl

theorem Order.compare?_eq
    (h : ∀ term ∈ o.terms, term.path.index < a.length ∧ term.path.index < b.length) :
    o.compare? a b = some (o.compare a b) := by
  obtain ⟨terms⟩ := o
  induction terms with
  | nil => rfl
  | cons term terms ih =>
    obtain ⟨⟨ha, hb⟩, hterms⟩ := List.forall_mem_cons.mp h
    have hrest := ih hterms
    unfold Order.compare? at hrest ⊢
    rw [List.foldr_cons, hrest, OrderTerm.compare?_eq ha hb, compare_cons]
    cases term.compare a b <;> rfl

end

/-! ### Declared properties -/

/-- A property that a record type declares at its position, with its name and its kind. -/
structure Path.Declared (t : RecordType) (p : Path) : Prop where
  entity : p.entity = t.name
  declaration : ∃ a, t.attributes[p.index]? = some a ∧ a.name = p.name ∧ a.kind = p.kind

section

variable {t : RecordType} {p : Path} {text : Option String}

/-- A path that was resolved is declared: its position and its kind are those of an attribute of
this name. -/
theorem Path.declared_of_resolve {s : String} (h : resolve t s = .ok p) : p.Declared t := by
  obtain ⟨rfl, hentity, -, hdeclaration⟩ := resolve_eq_ok h
  exact ⟨hentity, hdeclaration⟩

/-- A declared property has a value in every row of the length of its type. -/
theorem Path.Declared.index_lt (h : p.Declared t) {values : List Value}
    (hlength : values.length = t.attributes.length) : p.index < values.length := by
  obtain ⟨a, ha, -⟩ := h.declaration
  rw [hlength]
  exact (List.getElem?_eq_some_iff.mp ha).1

/-- **The comparisons of a filter** that was read have declared properties. -/
theorem Filter.declared_of_parse {f : Filter} (h : parse t text = .ok (some f)) :
    f.Every fun p _ _ => p.Declared t := by
  -- a missing text is read as an empty one
  have hparse : parse t (some (text.getD "")) = .ok (some f) := h
  exact (wellTyped_of_parse hparse).imp fun _ _ _ hfits => Path.declared_of_resolve hfits.resolved

/-- **The terms of an order** that was read have declared properties. -/
theorem Order.declared_of_parse {o : Order} (h : parse t text = .ok o) :
    ∀ term ∈ o.terms, term.path.Declared t := fun term hterm =>
  Path.declared_of_resolve (resolved_of_parse h term hterm).1

end

/-! ### Queries on other record types -/

namespace Records

variable {t : RecordType} {f : Option Filter} {o : Order} {top skip : Option Int}

theorem checkFilter_of_foreign {g : Filter} {entity : String}
    (h : g.Every fun p _ _ => p.entity = entity) (hne : entity ≠ t.name) :
    ∃ message, checkFilter t (some g) = .error (.badRequest message) :=
  ⟨_, if_neg (by simp [belongsTo_eq h, hne])⟩

theorem checkOrder_of_foreign {term : OrderTerm} (hterm : term ∈ o.terms)
    (hne : term.path.entity ≠ t.name) :
    ∃ message, checkOrder t o = .error (.badRequest message) := by
  refine ⟨_, if_neg fun hall => hne ?_⟩
  exact eq_of_beq (List.all_eq_true.mp hall term hterm)

/-- The bounds of a query are checked first, and then its filter and its order. So a query with
several faults is refused for its bounds. -/
theorem selection_eq (t : RecordType) (top skip : Option Int) (f : Option Filter) (o : Order) :
    selection t top skip f o = do
      let s ← selection t top skip none {}
      checkFilter t f
      checkOrder t o
      return { s with filter := f, order := o } := by
  rw [selection, selection]
  cases nonNegative "$skip" (skip.getD 0) with
  | error e => rfl
  | ok skip =>
    cases top.mapM (nonNegative "$top") with
    | error e => rfl
    | ok top => rfl

theorem nonNegative_eq (name : String) (n : Int) :
    (∃ k, nonNegative name n = .ok k) ∨
      ∃ message, nonNegative name n = .error (.badRequest message) := by
  rcases Int.lt_or_le n 0 with hn | hn
  · exact .inr (nonNegative_of_neg name hn)
  · exact .inl ⟨_, nonNegative_of_nonneg name hn⟩

/-- A query without a filter and an order is refused for its bounds at most. -/
theorem selection_bounds (t : RecordType) (top skip : Option Int) :
    (∃ s, selection t top skip none {} = .ok s) ∨
      ∃ message, selection t top skip none {} = .error (.badRequest message) := by
  rw [selection]
  rcases nonNegative_eq "$skip" (skip.getD 0) with ⟨skip, hskip⟩ | ⟨message, hskip⟩
  · cases top with
    | none => exact .inl ⟨_, by rw [hskip]; rfl⟩
    | some n =>
      rw [hskip, Option.mapM_some]
      rcases nonNegative_eq "$top" n with ⟨top, htop⟩ | ⟨message, htop⟩
      · exact .inl ⟨_, by rw [htop]; rfl⟩
      · exact .inr ⟨message, by rw [htop]; rfl⟩
  · exact .inr ⟨message, by rw [hskip]; rfl⟩

/-- A query whose filter or order is refused is refused. -/
theorem selection_of_check (top skip : Option Int)
    (h : (∃ message, checkFilter t f = .error (.badRequest message)) ∨
      ∃ message, checkOrder t o = .error (.badRequest message)) :
    ∃ message, selection t top skip f o = .error (.badRequest message) := by
  have hfilter : checkFilter t f = .ok () ∨
      ∃ message, checkFilter t f = .error (.badRequest message) := by
    unfold checkFilter
    split
    · exact .inl rfl
    · exact .inr ⟨_, rfl⟩
  rw [selection_eq]
  rcases selection_bounds t top skip with ⟨s, hs⟩ | ⟨message, hs⟩
  · rcases hfilter with hf | ⟨message, hf⟩
    · obtain ⟨message, ho⟩ := h.resolve_left (by simp [hf])
      exact ⟨message, by rw [hs, hf, ho]; rfl⟩
    · exact ⟨message, by rw [hs, hf]; rfl⟩
  · exact ⟨message, by rw [hs]; rfl⟩

/-! ### Queries on any store -/

section

variable {M : Type → Type} [Monad M] [LawfulMonad M]

/-- A check that fails is all that happens. -/
theorem bind_of_error {α β : Type} {x : Except RequestError α} {e : RequestError} (h : x = .error e)
    (k : α → ExceptT RequestError M β) : ExceptT.mk (pure x) >>= k = throw e := by
  apply ExceptT.ext
  simp [h, ExceptT.run_bind]

/-- A check that succeeds does nothing. -/
theorem bind_of_ok {α β : Type} {x : Except RequestError α} {a : α} (h : x = .ok a)
    (k : α → ExceptT RequestError M β) : ExceptT.mk (pure x) >>= k = k a := by
  apply ExceptT.ext
  simp [h, ExceptT.run_bind]

/-- A query that passes its checks gets as far as the store, unless its bounds are refused. This
holds for any store, since the checks do not ask it. -/
theorem find_of_checks [RecordStore M] (hf : checkFilter t f = .ok ())
    (ho : checkOrder t o = .ok ()) :
    find (m := M) t top skip f o = (do
      let s ← ExceptT.mk (pure (selection t top skip none {}))
      store (RecordStore.select t { s with filter := f, order := o })) := by
  have hselection := selection_eq t top skip f o
  rw [hf, ho] at hselection
  unfold find
  cases hbounds : selection t top skip none {} with
  | error e =>
    rw [hbounds] at hselection
    rw [bind_of_error hselection, bind_of_error rfl]
  | ok s =>
    rw [hbounds] at hselection
    rw [bind_of_ok hselection, bind_of_ok rfl]

end

end Records

/-! ### Access to stored rows -/

/-- Whether a query looks into the rows of a table only where they have values, for its filter and
for each comparison of two rows that sorting may need. -/
structure Table.Covers (table : Table) (f : Option Filter) (o : Order) : Prop where
  evaluate : ∀ g, f = some g → ∀ id row, (id, row) ∈ table.rows →
    (g.Every fun p _ _ => p.index < row.values.length) ∧
      g.evaluate? row.values = some (g.evaluate row.values)
  compare_term : ∀ term ∈ o.terms, ∀ p ∈ table.rows, ∀ q ∈ table.rows,
    term.path.index < p.2.values.length ∧ term.path.index < q.2.values.length ∧
      term.compare? p.2.values q.2.values = some (term.compare p.2.values q.2.values)
  compare : ∀ p ∈ table.rows, ∀ q ∈ table.rows,
    o.compare? p.2.values q.2.values = some (o.compare p.2.values q.2.values)

/-- Rows of the length of their type are long enough for declared properties, and so for every
comparison that a query makes. -/
theorem Table.covers_of_declared {t : RecordType} {table : Table} {f : Option Filter} {o : Order}
    (hrows : ∀ p ∈ table.rows, p.2.values.length = t.attributes.length)
    (hf : ∀ g, f = some g → g.Every fun p _ _ => p.Declared t)
    (ho : ∀ term ∈ o.terms, term.path.Declared t) : table.Covers f o := by
  have hterm : ∀ term ∈ o.terms, ∀ p ∈ table.rows, term.path.index < p.2.values.length :=
    fun term hterm p hp => (ho term hterm).index_lt (hrows p hp)
  refine ⟨?_, ?_, ?_⟩
  · intro g hg id row hrow
    have hindex : g.Every fun p _ _ => p.index < row.values.length :=
      (hf g hg).imp fun _ _ _ hp => hp.index_lt (hrows _ hrow)
    exact ⟨hindex, Filter.evaluate?_eq hindex⟩
  · intro term hmem p hp q hq
    have hfirst := hterm term hmem p hp
    have hsecond := hterm term hmem q hq
    exact ⟨hfirst, hsecond, OrderTerm.compare?_eq hfirst hsecond⟩
  · intro p hp q hq
    exact Order.compare?_eq fun term hmem => ⟨hterm term hmem p hp, hterm term hmem q hq⟩

namespace Records

/-- **Queries stay within their rows.** A filter and an order that were read for one record type of
a registry are refused on every other one, and on their own one a query with them is refused for its
bounds at most. Their properties are declared at their positions. So in every state that a run leads
to, no filter and no comparison looks beyond the end of a row. -/
theorem access_in_range {d : Schema.Document} {r : Registry} (hd : Registry.ofDocument d = .ok r)
    {t u : RecordType} (ht : t ∈ r.types) (hu : u ∈ r.types) {filterText orderText : Option String}
    {f : Option Filter} {o : Order} (hf : Filter.parse t filterText = .ok f)
    (ho : Order.parse t orderText = .ok o) :
    (t ≠ u → ∀ (M : Type → Type) [Monad M] [LawfulMonad M] [RecordStore M],
      (f ≠ none →
        (∃ message, count (m := M) u f = throw (.badRequest message)) ∧
        ∀ top skip other, ∃ message,
          find (m := M) u top skip f other = throw (.badRequest message)) ∧
      (o.terms ≠ [] → ∀ top skip other, ∃ message,
        find (m := M) u top skip other o = throw (.badRequest message))) ∧
    (∀ (M : Type → Type) [Monad M] [LawfulMonad M] [RecordStore M],
      count (m := M) t f = store (RecordStore.count t f) ∧
      ∀ top skip, find (m := M) t top skip f o = (do
        let s ← ExceptT.mk (pure (selection t top skip none {}))
        store (RecordStore.select t { s with filter := f, order := o }))) ∧
    (∀ g, f = some g → g.Every fun p _ _ => p.Declared t) ∧
    (∀ term ∈ o.terms, term.path.Declared t) ∧
    ∀ calls : List Memory.Call, (∀ c ∈ calls, c.UsesTypesOf r) →
      ((Memory.run calls).memory.table t.name).Covers f o := by
  have hr := Registry.resolved_of_ofDocument hd
  have hfilter : ∀ g, f = some g → g.Every fun p _ _ => p.Declared t := by
    rintro g rfl
    exact Filter.declared_of_parse hf
  have horder := Order.declared_of_parse ho
  refine ⟨fun hne M _ _ _ => ⟨?_, ?_⟩, fun M _ _ _ => ⟨?_, ?_⟩, hfilter, horder, ?_⟩
  · -- record types of a registry have different names
    have hname : t.name ≠ u.name := fun h => hne (hr.eq_of_name ht hu h)
    intro hsome
    obtain ⟨g, rfl⟩ := Option.ne_none_iff_exists'.mp hsome
    have hentity : g.Every fun p _ _ => p.entity = t.name :=
      (hfilter g rfl).imp fun _ _ _ hp => hp.entity
    obtain ⟨message, hcheck⟩ := checkFilter_of_foreign hentity hname
    refine ⟨⟨message, bind_of_error hcheck _⟩, fun top skip other => ?_⟩
    obtain ⟨message, hselection⟩ := selection_of_check top skip (.inl ⟨message, hcheck⟩)
    exact ⟨message, bind_of_error hselection _⟩
  · have hname : t.name ≠ u.name := fun h => hne (hr.eq_of_name ht hu h)
    intro hterms top skip other
    obtain ⟨term, hterm⟩ := List.exists_mem_of_ne_nil _ hterms
    have hentity := (horder term hterm).entity
    obtain ⟨message, hcheck⟩ := checkOrder_of_foreign hterm (hentity ▸ hname)
    obtain ⟨message, hselection⟩ := selection_of_check top skip (.inr ⟨message, hcheck⟩)
    exact ⟨message, bind_of_error hselection _⟩
  · exact bind_of_ok (checkFilter_of_parse hf) _
  · intro top skip
    exact find_of_checks (checkFilter_of_parse hf) (checkOrder_of_parse ho)
  · intro calls hcalls
    have htable := (Memory.invariant_run hr hcalls).memory.table hr ht
    refine Table.covers_of_declared (fun p hp => ?_) hfilter horder
    exact (htable.rows p.1 p.2 hp).2.2.length_values

/-- A schema with two entities. -/
def archive : Schema.Document where
  entities := Memory.album.entities ++ [{
    name := "Folder"
    attributes := [{ name := "Id", kind := .integer }, { name := "Label", kind := .text }] }]

/-- The record type of the folders, which have fewer attributes than photos. -/
def folder : RecordType where
  name := "Folder"
  space := "public"
  table := "Folder"
  attributes := [
    { name := "Id", kind := .integer, nullable := true, sidecar := none, target := none },
    { name := "Label", kind := .text, nullable := true, sidecar := none, target := none }]
  identity := 0

/-- The order of photos by file name would look beyond the rows of folders, and is refused there. On
photos it compares any two rows. -/
theorem access_in_range_archive :
    Registry.ofDocument archive = .ok ⟨[Memory.photo, folder]⟩ ∧
      (∃ message, count (m := StateM Memory) folder (some later) = throw (.badRequest message)) ∧
      (∃ message, find (m := StateM Memory) folder none none none byName =
        throw (.badRequest message)) ∧
      byName.compare? [.integer 1, .text "a"] [.integer 2, .text "b"] = none ∧
      ((Memory.run shelf).memory.table "Photo").Covers (some later) byName := by
  have harchive : Registry.ofDocument archive = .ok ⟨[Memory.photo, folder]⟩ := rfl
  have hcalls : ∀ c ∈ shelf, c.UsesTypesOf ⟨[Memory.photo, folder]⟩ := by
    simp [shelf, Memory.Call.UsesTypesOf, photoNamed]
  have hfilter : Filter.parse Memory.photo (some "Id gt 1") = .ok (some later) := by decide +kernel
  have hfolder : folder ∈ [Memory.photo, folder] := by simp
  obtain ⟨hother, -, -, -, hcovers⟩ :=
    access_in_range harchive List.mem_cons_self hfolder hfilter parse_byName
  obtain ⟨hcount, hfind⟩ := hother (by decide) (StateM Memory)
  exact ⟨harchive, (hcount (by simp)).1, hfind (by decide) none none none, rfl,
    hcovers shelf hcalls⟩

end Records

end RecordService
