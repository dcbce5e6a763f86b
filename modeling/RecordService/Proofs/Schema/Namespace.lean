import RecordService.Proofs.Schema.Image

/-!
# The database schemas of entities

An entity is in the namespace that it names, or else in the first one that is declared, and the
namespace says which database schema its table is in. Namespaces are told by their ids, and nothing
keeps a document from declaring two with one id. An entity without a namespace is in the first of
them by its place in the document, but the name is looked up by the id, and the last declaration
with this id counts (`RecordService.Registry.space_of_entity`). So the schema of an entity is the
declared one exactly if the first and the last namespace with its id have one name.

* `RecordService.Schema.Document.schemaOf`: the database schema that a document declares for an
  entity.
* `RecordService.Schema.Document.First`, `RecordService.Schema.Document.Last`: the declarations that
  matter among those with one id.
-/

namespace RecordService

open Schema

namespace Schema.Document

/-- The database schema that a document declares for an entity: that of the first namespace for an
entity that names none, and that of the first namespace with its id for an entity that names one. -/
def schemaOf (d : Document) (e : EntityDecl) : String :=
  match e.namespaceId with
  | none => (d.namespaces.head?.map (·.name)).getD "public"
  | some id => ((d.namespaces.find? (·.id == id)).map (·.name)).getD id

/-- Whether a namespace is the first one with its id. -/
def First (d : Document) (n : NamespaceDecl) : Prop :=
  ∃ before after, d.namespaces = before ++ n :: after ∧ ∀ m ∈ before, m.id ≠ n.id

/-- Whether a namespace is the last one with its id. -/
def Last (d : Document) (n : NamespaceDecl) : Prop :=
  ∃ before after, d.namespaces = before ++ n :: after ∧ ∀ m ∈ after, m.id ≠ n.id

/-! ### Looking up ids -/

variable {d : Document} {e : EntityDecl} {n : NamespaceDecl} {id : String}

/-- Looking up an id from the front finds its first declaration. -/
theorem find?_eq_some_iff_first : d.namespaces.find? (·.id == id) = some n ↔ d.First n ∧ n.id = id := by
  rw [List.find?_eq_some_iff_append, beq_iff_eq]
  constructor
  · rintro ⟨rfl, before, after, h, hbefore⟩
    exact ⟨⟨before, after, h, fun m hm => by simpa using hbefore m hm⟩, rfl⟩
  · rintro ⟨⟨before, after, h, hbefore⟩, rfl⟩
    exact ⟨rfl, before, after, h, fun m hm => by simpa using hbefore m hm⟩

/-- Looking up an id from the back finds its last declaration, as a table does in which later ones
replace earlier ones. -/
theorem find?_reverse_eq_some_iff_last :
    d.namespaces.reverse.find? (·.id == id) = some n ↔ d.Last n ∧ n.id = id := by
  rw [List.find?_eq_some_iff_append, beq_iff_eq]
  constructor
  · rintro ⟨rfl, after, before, h, hafter⟩
    refine ⟨⟨before.reverse, after.reverse, ?_, fun m hm => ?_⟩, rfl⟩
    · rw [List.reverse_eq_iff.mp h]
      simp
    · simpa using hafter m (List.mem_reverse.mp hm)
  · rintro ⟨⟨before, after, h, hafter⟩, rfl⟩
    refine ⟨rfl, after.reverse, before.reverse, ?_, fun m hm => ?_⟩
    · rw [h]
      simp
    · simpa using hafter m (List.mem_reverse.mp hm)

/-- An id that is declared has a first and a last declaration. -/
theorem exists_first_last (h : ∃ m ∈ d.namespaces, m.id = id) :
    ∃ first last, (d.First first ∧ first.id = id) ∧ d.Last last ∧ last.id = id := by
  obtain ⟨m, hm, rfl⟩ := h
  have hfirst : (d.namespaces.find? (·.id == m.id)).isSome := by
    rw [List.find?_isSome]
    exact ⟨m, hm, beq_self_eq_true m.id⟩
  have hlast : (d.namespaces.reverse.find? (·.id == m.id)).isSome := by
    rw [List.find?_isSome]
    exact ⟨m, List.mem_reverse.mpr hm, beq_self_eq_true m.id⟩
  obtain ⟨first, hfirst⟩ := Option.isSome_iff_exists.mp hfirst
  obtain ⟨last, hlast⟩ := Option.isSome_iff_exists.mp hlast
  exact ⟨first, last, find?_eq_some_iff_first.mp hfirst, find?_reverse_eq_some_iff_last.mp hlast⟩

/-- Where the ids differ, the first namespace with an id is the last one. Nothing requires that they
differ. -/
theorem First.eq_of_nodup {last : NamespaceDecl} (hn : d.First n) (hlast : d.Last last)
    (hid : last.id = n.id) (hnodup : (d.namespaces.map (·.id)).Nodup) : n = last := by
  obtain ⟨before, after, h, -⟩ := hn
  obtain ⟨before', after', h', -⟩ := hlast
  exact List.inj_on_of_nodup_map hnodup (by simp [h]) (by simp [h']) hid.symm

/-- The first namespace is the first one with its id. -/
theorem first_of_head? (h : d.namespaces.head? = some n) : d.First n := by
  obtain ⟨after, h⟩ := List.head?_eq_some_iff.mp h
  exact ⟨[], after, h, by simp⟩

theorem schemaOf_of_first (hn : d.First n) (hid : n.id = d.namespaceIdOf e) :
    d.schemaOf e = n.name := by
  have hfound := find?_eq_some_iff_first.mpr ⟨hn, hid⟩
  unfold schemaOf
  cases hnamed : e.namespaceId with
  | some id =>
    have heq : d.namespaceIdOf e = id := by simp [namespaceIdOf, hnamed]
    simp only [← heq, hfound, Option.map_some, Option.getD_some]
  | none =>
    cases hspaces : d.namespaces with
    | nil =>
      rw [hspaces] at hfound
      simp at hfound
    | cons m ms =>
      -- the first namespace is found by its own id
      have heq : d.namespaceIdOf e = m.id := by
        simp [namespaceIdOf, defaultNamespaceId, hnamed, hspaces]
      have hm := find?_eq_some_iff_first.mpr ⟨first_of_head? (d := d) (by simp [hspaces]), heq.symm⟩
      obtain rfl : m = n := Option.some.inj (hm.symm.trans hfound)
      rfl

end Schema.Document

namespace Registry

variable {d : Document} {r : Registry} {e : EntityDecl}

theorem spaceOf_of_last {n : NamespaceDecl} (hn : d.Last n) : spaceOf d n.id = n.name := by
  rw [spaceOf, Document.find?_reverse_eq_some_iff_last.mpr ⟨hn, rfl⟩, Option.map_some,
    Option.getD_some]

/-- **Where the table of an entity is.** The table is the named one, or else it has the name of the
entity. Its database schema is `public` if no namespaces are declared. Otherwise it is that of the
last namespace with the id that the entity names, or else with the id of the first namespace. The
document declares that of the first namespace with this id, which is the same if no two namespaces
have one id. -/
theorem space_of_entity (h : ofDocument d = .ok r) (he : e ∈ d.entities) :
    ∃ t, r.resolve e.name = .ok t ∧ t.table = e.table.getD e.name ∧
      (d.namespaces = [] ∧ t.space = "public" ∧ d.schemaOf e = "public" ∨
        ∃ first last, d.First first ∧ d.Last last ∧
          first.id = e.namespaceId.getD ((d.namespaces.head?.map (·.id)).getD "public") ∧
          last.id = first.id ∧ d.schemaOf e = first.name ∧ t.space = last.name ∧
          (t.space = d.schemaOf e ↔ first.name = last.name)) ∧
      ((d.namespaces.map (·.id)).Nodup → t.space = d.schemaOf e) := by
  obtain ⟨t, hresolve, -, -, ht⟩ := exists_type h he
  obtain ⟨_, hvalid, -⟩ := Outcome.bind_eq_ok_iff.mp h
  have hdeclares := (Document.validate_eq_ok_iff.mp hvalid).namespaces e he
  obtain ⟨i, -, rfl⟩ := recordType?_eq_some_iff.mp ht
  refine ⟨_, hresolve, rfl, ?_⟩
  rw [← Document.namespaceIdOf_eq] at hdeclares ⊢
  rcases hdeclares with hdeclared | ⟨hnone, hid⟩
  · obtain ⟨first, last, ⟨hfirst, hid⟩, hlast, hid'⟩ := Document.exists_first_last hdeclared
    have hschema := Document.schemaOf_of_first hfirst hid
    have hspace : spaceOf d (d.namespaceIdOf e) = last.name := hid' ▸ spaceOf_of_last hlast
    have hsame : last.id = first.id := hid'.trans hid.symm
    refine ⟨.inr ⟨first, last, hfirst, hlast, hid, hsame, hschema, hspace, ?_⟩, fun hnodup => ?_⟩
    · rw [hschema, hspace, eq_comm]
    · rw [hschema, hspace, hfirst.eq_of_nodup hlast hsame hnodup]
  · have hspace : spaceOf d (d.namespaceIdOf e) = "public" := by simp [spaceOf, hnone, hid]
    have hschema : d.schemaOf e = "public" := by
      cases hnamed : e.namespaceId with
      | none => simp [Document.schemaOf, hnamed, hnone]
      | some id =>
        have heq : d.namespaceIdOf e = id := by simp [Document.namespaceIdOf, hnamed]
        simp [Document.schemaOf, hnamed, hnone, ← heq, hid]
    exact ⟨.inl ⟨hnone, hspace, hschema⟩, fun _ => hspace.trans hschema.symm⟩

/-! ### Two namespaces with one id -/

/-- An entity that names no namespace. -/
def person : EntityDecl := { name := "Person", attributes := [{ name := "Id", kind := .integer }] }

/-- An entity with a namespace and a table of its own. -/
def lead : EntityDecl :=
  { name := "Lead", namespaceId := "crm", table := "leads",
    attributes := [{ name := "Id", kind := .integer }] }

/-- A document whose first and last namespaces have one id. -/
def office : Document where
  namespaces := [
    { id := "hr", name := "staff" },
    { id := "crm", name := "sales" },
    { id := "hr", name := "archive" }]
  entities := [person, lead]

/-- The last of the two namespaces counts for the person, and there is only one for the lead. -/
theorem space_of_entity_office :
    ∃ r, ofDocument office = .ok r ∧ person ∈ office.entities ∧ lead ∈ office.entities ∧
      (∃ t, r.resolve "Person" = .ok t ∧ t.table = "Person" ∧ t.space = "archive") ∧
      ∃ t, r.resolve "Lead" = .ok t ∧ t.table = "leads" ∧ t.space = "sales" := by
  have hperson : person ∈ office.entities := List.mem_cons_self
  have hlead : lead ∈ office.entities := List.mem_cons_of_mem _ List.mem_cons_self
  obtain ⟨r, h⟩ : ∃ r, ofDocument office = .ok r := ⟨_, rfl⟩
  have hspace {e : EntityDecl} {n : NamespaceDecl} (he : e ∈ office.entities)
      (hn : office.namespaces.reverse.find? (·.id == e.namespaceId.getD "hr") = some n) :
      ∃ t, r.resolve e.name = .ok t ∧ t.table = e.table.getD e.name ∧ t.space = n.name := by
    obtain ⟨t, ht, htable, ⟨hnone, -⟩ | ⟨first, last, -, hlast, hid, hsame, -, hspace, -⟩, -⟩ :=
      space_of_entity h he
    · simp [office] at hnone
    · have hfound := Document.find?_reverse_eq_some_iff_last.mpr ⟨hlast, hsame.trans hid⟩
      obtain rfl : last = n := Option.some.inj (hfound.symm.trans hn)
      exact ⟨t, ht, htable, hspace⟩
  exact ⟨r, h, hperson, hlead, hspace hperson rfl, hspace hlead rfl⟩

/-- **An entity without a namespace is not in the first one** if a later namespace has the id of the
first. -/
theorem later_namespace_counts :
    ∃ r t, ofDocument office = .ok r ∧ r.resolve "Person" = .ok t ∧ person.namespaceId = none ∧
      (office.namespaces.head?.map (·.name)) = some "staff" ∧ office.schemaOf person = "staff" ∧
      t.space = "archive" :=
  ⟨_, _, rfl, rfl, rfl, rfl, rfl, rfl⟩

end Registry

end RecordService
