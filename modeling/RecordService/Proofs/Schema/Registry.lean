import Mathlib.Data.List.Nodup
import RecordService.Proofs.Schema.Rules

/-!
# What registries promise

The rules for schema documents are checked once, when a registry is made. Its record types have
different names then, and each has an identity, which is an integer
(`RecordService.Registry.resolved_of_ofDocument`). The attributes of a record type have different
names too (`RecordService.Registry.nodup_attributes`).

* `RecordService.Registry.Resolved`: what holds of the record types of a document.
-/

namespace RecordService

/-- What holds of the record types of a document. -/
structure Registry.Resolved (r : Registry) : Prop where
  nodup_names : (r.types.map (·.name)).Nodup
  identity : ∀ t ∈ r.types, ∃ a, t.attributes[t.identity]? = some a ∧
    a.name = Schema.identityName ∧ a.kind = .integer

/-- Attributes with one name are at one position, if the names differ. So looking up a name finds
the attribute that has it. -/
theorem RecordType.position_eq_of_name {t : RecordType}
    (hnodup : (t.attributes.map (·.name)).Nodup) {i j : Nat} {a b : Attribute}
    (ha : t.attributes[i]? = some a) (hb : t.attributes[j]? = some b) (h : a.name = b.name) :
    i = j := by
  obtain ⟨hi, rfl⟩ := List.getElem?_eq_some_iff.mp ha
  obtain ⟨hj, rfl⟩ := List.getElem?_eq_some_iff.mp hb
  have hi' : i < (t.attributes.map (·.name)).length := by simpa using hi
  have hj' : j < (t.attributes.map (·.name)).length := by simpa using hj
  have hsame : (t.attributes.map (·.name))[i] = (t.attributes.map (·.name))[j] := by
    rw [List.getElem_map, List.getElem_map, h]
  exact hnodup.getElem_inj_iff.mp hsame

namespace Registry

/-- Record types are told apart by their names, which is what tables are stored under. -/
theorem Resolved.eq_of_name {r : Registry} (hr : r.Resolved) {t u : RecordType} (ht : t ∈ r.types)
    (hu : u ∈ r.types) (h : t.name = u.name) : t = u :=
  List.inj_on_of_nodup_map hr.nodup_names ht hu h

/-- The identity has no binary content, so neither an update nor a commit writes over it. -/
theorem Resolved.identity_ne_blob {r : Registry} (hr : r.Resolved) {t : RecordType}
    (ht : t ∈ r.types) : ∃ a, t.attributes[t.identity]? = some a ∧ a.kind ≠ .blob := by
  obtain ⟨a, ha, -, hkind⟩ := hr.identity t ht
  refine ⟨a, ha, ?_⟩
  rw [hkind]
  decide

/-! ### Record types of entities -/

/-- The parts of the record type of an entity. -/
theorem recordType?_eq_some_iff {d : Schema.Document} {e : Schema.EntityDecl} {t : RecordType} :
    recordType? d e = some t ↔
      ∃ i, e.attributes.findIdx? (·.name == Schema.identityName) = some i ∧
        { name := e.name
          space := spaceOf d (d.namespaceIdOf e)
          table := e.table.getD e.name
          attributes := e.attributes.map resolved
          identity := i } = t := by
  simp only [recordType?, bind, Option.bind_eq_some_iff, Option.some.injEq]

/-- The record type of an entity that follows the rules: it keeps the name, and its identity is an
integer. -/
theorem identity_of_recordType? {d : Schema.Document} {e : Schema.EntityDecl} {t : RecordType}
    (he : e.WellFormed d) (ht : recordType? d e = some t) :
    t.name = e.name ∧ ∃ a, t.attributes[t.identity]? = some a ∧
      a.name = Schema.identityName ∧ a.kind = .integer := by
  obtain ⟨i, hi, rfl⟩ := recordType?_eq_some_iff.mp ht
  obtain ⟨hlt, hname, -⟩ := List.findIdx?_eq_some_iff_getElem.mp hi
  -- there is only one attribute with the name, so it is the one that is an integer
  obtain ⟨a, ha, haname, hkind⟩ := he.identity
  obtain rfl : e.attributes[i] = a := List.inj_on_of_nodup_map he.nodup_names
    (List.getElem_mem hlt) ha ((beq_iff_eq.mp hname).trans haname.symm)
  exact ⟨rfl, resolved e.attributes[i], by simp [hlt], beq_iff_eq.mp hname, hkind⟩

/-- The record types of a document are those of its entities, in the same order, and every entity
follows the rules. -/
theorem forall₂_of_ofDocument {d : Schema.Document} {r : Registry} (h : ofDocument d = .ok r) :
    List.Forall₂ (fun (e : Schema.EntityDecl) t => e.WellFormed d ∧ recordType? d e = some t)
      d.entities r.types := by
  obtain ⟨_, hvalid, h⟩ := Outcome.bind_eq_ok_iff.mp h
  obtain ⟨types, htypes, h⟩ := Outcome.bind_eq_ok_iff.mp h
  obtain rfl := Except.ok.inj h
  have hentities := (Schema.Document.validate_eq_ok_iff.mp hvalid).entities
  refine ((List.forall₂_and_left _ _).mpr ⟨hentities, Outcome.forall₂_of_mapM htypes⟩).imp ?_
  rintro e t ⟨he, ht⟩
  split at ht
  · rename_i u hu
    exact ⟨he, hu.trans (congrArg some (Except.ok.inj ht))⟩
  · simp at ht

/-- **Registries of documents are resolved.** This is the form in which the store uses the rules:
nothing else of the document enters its proofs. -/
theorem resolved_of_ofDocument {d : Schema.Document} {r : Registry} (h : ofDocument d = .ok r) :
    r.Resolved := by
  -- every record type has the name of its entity, and an identity
  have hall := (forall₂_of_ofDocument h).imp fun e t het => identity_of_recordType? het.1 het.2
  have hmap : d.entities.map (·.name) = r.types.map (·.name) := by
    rw [← List.forall₂_eq_eq_eq, List.forall₂_map_left_iff, List.forall₂_map_right_iff]
    exact hall.imp fun e t het => het.1.symm
  refine ⟨?_, ?_⟩
  · obtain ⟨_, hvalid, -⟩ := Outcome.bind_eq_ok_iff.mp h
    rw [← hmap]
    exact (Schema.Document.validate_eq_ok_iff.mp hvalid).nodup_names
  · intro t ht
    obtain ⟨i, hi, rfl⟩ := List.getElem_of_mem ht
    have hi' : i < d.entities.length := by
      rw [hall.length_eq]
      exact hi
    exact (hall.get hi' hi).2

theorem index?_of_recordType? {d : Schema.Document} {e : Schema.EntityDecl} {t : RecordType}
    (ht : recordType? d e = some t) : t.index? Schema.identityName = some t.identity := by
  obtain ⟨i, hi, rfl⟩ := recordType?_eq_some_iff.mp ht
  simpa [RecordType.index?, List.findIdx?_map, Function.comp_def, resolved] using hi

/-- Every record type is that of an entity that follows the rules, so what the rules say can be used
of it. -/
theorem exists_entity {d : Schema.Document} {r : Registry} (h : ofDocument d = .ok r)
    {t : RecordType} (ht : t ∈ r.types) :
    ∃ e ∈ d.entities, e.WellFormed d ∧ recordType? d e = some t := by
  have hall := forall₂_of_ofDocument h
  obtain ⟨i, hi, rfl⟩ := List.getElem_of_mem ht
  have hi' : i < d.entities.length := hall.length_eq ▸ hi
  exact ⟨d.entities[i], List.getElem_mem hi', hall.get hi' hi⟩

/-- The identity is found by its name. -/
theorem index?_identity {d : Schema.Document} {r : Registry} (h : ofDocument d = .ok r)
    {t : RecordType} (ht : t ∈ r.types) : t.index? Schema.identityName = some t.identity := by
  obtain ⟨e, -, -, hentity⟩ := exists_entity h ht
  exact index?_of_recordType? hentity

/-- The attributes of a record type have different names. -/
theorem nodup_attributes {d : Schema.Document} {r : Registry} (h : ofDocument d = .ok r)
    {t : RecordType} (ht : t ∈ r.types) : (t.attributes.map (·.name)).Nodup := by
  obtain ⟨e, -, he, hentity⟩ := exists_entity h ht
  obtain ⟨i, -, rfl⟩ := recordType?_eq_some_iff.mp hentity
  simpa [Function.comp_def, resolved] using he.nodup_names

/-- The identity is the only attribute with its name, so statements that leave out this name leave
out this position. -/
theorem eq_identity_of_isIdentity {d : Schema.Document} {r : Registry} (h : ofDocument d = .ok r)
    {t : RecordType} (ht : t ∈ r.types) {i : Nat} {a : Attribute} (ha : t.attributes[i]? = some a)
    (hname : a.isIdentity) : i = t.identity := by
  obtain ⟨b, hb, hidentity, -⟩ := (resolved_of_ofDocument h).identity t ht
  exact RecordType.position_eq_of_name (nodup_attributes h ht) ha hb
    ((eq_of_beq hname).trans hidentity.symm)

/-- The identity is told by its position. -/
theorem isIdentity_iff {d : Schema.Document} {r : Registry} (h : ofDocument d = .ok r)
    {t : RecordType} (ht : t ∈ r.types) {i : Nat} {a : Attribute} (ha : t.attributes[i]? = some a) :
    a.isIdentity ↔ i = t.identity := by
  refine ⟨eq_identity_of_isIdentity h ht ha, ?_⟩
  rintro rfl
  obtain ⟨b, hb, hname, -⟩ := (resolved_of_ofDocument h).identity t ht
  obtain rfl := Option.some.inj (ha.symm.trans hb)
  simpa [Attribute.isIdentity] using hname

end Registry

end RecordService
