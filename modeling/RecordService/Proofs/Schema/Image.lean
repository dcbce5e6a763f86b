import RecordService.Proofs.Schema.Registry
import RecordService.Query.Path

/-!
# Registries are images of their documents

A registry keeps the entities of its document in their order, and a record type keeps the attributes
of its entity in theirs. All that is looked up by a name is looked up in this order, and the first
thing with the name counts. The names in an accepted document differ, so there is no other, and
names and positions belong together. References and file names were checked against the whole
document, so what an attribute names is found in the registry again
(`RecordService.Registry.faithful_and_closed`).

* `RecordService.RecordType.Depicts`: a record type shows an entity.
* `RecordService.Registry.Closed`: what is found by the names in a record type.
* `RecordService.RecordType.index?_eq_some_iff`, `RecordService.RecordType.attribute?_eq_some_iff`,
  `RecordService.Registry.resolve_eq_ok_iff`: what is found by a name.
-/

namespace RecordService

open Schema

/-! ### Images -/

/-- Whether an attribute shows a declaration. -/
structure Attribute.Depicts (a : Attribute) (decl : AttributeDecl) : Prop where
  name : a.name = decl.name
  kind : a.kind = decl.kind
  nullable : a.nullable = decl.nullable
  target : a.target = decl.target

/-- Whether a record type shows an entity, attribute by attribute. -/
structure RecordType.Depicts (t : RecordType) (e : EntityDecl) : Prop where
  name : t.name = e.name
  table : t.table = e.table.getD e.name
  attributes : List.Forall₂ Attribute.Depicts t.attributes e.attributes

/-- What is found by the names in a record type of a registry. -/
structure Registry.Closed (r : Registry) (t : RecordType) : Prop where
  /-- Names and positions belong together. -/
  index?_iff : ∀ name i, t.index? name = some i ↔ ∃ a, t.attributes[i]? = some a ∧ a.name = name
  identity : ∃ a, t.attributes[t.identity]? = some a ∧ a.name = "Id" ∧ a.kind = .integer
  identity_unique : ∀ i a, t.attributes[i]? = some a → a.name = "Id" → i = t.identity
  sidecar_iff : ∀ a ∈ t.attributes, a.sidecar.isSome ↔ a.kind = .blob
  sidecar_found : ∀ a ∈ t.attributes, ∀ name, a.sidecar = some name →
    ∃ b, t.attribute? name = some b ∧ b.kind = .text
  target_iff : ∀ a ∈ t.attributes, a.target.isSome ↔ a.kind = .reference
  target_found : ∀ a ∈ t.attributes, ∀ name, a.target = some name → ∃ u, r.resolve name = .ok u

/-! ### Looking up names -/

section

variable {d : Document} {r : Registry} {t : RecordType} {e : EntityDecl}

/-- A name is found at the position of the attribute that has it, if names differ. -/
theorem RecordType.index?_eq_some_iff (hnodup : (t.attributes.map (·.name)).Nodup) {name : String}
    {i : Nat} : t.index? name = some i ↔ ∃ a, t.attributes[i]? = some a ∧ a.name = name := by
  have hnamed {j : Nat} (hj : t.index? name = some j) :
      ∃ a, t.attributes[j]? = some a ∧ a.name = name := by
    obtain ⟨hlt, hname, -⟩ := List.findIdx?_eq_some_iff_getElem.mp hj
    exact ⟨_, List.getElem?_eq_getElem hlt, eq_of_beq hname⟩
  refine ⟨hnamed, ?_⟩
  rintro ⟨a, ha, rfl⟩
  have hsome : (t.index? a.name).isSome := by
    rw [index?, List.findIdx?_isSome, List.any_eq_true]
    exact ⟨a, List.mem_of_getElem? ha, beq_self_eq_true _⟩
  -- what is found has the same name, and so the same position
  obtain ⟨j, hj⟩ := Option.isSome_iff_exists.mp hsome
  obtain ⟨b, hb, hname⟩ := hnamed hj
  rw [hj, position_eq_of_name hnodup hb ha hname]

theorem RecordType.attribute?_eq_some_iff (hnodup : (t.attributes.map (·.name)).Nodup)
    {name : String} {a : Attribute} :
    t.attribute? name = some a ↔ a ∈ t.attributes ∧ a.name = name :=
  Lists.find?_eq_some_iff_of_nodup hnodup

namespace Registry

/-- A name leads to the record type that has it, if names differ. -/
theorem resolve_eq_ok_iff (hr : r.Resolved) {name : String} :
    r.resolve name = .ok t ↔ t ∈ r.types ∧ t.name = name := by
  have hfind : r.find? name = some t ↔ t ∈ r.types ∧ t.name = name :=
    Lists.find?_eq_some_iff_of_nodup hr.nodup_names
  rw [← hfind, resolve]
  cases r.find? name <;> simp

theorem resolve_eq_error_iff {name : String} {error : RequestError} :
    r.resolve name = .error error ↔
      error = .unknownEntity name ∧ ∀ t ∈ r.types, t.name ≠ name := by
  have hfind : r.find? name = none ↔ ∀ t ∈ r.types, t.name ≠ name := by
    simp [find?, List.find?_eq_none]
  rw [← hfind, resolve]
  cases r.find? name <;> simp [eq_comm]

/-! ### The record types of a document -/

theorem depicts_of_recordType? (h : recordType? d e = some t) : t.Depicts e := by
  obtain ⟨i, -, rfl⟩ := recordType?_eq_some_iff.mp h
  refine ⟨rfl, rfl, List.forall₂_map_left_iff.mpr (List.forall₂_same.mpr fun a _ => ?_)⟩
  exact ⟨rfl, rfl, rfl, rfl⟩

/-- The record types of a document have the names of its entities, in the same order. -/
theorem map_name_types (h : ofDocument d = .ok r) :
    r.types.map (·.name) = d.entities.map (·.name) := by
  rw [← List.forall₂_eq_eq_eq, List.forall₂_map_left_iff, List.forall₂_map_right_iff]
  exact (forall₂_of_ofDocument h).flip.imp fun t e hte => (depicts_of_recordType? hte.2).name

/-- The name of an entity leads to the record type of the entity, and not to another one that is
spelled alike. -/
theorem exists_type (h : ofDocument d = .ok r) (he : e ∈ d.entities) :
    ∃ t, r.resolve e.name = .ok t ∧ t ∈ r.types ∧ e.WellFormed d ∧ recordType? d e = some t := by
  have hall := forall₂_of_ofDocument h
  obtain ⟨i, hi, rfl⟩ := List.getElem_of_mem he
  have hi' : i < r.types.length := hall.length_eq ▸ hi
  obtain ⟨hwell, ht⟩ := hall.get hi hi'
  have hmem : r.types[i] ∈ r.types := List.getElem_mem hi'
  refine ⟨r.types[i], (resolve_eq_ok_iff (resolved_of_ofDocument h)).mpr ⟨hmem, ?_⟩, hmem, hwell, ht⟩
  exact (depicts_of_recordType? ht).name

/-- What an attribute names is found in the registry: the target of a reference among the record
types, and the file name of binary content among the attributes. -/
theorem closed_of_recordType? (h : ofDocument d = .ok r) (ht : t ∈ r.types) (he : e.WellFormed d)
    (hentity : recordType? d e = some t) : r.Closed t := by
  have hr := resolved_of_ofDocument h
  have hnodup := nodup_attributes h ht
  have hattributes : ∀ {b}, b ∈ t.attributes ↔ ∃ a ∈ e.attributes, resolved a = b := by
    obtain ⟨i, -, rfl⟩ := recordType?_eq_some_iff.mp hentity
    exact List.mem_map
  refine ⟨fun name i => RecordType.index?_eq_some_iff hnodup, hr.identity t ht, ?_, ?_, ?_, ?_, ?_⟩
  · intro i a ha hname
    exact eq_identity_of_isIdentity h ht ha (beq_iff_eq.mpr hname)
  · intro b hb
    obtain ⟨a, -, rfl⟩ := hattributes.mp hb
    by_cases hblob : a.kind = .blob <;> simp [resolved, hblob]
  · intro b hb name hname
    obtain ⟨a, ha, rfl⟩ := hattributes.mp hb
    have hblob : a.kind = .blob ∧ sidecarName a.name = name := by simpa [resolved] using hname
    obtain ⟨c, hc, hcname, hkind⟩ := he.sidecar a ha hblob.1
    refine ⟨resolved c, (RecordType.attribute?_eq_some_iff hnodup).mpr ⟨?_, ?_⟩, hkind⟩
    · exact hattributes.mpr ⟨c, hc, rfl⟩
    · exact hcname.trans hblob.2
  · intro b hb
    obtain ⟨a, ha, rfl⟩ := hattributes.mp hb
    exact he.target_iff a ha
  · intro b hb name hname
    obtain ⟨a, ha, rfl⟩ := hattributes.mp hb
    -- the target is an entity, before or behind this one, and every entity has a record type
    obtain ⟨f, hf, rfl⟩ := he.target_mem a ha name hname
    have hmem : f.name ∈ r.types.map (·.name) := map_name_types h ▸ List.mem_map_of_mem hf
    obtain ⟨u, hu, huname⟩ := List.mem_map.mp hmem
    exact ⟨u, (resolve_eq_ok_iff hr).mpr ⟨hu, huname⟩⟩

/-- **A registry is a faithful and closed image of its document.** Its record types are those of the
entities, in their order, and the name of an entity, written in the same case, leads to its record
type; any other name is refused as unknown. In every record type names and positions belong
together, the identity is the only attribute called `Id`, and what attributes name is found: the
text attribute with the file name for binary content, and the record type that a reference points
at. -/
theorem faithful_and_closed (h : ofDocument d = .ok r) :
    List.Forall₂ (fun (e : EntityDecl) t => recordType? d e = some t ∧ t.Depicts e)
        d.entities r.types ∧
      (∀ name t, r.resolve name = .ok t ↔
        ∃ (i : Nat) (e : EntityDecl), d.entities[i]? = some e ∧ e.name = name ∧
          r.types[i]? = some t) ∧
      (∀ name error, r.resolve name = .error error ↔
        error = .unknownEntity name ∧ ∀ e ∈ d.entities, e.name ≠ name) ∧
      ∀ t ∈ r.types, r.Closed t := by
  have hall := forall₂_of_ofDocument h
  have hnames := map_name_types h
  refine ⟨hall.imp fun e t het => ⟨het.2, depicts_of_recordType? het.2⟩, ?_, ?_, ?_⟩
  · intro name t
    have hposition (i : Nat) : (r.types[i]?).map (·.name) = (d.entities[i]?).map (·.name) := by
      rw [← List.getElem?_map, ← List.getElem?_map, hnames]
    rw [resolve_eq_ok_iff (resolved_of_ofDocument h)]
    constructor
    · rintro ⟨ht, rfl⟩
      obtain ⟨i, hi⟩ := List.mem_iff_getElem?.mp ht
      have he := hposition i
      rw [hi] at he
      obtain ⟨e, he, hname⟩ := Option.map_eq_some_iff.mp he.symm
      exact ⟨i, e, he, hname, hi⟩
    · rintro ⟨i, e, he, rfl, hi⟩
      have ht := hposition i
      rw [hi, he] at ht
      exact ⟨List.mem_of_getElem? hi, Option.some.inj ht⟩
  · intro name error
    have hother : (∀ t ∈ r.types, t.name ≠ name) ↔ ∀ e ∈ d.entities, e.name ≠ name := by
      rw [← List.forall_mem_map (f := RecordType.name) (P := (· ≠ name)), hnames,
        List.forall_mem_map]
    rw [resolve_eq_error_iff, hother]
  · intro t ht
    obtain ⟨e, -, he, hentity⟩ := exists_entity h ht
    exact closed_of_recordType? h ht he hentity

/-! ### A gallery -/

/-- Photos in albums. The album is declared behind the photo that points at it, and the name of a
third entity differs from its name in case only. -/
def gallery : Document where
  entities := [
    { name := "Photo"
      attributes := [
        { name := "Picture", kind := .blob },
        { name := "Id", kind := .integer },
        { name := "Album", kind := .reference, target := "Album" },
        { name := "PictureFileName", kind := .text, nullable := false }] },
    { name := "Album", attributes := [{ name := "Id", kind := .integer }] },
    { name := "album"
      table := "Album2"
      attributes := [{ name := "id", kind := .text }, { name := "Id", kind := .integer }] }]

/-- In the gallery the reference leads to the album, and not to the entity spelled otherwise. -/
theorem faithful_and_closed_gallery :
    ∃ r, ofDocument gallery = .ok r ∧ (∀ t ∈ r.types, r.Closed t) ∧
      (∃ t, r.resolve "Album" = .ok t ∧ t.table = "Album") ∧
      (∃ t, r.resolve "album" = .ok t ∧ t.index? "Id" = some 1) ∧
      r.resolve "ALBUM" = .error (.unknownEntity "ALBUM") := by
  obtain ⟨r, h⟩ : ∃ r, ofDocument gallery = .ok r := ⟨_, rfl⟩
  obtain ⟨hall, hok, herror, hclosed⟩ := faithful_and_closed h
  have hentity {i : Nat} {e : EntityDecl} (he : gallery.entities[i]? = some e) :
      ∃ t, r.types[i]? = some t ∧ recordType? gallery e = some t := by
    obtain ⟨hlt, rfl⟩ := List.getElem?_eq_some_iff.mp he
    have hlt' : i < r.types.length := hall.length_eq ▸ hlt
    exact ⟨_, List.getElem?_eq_getElem hlt', (List.forall₂_iff_get.mp hall).2 i hlt hlt' |>.1⟩
  refine ⟨r, h, hclosed, ?_, ?_, ?_⟩
  · obtain ⟨t, hi, ht⟩ := hentity (i := 1) rfl
    exact ⟨t, (hok _ t).mpr ⟨1, _, rfl, rfl, hi⟩, by cases ht; rfl⟩
  · obtain ⟨t, hi, ht⟩ := hentity (i := 2) rfl
    exact ⟨t, (hok _ t).mpr ⟨2, _, rfl, rfl, hi⟩, by cases ht; rfl⟩
  · exact (herror _ _).mpr ⟨rfl, by decide⟩

end Registry

end

end RecordService
