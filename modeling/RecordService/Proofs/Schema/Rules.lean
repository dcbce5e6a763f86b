import RecordService.Proofs.Lists
import RecordService.Proofs.Outcome
import RecordService.Schema.Registry

/-!
# The documents that are accepted

The checks of a document go through its entities and attributes in their order, look names up among
those met before, and stop at the first fault. What they let through does not depend on any order,
and is said here without them: a document is accepted exactly if it is well-formed, and then, and
only then, it gives a registry (`RecordService.Registry.accepted_iff_wellFormed`).

* `RecordService.Schema.Document.WellFormed`: the rules for a document.
* `RecordService.Schema.EntityDecl.check_eq_ok_iff`: the checks of one entity, assembled from one
  equivalence for each of them.
* `RecordService.Schema.Document.validate_eq_ok_iff`: the checks of a document.
-/

namespace RecordService

namespace Schema

/-! ### The rules -/

/-- Whether a document has a namespace. One that declares none has a namespace all the same. -/
def Document.Declares (d : Document) (id : String) : Prop :=
  (∃ n ∈ d.namespaces, n.id = id) ∨ d.namespaces = [] ∧ id = "public"

/-- The rules for the attributes of an entity of a document. References may point at entities that
are declared before or after. -/
structure EntityDecl.WellFormed (d : Document) (e : EntityDecl) : Prop where
  nodup_names : (e.attributes.map (·.name)).Nodup
  identity : ∃ a ∈ e.attributes, a.name = "Id" ∧ a.kind = .integer
  target_iff : ∀ a ∈ e.attributes, a.target.isSome ↔ a.kind = .reference
  target_mem : ∀ a ∈ e.attributes, ∀ name, a.target = some name → ∃ f ∈ d.entities, f.name = name
  sidecar : ∀ a ∈ e.attributes, a.kind = .blob →
    ∃ b ∈ e.attributes, b.name = a.name ++ "FileName" ∧ b.kind = .text

/-- The rules for a document. An entity is in the namespace that it names, or else in the first one,
or else in `public`. -/
structure Document.WellFormed (d : Document) : Prop where
  namespaces : ∀ e ∈ d.entities,
    d.Declares (e.namespaceId.getD ((d.namespaces.head?.map (·.id)).getD "public"))
  nodup_names : (d.entities.map (·.name)).Nodup
  entities : ∀ e ∈ d.entities, e.WellFormed d

/-! ### The checks of an entity -/

namespace EntityDecl

variable {e : EntityDecl} {a : AttributeDecl} {entities : List String}

/-- Names pass if they differ from one another, and from those that were met before. The second part
is for the induction. -/
theorem checkUnique_eq_ok_iff {as : List AttributeDecl} {seen : List String} :
    e.checkUnique seen as = .ok () ↔ (as.map (·.name)).Nodup ∧ ∀ a ∈ as, a.name ∉ seen := by
  fun_induction checkUnique e seen as with
  | case1 => simp
  | case2 seen a as hseen =>
    have hmem : a.name ∈ seen := by simpa using hseen
    simp [hmem]
  | case3 seen a as hseen ih =>
    have hnot : a.name ∉ seen := by simpa using hseen
    rw [ih, List.map_cons, List.nodup_cons, List.forall_mem_cons]
    simp only [List.mem_map, List.mem_cons, not_or, forall_and, not_exists, not_and]
    constructor
    · rintro ⟨hnodup, hne, hrest⟩
      exact ⟨⟨hne, hnodup⟩, hnot, hrest⟩
    · rintro ⟨⟨hne, hnodup⟩, -, hrest⟩
      exact ⟨hnodup, hne, hrest⟩

/-- An attribute is found by its name if no other attribute has this name. -/
theorem attribute?_eq_some_iff (hnodup : (e.attributes.map (·.name)).Nodup) {name : String} :
    e.attribute? name = some a ↔ a ∈ e.attributes ∧ a.name = name :=
  Lists.find?_eq_some_iff_of_nodup hnodup

theorem checkIdentity_eq_ok_iff :
    e.checkIdentity = .ok () ↔ ∃ a, e.attribute? identityName = some a ∧ a.kind = .integer := by
  unfold checkIdentity
  cases e.attribute? identityName with
  | none => simp
  | some a => by_cases hkind : a.kind = .integer <;> simp [hkind]

/-- An attribute passes if it has a target exactly when it is a reference, and the target is an
entity. -/
theorem checkTarget_eq_ok_iff :
    e.checkTarget entities a = .ok () ↔
      (a.target.isSome ↔ a.kind = .reference) ∧ ∀ name, a.target = some name → name ∈ entities := by
  unfold checkTarget
  cases htarget : a.target with
  | none => cases hkind : a.kind <;> simp
  | some name =>
    cases hkind : a.kind
    case reference => by_cases hmem : name ∈ entities <;> simp [hmem]
    all_goals simp

/-- A binary attribute passes if there is a text attribute for its file name. -/
theorem checkSidecar_eq_ok_iff :
    e.checkSidecar a = .ok () ↔
      (a.kind = .blob → ∃ b, e.attribute? (sidecarName a.name) = some b ∧ b.kind = .text) := by
  unfold checkSidecar
  by_cases hblob : a.kind = .blob
  · cases e.attribute? (sidecarName a.name) with
    | none => simp [hblob]
    | some b => by_cases hkind : b.kind = .text <;> simp [hblob, hkind]
  · simp [hblob]

/-- The checks of an entity, one after the other. The first one that fails tells its fault. -/
theorem check_eq_ok_iff :
    e.check entities = .ok () ↔ e.checkUnique [] e.attributes = .ok () ∧ e.checkIdentity = .ok () ∧
      ∀ a ∈ e.attributes, e.checkTarget entities a = .ok () ∧ e.checkSidecar a = .ok () := by
  have hboth (a : AttributeDecl) : (do e.checkTarget entities a; e.checkSidecar a) = .ok () ↔
      e.checkTarget entities a = .ok () ∧ e.checkSidecar a = .ok () := by
    refine Outcome.bind_eq_ok_iff.trans ⟨?_, ?_⟩
    · rintro ⟨_, htarget, hsidecar⟩
      exact ⟨htarget, hsidecar⟩
    · rintro ⟨htarget, hsidecar⟩
      exact ⟨(), htarget, hsidecar⟩
  unfold check
  constructor
  · intro h
    obtain ⟨_, hunique, h⟩ := Outcome.bind_eq_ok_iff.mp h
    obtain ⟨_, hidentity, h⟩ := Outcome.bind_eq_ok_iff.mp h
    exact ⟨hunique, hidentity, fun a ha => (hboth a).mp (Outcome.forM_eq_ok_iff.mp h a ha)⟩
  · rintro ⟨hunique, hidentity, hattributes⟩
    refine Outcome.bind_eq_ok_iff.mpr ⟨(), hunique, Outcome.bind_eq_ok_iff.mpr ⟨(), hidentity, ?_⟩⟩
    exact Outcome.forM_eq_ok_iff.mpr fun a ha => (hboth a).mpr (hattributes a ha)

/-- **An entity passes exactly if it follows the rules.** The checks look names up in lists, and the
rules speak of the attributes that there are. -/
theorem check_iff_wellFormed {d : Document} :
    e.check (d.entities.map (·.name)) = .ok () ↔ e.WellFormed d := by
  rw [check_eq_ok_iff, checkUnique_eq_ok_iff, checkIdentity_eq_ok_iff]
  simp only [checkTarget_eq_ok_iff, checkSidecar_eq_ok_iff, List.mem_map]
  constructor
  · rintro ⟨⟨hnodup, -⟩, ⟨a, ha, hkind⟩, hattributes⟩
    obtain ⟨ha, hname⟩ := (attribute?_eq_some_iff hnodup).mp ha
    refine ⟨hnodup, ⟨a, ha, hname, hkind⟩, fun b hb => (hattributes b hb).1.1,
      fun b hb => (hattributes b hb).1.2, fun b hb hblob => ?_⟩
    obtain ⟨c, hc, hkind⟩ := (hattributes b hb).2 hblob
    obtain ⟨hc, hname⟩ := (attribute?_eq_some_iff hnodup).mp hc
    exact ⟨c, hc, hname, hkind⟩
  · intro h
    obtain ⟨a, ha, hname, hkind⟩ := h.identity
    refine ⟨⟨h.nodup_names, by simp⟩,
      ⟨a, (attribute?_eq_some_iff h.nodup_names).mpr ⟨ha, hname⟩, hkind⟩, fun b hb =>
      ⟨⟨h.target_iff b hb, h.target_mem b hb⟩, fun hblob => ?_⟩⟩
    obtain ⟨c, hc, hname, hkind⟩ := h.sidecar b hb hblob
    exact ⟨c, (attribute?_eq_some_iff h.nodup_names).mpr ⟨hc, hname⟩, hkind⟩

end EntityDecl

/-! ### The checks of a document -/

namespace Document

variable {d : Document}

theorem mem_namespaceIds {id : String} : id ∈ d.namespaceIds ↔ d.Declares id := by
  unfold namespaceIds Declares
  cases d.namespaces with
  | nil => simp [defaultNamespace]
  | cons n ns => simp [eq_comm (a := id)]

theorem namespaceIdOf_eq (e : EntityDecl) :
    d.namespaceIdOf e = e.namespaceId.getD ((d.namespaces.head?.map (·.id)).getD "public") := by
  unfold namespaceIdOf defaultNamespaceId
  cases d.namespaces <;> rfl

/-- Names pass if they differ from one another, and from those that were met before, and if their
entities are in declared namespaces. -/
theorem checkNames_eq_ok_iff {es : List EntityDecl} {seen : List (String × String)} :
    d.checkNames seen es = .ok () ↔ (∀ e ∈ es, d.namespaceIdOf e ∈ d.namespaceIds) ∧
      (es.map (·.name)).Nodup ∧ ∀ e ∈ es, seen.lookup e.name = none := by
  fun_induction checkNames d seen es with
  | case1 => simp
  | case2 seen e es ns hns =>
    have hnot : d.namespaceIdOf e ∉ d.namespaceIds := by simpa using hns
    simp [hnot]
  | case3 seen e es ns hns first hseen =>
    refine iff_of_false (by simp) ?_
    rintro ⟨-, -, hnone⟩
    have hlookup := hnone e List.mem_cons_self
    simp [hseen] at hlookup
  | case4 seen e es ns hns hseen ih =>
    have hmem : d.namespaceIdOf e ∈ d.namespaceIds := by simpa using hns
    have hlookup (f : EntityDecl) : ((e.name, ns) :: seen).lookup f.name = none ↔
        f.name ≠ e.name ∧ seen.lookup f.name = none := by
      rw [List.lookup_cons]
      by_cases hname : f.name = e.name <;> simp [hname, beq_false_of_ne]
    rw [ih, List.map_cons, List.nodup_cons, List.forall_mem_cons, List.forall_mem_cons]
    simp only [hlookup, List.mem_map, forall_and, not_exists, not_and]
    constructor
    · rintro ⟨hspaces, hnodup, hne, hrest⟩
      exact ⟨⟨hmem, hspaces⟩, ⟨hne, hnodup⟩, hseen, hrest⟩
    · rintro ⟨⟨-, hspaces⟩, ⟨hne, hnodup⟩, -, hrest⟩
      exact ⟨hspaces, hnodup, hne, hrest⟩

/-- **A document passes exactly if it follows the rules.** -/
theorem validate_eq_ok_iff : d.validate = .ok () ↔ d.WellFormed := by
  have hnames : d.checkNames [] d.entities = .ok () ↔
      (∀ e ∈ d.entities,
        d.Declares (e.namespaceId.getD ((d.namespaces.head?.map (·.id)).getD "public"))) ∧
      (d.entities.map (·.name)).Nodup := by
    simp [checkNames_eq_ok_iff, mem_namespaceIds, namespaceIdOf_eq]
  unfold validate
  constructor
  · intro h
    obtain ⟨_, hchecked, h⟩ := Outcome.bind_eq_ok_iff.mp h
    obtain ⟨hspaces, hnodup⟩ := hnames.mp hchecked
    exact ⟨hspaces, hnodup, fun e he =>
      EntityDecl.check_iff_wellFormed.mp (Outcome.forM_eq_ok_iff.mp h e he)⟩
  · intro h
    refine Outcome.bind_eq_ok_iff.mpr ⟨(), hnames.mpr ⟨h.namespaces, h.nodup_names⟩, ?_⟩
    exact Outcome.forM_eq_ok_iff.mpr fun e he =>
      EntityDecl.check_iff_wellFormed.mpr (h.entities e he)

end Document

end Schema

/-! ### Registries -/

namespace Registry

open Schema

variable {d : Document}

/-- An entity with an identity has a record type, so a document that passes is never left without a
registry. -/
theorem exists_recordType? {e : EntityDecl} (h : e.WellFormed d) :
    ∃ t, recordType? d e = some t := by
  obtain ⟨a, ha, hname, -⟩ := h.identity
  have hfound : (e.attributes.findIdx? (·.name == identityName)).isSome := by
    rw [List.findIdx?_isSome, List.any_eq_true]
    exact ⟨a, ha, beq_iff_eq.mpr hname⟩
  obtain ⟨i, hi⟩ := Option.isSome_iff_exists.mp hfound
  exact ⟨_, by simp only [recordType?, hi]; rfl⟩

/-- A document that passes gives a registry. -/
theorem exists_ofDocument (h : d.validate = .ok ()) : ∃ r, ofDocument d = .ok r := by
  have hentities := (Document.validate_eq_ok_iff.mp h).entities
  refine Outcome.exists_bind ⟨(), h⟩ fun _ =>
    Outcome.exists_bind (Outcome.exists_mapM fun e he => ?_) fun ts => ⟨⟨ts⟩, rfl⟩
  -- no entity lacks an identity any more
  obtain ⟨t, ht⟩ := exists_recordType? (hentities e he)
  exact ⟨t, by rw [ht]⟩

/-- **The documents that are accepted** are the well-formed ones. A document gives a registry
exactly if it passes the checks, and otherwise fails with the fault that they find. -/
theorem accepted_iff_wellFormed (d : Document) :
    (d.validate = .ok () ↔ d.WellFormed) ∧
      ((∃ r, ofDocument d = .ok r) ↔ d.validate = .ok ()) ∧
      ∀ fault, ofDocument d = .error fault ↔ d.validate = .error fault := by
  refine ⟨Document.validate_eq_ok_iff, ⟨?_, exists_ofDocument⟩, fun fault => ?_⟩
  · rintro ⟨r, hr⟩
    obtain ⟨_, hvalid, -⟩ := Outcome.bind_eq_ok_iff.mp hr
    exact hvalid
  · cases hvalid : d.validate with
    | error found =>
      have hfailed : ofDocument d = .error found := by rw [ofDocument, hvalid]; rfl
      rw [hfailed]
      simp
    | ok _ =>
      obtain ⟨r, hr⟩ := exists_ofDocument hvalid
      simp [hr]

end Registry

end RecordService
