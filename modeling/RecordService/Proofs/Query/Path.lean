import RecordService.Proofs.Record.Acceptance
import RecordService.Proofs.Schema.Image

/-!
# The attributes that paths lead to

A path of one segment leads to the attribute with its name, and nothing else leads anywhere. The
names of attributes are checked for being different and for nothing more, so a document can declare
an attribute with an empty name, or with a separator in its name. Such an attribute is registered
like any other, but its name is not one segment, and no path leads to it
(`RecordService.Path.resolve_iff_isSegment`).

* `RecordService.Path.isSegment_iff`: the texts that are one segment.
* `RecordService.RecordType.names_iff`: which names lead to which attributes.
-/

namespace RecordService

open Schema

theorem Path.isSegment_iff {s : String} :
    Path.isSegment s ↔ s ≠ "" ∧ '/' ∉ s.toList ∧ '.' ∉ s.toList := by
  have hseparator (c : Char) : isSeparator c ↔ c = '/' ∨ c = '.' := by simp [isSeparator]
  simp only [isSegment, Bool.and_eq_true, Bool.not_eq_true', List.any_eq_false, hseparator, not_or,
    forall_and, List.forall_mem_ne']
  simp

/-- A name leads to the attribute that it is the name of, if it is one segment. Paths of several
segments are refused, also where an attribute has such a name. -/
theorem RecordType.names_iff {t : RecordType} (hnodup : (t.attributes.map (·.name)).Nodup)
    {s : String} {i : Nat} {a : Attribute} :
    t.Names s i a ↔ Path.isSegment s ∧ t.attributes[i]? = some a ∧ a.name = s := by
  unfold Names
  rw [index?_eq_some_iff hnodup]
  refine and_congr_right fun _ => ⟨?_, fun h => ⟨⟨a, h⟩, h.1⟩⟩
  rintro ⟨⟨b, hb, hname⟩, ha⟩
  obtain rfl : b = a := Option.some.inj (hb.symm.trans ha)
  exact ⟨ha, hname⟩

namespace Path

variable {d : Document} {r : Registry} {e : EntityDecl}

/-- **What paths lead to** in the record type of an entity. The name of an attribute leads to this
attribute, by its position, if it is one segment: not empty, and without a separator. Every other
text is refused as it is, whether it is no name of an attribute or a name that is not one segment.
-/
theorem resolve_iff_isSegment (h : Registry.ofDocument d = .ok r) (he : e ∈ d.entities) :
    ∃ t, r.resolve e.name = .ok t ∧
      (∀ (i : Nat) (a : AttributeDecl), e.attributes[i]? = some a →
        (resolve t a.name = .ok ⟨e.name, a.name, i, a.kind⟩ ↔
          a.name ≠ "" ∧ '/' ∉ a.name.toList ∧ '.' ∉ a.name.toList)) ∧
      ∀ s, (s = "" ∨ '/' ∈ s.toList ∨ '.' ∈ s.toList ∨ ∀ a ∈ e.attributes, a.name ≠ s) →
        resolve t s = .error (.unresolvable e.name s) := by
  obtain ⟨t, hresolve, hmem, -, ht⟩ := Registry.exists_type h he
  have hname := (Registry.depicts_of_recordType? ht).name
  have hattributes : t.attributes = e.attributes.map Registry.resolved := by
    obtain ⟨i, -, rfl⟩ := Registry.recordType?_eq_some_iff.mp ht
    rfl
  have hnames {s : String} {i : Nat} {b : Attribute} :=
    RecordType.names_iff (Registry.nodup_attributes h hmem) (s := s) (i := i) (a := b)
  have hrefused {s : String} (hs : ∀ i b, ¬t.Names s i b) :
      resolve t s = .error (.unresolvable e.name s) := hname ▸ RecordType.resolve_of_not_names hs
  refine ⟨t, hresolve, fun i a ha => ?_, fun s hs => hrefused fun i b hb => ?_⟩
  · rw [← isSegment_iff]
    constructor
    · intro hok
      by_contra hsegment
      rw [hrefused fun j b hb => hsegment (hnames.mp hb).1] at hok
      simp at hok
    · intro hsegment
      have hb : t.attributes[i]? = some (Registry.resolved a) := by
        rw [hattributes, List.getElem?_map, ha, Option.map_some]
      rw [RecordType.resolve_of_names (hnames.mpr ⟨hsegment, hb, rfl⟩), hname]
      rfl
  · obtain ⟨hsegment, hb, hbname⟩ := hnames.mp hb
    obtain ⟨hne, hslash, hdot⟩ := isSegment_iff.mp hsegment
    rcases hs with hs | hs | hs | hs
    · exact hne hs
    · exact hslash hs
    · exact hdot hs
    · rw [hattributes] at hb
      obtain ⟨a, ha, rfl⟩ := List.mem_map.mp (List.mem_of_getElem? hb)
      exact hs a ha hbname

/-! ### A name with a separator -/

/-- An author, whose first name must be given. -/
def author : EntityDecl where
  name := "Author"
  attributes := [
    { name := "Id", kind := .integer },
    { name := "Name.First", kind := .text, nullable := false },
    { name := "Born", kind := .dateTime }]

/-- In the record type of an author, paths lead to what has a name of one segment. -/
theorem resolve_iff_isSegment_author :
    ∃ r, Registry.ofDocument { entities := [author] } = .ok r ∧ author ∈ [author] ∧
      ∃ t, r.resolve "Author" = .ok t ∧
        resolve t "Born" = .ok ⟨"Author", "Born", 2, .dateTime⟩ ∧
        resolve t "Name" = .error (.unresolvable "Author" "Name") ∧
        resolve t "Name.First" = .error (.unresolvable "Author" "Name.First") := by
  obtain ⟨r, h⟩ : ∃ r, Registry.ofDocument { entities := [author] } = .ok r := ⟨_, rfl⟩
  have hmem : author ∈ [author] := List.mem_singleton_self author
  obtain ⟨t, ht, hok, herror⟩ := resolve_iff_isSegment h hmem
  refine ⟨r, h, hmem, t, ht, ?_, ?_, ?_⟩
  · exact (hok 2 { name := "Born", kind := .dateTime } rfl).mpr (by decide)
  · exact herror "Name" (by decide)
  · exact herror "Name.First" (by decide)

/-- **An attribute that no path leads to** can be declared, and even be one that must be given. -/
theorem declared_name_refused :
    ∃ r t, Registry.ofDocument { entities := [author] } = .ok r ∧ r.resolve "Author" = .ok t ∧
      t.attributes[1]?.map (·.name) = some "Name.First" ∧
      resolve t "Name.First" = .error (.unresolvable "Author" "Name.First") :=
  ⟨_, _, rfl, rfl, rfl, rfl⟩

end Path

end RecordService
