import RecordService.Http.Document
import RecordService.Proofs.Lists
import RecordService.Proofs.Record.Texts

/-!
# One member of a document

The texts that a document gives are told by its members, whatever their order. A scalar member shows
in its own text and nowhere else, neither in another text nor in what is wrong with the document. So
two documents that differ only in one scalar member give the same up to the text of this member
(`RecordService.Texts.erase_ofJson_congr`).

* `RecordService.Json.member?`: the member that counts under a name.
* `RecordService.Json.mem_sortMembers`, `RecordService.Json.pairwise_sortMembers`: the members that
  count, in the order of their names.
* `RecordService.Json.DifferOnlyIn`: objects that are the same but for one scalar member.
-/

namespace RecordService

namespace Json

variable {ms acc : List (String × Json)} {e : String × Json}

/-! ### Members -/

/-- The member of an object under a name, the last one if there are several. -/
def member? (ms : List (String × Json)) (name : String) : Option Json := ms.reverse.lookup name

/-- The first member of each name, beside some members of other names. -/
def firstMembers (acc ms : List (String × Json)) : List (String × Json) :=
  ms.foldl (fun acc m => if acc.any (·.1 == m.1) then acc else m :: acc) acc

/-- A member is passed over if its name has come up before. -/
theorem firstMembers_cons (acc : List (String × Json)) (m : String × Json) :
    firstMembers acc (m :: ms) =
      if m.1 ∈ acc.map Prod.fst then firstMembers acc ms else firstMembers (m :: acc) ms := by
  have hany : acc.any (·.1 == m.1) = true ↔ m.1 ∈ acc.map Prod.fst := by simp
  rw [firstMembers, List.foldl_cons]
  by_cases h : m.1 ∈ acc.map Prod.fst
  · rw [if_pos (hany.mpr h), if_pos h, firstMembers]
  · rw [if_neg (fun hcon => h (hany.mp hcon)), if_neg h, firstMembers]

/-- The members that are kept are those beside which they are looked up, and the first one of each
other name. -/
theorem mem_firstMembers :
    e ∈ firstMembers acc ms ↔ e ∈ acc ∨ e.1 ∉ acc.map Prod.fst ∧ ms.lookup e.1 = some e.2 := by
  induction ms generalizing acc with
  | nil => simp [firstMembers]
  | cons m ms ih =>
    obtain ⟨n, v⟩ := m
    obtain ⟨k, w⟩ := e
    rw [firstMembers_cons, List.lookup_cons]
    split
    · next h =>
      rw [ih]
      by_cases hk : k = n
      · subst hk
        simp only [h, not_true_eq_false, false_and, or_false]
      · simp [beq_false_of_ne hk]
    · next h =>
      rw [ih]
      by_cases hk : k = n
      · subst hk
        have hnot : (k, w) ∉ acc := fun hmem => h (List.mem_map.mpr ⟨_, hmem, rfl⟩)
        simp [hnot, h, eq_comm]
      · simp [hk, beq_false_of_ne hk]

/-- No name is kept twice. -/
theorem nodup_firstMembers (h : (acc.map Prod.fst).Nodup) :
    ((firstMembers acc ms).map Prod.fst).Nodup := by
  induction ms generalizing acc with
  | nil => exact h
  | cons m ms ih =>
    rw [firstMembers_cons]
    split
    · exact ih h
    · next hm => exact ih (List.nodup_cons.mpr ⟨hm, h⟩)

/-- The members that count are those that are found by their names. Sorting turns the list around
first, so it is the last member of a name that counts. -/
theorem mem_sortMembers : e ∈ sortMembers ms ↔ member? ms e.1 = some e.2 := by
  have hkept : e ∈ sortMembers ms ↔ e ∈ firstMembers [] ms.reverse := List.mem_mergeSort
  rw [hkept, mem_firstMembers]
  simp [member?]

/-- The members that count are in the order of their names, strictly: two with one name would have
compared as equal, and only one of them is kept. -/
theorem pairwise_sortMembers (ms : List (String × Json)) :
    (sortMembers ms).Pairwise fun a b => a.1 < b.1 := by
  have hnodup : ((firstMembers [] ms.reverse).map Prod.fst).Nodup := nodup_firstMembers List.nodup_nil
  have : Std.TransCmp fun a b : String × Json => compare a.1 b.1 :=
    inferInstanceAs (Std.TransCmp (compareOn Prod.fst))
  have hsorted : (sortMembers ms).Pairwise fun a b =>
      compare a.1 b.1 = .lt ∨ compare a.1 b.1 = .eq ∧ a.1 ≠ b.1 :=
    Lists.pairwise_mergeSort (List.pairwise_map.mp hnodup)
  refine hsorted.imp ?_
  rintro a b (hlt | ⟨heq, hne⟩)
  · exact compareOfLessAndEq_eq_lt.mp hlt
  · exact absurd (Std.LawfulEqOrd.eq_of_compare heq) hne

/-! ### Reading documents -/

namespace Raw

variable {s s' r r' r'' : List Char} {c : Char} {k : List Element} {v : Raw}
  {members : List (List Element × Raw)}

/-- An object that is not empty is read by its members. -/
theorem map_readValue_object (h : skipSpace s = '\x7b' :: c :: r) (hc : isSpace c = false)
    (hne : c ≠ '\x7d') :
    (readValue s).map Subtype.val =
      ((readMembers (c :: r)).map Subtype.val).map fun p => (.object p.1, p.2) := by
  have hskip : skipSpace (c :: r) = c :: r := by simp [skipSpace, hc]
  unfold readValue
  split
  · next heq => simp [heq] at h
  · next q heq =>
    obtain rfl : q = c :: r := by simpa [heq] using h
    dsimp only
    split
    · next hend =>
      rw [hskip] at hend
      simp [hne] at hend
    · cases readMembers (c :: r) <;> rfl
  · next hother => exact absurd h (hother _)

/-- What is neither an array nor an object is read as a scalar. -/
theorem map_readValue_scalar (h : skipSpace s = c :: r) (hc : c ≠ '[') (hne : c ≠ '\x7b') :
    (readValue s).map Subtype.val = readScalar (c :: r) := by
  unfold readValue
  split
  · next heq =>
    rw [heq] at h
    exact absurd (List.cons.inj h).1.symm hc
  · next heq =>
    rw [heq] at h
    exact absurd (List.cons.inj h).1.symm hne
  · rw [← h]
    split
    · next hnone => exact hnone.symm
    · next hsome => exact hsome.symm

/-- The last member of an object is followed by the brace that closes it. -/
theorem map_readMembers_last (hname : (readName s).map Subtype.val = some (k, s'))
    (hvalue : (readValue s').map Subtype.val = some (v, r)) (h : skipSpace r = '\x7d' :: r') :
    (readMembers s).map Subtype.val = some ([(k, v)], r') := by
  obtain ⟨⟨p, hp⟩, hname, rfl⟩ := Option.map_eq_some_iff.mp hname
  obtain ⟨⟨q, hq⟩, hvalue, rfl⟩ := Option.map_eq_some_iff.mp hvalue
  unfold readMembers
  simp only [hname, hvalue, bind, Option.bind]
  split <;> simp_all

/-- Any other member is followed by a comma, and then by the members that are read next. -/
theorem map_readMembers_cons (hname : (readName s).map Subtype.val = some (k, s'))
    (hvalue : (readValue s').map Subtype.val = some (v, r)) (h : skipSpace r = ',' :: r')
    (hmembers : (readMembers r').map Subtype.val = some (members, r'')) :
    (readMembers s).map Subtype.val = some ((k, v) :: members, r'') := by
  obtain ⟨⟨p, hp⟩, hname, rfl⟩ := Option.map_eq_some_iff.mp hname
  obtain ⟨⟨q, hq⟩, hvalue, rfl⟩ := Option.map_eq_some_iff.mp hvalue
  obtain ⟨⟨u, hu⟩, hmembers, rfl⟩ := Option.map_eq_some_iff.mp hmembers
  unfold readMembers
  simp only [hname, hvalue, bind, Option.bind]
  split
  · next q heq =>
    obtain rfl : q = r' := by simpa [heq] using h
    simp only [hmembers, Option.map_some]
  · next heq => simp [heq] at h
  · next hother _ => exact absurd h (hother _)

end Raw

end Json

namespace Http

/-- What is behind the value at the beginning of a body is not looked at, so reading a document is
reading one value. -/
theorem documentIn?_ofList {s r : List Char} {v : Json.Raw}
    (h : (Json.Raw.readValue s).map Subtype.val = some (v, r)) :
    documentIn? (String.ofList s) = v.value? Json.maxDepth := by
  rw [← String.toList_ofList (l := s)] at h
  obtain ⟨⟨p, hp⟩, hread, rfl⟩ := Option.map_eq_some_iff.mp h
  simp only [documentIn?, hread, bind, Option.bind_some]

/-- A document of a request that is not too long is read. The three conditions are the three checks
that could refuse it. -/
theorem Request.json_eq_ok {r : Request} {j : Json}
    (htype : (r.contentType.bind MediaType.read?).any MediaType.isJson)
    (hsize : r.body.length ≤ maxDocument) (hdocument : documentIn? r.body.textPart = some j) :
    r.json = .ok j := by
  simp only [Request.json, htype, Nat.not_lt.mpr hsize, hdocument, Bool.not_true,
    Bool.false_eq_true, if_false]

end Http

namespace Json

variable {ms₁ ms₂ : List (String × Json)} {name : String}

/-! ### Documents that differ in one member -/

/-- Whether a document is no list and no object. -/
def isScalar : Json → Bool
  | .array _ | .object _ => false
  | _ => true

/-- **Objects that differ only in one member**, which each of them may lack, and which is a scalar
where there is one. -/
structure DifferOnlyIn (name : String) (ms₁ ms₂ : List (String × Json)) : Prop where
  others : ∀ n, n ≠ name → member? ms₁ n = member? ms₂ n
  left : ∀ v, member? ms₁ name = some v → v.isScalar
  right : ∀ v, member? ms₂ name = some v → v.isScalar

/-- Objects that differ only in one member are sorted in the same way without it. Lists that are in
order are told by their members, so how the objects are written does not matter. -/
theorem DifferOnlyIn.filter_sortMembers (h : DifferOnlyIn name ms₁ ms₂) :
    (sortMembers ms₁).filter (·.1 != name) = (sortMembers ms₂).filter (·.1 != name) := by
  refine Lists.eq_of_ordered ((pairwise_sortMembers ms₁).filter _)
    ((pairwise_sortMembers ms₂).filter _) fun e => ?_
  rw [List.mem_filter, List.mem_filter, mem_sortMembers, mem_sortMembers]
  refine and_congr_left fun hne => ?_
  rw [h.others e.1 (bne_iff_ne.mp hne)]

end Json

namespace Texts

/-- The texts with that of one more member. -/
def withMember (ts : Texts) (m : String × Json) : Except RequestError Texts := do
  match ← ofScalar m.1 m.2 with
  | some text => return ts.insert m.1 text
  | none => return ts

variable {name : String}

/-- A scalar gives no text but its own. -/
theorem erase_withMember_self (ts : Texts) {v : Json} (hv : v.isScalar) :
    (ts.withMember (name, v)).map (·.erase name) = .ok (ts.erase name) := by
  cases v with
  | null => rfl
  | boolean b => exact congrArg Except.ok (erase_insert_self ts name _)
  | number n => exact congrArg Except.ok (erase_insert_self ts name _)
  | string s => exact congrArg Except.ok (erase_insert_self ts name _)
  | array items => simp [Json.isScalar] at hv
  | object members => simp [Json.isScalar] at hv

/-- Any other member gives the same text beside it and without it. -/
theorem erase_withMember_of_ne (ts : Texts) {m : String × Json} (hm : m.1 ≠ name) :
    (ts.withMember m).map (·.erase name) = (ts.erase name).withMember m := by
  unfold withMember
  cases ofScalar m.1 m.2 with
  | error e => rfl
  | ok text =>
    cases text with
    | none => rfl
    | some text => exact congrArg Except.ok (erase_insert_of_ne ts hm text)

/-- The texts of some members, without one of them: erasing it at the end is the same as leaving it
out from the beginning. It must be a scalar, since another one would be refused. -/
theorem erase_foldlM (ts : Texts) {ms : List (String × Json)}
    (h : ∀ v, (name, v) ∈ ms → v.isScalar) :
    (ms.foldlM withMember ts).map (·.erase name) =
      (ms.filter (·.1 != name)).foldlM withMember (ts.erase name) := by
  induction ms generalizing ts with
  | nil => rfl
  | cons m ms ih =>
    have hms : ∀ v, (name, v) ∈ ms → v.isScalar := fun v hv => h v (List.mem_cons_of_mem _ hv)
    have hstep : (ts.withMember m >>= fun us => ms.foldlM withMember us).map (·.erase name) =
        (ts.withMember m).map (·.erase name) >>= fun us =>
          (ms.filter (·.1 != name)).foldlM withMember us := by
      cases ts.withMember m with
      | error e => rfl
      | ok us => exact ih us hms
    rw [List.foldlM_cons, hstep]
    by_cases hm : m.1 = name
    · obtain ⟨n, v⟩ := m
      obtain rfl : n = name := hm
      rw [erase_withMember_self ts (h v (List.mem_cons_self ..)), List.filter_cons_of_neg (by simp)]
      rfl
    · rw [erase_withMember_of_ne ts hm, List.filter_cons_of_pos (by simpa using hm),
        List.foldlM_cons]

/-- **One scalar member of a document shows in its own text only.** An error does not depend on it
either, as errors are a part of the outcomes that are compared. -/
theorem erase_ofJson_congr {ms₁ ms₂ : List (String × Json)} (h : Json.DifferOnlyIn name ms₁ ms₂) :
    (ofJson (.object ms₁)).map (·.erase name) = (ofJson (.object ms₂)).map (·.erase name) := by
  have hfold (ms : List (String × Json)) :
      ofJson (.object ms) = (Json.sortMembers ms).foldlM withMember empty := rfl
  rw [hfold, hfold, erase_foldlM empty fun v hv => h.left v (Json.mem_sortMembers.mp hv),
    erase_foldlM empty fun v hv => h.right v (Json.mem_sortMembers.mp hv), h.filter_sortMembers]

end Texts

end RecordService
