import RecordService.Proofs.Query.Literal
import RecordService.Proofs.Schema.Image
import RecordService.Proofs.Store.Identity
import RecordService.Proofs.Store.Transfer
import RecordService.Proofs.Store.WellFormed

/-!
# What saving a record does

A record that is saved may claim anything for its binary content, and a new one for its identity:
neither is taken over. Saving a record without an identity creates a row under an identity that no
record ever had, and saving one with an identity replaces the values of the row that is there. In
both cases the values that clients choose are those of the record, what comes back is what is found
from then on, and nothing else in the store is touched (`RecordService.Memory.save_keeps`).

* `RecordService.Memory.Keeps`: a record is kept under an identity, and all else is as before.
* `RecordService.Memory.Creates`, `RecordService.Memory.Replaces`: the two ways to keep it.
* `RecordService.Memory.creates_insert`, `RecordService.Memory.replaces_update`: what the store
  does.
-/

namespace RecordService

/-! ### Equal records -/

/-- Values are equal to themselves, except a decimal that is not a number. -/
theorem Value.sameAll_self {vs : List Value} (h : ∀ x, .decimal x ∈ vs → x.isNaN = false) :
    Value.sameAll vs vs := by
  induction vs with
  | nil => rfl
  | cons v vs ih =>
    have hv : v.same v := Value.same_self fun x hx => h x (by simp [hx])
    have hvs := ih fun x hx => h x (List.mem_cons_of_mem v hx)
    simp [Value.sameAll, hv, hvs]

theorem Record.same_self {x : Record} (h : ∀ d, .decimal d ∈ x.values → d.isNaN = false) :
    x.same x := by
  simp [Record.same, Value.sameAll_self h]

namespace Memory

/-! ### Kept records -/

/-- Whether the store keeps `saved` under an identity, with the values that clients choose as they
are in `record`, and otherwise has the rows and the content of before. -/
structure Keeps (m : Memory) (record saved : Record) (id : Int) (m' : Memory) : Prop where
  type : saved.type = record.type
  saved_id : saved.id = some id
  chosen : record.type.SameChoice record.values saved.values
  found : m'.get record.type id = some saved
  others : ∀ (u : RecordType) (k : Int), ¬(u.name = record.type.name ∧ k = id) →
    m'.row? u k = m.row? u k

/-- Whether a new record is kept: in one more row, under an identity that was not given away before,
and without any content. -/
structure Creates (m : Memory) (record saved : Record) (id : Int) (m' : Memory) : Prop extends
    Keeps m record saved id m' where
  fresh : (m.table record.type.name).lastId < id
  absent : m.row? record.type id = none
  count : m'.count record.type none = m.count record.type none + 1
  blob : ∀ (i : Nat) (a : Attribute), record.type.attributes[i]? = some a → a.kind = .blob →
    saved.values[i]? = some .null ∧ m'.content record.type id a.name = .ok none

/-- Whether a record is kept in place of a stored one, the content of which stays, with the values
that show it. -/
structure Replaces (m : Memory) (record saved : Record) (id : Int) (m' : Memory) : Prop extends
    Keeps m record saved id m' where
  blob : ∃ before, m.get record.type id = some before ∧
    ∀ (i : Nat) (a : Attribute), record.type.attributes[i]? = some a → a.kind = .blob →
      saved.values[i]? = before.values[i]?
  content : ∀ name, m'.content record.type id name = m.content record.type id name

section

variable {d : Schema.Document} {r : Registry} {n : Nat} {m m' : Memory} {record saved : Record}

/-- The record that is found under an identity, by its row. Only the values are part of it. -/
theorem get_of_row? {t : RecordType} {id : Int} {row : Row} (h : m.row? t id = some row) :
    m.get t id = some (Record.ofValues t row.values) := by
  rw [Memory.get, h]
  rfl

/-- The position of a binary attribute is found by its name. Names are unique in a registry, so it
is not the position of another one. -/
theorem blobIndex_of_getElem? (hd : Registry.ofDocument d = .ok r) {t : RecordType}
    (ht : t ∈ r.types) {i : Nat} {a : Attribute} (ha : t.attributes[i]? = some a)
    (hblob : a.kind = .blob) :
    blobIndex t a.name = .ok i :=
  blobIndex_of_index?
    ((RecordType.index?_eq_some_iff (Registry.nodup_attributes hd ht)).mpr ⟨a, ha, rfl⟩) ha hblob

/-- **A record that is inserted is created**: it is stored under the next identity, without content,
and no other record is touched. -/
theorem creates_insert (hd : Registry.ofDocument d = .ok r) (h : m.Consistent r n)
    (ht : record.type ∈ r.types) :
    m.Creates record (m.insert record).1 (m.nextId record.type) (m.insert record).2 := by
  have hr := Registry.resolved_of_ofDocument hd
  have hrow : (m.insert record).2.row? record.type (m.nextId record.type) =
      some (freshRow record (m.nextId record.type)) := by
    rw [row?_insert h hr ht, if_pos ⟨rfl, rfl⟩]
  have hvalues : (m.insert record).1.values = freshValues record (m.nextId record.type) :=
    Record.values_ofValues (by simp [freshValues, record.length_values])
  refine ⟨⟨rfl, id_insert hr ht m, ?_, ?_, ?_⟩, ?_, ?_, ?_, ?_⟩
  · rw [hvalues]
    exact RecordType.sameChoice_freshValues record _
  · exact get_of_row? hrow
  · intro u k hk
    rw [row?_insert h hr ht, if_neg hk]
  · exact Int.lt_add_one_iff.mpr (Int.le_refl _)
  · exact (h.table hr ht).row?_next
  · have hrows : ((m.insert record).2.table record.type.name).rows =
        (m.table record.type.name).rows ++
          [(m.nextId record.type, freshRow record (m.nextId record.type))] := by
      rw [insert, table_withTable, if_pos rfl]
      rfl
    simp only [Memory.count, hrows, List.countP_append]
    rfl
  · intro i a ha hblob
    obtain ⟨b, hb, hkind⟩ := hr.identity_ne_blob ht
    refine ⟨?_, content_eq_ok_iff.mpr ⟨i, _, blobIndex_of_getElem? hd ht ha hblob, hrow, ?_⟩⟩
    · rw [hvalues, getElem?_freshValues ha (ne_of_blob hb hkind ha hblob), if_pos hblob]
    · simp only [Row.content, freshRow, List.getD_eq_getElem?_getD, List.getElem?_replicate]
      split <;> rfl

/-- **A record that is updated is replaced.** Its content stays, with the lengths that stand for it,
and no other record is touched. -/
theorem replaces_update (hr : r.Resolved) (h : m.Consistent r n) (ht : record.type ∈ r.types)
    (hm : m.update record = .ok (saved, m')) :
    ∃ id, record.id = some id ∧ m.Replaces record saved id m' := by
  obtain ⟨id, old, hid, hold, hrows⟩ := row?_update hm
  have hsaved : saved = Record.ofValues record.type
      (mergedValues record.type old.values record.values) := by
    unfold update at hm
    simp only [hid, hold] at hm
    exact congrArg Prod.fst (Except.ok.inj hm).symm
  have htable := h.table hr ht
  have hconsistent := (htable.rows id old (htable.row?_eq_some_iff.mp hold)).2.2
  obtain ⟨a, ha, hkind⟩ := hr.identity_ne_blob ht
  have hmerged := hconsistent.merged ha hkind record.length_values (getElem?_of_id hid)
  have hvalues : saved.values = mergedValues record.type old.values record.values := by
    rw [hsaved]
    exact Record.values_ofValues hmerged.length_values
  have hrow : m'.row? record.type id = some
      { old with values := mergedValues record.type old.values record.values } := by
    rw [hrows, if_pos ⟨rfl, rfl⟩, hold]
    rfl
  have hfound : m'.get record.type id = some saved := by
    rw [get_of_row? hrow, hsaved]
  have htype : saved.type = record.type := by rw [hsaved]; rfl
  have hidentity : saved.id = some id := by
    have hvalue : saved.values[saved.type.identity]? = some (.integer id) := by
      rw [hvalues, htype]
      exact hmerged.identity
    rw [Record.id, hvalue]
  refine ⟨id, hid, ⟨htype, hidentity, ?_, hfound, ?_⟩, ⟨_, get_of_row? hold, ?_⟩, ?_⟩
  · rw [hvalues]
    exact RecordType.sameChoice_mergedValues hconsistent.length_values record.length_values
  · intro u k hk
    rw [hrows, if_neg hk]
  · intro i b hb hblob
    rw [hvalues, Record.values_ofValues hconsistent.length_values,
      getElem?_mergedValues hb hconsistent.length_values record.length_values, if_pos hblob]
  · intro name
    simp only [Memory.content, hrow, hold]

end

/-! ### Saved records -/

section

variable {d : Schema.Document} {r : Registry} {n : Nat} {m m' : Memory} {record saved : Record}
  {id : Int}

/-- What is kept has no decimal that is not a number, if the record has none and the content is
shown by other values. -/
theorem Keeps.isNaN (h : m.Keeps record saved id m')
    (hrecord : ∀ x, .decimal x ∈ record.values → x.isNaN = false)
    (hblob : ∀ (i : Nat) (a : Attribute), record.type.attributes[i]? = some a → a.kind = .blob →
      ∀ x, saved.values[i]? ≠ some (.decimal x)) :
    ∀ x, .decimal x ∈ saved.values → x.isNaN = false := by
  intro x hx
  obtain ⟨i, hi, hvalue⟩ := List.mem_iff_getElem.mp hx
  have hvalue : saved.values[i]? = some (.decimal x) := List.getElem?_eq_some_iff.mpr ⟨hi, hvalue⟩
  have hlt : i < record.type.attributes.length := by
    rw [← h.type, ← saved.length_values]
    exact hi
  have ha := List.getElem?_eq_getElem hlt
  by_cases hkind : record.type.attributes[i].kind = .blob
  · exact absurd hvalue (hblob i _ ha hkind x)
  · have hne : i ≠ record.type.identity := by
      rintro rfl
      have hid := getElem?_of_id h.saved_id
      rw [h.type, hvalue] at hid
      cases hid
    rw [h.chosen i _ ⟨ha, hne, hkind⟩] at hvalue
    exact hrecord x (List.mem_of_getElem? hvalue)

theorem Creates.isNaN (h : m.Creates record saved id m')
    (hrecord : ∀ x, .decimal x ∈ record.values → x.isNaN = false) :
    ∀ x, .decimal x ∈ saved.values → x.isNaN = false :=
  h.toKeeps.isNaN hrecord fun i a ha hblob x => by simp [(h.blob i a ha hblob).1]

theorem Replaces.isNaN (h : m.Replaces record saved id m') (hm : m.Consistent r n)
    (hr : r.Resolved) (ht : record.type ∈ r.types)
    (hrecord : ∀ x, .decimal x ∈ record.values → x.isNaN = false) :
    ∀ x, .decimal x ∈ saved.values → x.isNaN = false := by
  obtain ⟨before, hbefore, hsame⟩ := h.blob
  obtain ⟨row, -, hrow, -, hvalues⟩ := row_of_get hm hr ht hbefore
  refine h.toKeeps.isNaN hrecord fun i a ha hblob x => ?_
  rw [hsame i a ha hblob, hvalues, hrow.blob i a ha hblob]
  cases row.content i <;> simp [Value.showing]

/-- What was kept is found, and is equal to what came back. Equality is the one of records, in which
a decimal that is not a number differs from itself. -/
theorem Keeps.exists_findById (h : m.Keeps record saved id m')
    (hsaved : ∀ x, .decimal x ∈ saved.values → x.isNaN = false) :
    ∃ found, (Records.findById (m := StateM Memory) record.type id).run.run m' =
      (.ok (some found), m') ∧ found.same saved := by
  refine ⟨saved, ?_, Record.same_self hsaved⟩
  rw [Records.run_findById, h.found]

/-- **Saving does what it says and nothing else.** Whatever calls a run made, when a record is
saved, there is an identity under which it is found again, equal to what came back.

* A record without an identity is created. Its identity is greater than all that records of its
  type had at any moment of the run.
* A record with an identity replaces the one that is stored under it. -/
theorem save_keeps (hd : Registry.ofDocument d = .ok r) {calls : List Call}
    (hcalls : ∀ c ∈ calls, c.UsesTypesOf r) (ht : record.type ∈ r.types)
    (hrecord : ∀ x, .decimal x ∈ record.values → x.isNaN = false)
    (hsaved : (Records.save (m := StateM Memory) record).run.run (run calls).memory =
      (.ok saved, m')) :
    ∃ id, saved.id = some id ∧
      (record.id = none ∧ (run calls).memory.Creates record saved id m' ∧
          (∀ k, Held calls record.type k → k < id) ∨
        record.id = some id ∧ (run calls).memory.Replaces record saved id m') ∧
      ∃ found, (Records.findById (m := StateM Memory) record.type id).run.run m' =
        (.ok (some found), m') ∧ found.same saved := by
  have hr := Registry.resolved_of_ofDocument hd
  have hm := (invariant_run hr hcalls).memory
  rcases Records.run_save record (run calls).memory with
    ⟨e, hrun⟩ | ⟨-, ⟨hnew, hrun⟩ | ⟨id, stored, after, hid, hupdate, hrun⟩⟩
  · cases hrun.symm.trans hsaved
  · cases hrun.symm.trans hsaved
    have hcreates := creates_insert hd hm ht
    exact ⟨_, hcreates.saved_id, .inl ⟨hnew, hcreates, fun k hk => hk.lt_nextId⟩,
      hcreates.exists_findById (hcreates.isNaN hrecord)⟩
  · cases hrun.symm.trans hsaved
    obtain ⟨k, hk, hreplaces⟩ := replaces_update hr hm ht hupdate
    exact ⟨k, hreplaces.saved_id, .inr ⟨hk, hreplaces⟩,
      hreplaces.exists_findById (hreplaces.isNaN hm hr ht hrecord)⟩

end

/-- Both photos that are saved claim seven bytes of content. The new one has none, and the one that
is stored keeps its three bytes. -/
theorem save_keeps_photo :
    Registry.ofDocument album = .ok ⟨[photo]⟩ ∧
      (∀ c ∈ photo.calls, c.UsesTypesOf ⟨[photo]⟩) ∧
      (∃ saved m', (Records.save (m := StateM Memory) (photo.claimed .null)).run.run
          (run photo.calls).memory = (.ok saved, m') ∧
        saved.values = [.integer 3, .null, .text "sea.png"] ∧
        (run photo.calls).memory.Creates (photo.claimed .null) saved 3 m') ∧
      ∃ saved m', (Records.save (m := StateM Memory) (photo.claimed (.integer 2))).run.run
          (run photo.calls).memory = (.ok saved, m') ∧
        saved.values = [.integer 2, .blob 3, .text "sea.png"] ∧
        (run photo.calls).memory.Replaces (photo.claimed (.integer 2)) saved 2 m' := by
  have halbum : Registry.ofDocument album = .ok ⟨[photo]⟩ := rfl
  have hcalls : ∀ c ∈ photo.calls, c.UsesTypesOf ⟨[photo]⟩ := by
    simp [photo.calls, Call.UsesTypesOf, photo.claimed]
  have htype (v : Value) : (photo.claimed v).type ∈ [photo] := List.mem_singleton_self _
  have hnan (v : Value) (hv : ∀ x, v ≠ .decimal x) :
      ∀ x, .decimal x ∈ (photo.claimed v).values → x.isNaN = false := by
    intro x hx
    simp [photo.claimed, eq_comm, hv x] at hx
  refine ⟨halbum, hcalls, ⟨_, _, rfl, rfl, ?_⟩, ⟨_, _, rfl, rfl, ?_⟩⟩
  · obtain ⟨id, hid, ⟨-, hcreates, -⟩ | ⟨hsome, -⟩, -⟩ :=
      save_keeps halbum hcalls (htype .null) (hnan .null (by simp)) rfl
    · obtain rfl : 3 = id := Option.some.inj hid
      exact hcreates
    · cases hsome
  · obtain ⟨id, hid, ⟨hnone, -⟩ | ⟨-, hreplaces⟩, -⟩ :=
      save_keeps halbum hcalls (htype (.integer 2)) (hnan (.integer 2) (by simp)) rfl
    · cases hnone
    · obtain rfl : 2 = id := Option.some.inj hid
      exact hreplaces

end Memory

end RecordService
