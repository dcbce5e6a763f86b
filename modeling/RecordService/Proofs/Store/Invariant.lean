import RecordService.Proofs.Lists
import RecordService.Proofs.Schema.Registry
import RecordService.Proofs.Store.Run

/-!
# What the store in memory keeps

A row keeps its values and its binary content side by side. The two belong together: the value of a
blob attribute shows the length of its content, and is `null` as long as there is none. Every
operation that changes one of them changes the other, so this holds of all rows after any run
(`RecordService.Memory.consistent_run`).

* `RecordService.Row.Consistent`: a row that belongs together, stored under its identity.
* `RecordService.Table.Consistent`, `RecordService.Memory.Consistent`: the same of all rows.
* `RecordService.Memory.World.Invariant`: the state of a run. Open sinks lead to blob attributes.
-/

namespace RecordService

/-! ### Rows -/

/-- The content of a row for the attribute at a position. -/
def Row.content (row : Row) (i : Nat) : Option Bytes := row.contents.getD i none

/-- The value that shows some content. -/
def Value.showing : Option Bytes → Value
  | none => .null
  | some c => .blob c.length

/-- A row of a record type whose values and content belong together. -/
structure Row.Consistent (t : RecordType) (id : Int) (row : Row) : Prop where
  length_values : row.values.length = t.attributes.length
  length_contents : row.contents.length = t.attributes.length
  identity : row.values[t.identity]? = some (.integer id)
  blob : ∀ i a, t.attributes[i]? = some a → a.kind = .blob →
    row.values[i]? = some (Value.showing (row.content i))
  other : ∀ i a, t.attributes[i]? = some a → a.kind ≠ .blob → row.content i = none

section Rows

variable {t : RecordType} {a : Attribute} {id : Int} {i : Nat}

/-- Attributes with and without binary content have different positions. So an update, which skips
the blob attributes, and a commit, which writes to one, do not meet. -/
theorem ne_of_blob {as : List Attribute} {b : Attribute} {j : Nat} (ha : as[i]? = some a)
    (hkind : a.kind ≠ .blob) (hb : as[j]? = some b) (hblob : b.kind = .blob) : i ≠ j := by
  rintro rfl
  rw [ha] at hb
  exact hkind (Option.some.inj hb ▸ hblob)

/-- The values of a new row, apart from its identity: those of the record, but nothing for binary
content, which is uploaded later. -/
theorem Memory.getElem?_freshValues {r : Record} (ha : r.type.attributes[i]? = some a)
    (hi : r.type.identity ≠ i) (id : Int) :
    (freshValues r id)[i]? = if a.kind = .blob then some .null else r.values[i]? := by
  have hlt : i < r.values.length := by
    rw [r.length_values]
    exact (List.getElem?_eq_some_iff.mp ha).1
  have hv : r.values[i]? = some r.values[i] := List.getElem?_eq_getElem hlt
  have hzip : (r.type.attributes.zip r.values)[i]? = some (a, r.values[i]) :=
    List.getElem?_zip_eq_some.mpr ⟨ha, hv⟩
  rw [freshValues, List.getElem?_set_ne hi, List.getElem?_map, hzip, Option.map_some, hv]
  dsimp only
  split <;> rfl

/-- The values of a row after an update. A blob attribute keeps the stored value, since the update
does not touch the content that it shows. -/
theorem Memory.getElem?_mergedValues {stored given : List Value} (ha : t.attributes[i]? = some a)
    (hstored : stored.length = t.attributes.length) (hgiven : given.length = t.attributes.length) :
    (mergedValues t stored given)[i]? = if a.kind = .blob then stored[i]? else given[i]? := by
  have hlt : i < t.attributes.length := (List.getElem?_eq_some_iff.mp ha).1
  have hs : stored[i]? = some stored[i] := List.getElem?_eq_getElem (hstored ▸ hlt)
  have hg : given[i]? = some given[i] := List.getElem?_eq_getElem (hgiven ▸ hlt)
  have hzip : (t.attributes.zip (stored.zip given))[i]? = some (a, stored[i], given[i]) :=
    List.getElem?_zip_eq_some.mpr ⟨ha, List.getElem?_zip_eq_some.mpr ⟨hs, hg⟩⟩
  rw [mergedValues, List.getElem?_map, hzip, Option.map_some, hs, hg]
  dsimp only
  split <;> rfl

/-- A blob attribute shows a length exactly if there is content of this length. -/
theorem Row.Consistent.blob_iff {row : Row} (h : row.Consistent t id)
    (ha : t.attributes[i]? = some a) (hblob : a.kind = .blob) (size : Nat) :
    row.values[i]? = some (.blob size) ↔ ∃ c, row.content i = some c ∧ c.length = size := by
  rw [h.blob i a ha hblob]
  cases row.content i with
  | none => simp [Value.showing]
  | some c => simp [Value.showing]

/-- A blob attribute without a value has no content, and the other way round. -/
theorem Row.Consistent.null_iff {row : Row} (h : row.Consistent t id)
    (ha : t.attributes[i]? = some a) (hblob : a.kind = .blob) :
    row.values[i]? = some .null ↔ row.content i = none := by
  rw [h.blob i a ha hblob]
  cases row.content i with
  | none => simp [Value.showing]
  | some c => simp [Value.showing]

/-- Only blob attributes have content. -/
theorem Row.Consistent.content_eq_none {row : Row} (h : row.Consistent t id)
    (hi : ∀ a, t.attributes[i]? = some a → a.kind ≠ .blob) : row.content i = none := by
  cases ha : t.attributes[i]? with
  | some a => exact h.other i a ha (hi a ha)
  | none =>
    have hle : row.contents.length ≤ i := by
      rw [h.length_contents]
      exact List.getElem?_eq_none_iff.mp ha
    simp [Row.content, List.getD_eq_getElem?_getD, List.getElem?_eq_none hle]

/-- A new row has no content yet, whatever values for its blob attributes the record came with. -/
theorem Row.consistent_fresh {r : Record} (ha : r.type.attributes[r.type.identity]? = some a)
    (hkind : a.kind ≠ .blob) (id : Int) :
    Row.Consistent r.type id
      ⟨Memory.freshValues r id, List.replicate r.type.attributes.length none⟩ := by
  have hcontent : ∀ i, Row.content
      ⟨Memory.freshValues r id, List.replicate r.type.attributes.length none⟩ i = none := by
    intro i
    simp only [Row.content, List.getD_eq_getElem?_getD, List.getElem?_replicate]
    split <;> rfl
  refine ⟨?_, by simp, ?_, ?_, fun i b _ _ => hcontent i⟩
  · simp [Memory.freshValues, r.length_values]
  · have hlt : r.type.identity < r.type.attributes.length := (List.getElem?_eq_some_iff.mp ha).1
    simp [Memory.freshValues, r.length_values, hlt]
  · intro i b hb hblob
    have hne := ne_of_blob ha hkind hb hblob
    rw [hcontent, Memory.getElem?_freshValues hb hne, if_pos hblob]
    rfl

/-- An update gives a row the values of a record with the same identity, and leaves its content and
the values that show it. -/
theorem Row.Consistent.merged {row : Row} {values : List Value} (h : row.Consistent t id)
    (ha : t.attributes[t.identity]? = some a) (hkind : a.kind ≠ .blob)
    (hlength : values.length = t.attributes.length)
    (hid : values[t.identity]? = some (.integer id)) :
    Row.Consistent t id { row with values := Memory.mergedValues t row.values values } := by
  refine ⟨?_, h.length_contents, ?_, ?_, h.other⟩
  · simp [Memory.mergedValues, h.length_values, hlength]
  · dsimp only
    rw [Memory.getElem?_mergedValues ha h.length_values hlength, if_neg hkind, hid]
  · intro i b hb hblob
    dsimp only
    rw [Memory.getElem?_mergedValues hb h.length_values hlength, if_pos hblob]
    exact h.blob i b hb hblob

/-- New content of a blob attribute comes with its length as the value. The two are written in one
change, so no state shows one without the other. -/
theorem Row.Consistent.committed {row : Row} {b : Attribute} (h : row.Consistent t id)
    (ha : t.attributes[t.identity]? = some a) (hkind : a.kind ≠ .blob)
    (hb : t.attributes[i]? = some b) (hblob : b.kind = .blob) (content : Bytes) :
    Row.Consistent t id
      { values := row.values.set i (.blob content.length)
        contents := row.contents.set i (some content) } := by
  have hi : i < t.attributes.length := (List.getElem?_eq_some_iff.mp hb).1
  -- the identity is another attribute, so it is not written over
  have hne := (ne_of_blob ha hkind hb hblob).symm
  have hcontent : ∀ j, Row.content
      { values := row.values.set i (.blob content.length)
        contents := row.contents.set i (some content) } j =
      if j = i then some content else row.content j := by
    intro j
    simp only [Row.content, List.getD_eq_getElem?_getD]
    by_cases hj : j = i
    · subst hj
      simp [h.length_contents, hi]
    · rw [List.getElem?_set_ne (Ne.symm hj), if_neg hj]
  refine ⟨by simp [h.length_values], by simp [h.length_contents], ?_, ?_, ?_⟩
  · simpa [List.getElem?_set_ne hne] using h.identity
  · intro j c hc hcblob
    rw [hcontent]
    by_cases hj : j = i
    · subst hj
      simp [h.length_values, hi, Value.showing]
    · rw [if_neg hj, List.getElem?_set_ne (Ne.symm hj)]
      exact h.blob j c hc hcblob
  · intro j c hc hcblob
    have hj := ne_of_blob hc hcblob hb hblob
    rw [hcontent, if_neg hj]
    exact h.other j c hc hcblob

end Rows

/-! ### Tables -/

/-- A table of a record type that gave away at most `n` identities. Its rows are consistent, and
stored under different ones of these. -/
structure Table.Consistent (t : RecordType) (n : Nat) (table : Table) : Prop where
  lastId_nonneg : 0 ≤ table.lastId
  lastId_le : table.lastId ≤ n
  nodup_ids : (table.rows.map Prod.fst).Nodup
  rows : ∀ id row, (id, row) ∈ table.rows → 1 ≤ id ∧ id ≤ table.lastId ∧ row.Consistent t id

namespace Table

variable {t : RecordType} {n k : Nat} {table : Table} {id : Int}

theorem consistent_empty (t : RecordType) (n : Nat) : Table.Consistent t n {} :=
  ⟨Int.le_refl 0, Int.natCast_nonneg n, List.nodup_nil, by simp⟩

/-- The bound on the identities may be raised. -/
theorem Consistent.mono (h : table.Consistent t n) (hnk : n ≤ k) : table.Consistent t k :=
  ⟨h.lastId_nonneg, Int.le_trans h.lastId_le (Int.ofNat_le.mpr hnk), h.nodup_ids, h.rows⟩

/-- The row with an identity is the only one, so looking it up finds each row that is there. -/
theorem Consistent.row?_eq_some_iff (h : table.Consistent t n) {row : Row} :
    table.row? id = some row ↔ (id, row) ∈ table.rows :=
  Lists.lookup_eq_some_iff_of_nodup h.nodup_ids

/-- A new row goes under the identity that comes next, which no row has. -/
theorem Consistent.append (h : table.Consistent t n) {f : Int → Row}
    (hf : ∀ id, (f id).Consistent t id) : (table.append f).Consistent t (n + 1) := by
  have hlast := h.lastId_nonneg
  refine ⟨?_, ?_, ?_, ?_⟩
  · simp only [Table.append]
    omega
  · have hle := h.lastId_le
    simp only [Table.append]
    omega
  · -- identities that were given away are smaller
    have hnew : table.lastId + 1 ∉ table.rows.map Prod.fst := by
      intro hmem
      obtain ⟨⟨k, row⟩, hrow, hk⟩ := List.mem_map.mp hmem
      have hle := (h.rows k row hrow).2.1
      dsimp only at hk
      omega
    simpa [Table.append, List.nodup_append, h.nodup_ids] using fun k row hrow hk =>
      hnew (List.mem_map.mpr ⟨(k, row), hrow, hk⟩)
  · intro k row hrow
    simp only [Table.append, List.mem_append, List.mem_singleton] at hrow ⊢
    rcases hrow with hrow | hrow
    · obtain ⟨hpos, hle, hrow⟩ := h.rows k row hrow
      exact ⟨hpos, by omega, hrow⟩
    · cases hrow
      exact ⟨by omega, by omega, hf _⟩

/-- A change of one row leaves the identities, and with them their order and that they differ. -/
theorem map_fst_modify (table : Table) (id : Int) (f : Row → Row) :
    (table.modify id f).rows.map Prod.fst = table.rows.map Prod.fst := by
  simp only [Table.modify, List.map_map]
  refine List.map_congr_left fun p _ => ?_
  simp only [Function.comp_apply]
  split <;> rfl

/-- The rows after a change of one row are those of before, with the changed one in place of the
old. -/
theorem mem_rows_modify {j : Int} {f : Row → Row} {row : Row}
    (h : (j, row) ∈ (table.modify id f).rows) :
    (j, row) ∈ table.rows ∨ j = id ∧ ∃ old, (id, old) ∈ table.rows ∧ row = f old := by
  obtain ⟨⟨i, old⟩, hold, h⟩ := List.mem_map.mp h
  dsimp only at h
  split at h
  · next hi =>
    obtain ⟨rfl, rfl⟩ := Prod.mk.inj h
    exact .inr ⟨hi, old, hi ▸ hold, rfl⟩
  · cases h
    exact .inl hold

theorem Consistent.modify (h : table.Consistent t n) {f : Row → Row}
    (hf : ∀ row, (id, row) ∈ table.rows → (f row).Consistent t id) :
    (table.modify id f).Consistent t n := by
  refine ⟨h.lastId_nonneg, h.lastId_le, ?_, ?_⟩
  · rw [map_fst_modify]
    exact h.nodup_ids
  · intro k row hrow
    rcases mem_rows_modify hrow with hrow | ⟨rfl, old, hold, rfl⟩
    · exact h.rows k row hrow
    · obtain ⟨hpos, hle, -⟩ := h.rows k old hold
      exact ⟨hpos, hle, hf old hold⟩

theorem Consistent.erase (h : table.Consistent t n) (id : Int) :
    (table.erase id).Consistent t n := by
  refine ⟨h.lastId_nonneg, h.lastId_le, ?_, ?_⟩
  · exact h.nodup_ids.sublist (List.filter_sublist.map Prod.fst)
  · intro k row hrow
    exact h.rows k row (List.mem_of_mem_filter hrow)

end Table

/-! ### The store -/

/-- Whether a sink leads to a blob attribute of a record type of a registry. -/
def MemorySink.Placed (r : Registry) (s : MemorySink) : Prop :=
  ∃ t ∈ r.types, t.name = s.entity ∧ ∃ a, t.attributes[s.index]? = some a ∧ a.kind = .blob

/-- Sinks that lead to the same place. Writing changes only what is staged, so it keeps where a sink
leads. -/
theorem MemorySink.Placed.congr {r : Registry} {s s' : MemorySink} (h : s.Placed r)
    (hentity : s'.entity = s.entity) (hindex : s'.index = s.index) : s'.Placed r := by
  unfold Placed at h ⊢
  rw [hentity, hindex]
  exact h

namespace Memory

/-- Every table is one of a record type of the registry, gave away at most `n` identities, and is
consistent. -/
def Consistent (r : Registry) (n : Nat) (m : Memory) : Prop :=
  ∀ entity table, (entity, table) ∈ m.tables →
    ∃ t ∈ r.types, t.name = entity ∧ table.Consistent t n

variable {r : Registry} {m m' : Memory} {n k : Nat} {t : RecordType}

theorem consistent_empty (r : Registry) (n : Nat) : Memory.Consistent r n {} := by
  simp [Memory.Consistent]

theorem Consistent.mono (h : m.Consistent r n) (hnk : n ≤ k) : m.Consistent r k := by
  intro entity table hmem
  obtain ⟨t, ht, hname, htable⟩ := h entity table hmem
  exact ⟨t, ht, hname, htable.mono hnk⟩

theorem Consistent.table (h : m.Consistent r n) (hr : r.Resolved) (ht : t ∈ r.types) :
    (m.table t.name).Consistent t n := by
  unfold Memory.table
  cases hlookup : m.tables.lookup t.name with
  | none => exact Table.consistent_empty t n
  | some table =>
    obtain ⟨before, after, htables, -⟩ := List.lookup_eq_some_iff.mp hlookup
    obtain ⟨u, hu, hname, htable⟩ := h t.name table (by simp [htables])
    obtain rfl := hr.eq_of_name hu ht hname
    exact htable

/-- The tables after one was put in the place of the one of its name. -/
theorem mem_replace {entity e : String} {table u : Table} {ts : List (String × Table)}
    (h : (e, u) ∈ replace entity table ts) : e = entity ∧ u = table ∨ (e, u) ∈ ts := by
  fun_induction replace entity table ts with
  | case1 =>
    left
    simpa using h
  | case2 v ts =>
    rcases List.mem_cons.mp h with h | h
    · left
      simpa using h
    · right
      exact List.mem_cons_of_mem _ h
  | case3 f v ts hne ih =>
    rcases List.mem_cons.mp h with h | h
    · right
      exact List.mem_cons.mpr (.inl h)
    · rcases ih h with h | h
      · left
        exact h
      · right
        exact List.mem_cons_of_mem _ h

/-- A store stays consistent when one of its tables is exchanged for a consistent one. -/
theorem Consistent.withTable (h : m.Consistent r n) (ht : t ∈ r.types) {table : Table}
    (htable : table.Consistent t n) : (m.withTable t.name table).Consistent r n := by
  intro entity u hu
  rcases mem_replace hu with ⟨rfl, rfl⟩ | hu
  · exact ⟨t, ht, rfl, htable⟩
  · exact h entity u hu

/-! ### Operations -/

/-- What an update that succeeds does: it merges the values into the row of the record's identity,
which must exist. -/
theorem update_eq_ok {record stored : Record} (hm : m.update record = .ok (stored, m')) :
    ∃ id old, record.id = some id ∧ m.row? record.type id = some old ∧
      m' = m.withTable record.type.name ((m.table record.type.name).modify id fun row =>
        { row with values := mergedValues record.type old.values record.values }) := by
  unfold update at hm
  split at hm
  · simp at hm
  · rename_i id hid
    split at hm
    · simp at hm
    · rename_i old hold
      cases hm
      exact ⟨id, old, hid, hold, rfl⟩

/-- What a removal that succeeds does. The last identity is kept, so that it is not given to a later
record. -/
theorem delete_eq_ok {t : RecordType} {id : Int} (hm : m.delete t id = .ok m') :
    m' = m.withTable t.name ((m.table t.name).erase id) := by
  unfold delete at hm
  split at hm
  · cases hm
    rfl
  · simp at hm

/-- **What a commit does**: it needs a stored record, and puts what is staged in its place. -/
theorem commit_eq_ok_iff {s : MemorySink} {size : Nat} :
    m.commit s = .ok (size, m') ↔ ((m.table s.entity).row? s.id).isSome ∧ s.staged.length = size ∧
      m' = m.withTable s.entity ((m.table s.entity).modify s.id fun row =>
        { values := row.values.set s.index (.blob size)
          contents := row.contents.set s.index (some s.staged) }) := by
  unfold commit
  dsimp only
  split
  · next hrow =>
    constructor
    · rintro ⟨⟩
      exact ⟨hrow, rfl, rfl⟩
    · rintro ⟨-, rfl, rfl⟩
      rfl
  · next hrow => simp [hrow]

/-- The state behind a commit that succeeds. -/
theorem commit_eq_ok {s : MemorySink} {size : Nat} (hm : m.commit s = .ok (size, m')) :
    m' = m.withTable s.entity ((m.table s.entity).modify s.id fun row =>
      { values := row.values.set s.index (.blob size)
        contents := row.contents.set s.index (some s.staged) }) := (commit_eq_ok_iff.mp hm).2.2

theorem length_of_commit {s : MemorySink} {size : Nat} (hm : m.commit s = .ok (size, m')) :
    s.staged.length = size := (commit_eq_ok_iff.mp hm).2.1

theorem row_of_commit {s : MemorySink} {size : Nat} (hm : m.commit s = .ok (size, m')) :
    ((m.table s.entity).row? s.id).isSome := (commit_eq_ok_iff.mp hm).1

theorem blobIndex_eq_ok {name : String} {i : Nat} (hi : blobIndex t name = .ok i) :
    ∃ a, t.attributes[i]? = some a ∧ a.name = name ∧ a.kind = .blob := by
  unfold blobIndex at hi
  split at hi
  · rename_i j hj
    cases hi
    obtain ⟨hindex, hany⟩ := Option.filter_eq_some_iff.mp hj
    obtain ⟨a, ha, hblob⟩ := (Option.any_eq_true _ _).mp hany
    obtain ⟨hlt, hname, -⟩ := List.findIdx?_eq_some_iff_getElem.mp hindex
    obtain ⟨_, rfl⟩ := List.getElem?_eq_some_iff.mp ha
    exact ⟨_, ha, eq_of_beq hname, eq_of_beq hblob⟩
  · simp at hi

/-- A sink that is opened is empty, and leads to the attribute that it was opened for. From here on
the sink keeps a position instead of the name. -/
theorem openSink_eq_ok {id : Int} {name : String} {s : MemorySink}
    (hs : m.openSink t id name = .ok s) :
    s.entity = t.name ∧ s.id = id ∧ blobIndex t name = .ok s.index ∧ s.staged = [] := by
  obtain ⟨i, hi, hs⟩ := Outcome.bind_eq_ok_iff.mp hs
  split at hs
  · cases hs
    exact ⟨rfl, rfl, hi, rfl⟩
  · simp at hs

theorem row_of_openSink {id : Int} {name : String} {s : MemorySink}
    (hs : m.openSink t id name = .ok s) : (m.row? t id).isSome := by
  obtain ⟨i, -, hs⟩ := Outcome.bind_eq_ok_iff.mp hs
  split at hs
  · assumption
  · simp at hs

/-! ### Consistency -/

theorem Consistent.insert (h : m.Consistent r n) (hr : r.Resolved) {record : Record}
    (ht : record.type ∈ r.types) : (m.insert record).2.Consistent r (n + 1) := by
  obtain ⟨a, ha, hkind⟩ := hr.identity_ne_blob ht
  have hmono := h.mono (Nat.le_succ n)
  exact hmono.withTable ht ((h.table hr ht).append fun id => Row.consistent_fresh ha hkind id)

theorem getElem?_of_id {record : Record} {id : Int} (h : record.id = some id) :
    record.values[record.type.identity]? = some (.integer id) := by
  unfold Record.id at h
  split at h
  · rename_i n hn
    rw [hn, Option.some.inj h]
  · simp at h

theorem Consistent.update (h : m.Consistent r n) (hr : r.Resolved) {record stored : Record}
    (ht : record.type ∈ r.types) (hm : m.update record = .ok (stored, m')) :
    m'.Consistent r n := by
  obtain ⟨a, ha, hkind⟩ := hr.identity_ne_blob ht
  obtain ⟨id, row, hid, hrow, rfl⟩ := update_eq_ok hm
  have htable := h.table hr ht
  refine h.withTable ht (htable.modify fun other hother => ?_)
  -- the row that is changed is the one that was looked up
  have hlookup := htable.row?_eq_some_iff.mpr hother
  obtain rfl : row = other := Option.some.inj (hrow.symm.trans hlookup)
  have hrow := (htable.rows id row hother).2.2
  exact hrow.merged ha hkind record.length_values (getElem?_of_id hid)

theorem Consistent.delete (h : m.Consistent r n) (hr : r.Resolved) {id : Int} (ht : t ∈ r.types)
    (hm : m.delete t id = .ok m') : m'.Consistent r n := by
  obtain rfl := delete_eq_ok hm
  exact h.withTable ht ((h.table hr ht).erase id)

theorem Consistent.commit (h : m.Consistent r n) (hr : r.Resolved) {s : MemorySink} {size : Nat}
    (hs : s.Placed r) (hm : m.commit s = .ok (size, m')) : m'.Consistent r n := by
  obtain ⟨t, ht, hname, b, hb, hblob⟩ := hs
  obtain ⟨a, ha, hkind⟩ := hr.identity_ne_blob ht
  obtain rfl := length_of_commit hm
  obtain rfl := commit_eq_ok hm
  rw [← hname]
  have htable := h.table hr ht
  refine h.withTable ht (htable.modify fun row hrow => ?_)
  exact ((htable.rows s.id row hrow).2.2).committed ha hkind hb hblob s.staged

theorem placed_of_openSink {id : Int} {name : String} {s : MemorySink} (ht : t ∈ r.types)
    (hm : m.openSink t id name = .ok s) : s.Placed r := by
  obtain ⟨hentity, -, hindex, -⟩ := openSink_eq_ok hm
  obtain ⟨b, hb, -, hblob⟩ := blobIndex_eq_ok hindex
  exact ⟨t, ht, hentity.symm, b, hb, hblob⟩

/-- What a change leads to, or the same state if it fails. So it is enough to look at the changes
that succeed. -/
theorem Consistent.change {α : Type} (h : m.Consistent r n)
    {f : Memory → Except StorageError (α × Memory)}
    (hf : ∀ a m', f m = .ok (a, m') → m'.Consistent r n) :
    ((Memory.change f).run.run m).2.Consistent r n := by
  cases hm : f m with
  | error e =>
    rw [run_change_of_error hm]
    exact h
  | ok p =>
    obtain ⟨a, m'⟩ := p
    rw [run_change_of_ok hm]
    exact hf a m' hm

/-! ### Runs -/

/-- The state of a run that inserted `n` records. -/
structure World.Invariant (r : Registry) (n : Nat) (w : World) : Prop where
  memory : w.memory.Consistent r n
  sinks : ∀ s, some s ∈ w.sinks → s.Placed r

namespace World

variable {w : World}

theorem invariant_empty (r : Registry) : World.Invariant r 0 {} :=
  ⟨consistent_empty r 0, by simp⟩

/-- A sink that is not used up leads to a blob attribute. It may lead to a record that was removed
meanwhile, so the invariant does not say that there is a row. -/
theorem Invariant.sink (h : w.Invariant r n) {i : Nat} {s : MemorySink} (hs : w.sink? i = some s) :
    s.Placed r := by
  exact h.sinks s (List.mem_of_getElem? (Option.join_eq_some_iff.mp hs))

theorem Invariant.withMemory (h : w.Invariant r n) (hm : m.Consistent r k) :
    World.Invariant r k { w with memory := m } :=
  ⟨hm, h.sinks⟩

/-- Sinks are replaced by sinks at the same place, or used up. Writing and committing do no more to
the open sinks. -/
theorem Invariant.set (h : w.Invariant r n) {i : Nat} {o : Option MemorySink}
    (ho : ∀ s, o = some s → s.Placed r) :
    World.Invariant r n { w with sinks := w.sinks.set i o } := by
  refine ⟨h.memory, ?_⟩
  intro s hs
  rcases List.mem_or_eq_of_mem_set hs with hs | hs
  · exact h.sinks s hs
  · exact ho s hs.symm

theorem Invariant.without (h : w.Invariant r n) (i : Nat) : (w.without i).Invariant r n :=
  h.set (by simp)

/-- **Calls keep the invariant**, those that fail included. Only an insert raises the bound on the
identities, since the other calls give none away. -/
theorem Invariant.step (h : w.Invariant r n) (hr : r.Resolved) {c : Call} (hc : c.UsesTypesOf r) :
    (w.step c).Invariant r (if c.isInsert then n + 1 else n) := by
  cases c with
  | insert record => exact h.withMemory (h.memory.insert hr hc)
  | update record =>
    refine h.withMemory (h.memory.change ?_)
    intro stored m' hm
    exact h.memory.update hr hc hm
  | delete t id =>
    refine h.withMemory (h.memory.change ?_)
    intro _ m' hm
    obtain ⟨_, hm, ⟨⟩⟩ := Outcome.map_eq_ok_iff.mp hm
    exact h.memory.delete hr hc hm
  | openSink t id name =>
    rw [step_openSink]
    cases hs : w.memory.openSink t id name with
    | error e => exact h
    | ok s =>
      refine ⟨h.memory, ?_⟩
      intro s' hs'
      rcases List.mem_append.mp hs' with hs' | hs'
      · exact h.sinks s' hs'
      · obtain rfl : s' = s := by simpa using hs'
        exact placed_of_openSink hc hs
  | write i chunk =>
    cases hs : w.sink? i with
    | none =>
      rw [step_write_of_closed w hs]
      exact h
    | some s =>
      rw [step_write w hs]
      -- a write leaves the place that the sink leads to
      refine h.set ?_
      rintro _ ⟨⟩
      exact h.sink (s := s) hs
  | commit i =>
    cases hs : w.sink? i with
    | none =>
      rw [step_commit_of_closed w hs]
      exact h
    | some s =>
      rw [step_commit w hs]
      refine (h.withMemory (h.memory.change ?_)).without i
      intro size m' hm
      exact h.memory.commit hr (h.sink hs) hm
  | drop i => exact h.without i
  | openSource t id name =>
    rw [step_openSource]
    cases w.memory.content t id name with
    | error e => exact h
    | ok s => exact ⟨h.memory, h.sinks⟩
  | read i most =>
    cases hs : w.sources[i]? with
    | none =>
      rw [step_read_of_closed w hs]
      exact h
    | some rest =>
      rw [step_read w hs]
      exact ⟨h.memory, h.sinks⟩

/-- A run of calls, by induction from its first one: the step lemma applies to each state on the
way, and the bound grows with the inserts. -/
theorem Invariant.foldl (h : w.Invariant r n) (hr : r.Resolved) {calls : List Call}
    (hcalls : ∀ c ∈ calls, c.UsesTypesOf r) :
    (calls.foldl World.step w).Invariant r (n + calls.countP Call.isInsert) := by
  induction calls generalizing w n with
  | nil => exact h
  | cons c calls ih =>
    obtain ⟨hc, hcalls⟩ := List.forall_mem_cons.mp hcalls
    have hrest := ih (h.step hr hc) hcalls
    rw [List.foldl_cons, List.countP_cons]
    convert hrest using 1
    split <;> omega

end World

/-- Every state of a run has the invariant, since the empty store has it. -/
theorem invariant_run (hr : r.Resolved) {calls : List Call} (hcalls : ∀ c ∈ calls, c.UsesTypesOf r) :
    (run calls).Invariant r (calls.countP Call.isInsert) := by
  simpa [run] using (World.invariant_empty r).foldl hr hcalls

/-- **Runs keep values and content together.** Every row has a value for every attribute, and is
stored under its identity, which was given away to it alone. The value of a blob attribute is the
length of its content, and `null` exactly if there is no content; nothing else has content. No
table gives away more identities than records were inserted. -/
theorem consistent_run {d : Schema.Document} (hd : Registry.ofDocument d = .ok r)
    {calls : List Call} (hcalls : ∀ c ∈ calls, c.UsesTypesOf r) {entity : String} {table : Table}
    (htable : (entity, table) ∈ (run calls).memory.tables) :
    ∃ t ∈ r.types, t.name = entity ∧
      table.lastId ≤ calls.countP Call.isInsert ∧ (table.rows.map Prod.fst).Nodup ∧
      ∀ id row, (id, row) ∈ table.rows →
        1 ≤ id ∧ id ≤ table.lastId ∧
        row.values.length = t.attributes.length ∧
        row.values[t.identity]? = some (.integer id) ∧
        (∀ i a, t.attributes[i]? = some a → a.kind = .blob →
          (∀ size, row.values[i]? = some (.blob size) ↔
            ∃ c, row.content i = some c ∧ c.length = size) ∧
          (row.values[i]? = some .null ↔ row.content i = none)) ∧
        ∀ i, (∀ a, t.attributes[i]? = some a → a.kind ≠ .blob) → row.content i = none := by
  have hinvariant := invariant_run (Registry.resolved_of_ofDocument hd) hcalls
  obtain ⟨t, ht, hname, hconsistent⟩ := hinvariant.memory entity table htable
  refine ⟨t, ht, hname, hconsistent.lastId_le, hconsistent.nodup_ids, ?_⟩
  intro id row hrow
  obtain ⟨hpos, hle, hrow⟩ := hconsistent.rows id row hrow
  refine ⟨hpos, hle, hrow.length_values, hrow.identity, ?_, ?_⟩
  · intro i a ha hblob
    exact ⟨hrow.blob_iff ha hblob, hrow.null_iff ha hblob⟩
  · intro i hi
    exact hrow.content_eq_none hi

/-- The second photo has three bytes of content after all calls. -/
theorem consistent_run_photo :
    Registry.ofDocument album = .ok ⟨[photo]⟩ ∧
      (∀ c ∈ photo.calls, c.UsesTypesOf ⟨[photo]⟩) ∧
      ∃ table row, ("Photo", table) ∈ (run photo.calls).memory.tables ∧ (2, row) ∈ table.rows ∧
        row.values = [.integer 2, .blob 3, .text "sea.png"] ∧
        ∃ c, row.content 1 = some c ∧ c.length = 3 := by
  have halbum : Registry.ofDocument album = .ok ⟨[photo]⟩ := rfl
  have hcalls : ∀ c ∈ photo.calls, c.UsesTypesOf ⟨[photo]⟩ := by
    simp [photo.calls, Call.UsesTypesOf, photo.claimed]
  have htable : ("Photo", Table.mk 2 [(2, ⟨[.integer 2, .blob 3, .text "sea.png"],
      [none, some [1, 2, 3], none]⟩)]) ∈ (run photo.calls).memory.tables :=
    List.mem_cons_self
  refine ⟨halbum, hcalls, _, _, htable, List.mem_cons_self, rfl, ?_⟩
  obtain ⟨t, ht, -, -, -, hrows⟩ := consistent_run halbum hcalls htable
  obtain rfl := List.mem_singleton.mp ht
  obtain ⟨-, -, -, -, hblob, -⟩ := hrows 2 _ List.mem_cons_self
  exact ((hblob 1 _ rfl rfl).1 3).mp rfl

end Memory

end RecordService
