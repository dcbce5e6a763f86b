import RecordService.Proofs.Store.Invariant

/-!
# Rows after a change

Which row is found under an identity once the store has changed: a change of one record is seen
under its own identity only, and only in the table of its own entity. The binary content of a row
stays through every change but a commit, and a commit replaces it at one position.

* `RecordService.Table.row?_append`, `RecordService.Table.row?_modify`,
  `RecordService.Table.row?_erase`: the changes of a table.
* `RecordService.Memory.row?_insert`, `RecordService.Memory.row?_update`,
  `RecordService.Memory.row?_delete`, `RecordService.Memory.row?_commit`: the changes of the store.
* `RecordService.Memory.get_commit`: the records after a commit.
* `RecordService.Memory.content_of_insert`, `RecordService.Memory.content_of_update`,
  `RecordService.Memory.content_of_delete`, `RecordService.Memory.content_of_commit`: where the
  content of an attribute comes from.
-/

namespace RecordService

/-- Another value among the values of a record, which is how a commit shows up in the record. -/
theorem Record.ofValues_set {t : RecordType} {values : List Value}
    (h : values.length = t.attributes.length) (i : Nat) (v : Value) :
    ofValues t (values.set i v) = (ofValues t values).setAt i v := by
  simp [ofValues, setAt, ← h]

/-! ### Tables -/

namespace Table

/-- Looking up an identity in rows with one more in front. The conditions are equations of
identities, so that later proofs split on these and not on comparisons. -/
theorem lookup_cons_eq_ite (i : Int) (row : Row) (rows : List (Int × Row)) (id : Int) :
    ((i, row) :: rows).lookup id = if id = i then some row else rows.lookup id := by
  by_cases h : id = i
  · simp [h]
  · simp [List.lookup_cons, h, beq_false_of_ne h]

variable (t : Table)

/-- Behind an insert, rows of before are found first, and the new one under the next identity. -/
theorem row?_append (f : Int → Row) (id : Int) :
    (t.append f).row? id =
      (t.row? id).or (if id = t.lastId + 1 then some (f (t.lastId + 1)) else none) := by
  unfold row? append
  rw [List.lookup_append, lookup_cons_eq_ite, List.lookup_nil]

/-- A change of one row is seen under its identity only. -/
theorem row?_modify (k : Int) (f : Row → Row) (id : Int) :
    (t.modify k f).row? id = if id = k then (t.row? id).map f else t.row? id := by
  unfold row? modify
  generalize t.rows = rows
  induction rows with
  | nil => simp
  | cons p rows ih =>
    obtain ⟨i, row⟩ := p
    rw [List.map_cons, lookup_cons_eq_ite]
    by_cases hik : i = k
    · simp only [hik, if_true, lookup_cons_eq_ite, ih]
      split <;> simp
    · simp only [hik, if_false, lookup_cons_eq_ite, ih]
      split <;> simp_all

/-- Changes of a row that do the same to the rows there are. What they would do to other rows does
not matter. -/
theorem modify_congr {t : Table} {i : Int} {f g : Row → Row}
    (h : ∀ row, (i, row) ∈ t.rows → f row = g row) : t.modify i f = t.modify i g := by
  unfold modify
  congr 1
  refine List.map_congr_left fun (k, row) hmem => ?_
  dsimp only
  split
  · next hk => rw [h row (hk ▸ hmem)]
  · rfl

/-- A change that does nothing to the rows there are leaves the table. So saving what is stored has
no effect. -/
theorem modify_eq_self {t : Table} {i : Int} {f : Row → Row}
    (h : ∀ row, (i, row) ∈ t.rows → f row = row) : t.modify i f = t := by
  rw [modify_congr (g := fun row => row) h, modify]
  simp

/-- A removal is seen under its identity only. -/
theorem row?_erase (k id : Int) :
    (t.erase k).row? id = if id = k then none else t.row? id := by
  unfold row? erase
  dsimp only
  generalize t.rows = rows
  induction rows with
  | nil => simp
  | cons p rows ih =>
    obtain ⟨i, row⟩ := p
    rw [List.filter_cons, lookup_cons_eq_ite]
    by_cases hik : i = k
    · simp only [hik, bne_self_eq_false, Bool.false_eq_true, if_false, ih]
      split <;> simp_all
    · have hbne : (i != k) = true := by simpa using hik
      simp only [hbne, if_true, lookup_cons_eq_ite, ih]
      split <;> simp_all

/-- An identity that was not given away yet has no row, so an insert overwrites nothing. -/
theorem Consistent.row?_next {t : Table} {u : RecordType} {n : Nat} (h : t.Consistent u n) :
    t.row? (t.lastId + 1) = none := by
  cases hrow : t.row? (t.lastId + 1) with
  | none => rfl
  | some row =>
    have hle := (h.rows _ _ (h.row?_eq_some_iff.mp hrow)).2.1
    omega

end Table

/-! ### The store -/

namespace Memory

variable {r : Registry} {n : Nat} {m m' : Memory}

/-- The rows of one type change with its table, and those of all others stay. -/
theorem row?_withTable (m : Memory) (entity : String) (table : Table) (u : RecordType) (id : Int) :
    (m.withTable entity table).row? u id = if u.name = entity then table.row? id else m.row? u id := by
  unfold Memory.row?
  rw [table_withTable]
  split <;> rfl

/-- The identity that the next record of a type is given. -/
def nextId (m : Memory) (t : RecordType) : Int := (m.table t.name).lastId + 1

/-- The row that a new record is kept in. -/
def freshRow (record : Record) (id : Int) : Row :=
  ⟨freshValues record id, List.replicate record.type.attributes.length none⟩

/-- A new record has the identity that was next, whatever identity it was given with. -/
theorem id_insert (hr : r.Resolved) {record : Record} (ht : record.type ∈ r.types) (m : Memory) :
    (m.insert record).1.id = some (m.nextId record.type) := by
  obtain ⟨a, ha, -⟩ := hr.identity record.type ht
  have hlt : record.type.identity < record.type.attributes.length :=
    (List.getElem?_eq_some_iff.mp ha).1
  have hvalue : (freshValues record (m.nextId record.type))[record.type.identity]? =
      some (.integer (m.nextId record.type)) := by
    simp [freshValues, record.length_values, hlt]
  have hvalues : (m.insert record).1.values = freshValues record (m.nextId record.type) :=
    Record.values_ofValues (by simp [freshValues, record.length_values])
  have htype : (m.insert record).1.type = record.type := rfl
  simp only [Record.id, hvalues, htype, hvalue]

/-- A new record is found under the identity that was next, unless there was a row already. This
form holds of every store; in a consistent one there was none. -/
theorem row?_insert_eq_or (m : Memory) (record : Record) (u : RecordType) (id : Int) :
    (m.insert record).2.row? u id =
      (m.row? u id).or (if u.name = record.type.name ∧ id = m.nextId record.type then
        some (freshRow record id) else none) := by
  unfold insert
  dsimp only
  rw [row?_withTable, Table.row?_append]
  by_cases hname : u.name = record.type.name
  · by_cases hid : id = m.nextId record.type
    · subst hid
      simp [hname, nextId, Memory.row?, freshRow]
    · have hid' : ¬ id = (m.table record.type.name).lastId + 1 := hid
      simp [hname, hid, hid', Memory.row?]
  · simp [hname]

theorem row?_insert (h : m.Consistent r n) (hr : r.Resolved) {record : Record}
    (ht : record.type ∈ r.types) (u : RecordType) (id : Int) :
    (m.insert record).2.row? u id =
      if u.name = record.type.name ∧ id = m.nextId record.type then some (freshRow record id)
      else m.row? u id := by
  have hnext := (h.table hr ht).row?_next
  rw [row?_insert_eq_or]
  split
  · next hnew =>
    obtain ⟨hname, rfl⟩ := hnew
    have hnone : m.row? u (m.nextId record.type) = none := by
      rw [Memory.row?, hname]
      exact hnext
    rw [hnone, Option.none_or]
  · rw [Option.or_none]

/-- An update changes the values of one row. It leaves its content, and all other rows. -/
theorem row?_update {record stored : Record} (hm : m.update record = .ok (stored, m')) :
    ∃ id old, record.id = some id ∧ m.row? record.type id = some old ∧ ∀ u k, m'.row? u k =
      if u.name = record.type.name ∧ k = id then
        (m.row? u k).map fun row =>
          { row with values := mergedValues record.type old.values record.values }
      else m.row? u k := by
  obtain ⟨id, old, hid, hold, rfl⟩ := update_eq_ok hm
  refine ⟨id, old, hid, hold, fun u k => ?_⟩
  rw [row?_withTable, Table.row?_modify]
  by_cases hname : u.name = record.type.name
  · simp [hname, Memory.row?]
  · simp [hname]

theorem row?_delete {t : RecordType} {id : Int} (hm : m.delete t id = .ok m') (u : RecordType)
    (k : Int) : m'.row? u k = if u.name = t.name ∧ k = id then none else m.row? u k := by
  rw [delete_eq_ok hm, row?_withTable, Table.row?_erase]
  by_cases hname : u.name = t.name
  · simp [hname, Memory.row?]
  · simp [hname]

/-- A commit changes one row, at one position, where it puts both the content and its length. -/
theorem row?_commit {s : MemorySink} {size : Nat} (hm : m.commit s = .ok (size, m'))
    (u : RecordType) (k : Int) :
    m'.row? u k =
      if u.name = s.entity ∧ k = s.id then
        (m.row? u k).map fun row =>
          { values := row.values.set s.index (.blob size)
            contents := row.contents.set s.index (some s.staged) }
      else m.row? u k := by
  rw [commit_eq_ok hm, row?_withTable, Table.row?_modify]
  by_cases hname : u.name = s.entity
  · simp [hname, Memory.row?]
  · simp [hname]

/-! ### Records -/

section Records

variable {t u : RecordType} {id : Int} {x : Record}

/-- A stored record has the values of its row. The content is not part of the record: this is read
through a source. -/
theorem row_of_get (h : m.Consistent r n) (hr : r.Resolved) (ht : t ∈ r.types)
    (hx : m.get t id = some x) :
    ∃ row, m.row? t id = some row ∧ row.Consistent t id ∧ x.type = t ∧ x.values = row.values := by
  obtain ⟨row, hrow, rfl⟩ := Option.map_eq_some_iff.mp hx
  have htable := h.table hr ht
  have hconsistent := (htable.rows id row (htable.row?_eq_some_iff.mp hrow)).2.2
  exact ⟨row, hrow, hconsistent, rfl, Record.values_ofValues hconsistent.length_values⟩

/-- A record is stored under its identity. So what a client reads in a record addresses it. -/
theorem id_of_get (h : m.Consistent r n) (hr : r.Resolved) (ht : t ∈ r.types)
    (hx : m.get t id = some x) : x.id = some id := by
  obtain ⟨row, -, hconsistent, htype, hvalues⟩ := row_of_get h hr ht hx
  have hidentity : x.values[x.type.identity]? = some (.integer id) := by
    rw [hvalues, htype]
    exact hconsistent.identity
  rw [Record.id, hidentity]

/-- A commit changes one value of one record: the length that stands for its content. -/
theorem get_commit (h : m.Consistent r n) (hr : r.Resolved) {s : MemorySink} {size : Nat}
    (hm : m.commit s = .ok (size, m')) (hu : u ∈ r.types) (k : Int) :
    m'.get u k = if u.name = s.entity ∧ k = s.id then
      (m.get u k).map fun x => x.setAt s.index (.blob size) else m.get u k := by
  unfold Memory.get
  rw [row?_commit hm]
  split
  · cases hrow : m.row? u k with
    | none => rfl
    | some row =>
      have htable := h.table hr hu
      have hrow := (htable.rows k row (htable.row?_eq_some_iff.mp hrow)).2.2
      exact congrArg some (Record.ofValues_set hrow.length_values s.index _)
  · rfl

end Records

/-! ### Binary content -/

section Content

variable {t u : RecordType} {id : Int} {name : String} {content : Option Bytes}

/-- Attributes are told apart by their positions, so a sink for one attribute does not write to
another. -/
theorem eq_of_blobIndex {other : String} {i : Nat} (hi : blobIndex t name = .ok i)
    (hother : blobIndex t other = .ok i) : name = other := by
  obtain ⟨a, ha, rfl, -⟩ := blobIndex_eq_ok hi
  obtain ⟨b, hb, rfl, -⟩ := blobIndex_eq_ok hother
  rw [ha] at hb
  rw [Option.some.inj hb]

/-- The content of an attribute is what its row holds at the position of the name. -/
theorem content_eq_ok_iff :
    m.content t id name = .ok content ↔
      ∃ i row, blobIndex t name = .ok i ∧ m.row? t id = some row ∧ row.content i = content := by
  unfold Memory.content
  constructor
  · intro hc
    obtain ⟨i, hi, hc⟩ := Outcome.bind_eq_ok_iff.mp hc
    split at hc
    · rename_i row hrow
      exact ⟨i, row, hi, hrow, Except.ok.inj hc⟩
    · simp at hc
  · rintro ⟨i, row, hi, hrow, rfl⟩
    exact Outcome.bind_eq_ok_iff.mpr ⟨i, hi, by simp [hrow, Row.content]⟩

/-- A new record has no content, and the others have the content of before. -/
theorem content_of_insert (h : m.Consistent r n) (hr : r.Resolved) {record : Record}
    (hrecord : record.type ∈ r.types) (ht : t ∈ r.types)
    (hcontent : (m.insert record).2.content t id name = .ok content) :
    t = record.type ∧ id = m.nextId record.type ∧ content = none ∨
      ¬(t = record.type ∧ id = m.nextId record.type) ∧ m.content t id name = .ok content := by
  obtain ⟨i, row, hi, hrow, rfl⟩ := content_eq_ok_iff.mp hcontent
  rw [row?_insert h hr hrecord] at hrow
  split at hrow
  · rename_i hnew
    cases hrow
    refine .inl ⟨hr.eq_of_name ht hrecord hnew.1, hnew.2, ?_⟩
    simp only [Row.content, freshRow, List.getD_eq_getElem?_getD, List.getElem?_replicate]
    split <;> rfl
  · rename_i hother
    refine .inr ⟨?_, content_eq_ok_iff.mpr ⟨i, row, hi, hrow, rfl⟩⟩
    rintro ⟨rfl, rfl⟩
    exact hother ⟨rfl, rfl⟩

/-- An update leaves the content of all records, that of the updated one included. -/
theorem content_of_update {record stored : Record} (hm : m.update record = .ok (stored, m'))
    (hcontent : m'.content t id name = .ok content) : m.content t id name = .ok content := by
  obtain ⟨k, old, -, -, hrows⟩ := row?_update hm
  obtain ⟨i, row, hi, hrow, rfl⟩ := content_eq_ok_iff.mp hcontent
  rw [hrows] at hrow
  split at hrow
  · obtain ⟨before, hbefore, rfl⟩ := Option.map_eq_some_iff.mp hrow
    exact content_eq_ok_iff.mpr ⟨i, before, hi, hbefore, rfl⟩
  · exact content_eq_ok_iff.mpr ⟨i, row, hi, hrow, rfl⟩

/-- Deleting a record leaves the content of the others. -/
theorem content_of_delete {k : Int} (hm : m.delete u k = .ok m')
    (hcontent : m'.content t id name = .ok content) : m.content t id name = .ok content := by
  obtain ⟨i, row, hi, hrow, rfl⟩ := content_eq_ok_iff.mp hcontent
  rw [row?_delete hm] at hrow
  split at hrow
  · simp at hrow
  · exact content_eq_ok_iff.mpr ⟨i, row, hi, hrow, rfl⟩

/-- A commit puts what was written in place. The value of the attribute is its length from then on,
by consistency. -/
theorem content_commit_self {s : MemorySink} {size : Nat} (hm : m.commit s = .ok (size, m'))
    (hentity : s.entity = t.name) {row : Row} (hrow : m.row? t s.id = some row)
    (hconsistent : row.Consistent t s.id) {name : String} (hi : blobIndex t name = .ok s.index) :
    m'.content t s.id name = .ok (some s.staged) := by
  obtain ⟨a, ha, -⟩ := blobIndex_eq_ok hi
  have hlt : s.index < row.contents.length := by
    rw [hconsistent.length_contents]
    exact (List.getElem?_eq_some_iff.mp ha).1
  have hplaced : m'.row? t s.id = some
      { values := row.values.set s.index (.blob size)
        contents := row.contents.set s.index (some s.staged) } := by
    rw [row?_commit hm, if_pos ⟨hentity.symm, rfl⟩, hrow, Option.map_some]
  exact content_eq_ok_iff.mpr ⟨s.index, _, hi, hplaced, by simp [Row.content, hlt]⟩

/-- A commit leaves all content but that of the attribute its sink leads to. -/
theorem content_commit {s : MemorySink} {size : Nat} (hm : m.commit s = .ok (size, m'))
    (hne : ¬(t.name = s.entity ∧ id = s.id ∧ blobIndex t name = .ok s.index)) :
    m'.content t id name = m.content t id name := by
  unfold Memory.content
  cases hi : blobIndex t name with
  | error e => rfl
  | ok i =>
    rw [row?_commit hm]
    by_cases hplace : t.name = s.entity ∧ id = s.id
    · have hindex : s.index ≠ i := by
        rintro rfl
        exact hne ⟨hplace.1, hplace.2, hi⟩
      rw [if_pos hplace]
      cases m.row? t id with
      | none => rfl
      | some row =>
        refine congrArg Except.ok ?_
        simp only [List.getD_eq_getElem?_getD, List.getElem?_set_ne hindex]
    · rw [if_neg hplace]

/-- A commit replaces the content of the attribute that its sink was opened for, and no other. -/
theorem content_of_commit (h : m.Consistent r n) (hr : r.Resolved) {s : MemorySink} {size : Nat}
    {other : String} (hm : m.commit s = .ok (size, m')) (hu : u ∈ r.types)
    (hentity : s.entity = u.name) (hindex : blobIndex u other = .ok s.index) (ht : t ∈ r.types)
    (hcontent : m'.content t id name = .ok content) :
    (t = u ∧ id = s.id ∧ name = other) ∧ content = some s.staged ∨
      ¬(t = u ∧ id = s.id ∧ name = other) ∧ m.content t id name = .ok content := by
  by_cases hplace : t = u ∧ id = s.id ∧ name = other
  · obtain ⟨rfl, rfl, rfl⟩ := hplace
    obtain ⟨i, placed, -, hplaced, -⟩ := content_eq_ok_iff.mp hcontent
    rw [row?_commit hm, if_pos ⟨hentity.symm, rfl⟩] at hplaced
    obtain ⟨row, hrow, -⟩ := Option.map_eq_some_iff.mp hplaced
    have htable := h.table hr ht
    have hconsistent := (htable.rows _ _ (htable.row?_eq_some_iff.mp hrow)).2.2
    rw [content_commit_self hm hentity hrow hconsistent hindex] at hcontent
    exact .inl ⟨⟨rfl, rfl, rfl⟩, (Except.ok.inj hcontent).symm⟩
  · refine .inr ⟨hplace, ?_⟩
    rwa [content_commit hm] at hcontent
    rintro ⟨hname, rfl, hi⟩
    obtain rfl := hr.eq_of_name ht hu (hname.trans hentity)
    exact hplace ⟨rfl, rfl, eq_of_blobIndex hi hindex⟩

end Content

end Memory

end RecordService
