import RecordService.Proofs.Store.Identity

/-!
# Changes of different data commute

Two changes of the store that are about different data can be made in either order: they leave the
same tables, and each of them succeeds or fails as it would without the other
(`RecordService.Memory.mutations_commute`). Different data are different records, the new record and
one that is there already, and within one record the values and the content, and the contents of
different attributes. So an edit that crosses an upload loses nothing of either.

Every change is one of a single table: it adds a row, changes the row of an identity, or removes it.
Which of these commute is settled for tables, and what a change does to the row of an identity is a
function of that row.

* `RecordService.Table.modify_comm`, `RecordService.Table.modify_erase`,
  `RecordService.Table.append_modify`, `RecordService.Table.append_erase`: changes of one table.
* `RecordService.Row.placed_updated`, `RecordService.Row.placed_placed`: changes of one row.
* `RecordService.Memory.Mutation`, `RecordService.Memory.Mutation.Apart`: the changes, and which of
  them are about different data.
* `RecordService.Memory.World.Makes`: the change that a call is about to make.
* `RecordService.Memory.World.Makes.table_step`: what the call does to the tables.
-/

namespace RecordService

/-! ### Tables -/

namespace Table

variable {i j : Int} {f g : Row → Row}

/-- Changes of rows commute, unless they are about the same row and do not commute there. So all
that is left to prove is about one row. -/
theorem modify_comm (t : Table) (h : i = j → ∀ row, f (g row) = g (f row)) :
    (t.modify i f).modify j g = (t.modify j g).modify i f := by
  simp only [Table.modify, List.map_map, Table.mk.injEq, true_and]
  refine List.map_congr_left fun p _ => ?_
  by_cases hi : p.1 = i
  · by_cases hj : p.1 = j
    · simp [← hi, ← hj, h (hi.symm.trans hj)]
    · simp [hi, show i ≠ j from fun hij => hj (hi.trans hij)]
  · by_cases hj : p.1 = j
    · simp [hj, show j ≠ i from fun hji => hi (hj.trans hji)]
    · simp [hi, hj]

/-- Removing a row and changing one commute, also if it is the same row, which is gone in the end.
-/
theorem modify_erase (t : Table) (i j : Int) (f : Row → Row) :
    (t.modify i f).erase j = (t.erase j).modify i f := by
  simp only [Table.modify, Table.erase, List.filter_map, Table.mk.injEq, true_and]
  congr 1
  refine List.filter_congr fun p _ => ?_
  simp only [Function.comp_apply]
  split <;> rfl

theorem erase_comm (t : Table) (i j : Int) : (t.erase i).erase j = (t.erase j).erase i := by
  simp only [Table.erase, List.filter_filter, Bool.and_comm]

/-- A new row is not the one that is changed, because the change is about an identity that was given
away before. -/
theorem append_modify (t : Table) (hi : i ≤ t.lastId) (new : Int → Row) :
    (t.append new).modify i f = (t.modify i f).append new := by
  have hne : t.lastId + 1 ≠ i := by omega
  simp [Table.append, Table.modify, hne]

/-- A new row is not the one that is removed, which has an identity that was given away before. -/
theorem append_erase (t : Table) (hi : i ≤ t.lastId) (new : Int → Row) :
    (t.append new).erase i = (t.erase i).append new := by
  have hne : t.lastId + 1 ≠ i := by omega
  simp [Table.append, Table.erase, hne]

/-- Nothing is changed where there is no row. A change that comes behind the removal of its row is
of this kind. -/
theorem modify_of_forall_not_mem {t : Table} (h : ∀ row, (i, row) ∉ t.rows) (f : Row → Row) :
    t.modify i f = t :=
  modify_eq_self fun row hrow => absurd hrow (h row)

end Table

/-! ### Rows -/

namespace Row

/-- A row with the values of a record. Its content, and the values that show it, stay. -/
def updated (record : Record) (row : Row) : Row :=
  { row with values := Memory.mergedValues record.type row.values record.values }

/-- A row with the content of a sink in its place, and the value that shows it. -/
def placed (s : MemorySink) (row : Row) : Row where
  values := row.values.set s.index (.blob s.staged.length)
  contents := row.contents.set s.index (some s.staged)

/-- **Values and content of one row** can be changed in either order. The update skips the binary
attributes, and the content goes to one of them. -/
theorem placed_updated {record : Record} {s : MemorySink} {a : Attribute}
    (ha : record.type.attributes[s.index]? = some a) (hblob : a.kind = .blob) (row : Row) :
    placed s (updated record row) = updated record (placed s row) := by
  have hvalues (v : Value) :
      (Memory.mergedValues record.type row.values record.values).set s.index v =
        Memory.mergedValues record.type (row.values.set s.index v) record.values := by
    refine List.ext_getElem? fun j => ?_
    simp only [Memory.mergedValues, List.getElem?_set, List.getElem?_map, List.zip,
      List.getElem?_zipWith]
    by_cases hj : s.index = j
    · subst hj
      obtain ⟨hattribute, rfl⟩ := List.getElem?_eq_some_iff.mp ha
      have hgiven : s.index < record.values.length := by rwa [record.length_values]
      by_cases hstored : s.index < row.values.length
      · simp [hattribute, hgiven, hstored, hblob]
      · simp only [hstored, if_true, if_false, List.length_map, List.length_zipWith]
        rw [if_neg (by omega)]
        simp
    · simp [hj]
  simp only [placed, updated, hvalues]

/-- **Contents of different attributes** can be put in place in either order, since they go to
different positions. -/
theorem placed_placed {s u : MemorySink} (h : s.index ≠ u.index) (row : Row) :
    placed s (placed u row) = placed u (placed s row) := by
  simp only [placed, Row.mk.injEq]
  exact ⟨List.set_comm _ _ h.symm, List.set_comm _ _ h.symm⟩

end Row

namespace Memory

/-! ### Mutations -/

/-- A change of the store: a new record, other values of a record, a record less, or other content
of a record. -/
inductive Mutation where
  | insert (record : Record)
  | update (record : Record) (id : Int)
  | delete (t : RecordType) (id : Int)
  | commit (s : MemorySink)

namespace Mutation

/-- The entity whose table is changed. -/
def entity : Mutation → String
  | insert record => record.type.name
  | update record _ => record.type.name
  | delete t _ => t.name
  | commit s => s.entity

/-- The identity of the row that is changed, unless the row is a new one. -/
def id? : Mutation → Option Int
  | insert _ => none
  | update _ id => some id
  | delete _ id => some id
  | commit s => some s.id

/-- What is done to the table. -/
def edit : Mutation → Table → Table
  | insert record, t => t.append (freshRow record)
  | update record id, t => t.modify id (Row.updated record)
  | delete _ id, t => t.erase id
  | commit s, t => t.modify s.id (Row.placed s)

/-- **Whether two changes are about different data**: new rows of different entities, a new row and
one that is there, different rows, values and content, or contents of different attributes. -/
def Apart : Mutation → Mutation → Prop
  | insert record, insert other => record.type.name ≠ other.type.name
  | insert _, _ => True
  | _, insert _ => True
  | update _ _, commit _ => True
  | commit _, update _ _ => True
  | commit s, commit u => (s.entity, s.id) ≠ (u.entity, u.id) ∨ s.index ≠ u.index
  | μ, ν => (μ.entity, μ.id?) ≠ (ν.entity, ν.id?)

/-- Whether a change is one of a record type of a registry. -/
def UsesTypesOf (r : Registry) : Mutation → Prop
  | insert record => record.type ∈ r.types
  | update record _ => record.type ∈ r.types
  | delete t _ => t ∈ r.types
  | commit s => s.Placed r

variable {r : Registry} {μ ν : Mutation} {t : Table} {i j : Int}

theorem Apart.symm (h : μ.Apart ν) : ν.Apart μ := by
  cases μ <;> cases ν <;> first | exact Ne.symm h | exact h | exact trivial | skip
  exact h.imp Ne.symm Ne.symm

/-- **Changes of different data commute** on the table that both are about. The cases are the pairs
of kinds of changes, and each is one of the lemmas on tables above. -/
theorem edit_comm (hr : r.Resolved) (h : μ.Apart ν) (hentity : μ.entity = ν.entity)
    (hμ : μ.UsesTypesOf r) (hν : ν.UsesTypesOf r) (hμt : ∀ id, μ.id? = some id → id ≤ t.lastId)
    (hνt : ∀ id, ν.id? = some id → id ≤ t.lastId) :
    ν.edit (μ.edit t) = μ.edit (ν.edit t) := by
  -- an update and a commit of one row
  have hcross (record : Record) (id : Int) (s : MemorySink) (hname : record.type.name = s.entity)
      (htype : record.type ∈ r.types) (hs : s.Placed r) :
      (t.modify id (Row.updated record)).modify s.id (Row.placed s) =
        (t.modify s.id (Row.placed s)).modify id (Row.updated record) := by
    obtain ⟨u, hu, hsname, a, ha, hblob⟩ := hs
    obtain rfl := hr.eq_of_name htype hu (hname.trans hsname.symm)
    exact t.modify_comm fun _ row => (Row.placed_updated ha hblob row).symm
  cases μ with
  | insert record =>
    cases ν with
    | insert other => exact absurd hentity h
    | update other id => exact t.append_modify (hνt id rfl) _
    | delete u id => exact t.append_erase (hνt id rfl) _
    | commit s => exact t.append_modify (hνt s.id rfl) _
  | update record id =>
    cases ν with
    | insert other => exact (t.append_modify (hμt id rfl) _).symm
    | update other k =>
      have hne : id ≠ k := fun hid => h (by rw [hentity, hid]; rfl)
      exact t.modify_comm fun hid => absurd hid hne
    | delete u k => exact t.modify_erase _ _ _
    | commit s => exact hcross record id s hentity hμ hν
  | delete u id =>
    cases ν with
    | insert other => exact (t.append_erase (hμt id rfl) _).symm
    | update other k => exact (t.modify_erase _ _ _).symm
    | delete v k => exact t.erase_comm _ _
    | commit s => exact (t.modify_erase _ _ _).symm
  | commit s =>
    cases ν with
    | insert other => exact (t.append_modify (hμt s.id rfl) _).symm
    | update other k => exact (hcross other k s hentity.symm hν hμ).symm
    | delete u k => exact t.modify_erase _ _ _
    | commit u =>
      refine t.modify_comm fun hid row => Row.placed_placed ?_ row
      exact h.resolve_left fun hne => hne (Prod.ext hentity hid)

/-- A change of other data neither adds nor removes the row that is changed, so a call succeeds
behind it exactly if it would have succeeded in front of it. -/
theorem isSome_row?_edit (h : μ.Apart ν) (hentity : μ.entity = ν.entity) (hj : ν.id? = some j)
    (hle : j ≤ t.lastId) : ((μ.edit t).row? j).isSome = (t.row? j).isSome := by
  cases μ with
  | insert record =>
    have hne : j ≠ t.lastId + 1 := by omega
    simp only [edit, Table.row?_append, if_neg hne, Option.or_none]
  | update record id =>
    simp only [edit, Table.row?_modify]
    split <;> simp
  | commit s =>
    simp only [edit, Table.row?_modify]
    split <;> simp
  | delete u id =>
    have hne : j ≠ id := by
      rintro rfl
      cases ν with
      | insert other => cases hj
      | update other k => exact h (Prod.ext hentity hj.symm)
      | delete v k => exact h (Prod.ext hentity hj.symm)
      | commit s => exact h (Prod.ext hentity hj.symm)
    simp only [edit, Table.row?_erase, if_neg hne]

end Mutation

/-- Whether a call succeeded. -/
def Answer.succeeded : Answer → Bool
  | record result => result.isOk
  | done result => result.isOk
  | sink result => result.isOk
  | length result => result.isOk
  | source result => result.isOk
  | bytes result => result.isOk
  | closed => false

/-- The sinks that a change leaves. A commit uses up its own. -/
def Call.useUp : Call → List (Option MemorySink) → List (Option MemorySink)
  | commit k, sinks => sinks.set k none
  | _, sinks => sinks

theorem Call.useUp_comm (b c : Call) (sinks : List (Option MemorySink)) :
    c.useUp (b.useUp sinks) = b.useUp (c.useUp sinks) := by
  cases b with
  | commit k =>
    cases c with
    | commit j =>
      by_cases hkj : k = j
      · rw [hkj]
      · exact List.set_comm _ _ hkj
    | _ => rfl
  | _ => rfl

namespace World

/-- The change that a call is about to make. The record must be there for an update and a removal,
and the sink must be open for a commit. -/
inductive Makes (w : World) : Call → Mutation → Prop
  | insert (record : Record) : Makes w (.insert record) (.insert record)
  | update {record : Record} {id : Int} (hid : record.id = some id)
      (hrow : (w.memory.row? record.type id).isSome) : Makes w (.update record) (.update record id)
  | delete {t : RecordType} {id : Int} (hrow : (w.memory.row? t id).isSome) :
      Makes w (.delete t id) (.delete t id)
  | commit {k : Nat} {s : MemorySink} (hs : w.sink? k = some s) : Makes w (.commit k) (.commit s)

/-- Whether two states are the same for clients: all tables, and what they have opened. -/
structure Same (v w : World) : Prop where
  tables : ∀ entity, v.memory.table entity = w.memory.table entity
  sinks : v.sinks = w.sinks
  sources : v.sources = w.sources

variable {r : Registry} {w : World} {b c : Call} {μ ν : Mutation} {n : Nat}

theorem Makes.usesTypesOf (h : w.Makes c μ) (hw : w.Invariant r n) (hc : c.UsesTypesOf r) :
    μ.UsesTypesOf r := by
  cases h with
  | insert record => exact hc
  | update hid hrow => exact hc
  | delete hrow => exact hc
  | commit hs => exact hw.sink hs

/-- An update of a record that is there changes its row. -/
theorem exists_update {record : Record} {id : Int} {m : Memory} (hm : m.Consistent r n)
    (hr : r.Resolved) (ht : record.type ∈ r.types) (hid : record.id = some id)
    (hrow : (m.row? record.type id).isSome) :
    ∃ stored, m.update record = .ok (stored, m.withTable record.type.name
      ((m.table record.type.name).modify id (Row.updated record))) := by
  obtain ⟨old, hold⟩ := Option.isSome_iff_exists.mp hrow
  have htable := hm.table hr ht
  -- the row that was looked up is the one that is changed
  have hedit := Table.modify_congr (t := m.table record.type.name) (i := id)
    (f := fun row => { row with values := mergedValues record.type old.values record.values })
    (g := Row.updated record) fun row hmem => by
      obtain rfl : old = row :=
        Option.some.inj (hold.symm.trans (htable.row?_eq_some_iff.mpr hmem))
      rfl
  rw [← hedit, Memory.update, hid]
  simp only [hold]
  exact ⟨_, rfl⟩

/-- Whether the row that a change is about is there, if it is not a new one. -/
def Finds (w : World) (μ : Mutation) : Prop :=
  ∀ id, μ.id? = some id → ((w.memory.table μ.entity).row? id).isSome

/-- A call changes the row that it finds, and succeeds. -/
theorem Makes.of_finds (h : w.Makes c μ) (hw : w.Invariant r n) (hr : r.Resolved)
    (hc : c.UsesTypesOf r) (hfinds : w.Finds μ) :
    (w.answer c).succeeded ∧
      (w.step c).memory = w.memory.withTable μ.entity (μ.edit (w.memory.table μ.entity)) := by
  cases h with
  | insert record => exact ⟨rfl, rfl⟩
  | @update record id hid hrow =>
    obtain ⟨stored, hm⟩ := exists_update hw.memory hr hc hid hrow
    have hrun := run_change_of_ok (f := fun m => m.update record) hm
    have hanswer : w.answer (.update record) =
        .record ((change fun m => m.update record).run.run w.memory).1 := rfl
    rw [hanswer, hrun]
    exact ⟨rfl, congrArg Prod.snd hrun⟩
  | @delete t id hrow =>
    have hm : (w.memory.delete t id).map ((), ·) =
        .ok ((), w.memory.withTable t.name ((w.memory.table t.name).erase id)) := by
      rw [Memory.delete, if_pos hrow]
      rfl
    have hrun := run_change_of_ok (f := fun m => (m.delete t id).map ((), ·)) hm
    rw [w.answer_delete, Memory.delete, if_pos hrow]
    exact ⟨rfl, congrArg Prod.snd hrun⟩
  | @commit k s hs =>
    have hm : w.memory.commit s = .ok (s.staged.length, w.memory.withTable s.entity
        ((w.memory.table s.entity).modify s.id (Row.placed s))) := by
      rw [Memory.commit]
      exact if_pos (hfinds s.id rfl)
    have hrun := run_change_of_ok (f := fun m => m.commit s) hm
    rw [w.answer_commit hs, w.step_commit hs, hrun]
    exact ⟨rfl, congrArg Prod.snd hrun⟩

/-- A call that does not find its row fails, and changes nothing. Only a commit can be too late: its
sink was opened earlier, and the record may have been removed since. -/
theorem Makes.of_not_finds (h : w.Makes c μ) (hfinds : ¬w.Finds μ) :
    (w.answer c).succeeded = false ∧ (w.step c).memory = w.memory ∧
      ∃ s, μ = .commit s ∧ (w.memory.table s.entity).row? s.id = none := by
  cases h with
  | insert record => exact absurd (by rintro id ⟨⟩) hfinds
  | update hid hrow => exact absurd (by rintro id ⟨⟩; exact hrow) hfinds
  | delete hrow => exact absurd (by rintro id ⟨⟩; exact hrow) hfinds
  | @commit k s hs =>
    have hrow : (w.memory.table s.entity).row? s.id = none := by
      by_contra hrow
      exact hfinds (by rintro id ⟨⟩; exact Option.isSome_iff_ne_none.mpr hrow)
    have hm : w.memory.commit s = .error (.missingRecord s.entity s.id) := by
      simp [Memory.commit, hrow]
    have hrun := run_change_of_error (f := fun m => m.commit s) hm
    rw [w.answer_commit hs, w.step_commit hs, hrun]
    exact ⟨rfl, congrArg Prod.snd hrun, s, rfl, hrow⟩

/-- **A call succeeds exactly if it finds its row.** -/
theorem Makes.succeeded_iff (h : w.Makes c μ) (hw : w.Invariant r n) (hr : r.Resolved)
    (hc : c.UsesTypesOf r) : (w.answer c).succeeded ↔ w.Finds μ := by
  by_cases hfinds : w.Finds μ
  · exact iff_of_true (h.of_finds hw hr hc hfinds).1 hfinds
  · exact iff_of_false (by rw [(h.of_not_finds hfinds).1]; decide) hfinds

/-- **What a call does to the tables**: the change that it makes to one of them. If it fails there
is no row to change, and the change does nothing. -/
theorem Makes.table_step (h : w.Makes c μ) (hw : w.Invariant r n) (hr : r.Resolved)
    (hc : c.UsesTypesOf r) (entity : String) :
    (w.step c).memory.table entity =
      if entity = μ.entity then μ.edit (w.memory.table entity) else w.memory.table entity := by
  by_cases hfinds : w.Finds μ
  · rw [(h.of_finds hw hr hc hfinds).2, table_withTable]
    split
    · next he => rw [he]
    · rfl
  · obtain ⟨-, hmemory, s, rfl, hrow⟩ := h.of_not_finds hfinds
    rw [hmemory]
    split
    · next he =>
      obtain ⟨t, ht, hname, -⟩ := h.usesTypesOf hw hc
      obtain rfl : entity = t.name := he.trans hname.symm
      have htable := hw.memory.table hr ht
      refine (Table.modify_of_forall_not_mem (fun row hmem => ?_) _).symm
      rw [← hname, htable.row?_eq_some_iff.mpr hmem] at hrow
      simp at hrow
    · rfl

/-! ### Two calls -/

theorem Makes.sinks_step (h : w.Makes c μ) : (w.step c).sinks = c.useUp w.sinks := by
  cases h with
  | commit hs =>
    rw [w.step_commit hs]
    rfl
  | _ => rfl

theorem Makes.sources_step (h : w.Makes c μ) : (w.step c).sources = w.sources := by
  cases h with
  | commit hs =>
    rw [w.step_commit hs]
    rfl
  | _ => rfl

/-- A change of other data neither adds nor removes the row that a call is about. -/
theorem Makes.finds_step (hb : w.Makes b μ) (hw : w.Invariant r n) (hr : r.Resolved)
    (hbtypes : b.UsesTypesOf r) (hapart : μ.Apart ν)
    (hle : ∀ id, ν.id? = some id → id ≤ (w.memory.table ν.entity).lastId) :
    (w.step b).Finds ν ↔ w.Finds ν := by
  refine forall_congr' fun id => imp_congr_right fun hid => ?_
  rw [hb.table_step hw hr hbtypes]
  split
  · next he => rw [Mutation.isSome_row?_edit hapart he.symm hid (hle id hid)]
  · rfl

/-- A call can still be made behind one that changes other data. -/
theorem Makes.makes_step (hc : w.Makes c ν) (hb : w.Makes b μ) (hapart : μ.Apart ν)
    (hfinds : (w.step b).Finds ν ↔ w.Finds ν) : (w.step b).Makes c ν := by
  cases hc with
  | insert record => exact .insert record
  | update hid hrow => exact .update hid (hfinds.mpr (by rintro id ⟨⟩; exact hrow) _ rfl)
  | delete hrow => exact .delete (hfinds.mpr (by rintro id ⟨⟩; exact hrow) _ rfl)
  | @commit k s hs =>
    refine .commit ?_
    cases hb with
    | @commit j u hu =>
      have hne : k ≠ j := by
        rintro rfl
        obtain rfl : u = s := Option.some.inj (hu.symm.trans hs)
        rcases hapart with h | h <;> exact h rfl
      rw [w.step_commit hu, sink?_without, if_neg hne]
      exact hs
    | _ => exact hs

/-- **Two calls that change different data** can be made in either order. Both orders leave the same
tables, by the lemmas on changes, and use up the same sinks. -/
theorem Makes.same_step (hb : w.Makes b μ) (hc : w.Makes c ν) (hapart : μ.Apart ν)
    (hw : w.Invariant r n) (hr : r.Resolved) (hbtypes : b.UsesTypesOf r) (hctypes : c.UsesTypesOf r)
    (hμ : ∀ id, μ.id? = some id → id ≤ (w.memory.table μ.entity).lastId)
    (hν : ∀ id, ν.id? = some id → id ≤ (w.memory.table ν.entity).lastId)
    (hbc : (w.step b).Makes c ν) (hcb : (w.step c).Makes b μ) :
    ((w.step b).step c).Same ((w.step c).step b) where
  tables entity := by
    rw [hbc.table_step (hw.step hr hbtypes) hr hctypes, hb.table_step hw hr hbtypes,
      hcb.table_step (hw.step hr hctypes) hr hbtypes, hc.table_step hw hr hctypes]
    by_cases hentity : entity = μ.entity
    · by_cases hother : entity = ν.entity
      · simp only [if_pos hentity, if_pos hother]
        exact Mutation.edit_comm hr hapart (hentity.symm.trans hother) (hb.usesTypesOf hw hbtypes)
          (hc.usesTypesOf hw hctypes) (hentity ▸ hμ) (hother ▸ hν)
      · simp only [if_pos hentity, if_neg hother]
    · simp only [if_neg hentity]
  sinks := by
    rw [hbc.sinks_step, hb.sinks_step, hcb.sinks_step, hc.sinks_step]
    exact Call.useUp_comm b c w.sinks
  sources := by rw [hbc.sources_step, hb.sources_step, hcb.sources_step, hc.sources_step]

end World

/-- Changes are about records that were given their identities before. So none of them is about the
row that an insert is about to add. -/
theorem le_lastId_of_makes {r : Registry} (hr : r.Resolved) {calls : List Call}
    (hcalls : ∀ c ∈ calls, c.UsesTypesOf r) {c : Call} {μ : Mutation} (h : (run calls).Makes c μ)
    (id : Int) (hid : μ.id? = some id) :
    id ≤ ((run calls).memory.table μ.entity).lastId := by
  cases h with
  | insert record => cases hid
  | update _ hrow =>
    cases hid
    exact Int.lt_add_one_iff.mp ((ascending_run calls).lt_nextId hrow)
  | delete hrow =>
    cases hid
    exact Int.lt_add_one_iff.mp ((ascending_run calls).lt_nextId hrow)
  | @commit k s hs =>
    cases hid
    -- the record was there when the sink was opened
    obtain ⟨t, -, name, hopening, hentity, -⟩ := (recorded_run hr hcalls).sinks k s hs
    obtain ⟨before, after, hsplit⟩ := List.append_of_mem hopening
    obtain ⟨-, hanswer, -⟩ := World.entries_split hsplit
    have hopened : ∃ new, (run (before.map Entry.call)).memory.openSink t s.id name = .ok new := by
      rw [Entry.opening, World.answer_openSink] at hanswer
      obtain ⟨new, hnew, -⟩ := Outcome.map_eq_ok_iff.mp (Answer.sink.inj hanswer)
      exact ⟨new, hnew⟩
    obtain ⟨new, hnew⟩ := hopened
    have hcalls := World.calls_of_entries hsplit
    have hheld : Held calls t s.id :=
      ⟨before.map Entry.call, ⟨_, hcalls.symm⟩, row_of_openSink hnew⟩
    have hlt := hheld.lt_nextId
    rw [nextId, ← hentity] at hlt
    exact Int.lt_add_one_iff.mp hlt

/-- **Changes of different data commute**, so none of them is lost. Where a run has led, any two
calls that are about to change different data leave the same tables and the same sinks in either
order, and each of them succeeds or fails as it would have done first. -/
theorem mutations_commute {d : Schema.Document} {r : Registry} (hd : Registry.ofDocument d = .ok r)
    {calls : List Call} (hcalls : ∀ c ∈ calls, c.UsesTypesOf r) {b c : Call}
    (hb : b.UsesTypesOf r) (hc : c.UsesTypesOf r) {μ ν : Mutation}
    (hμ : (run calls).Makes b μ) (hν : (run calls).Makes c ν) (h : μ.Apart ν) :
    (((run calls).step b).step c).Same (((run calls).step c).step b) ∧
      (((run calls).step c).answer b).succeeded = ((run calls).answer b).succeeded ∧
      (((run calls).step b).answer c).succeeded = ((run calls).answer c).succeeded := by
  have hr := Registry.resolved_of_ofDocument hd
  have hw := invariant_run hr hcalls
  have hμle := le_lastId_of_makes hr hcalls hμ
  have hνle := le_lastId_of_makes hr hcalls hν
  have hνfinds := hμ.finds_step hw hr hb h hνle
  have hμfinds := hν.finds_step hw hr hc h.symm hμle
  have hbc := hν.makes_step hμ h hνfinds
  have hcb := hμ.makes_step hν h.symm hμfinds
  refine ⟨hμ.same_step hν h hw hr hb hc hμle hνle hbc hcb, Bool.eq_iff_iff.mpr ?_,
    Bool.eq_iff_iff.mpr ?_⟩
  · rw [hcb.succeeded_iff (hw.step hr hc) hr hb, hμ.succeeded_iff hw hr hb, hμfinds]
  · rw [hbc.succeeded_iff (hw.step hr hb) hr hc, hν.succeeded_iff hw hr hc, hνfinds]

/-- A photo whose picture is being uploaded. -/
def photo.uploading : List Call :=
  [.insert (claimed .null), .openSink photo 1 "Picture", .write 0 [1, 2]]

/-- An edit of the photo and the end of the upload cross. Both the new file name and the whole
picture are there afterwards. -/
theorem mutations_commute_photo :
    Registry.ofDocument album = .ok ⟨[photo]⟩ ∧
      (∀ c ∈ photo.uploading, c.UsesTypesOf ⟨[photo]⟩) ∧
      let w := run photo.uploading
      let edit : Call := .update (photo.claimed (.integer 1))
      ((w.step edit).step (.commit 0)).Same ((w.step (.commit 0)).step edit) ∧
        ((w.step edit).answer (.commit 0)).succeeded ∧
        ((w.step (.commit 0)).answer edit).succeeded ∧
        ((w.step (.commit 0)).step edit).memory.row? photo 1 =
          some ⟨[.integer 1, .blob 2, .text "sea.png"], [none, some [1, 2], none]⟩ := by
  have halbum : Registry.ofDocument album = .ok ⟨[photo]⟩ := rfl
  have hcalls : ∀ c ∈ photo.uploading, c.UsesTypesOf ⟨[photo]⟩ := by
    simp [photo.uploading, Call.UsesTypesOf, photo.claimed]
  have hmakes : (run photo.uploading).Makes (.update (photo.claimed (.integer 1)))
      (.update (photo.claimed (.integer 1)) 1) := .update rfl rfl
  obtain ⟨hsame, hedit, hcommit⟩ := mutations_commute halbum hcalls (c := .commit 0)
    (List.mem_singleton_self _) trivial hmakes (.commit rfl) trivial
  exact ⟨halbum, hcalls, hsame, hcommit.trans rfl, hedit.trans rfl, rfl⟩

end Memory

end RecordService
