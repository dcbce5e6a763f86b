import RecordService.Proofs.Store.WellFormed

/-!
# Where the values of rows come from

What clients choose of a row came in with a record: when the row was new, or with its last update.
Commits and the changes of other rows leave it as it is. So a property of chosen values that all
records have which come in is one of all rows (`RecordService.Memory.Revision.rows`).

* `RecordService.Memory.Revision`: one change of the store, with records that have a property.
* `RecordService.Memory.Revises`: actions that make at most one such change.
-/

namespace RecordService.Memory

/-- **At most one change of the store**: a record that comes in has the property `P`, and content
comes to where content belongs. -/
inductive Revision (P : RecordType → List Value → Prop) (r : Registry) (m : Memory) : Memory → Prop
  | nothing : Revision P r m m
  | insert {record : Record} (type : record.type ∈ r.types)
      (chosen : P record.type record.values) : Revision P r m (m.insert record).2
  | update {record stored : Record} {m' : Memory} (type : record.type ∈ r.types)
      (chosen : P record.type record.values) (h : m.update record = .ok (stored, m')) :
      Revision P r m m'
  | delete {t : RecordType} {id : Int} {m' : Memory} (type : t ∈ r.types)
      (h : m.delete t id = .ok m') : Revision P r m m'
  | commit {s : MemorySink} {size : Nat} {m' : Memory} (placed : s.Placed r)
      (h : m.commit s = .ok (size, m')) : Revision P r m m'

section

variable {P : RecordType → List Value → Prop} {r : Registry} {m m' : Memory}

/-- A revision leads to a consistent store again. -/
theorem Revision.consistent (h : Revision P r m m') (hr : r.Resolved)
    (hm : ∃ n, m.Consistent r n) : ∃ n, m'.Consistent r n := by
  obtain ⟨n, hm⟩ := hm
  cases h with
  | nothing => exact ⟨n, hm⟩
  | insert ht _ => exact ⟨n + 1, hm.insert hr ht⟩
  | update ht _ hupdate => exact ⟨n, hm.update hr ht hupdate⟩
  | delete ht hdelete => exact ⟨n, hm.delete hr ht hdelete⟩
  | commit hs hcommit => exact ⟨n, hm.commit hr hs hcommit⟩

/-- **What clients choose of a row** came in with a record, or is as it was. So a property of the
chosen values holds of all rows afterwards, if it held before and of the record. -/
theorem Revision.rows (h : Revision P r m m') (hr : r.Resolved) (hm : ∃ n, m.Consistent r n)
    (hP : ∀ t values other, t.SameChoice values other → P t values → P t other)
    (hrows : ∀ t ∈ r.types, ∀ id row, m.row? t id = some row → P t row.values) :
    ∀ t ∈ r.types, ∀ id row, m'.row? t id = some row → P t row.values := by
  intro t ht id row hrow
  obtain ⟨n, hconsistent⟩ := hm
  cases h with
  | nothing => exact hrows t ht id row hrow
  | @insert record hrecord hchosen =>
    rw [row?_insert hconsistent hr hrecord] at hrow
    split at hrow
    · next hnew =>
      obtain rfl := hr.eq_of_name ht hrecord hnew.1
      cases hrow
      exact hP _ _ _ (RecordType.sameChoice_freshValues record id) hchosen
    · exact hrows t ht id row hrow
  | @update record stored _ hrecord hchosen hupdate =>
    obtain ⟨k, old, -, hold, hfound⟩ := row?_update hupdate
    rw [hfound] at hrow
    split at hrow
    · next hsame =>
      obtain rfl := hr.eq_of_name ht hrecord hsame.1
      obtain ⟨before, -, rfl⟩ := Option.map_eq_some_iff.mp hrow
      have htable := hconsistent.table hr ht
      have hlength := (htable.rows k old (htable.row?_eq_some_iff.mp hold)).2.2.length_values
      exact hP _ _ _ (RecordType.sameChoice_mergedValues hlength record.length_values) hchosen
    · exact hrows t ht id row hrow
  | delete _ hdelete =>
    rw [row?_delete hdelete] at hrow
    split at hrow
    · cases hrow
    · exact hrows t ht id row hrow
  | commit hs hcommit =>
    obtain ⟨u, hu, hname, a, ha, hblob⟩ := hs
    rw [row?_commit hcommit] at hrow
    split at hrow
    · next hsame =>
      obtain rfl := hr.eq_of_name ht hu (hsame.1.trans hname.symm)
      obtain ⟨before, hbefore, rfl⟩ := Option.map_eq_some_iff.mp hrow
      exact hP _ _ _ (RecordType.sameChoice_setBlob ha hblob _) (hrows t ht id before hbefore)
    · exact hrows t ht id row hrow

end

/-! ### Actions -/

/-- Whether an action makes at most one change, with records that have the property. -/
def Revises {α ε : Type} (P : RecordType → List Value → Prop) (r : Registry)
    (x : ExceptT ε (StateM Memory) α) : Prop := ∀ m, Revision P r m (x.run.run m).2

section

variable {α β ε : Type} {P : RecordType → List Value → Prop} {r : Registry}
  {x : ExceptT ε (StateM Memory) α}

/-- What only reads leaves the store, which is a revision too. -/
theorem ReadsOnly.revises (hx : ReadsOnly x.run) : Revises P r x := by
  intro m
  rw [hx m]
  exact .nothing

/-- Reading first changes nothing. What was read is known to the rest, which is how a record that is
saved comes to be one that was looked up. -/
theorem ReadsOnly.bind_revises {f : α → ExceptT ε (StateM Memory) β} (hx : ReadsOnly x.run)
    (hf : ∀ a m, (x.run.run m).1 = .ok a → Revises P r (f a)) : Revises P r (x >>= f) := by
  intro m
  rcases hx.run_bind f m with ⟨e, -, h⟩ | ⟨a, ha, h⟩
  · rw [h]
    exact .nothing
  · rw [h]
    exact hf a m ha m

/-- A check in front of a change lets its result be used in what follows. -/
theorem Revises.check {e : Except ε α} {f : α → ExceptT ε (StateM Memory) β}
    (hf : ∀ a, e = .ok a → Revises P r (f a)) :
    Revises P r ((liftM e : ExceptT ε (StateM Memory) α) >>= f) :=
  (readsOnly_liftM e).bind_revises fun a _ ha => hf a ha

/-- Behind a change there is only the result to give, which does not touch the store. -/
theorem Revises.bind_pure (hx : Revises P r x) (g : α → β) :
    Revises P r (x >>= fun a => pure (g a)) := by
  intro m
  have hm := hx m
  rw [run_bind]
  rcases h : x.run.run m with ⟨e | a, m'⟩
  · rwa [h] at hm
  · rwa [h] at hm

/-- A record is saved only if it has the values that it needs. So what the check ensures holds of
the values that are stored. -/
theorem revises_save {record : Record} (ht : record.type ∈ r.types)
    (hP : Records.checkRequired record = .ok () → P record.type record.values) :
    Revises P r (Records.save (m := StateM Memory) record) := by
  intro m
  rcases Records.run_save record m with
    ⟨_, hrun⟩ | ⟨hrequired, ⟨-, hrun⟩ | ⟨_, _, m', -, hm, hrun⟩⟩
  · rw [hrun]
    exact .nothing
  · rw [hrun]
    exact .insert ht (hP hrequired)
  · rw [hrun]
    exact .update ht (hP hrequired) hm

theorem revises_remove {t : RecordType} (ht : t ∈ r.types) (id : Int) :
    Revises P r (Records.remove (m := StateM Memory) t id) := by
  intro m
  rcases Records.run_remove t id m with ⟨_, hrun⟩ | ⟨m', hm, hrun⟩
  · rw [hrun]
    exact .nothing
  · rw [hrun]
    exact .delete ht hm

/-- An upload puts content in place behind its own sink only, which leads to a binary attribute. -/
theorem revises_upload {record : Record} (ht : record.type ∈ r.types) (p : Path) (f : Feed) :
    Revises P r (Content.upload (m := StateM Memory) record p f) := by
  intro m
  rcases Content.run_upload record p f m with
    ⟨_, hrun⟩ | ⟨a, id, opened, sink, size, m', -, hopened, ⟨hentity, -, hindex⟩, hm, hrun⟩
  · rw [hrun]
    exact .nothing
  · rw [hrun]
    exact .commit ((placed_of_openSink ht hopened).congr hentity hindex) hm

end

/-- A call of a transfer commits at most a sink that is open. The invariant of the run says that
this leads to a binary attribute. -/
theorem revision_transfer {P : RecordType → List Value → Prop} {r : Registry} {w : World} {n : Nat}
    (h : w.Invariant r n) {c : Call} (hc : c.isTransfer) :
    Revision P r w.memory (w.step c).memory := by
  have heffect := w.effect_step c
  generalize (w.step c).memory = m at heffect ⊢
  cases heffect with
  | nothing => exact .nothing
  | insert => simp [Call.isTransfer] at hc
  | update => simp [Call.isTransfer] at hc
  | delete => simp [Call.isTransfer] at hc
  | commit hs hm => exact .commit (h.sink hs) hm

end RecordService.Memory
