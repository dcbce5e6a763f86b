import RecordService.Proofs.Store.Revision
import RecordService.Proofs.Store.Saving

/-!
# Copies of stored records can be saved

A copy of a stored record has no identity, so saving it creates a record. The check that comes first
does not get in the way: a record is stored only if it passes it, and whatever happens to the record
afterwards leaves it so. Content is not copied, although the copy still shows how long it was
(`RecordService.Records.duplicate_then_save`).

* `RecordService.Memory.Act`: what clients do with records and content, through the operations.
* `RecordService.Memory.Complete`: every row has the values that saving asks for.
* `RecordService.Memory.Served`: what an act may do to the store.
* `RecordService.Memory.World.Complete.foldl`: what all acts keep.
-/

namespace RecordService

open Memory

/-! ### The check -/

/-- A record that is complete passes the check. Together with the converse, the check is exactly
completeness. -/
theorem Records.checkRequired_of_complete {d : Schema.Document} {r : Registry}
    (hd : Registry.ofDocument d = .ok r) {record : Record} (ht : record.type ∈ r.types)
    (h : record.type.Complete record.values) : Records.checkRequired record = .ok () := by
  unfold checkRequired
  split
  · next a v hmissing =>
    obtain ⟨i, hi⟩ := List.mem_iff_getElem?.mp (List.mem_of_find?_eq_some hmissing)
    obtain ⟨ha, hv⟩ := List.getElem?_zip_eq_some.mp hi
    obtain ⟨⟨⟨hnullable, hidentity⟩, hblob⟩, hnull⟩ :
        ((a.nullable = false ∧ a.isIdentity = false) ∧ a.kind ≠ .blob) ∧ v.isNull := by
      simpa [isRequired] using List.find?_some hmissing
    have hne : i ≠ record.type.identity := by
      intro hi
      rw [(Registry.isIdentity_iff hd ht ha).mpr hi] at hidentity
      cases hidentity
    refine absurd ?_ (h i a ⟨ha, hne, hblob⟩ hnullable)
    cases v <;> simp_all [Value.isNull]
  · rfl

/-- A record that passes the check and has no identity is saved as a new one, and this cannot fail.
-/
theorem Records.run_save_new {record : Record} (h : checkRequired record = .ok ())
    (hid : record.id = none) (m : Memory) :
    (save (m := StateM Memory) record).run.run m =
      (.ok (m.insert record).1, (m.insert record).2) := by
  unfold save
  rw [run_bind_of_ok (run_liftM_ok h), hid]
  exact run_store_change_of_ok rfl

namespace Memory

/-! ### What clients do -/

/-- Something that a client does with records or with binary content. Whatever only reads is left
out. -/
inductive Act where
  | save (record : Record)
  | remove (t : RecordType) (id : Int)
  /-- Uploads what a feed delivers. -/
  | upload (record : Record) (p : Path) (f : Feed)
  /-- Makes one call of a transfer of binary content. -/
  | transfer (c : Call)

/-- Whether an act is about the record types of a registry. -/
def Act.UsesTypesOf (r : Registry) : Act → Prop
  | save record => record.type ∈ r.types
  | remove t _ => t ∈ r.types
  | upload record _ _ => record.type ∈ r.types
  | transfer c => c.isTransfer ∧ c.UsesTypesOf r

namespace World

/-- The world behind a request. -/
def behind {α : Type} (w : World) (x : ExceptT RequestError (StateM Memory) α) : World :=
  { w with memory := (x.run.run w.memory).2 }

/-- What an act does. -/
def serve (w : World) : Act → World
  | .save record => w.behind (Records.save record)
  | .remove t id => w.behind (Records.remove t id)
  | .upload record p f => w.behind (Content.upload record p f)
  | .transfer c => w.step c

end World

/-- What a list of acts leads to, from the empty store. -/
def served (acts : List Act) : World := acts.foldl World.serve {}

/-- Whether acts have at some moment kept a record of a type under this identity. -/
def Seen (acts : List Act) (t : RecordType) (id : Int) : Prop :=
  ∃ earlier, earlier <+: acts ∧ ((served earlier).memory.row? t id).isSome

/-! ### What acts do to the store -/

/-- Whether the rows of a store are consistent, and have the values that saving asks for. -/
structure Complete (r : Registry) (m : Memory) : Prop where
  consistent : ∃ n, m.Consistent r n
  rows : ∀ t ∈ r.types, ∀ id row, m.row? t id = some row → t.Complete row.values

/-- **What an act may do to the store**: records that come in are complete, and content comes to
where content belongs. -/
inductive Served (r : Registry) (m : Memory) : Memory → Prop
  | nothing : Served r m m
  | insert {record : Record} (type : record.type ∈ r.types)
      (complete : record.type.Complete record.values) : Served r m (m.insert record).2
  | update {record stored : Record} {m' : Memory} (type : record.type ∈ r.types)
      (complete : record.type.Complete record.values) (h : m.update record = .ok (stored, m')) :
      Served r m m'
  | delete {t : RecordType} {id : Int} {m' : Memory} (type : t ∈ r.types)
      (h : m.delete t id = .ok m') : Served r m m'
  | commit {s : MemorySink} {size : Nat} {m' : Memory} (placed : s.Placed r)
      (h : m.commit s = .ok (size, m')) : Served r m m'

section

variable {d : Schema.Document} {r : Registry} {m m' : Memory} {w : World} {act : Act}
variable {t : RecordType} {id : Int}

theorem complete_empty (r : Registry) : Memory.Complete r {} :=
  ⟨⟨0, consistent_empty r 0⟩, fun _ _ _ _ hrow => by cases hrow⟩

/-- An act makes at most one change, with a record that is complete. So what was proved of revisions
applies to it. -/
theorem served_iff_revision : Served r m m' ↔ Revision RecordType.Complete r m m' := by
  constructor
  · rintro (_ | ⟨ht, hrecord⟩ | ⟨ht, hrecord, hm⟩ | ⟨ht, hm⟩ | ⟨hs, hm⟩)
    · exact .nothing
    · exact .insert ht hrecord
    · exact .update ht hrecord hm
    · exact .delete ht hm
    · exact .commit hs hm
  · rintro (_ | ⟨ht, hrecord⟩ | ⟨ht, hrecord, hm⟩ | ⟨ht, hm⟩ | ⟨hs, hm⟩)
    · exact .nothing
    · exact .insert ht hrecord
    · exact .update ht hrecord hm
    · exact .delete ht hm
    · exact .commit hs hm

/-- **Rows stay complete.** What clients chose comes from a record that was checked, or is as it
was. This is why the copy of a stored record passes the check. -/
theorem Served.complete (h : Served r m m') (hr : r.Resolved) (hm : m.Complete r) :
    m'.Complete r := by
  have hrevision := served_iff_revision.mp h
  exact ⟨hrevision.consistent hr hm.consistent,
    hrevision.rows hr hm.consistent (fun _ _ _ hsame h => h.congr hsame) hm.rows⟩

/-- No act gives an identity back, not even the removal of the last record. -/
theorem Served.nextId_le (h : Served r m m') (t : RecordType) : m.nextId t ≤ m'.nextId t := by
  cases h with
  | nothing => exact Int.le_refl _
  | insert _ _ => exact (Change.insert _).nextId_le t
  | update _ _ hm => exact (Change.update hm).nextId_le t
  | delete _ hm => exact (Change.delete hm).nextId_le t
  | commit _ hm => exact (Change.commit hm).nextId_le t

/-! ### What all acts keep -/

/-- The rows are complete, and open sinks lead to binary attributes. -/
structure World.Complete (r : Registry) (w : World) : Prop where
  memory : w.memory.Complete r
  sinks : ∀ s, some s ∈ w.sinks → s.Placed r

/-- An act does to the store what acts may do, and leaves sinks that lead to binary attributes. -/
theorem World.Complete.served (h : w.Complete r) (hd : Registry.ofDocument d = .ok r)
    (hact : act.UsesTypesOf r) :
    Served r w.memory (w.serve act).memory ∧ ∀ s, some s ∈ (w.serve act).sinks → s.Placed r := by
  obtain ⟨n, hconsistent⟩ := h.memory.consistent
  rw [served_iff_revision]
  cases act with
  | save record =>
    exact ⟨revises_save hact (Records.complete_of_checkRequired hd hact) w.memory, h.sinks⟩
  | remove t id => exact ⟨revises_remove hact id w.memory, h.sinks⟩
  | upload record p f => exact ⟨revises_upload hact p f w.memory, h.sinks⟩
  | transfer c =>
    have hworld : w.Invariant r n := ⟨hconsistent, h.sinks⟩
    exact ⟨revision_transfer hworld hact.1,
      (hworld.step (Registry.resolved_of_ofDocument hd) hact.2).sinks⟩

/-- **Acts keep the rows complete**, those that fail included. -/
theorem World.Complete.serve (h : w.Complete r) (hd : Registry.ofDocument d = .ok r)
    (hact : act.UsesTypesOf r) : (w.serve act).Complete r := by
  obtain ⟨hserved, hsinks⟩ := h.served hd hact
  exact ⟨hserved.complete (Registry.resolved_of_ofDocument hd) h.memory, hsinks⟩

/-- Acts keep the rows complete and never give an identity back, by induction from the first one.
The two are proved together, since a step needs the one and leaves both. -/
theorem World.Complete.foldl (h : w.Complete r) (hd : Registry.ofDocument d = .ok r)
    {acts : List Act} (hacts : ∀ act ∈ acts, act.UsesTypesOf r) (t : RecordType) :
    (acts.foldl World.serve w).Complete r ∧
      w.memory.nextId t ≤ (acts.foldl World.serve w).memory.nextId t := by
  induction acts generalizing w with
  | nil => exact ⟨h, Int.le_refl _⟩
  | cons act acts ih =>
    obtain ⟨hact, hacts⟩ := List.forall_mem_cons.mp hacts
    obtain ⟨hcomplete, hle⟩ := ih (h.serve hd hact) hacts
    exact ⟨hcomplete, Int.le_trans ((h.served hd hact).1.nextId_le t) hle⟩

/-- An identity that was seen is smaller than the next one, so a copy does not get it. -/
theorem Seen.lt_nextId {acts : List Act} (h : Seen acts t id) (hd : Registry.ofDocument d = .ok r)
    (hacts : ∀ act ∈ acts, act.UsesTypesOf r) (ht : t ∈ r.types) :
    id < (served acts).memory.nextId t := by
  obtain ⟨earlier, ⟨later, rfl⟩, hrow⟩ := h
  obtain ⟨row, hrow⟩ := Option.isSome_iff_exists.mp hrow
  have hempty : World.Complete r {} := ⟨complete_empty r, by simp⟩
  have hearlier := (hempty.foldl hd (fun act hact => hacts act (List.mem_append_left _ hact)) t).1
  obtain ⟨n, hconsistent⟩ := hearlier.memory.consistent
  have htable := hconsistent.table (Registry.resolved_of_ofDocument hd) ht
  have hgiven := (htable.rows id row (htable.row?_eq_some_iff.mp hrow)).2.1
  have hle := (hearlier.foldl hd (fun act hact => hacts act (List.mem_append_right _ hact)) t).2
  rw [served, List.foldl_append]
  exact Int.lt_of_lt_of_le (Int.lt_add_one_of_le hgiven) hle

end

end Memory

/-! ### Copies -/

/-- Whether a record has the values of another one, and no identity. -/
structure Record.Copies (copy source : Record) : Prop where
  type : copy.type = source.type
  id : copy.id = none
  values : ∀ i, i ≠ source.type.identity → copy.values[i]? = source.values[i]?

/-- The copy of a record has no identity and its other values. -/
theorem Record.copies_duplicate (source : Record) : source.duplicate.Copies source := by
  refine ⟨rfl, ?_, fun i hi => List.getElem?_set_ne hi.symm⟩
  have hvalue (v : Value) (hv : source.duplicate.values[source.type.identity]? = some v) :
      v = .null := by
    obtain ⟨hlt, hv⟩ := List.getElem?_eq_some_iff.mp hv
    rw [← hv]
    exact List.getElem_set_self hlt
  have htype : source.duplicate.type = source.type := rfl
  rw [Record.id, htype]
  cases hv : source.duplicate.values[source.type.identity]? with
  | none => rfl
  | some v => rw [hvalue v hv]

theorem Records.run_duplicate (t : RecordType) (id : Int) (m : Memory) :
    (duplicate (m := StateM Memory) t id).run.run m =
      (.ok ((m.get t id).map Record.duplicate), m) :=
  rfl

/-- **Copies of stored records can be saved**, whatever was done before. There is a copy exactly if
there is a record under the identity. It has no identity and the other values of the record, and
saving it succeeds: it creates one record, under an identity greater than all that were seen before,
with the values that clients choose as in the record, and without content. The record itself stays
as it is, and so does its content. -/
theorem Records.duplicate_then_save {d : Schema.Document} {r : Registry}
    (hd : Registry.ofDocument d = .ok r) {acts : List Act} (hacts : ∀ act ∈ acts, act.UsesTypesOf r)
    {t : RecordType} (ht : t ∈ r.types) (id : Int) :
    let m := (served acts).memory
    ∃ copy, (duplicate (m := StateM Memory) t id).run.run m = (.ok copy, m) ∧
      (copy = none ↔ m.get t id = none) ∧
      ∀ x, copy = some x → ∃ source, m.get t id = some source ∧ x.Copies source ∧
        ∃ saved new m', (save (m := StateM Memory) x).run.run m = (.ok saved, m') ∧
          m.Creates x saved new m' ∧ (∀ k, Seen acts t k → k < new) ∧
          t.SameChoice source.values saved.values ∧ m'.row? t id = m.row? t id := by
  intro m
  have hr := Registry.resolved_of_ofDocument hd
  have hempty : World.Complete r {} := ⟨complete_empty r, by simp⟩
  have hm : m.Complete r := (hempty.foldl hd hacts t).1.memory
  obtain ⟨n, hconsistent⟩ := hm.consistent
  refine ⟨_, run_duplicate t id m, Option.map_eq_none_iff, fun x hx => ?_⟩
  obtain ⟨source, hsource, rfl⟩ := Option.map_eq_some_iff.mp hx
  obtain ⟨row, hrow, -, rfl, hvalues⟩ := row_of_get hconsistent hr ht hsource
  have hcopies := source.copies_duplicate
  have hsame : source.type.SameChoice source.values source.duplicate.values :=
    fun i a ha => hcopies.values i ha.ne_identity
  -- the row is complete, and the copy has what the row has where a value has to be chosen
  have hcomplete : source.duplicate.type.Complete source.duplicate.values :=
    (hvalues ▸ hm.rows source.type ht id row hrow).congr hsame
  have hrequired : checkRequired source.duplicate = .ok () :=
    checkRequired_of_complete hd ht hcomplete
  have hcreates : m.Creates source.duplicate _ _ _ := creates_insert hd hconsistent ht
  have hsave := run_save_new hrequired hcopies.id m
  refine ⟨source, hsource, hcopies, _, _, _, hsave, hcreates, ?_, ?_, ?_⟩
  · exact fun k hk => hk.lt_nextId hd hacts ht
  · exact fun i a ha => (hcreates.chosen i a ha).trans (hsame i a ha)
  · refine hcreates.others source.type id ?_
    rintro ⟨-, rfl⟩
    cases hrow.symm.trans hcreates.absent

/-- A print is saved and changed, its picture is uploaded, and another print is removed. -/
def Memory.print.acts : List Act :=
  [.save ⟨print, [.null, .text "Sea", .null, .blob 7, .null], rfl⟩,
    .save ⟨print, [.null, .text "Moon", .null, .null, .null], rfl⟩,
    .upload ⟨print, [.integer 1, .text "Sea", .null, .null, .null], rfl⟩
      ⟨"Print", "Picture", 3, .blob⟩ [.bytes [1, 2], .interrupted, .bytes [3]],
    .save ⟨print, [.integer 1, .text "Seas", .null, .null, .null], rfl⟩,
    .remove print 2]

/-- The copy of the first print shows three bytes of content, and what is saved of it has none.
There is no copy of the second print, which was removed, and its identity is not given again. -/
theorem Records.duplicate_then_save_print :
    let m := (served print.acts).memory
    Registry.ofDocument gallery = .ok ⟨[print]⟩ ∧
      (∀ act ∈ print.acts, act.UsesTypesOf ⟨[print]⟩) ∧
      (duplicate (m := StateM Memory) print 2).run.run m = (.ok none, m) ∧
      ∃ x saved new m', (duplicate (m := StateM Memory) print 1).run.run m = (.ok (some x), m) ∧
        x.values[3]? = some (.blob 3) ∧
        (save (m := StateM Memory) x).run.run m = (.ok saved, m') ∧ 2 < new ∧
        saved.values[1]? = some (.text "Seas") ∧ saved.values[3]? = some .null ∧
        m'.content print new "Picture" = .ok none ∧
        m'.row? print 1 = m.row? print 1 := by
  intro m
  have hgallery : Registry.ofDocument gallery = .ok ⟨[print]⟩ := rfl
  have hacts : ∀ act ∈ print.acts, act.UsesTypesOf ⟨[print]⟩ := by
    simp [print.acts, Act.UsesTypesOf]
  have hremoved : m.get print 2 = none := by
    have hnone : (m.get print 2).isNone := by decide +kernel
    simpa using hnone
  have hstored : (m.get print 1).map Record.values =
      some [.integer 1, .text "Seas", .null, .blob 3, .null] := by decide +kernel
  have hseen : Seen print.acts print 2 := ⟨print.acts.take 2, ⟨_, rfl⟩, rfl⟩
  refine ⟨hgallery, hacts, ?_, ?_⟩
  · obtain ⟨copy, hcopy, hnone, -⟩ :=
      duplicate_then_save hgallery hacts (List.mem_singleton_self _) 2
    obtain rfl := hnone.mpr hremoved
    exact hcopy
  · obtain ⟨copy, hcopy, hnone, hsave⟩ :=
      duplicate_then_save hgallery hacts (List.mem_singleton_self print) 1
    obtain ⟨_, hget, hvalues⟩ := Option.map_eq_some_iff.mp hstored
    cases copy with
    | none => cases hget.symm.trans (hnone.mp rfl)
    | some x =>
      obtain ⟨source, hsource, hcopies, saved, new, m', hrun, hcreates, hnew, hsame, hrow⟩ :=
        hsave x rfl
      obtain rfl := Option.some.inj (hget.symm.trans hsource)
      obtain ⟨row, -, rfl⟩ := Option.map_eq_some_iff.mp hget
      have htype : x.type = print := hcopies.type
      obtain ⟨hblob, hcontent⟩ := hcreates.blob 3
        ⟨"Picture", .blob, true, some "PictureFileName", none⟩ (by rw [htype]; rfl) rfl
      refine ⟨x, saved, new, m', hcopy, ?_, hrun, hnew 2 hseen, ?_, hblob, htype ▸ hcontent, hrow⟩
      · have hne : 3 ≠ print.identity := by decide
        rw [hcopies.values 3 hne, hvalues]
        rfl
      · rw [hsame 1 ⟨"Title", .text, false, none, none⟩ ⟨rfl, by decide, by decide⟩, hvalues]
        rfl

end RecordService
