import RecordService.Proofs.Store.Effect
import RecordService.Proofs.Store.Listing
import RecordService.Proofs.Store.Recording

/-!
# Identities are never reused

The store gives the records of an entity ascending identities. Whatever happens in between, the next
one is greater than all that any record of the entity ever had, so a record that was removed never
comes back, and a sink that was opened for it leads nowhere
(`RecordService.Memory.identities_never_reused`).

* `RecordService.Memory.Held`: the identities that records had at some moment of a run.
* `RecordService.Memory.Gone`: identities that were given away and that no record has any more.
* `RecordService.Memory.nextId_le_foldl`, `RecordService.Memory.Gone.foldl`: calls never give an
  identity back.
-/

namespace RecordService.Memory

variable {m : Memory} {w : World} {c : Call} {t u : RecordType} {id : Int} {s : MemorySink}

/-! ### The identity that is next -/

theorem nextId_withTable (m : Memory) (entity : String) (table : Table) (t : RecordType) :
    (m.withTable entity table).nextId t =
      if t.name = entity then table.lastId + 1 else m.nextId t := by
  unfold nextId
  rw [table_withTable]
  split <;> rfl

/-- Another table does not give an identity back, unless it forgets the last one. Removals keep the
last identity for this reason. -/
theorem nextId_le_withTable (t : RecordType) {entity : String} {table : Table}
    (h : (m.table entity).lastId ≤ table.lastId) :
    m.nextId t ≤ (m.withTable entity table).nextId t := by
  rw [nextId_withTable]
  split
  · next hname =>
    subst hname
    exact Int.add_le_add_right h 1
  · exact Int.le_refl _

/-- The next identity is greater afterwards if it was given away, and otherwise the same. An insert
is the only change of the first kind. -/
theorem Change.nextId_le {m' : Memory} (h : m.Change m') (t : RecordType) :
    m.nextId t ≤ m'.nextId t := by
  cases h with
  | insert record => exact nextId_le_withTable t (Int.le_add_one (Int.le_refl _))
  | update hm =>
    obtain ⟨id, old, -, -, rfl⟩ := update_eq_ok hm
    refine nextId_le_withTable t ?_
    exact Int.le_refl _
  | delete hm =>
    rw [delete_eq_ok hm]
    refine nextId_le_withTable t ?_
    exact Int.le_refl _
  | commit hm =>
    rw [commit_eq_ok hm]
    refine nextId_le_withTable t ?_
    exact Int.le_refl _

theorem World.Effect.nextId_le (h : w.Effect c m) (t : RecordType) :
    w.memory.nextId t ≤ m.nextId t := by
  cases h with
  | nothing => exact Int.le_refl _
  | insert record => exact (Change.insert record).nextId_le t
  | update hm => exact (Change.update hm).nextId_le t
  | delete hm => exact (Change.delete hm).nextId_le t
  | commit _ hm => exact (Change.commit hm).nextId_le t

/-- No call gives an identity back, whether it succeeds or fails. -/
theorem nextId_le_foldl (w : World) (calls : List Call) (t : RecordType) :
    w.memory.nextId t ≤ (calls.foldl World.step w).memory.nextId t := by
  induction calls generalizing w with
  | nil => exact Int.le_refl _
  | cons c calls ih => exact Int.le_trans ((w.effect_step c).nextId_le t) (ih (w.step c))

/-- Records have identities that were given away, also in states that were not shown consistent. -/
theorem Ascending.lt_nextId (h : m.Ascending) (hrow : (m.row? t id).isSome) : id < m.nextId t := by
  obtain ⟨row, hrow⟩ := Option.isSome_iff_exists.mp hrow
  obtain ⟨before, after, hrows, -⟩ := List.lookup_eq_some_iff.mp hrow
  have hle := (h t.name).le_lastId id (by simp [hrows])
  exact Int.lt_add_one_of_le hle

/-- Whether a run has at some moment kept a record of a type under this identity. -/
def Held (calls : List Call) (t : RecordType) (id : Int) : Prop :=
  ∃ earlier, earlier <+: calls ∧ ((run earlier).memory.row? t id).isSome

/-- An identity that some record had at any moment of a run is below the next one at its end. -/
theorem Held.lt_nextId {calls : List Call} (h : Held calls t id) :
    id < (run calls).memory.nextId t := by
  obtain ⟨earlier, ⟨later, rfl⟩, hrow⟩ := h
  have hlt := (ascending_run earlier).lt_nextId hrow
  have hle := nextId_le_foldl (run earlier) later t
  rw [run, List.foldl_append]
  exact Int.lt_of_lt_of_le hlt hle

/-! ### Removed records -/

/-- An identity that was given away, and that no record has any more. -/
structure Gone (m : Memory) (t : RecordType) (id : Int) : Prop where
  lt_nextId : id < m.nextId t
  absent : m.row? t id = none

/-- A removed record is gone, and its identity is below the next one for good. -/
theorem gone_of_delete {m' : Memory} (h : m.Ascending) (hm : m.delete t id = .ok m') :
    m'.Gone t id := by
  have hrow : (m.row? t id).isSome := by
    unfold delete at hm
    split at hm
    · assumption
    · simp at hm
  refine ⟨?_, ?_⟩
  · have hlt := h.lt_nextId hrow
    rw [delete_eq_ok hm, nextId_withTable, if_pos rfl]
    exact hlt
  · rw [row?_delete hm, if_pos ⟨rfl, rfl⟩]

/-- **Records that are gone stay gone**: a new record has another identity, and no other call makes a
row where there was none. -/
theorem Gone.effect {m' : Memory} (h : w.memory.Gone t id) (heffect : w.Effect c m') :
    m'.Gone t id := by
  refine ⟨Int.lt_of_lt_of_le h.lt_nextId (heffect.nextId_le t), ?_⟩
  cases heffect with
  | nothing => exact h.absent
  | insert record =>
    have hlt := h.lt_nextId
    have hother : ¬(t.name = record.type.name ∧ id = w.memory.nextId record.type) := by
      rintro ⟨hname, rfl⟩
      rw [nextId, nextId, hname] at hlt
      exact Int.lt_irrefl _ hlt
    rw [row?_insert_eq_or, h.absent, if_neg hother]
    rfl
  | update hm =>
    obtain ⟨_, _, -, -, hrows⟩ := row?_update hm
    rw [hrows, h.absent]
    simp
  | delete hm =>
    rw [row?_delete hm, h.absent]
    simp
  | commit _ hm =>
    rw [row?_commit hm, h.absent]
    simp

theorem Gone.foldl (h : w.memory.Gone t id) (calls : List Call) :
    (calls.foldl World.step w).memory.Gone t id := by
  induction calls generalizing w with
  | nil => exact h
  | cons c calls ih => exact ih (h.effect (w.effect_step c))

/-! ### Calls on removed records -/

theorem World.answer_delete (w : World) (t : RecordType) (id : Int) :
    w.answer (.delete t id) = .done ((w.memory.delete t id).map fun _ => ()) := by
  have hanswer : w.answer (.delete t id) =
      .done ((change fun m => (m.delete t id).map ((), ·)).run.run w.memory).1 := rfl
  rw [hanswer]
  simp only [change, ExceptT.run, StateT.run]
  cases w.memory.delete t id <;> rfl

/-- A record that is gone is not found. -/
theorem Gone.get (h : m.Gone t id) : m.get t id = none := by
  rw [Memory.get, h.absent]
  rfl

theorem Gone.update (h : m.Gone t id) {record : Record} (ht : record.type = t)
    (hid : record.id = some id) : m.update record = .error (.missingRecord t.name id) := by
  subst ht
  simp only [Memory.update, hid, h.absent]

theorem Gone.delete (h : m.Gone t id) : m.delete t id = .error (.missingRecord t.name id) := by
  simp [Memory.delete, h.absent]

/-- Whether there is an attribute for the content is looked at first, so a wrong name is told also
of a record that is gone. -/
theorem Gone.openSink (h : m.Gone t id) (name : String) :
    m.openSink t id name = (blobIndex t name).bind fun _ => .error (.missingRecord t.name id) := by
  simp only [Memory.openSink, h.absent]
  rfl

theorem Gone.content (h : m.Gone t id) (name : String) :
    m.content t id name = (blobIndex t name).bind fun _ => .error (.missingRecord t.name id) := by
  simp only [Memory.content, h.absent]
  rfl

/-- A sink for a record that is gone cannot be committed. -/
theorem Gone.commit (h : m.Gone t id) (hentity : s.entity = t.name) (hid : s.id = id) :
    m.commit s = .error (.missingRecord t.name id) := by
  have habsent : (m.table t.name).row? id = none := h.absent
  simp [Memory.commit, hentity, hid, habsent]

/-- What the calls on a record answer once it was removed. -/
structure World.Misses (w : World) (t : RecordType) (id : Int) : Prop where
  get : w.memory.get t id = none
  update : ∀ record : Record, record.type = t → record.id = some id →
    w.answer (.update record) = .record (.error (.missingRecord t.name id))
  delete : w.answer (.delete t id) = .done (.error (.missingRecord t.name id))
  openSink : ∀ name, (t.blobIndex? name).isSome →
    w.answer (.openSink t id name) = .sink (.error (.missingRecord t.name id))
  openSource : ∀ name, (t.blobIndex? name).isSome →
    w.answer (.openSource t id name) = .source (.error (.missingRecord t.name id))
  /-- Content is refused under any other name, as it was before. -/
  notBlob : ∀ name, t.blobIndex? name = none →
    w.answer (.openSink t id name) = .sink (.error (.notBlob t.name name)) ∧
      w.answer (.openSource t id name) = .source (.error (.notBlob t.name name))

/-- Every call on a record that is gone misses it. -/
theorem Gone.misses (h : w.memory.Gone t id) : w.Misses t id where
  get := h.get
  update record ht hid := by
    have hrun := run_change_of_error (f := fun m => m.update record) (h.update ht hid)
    exact congrArg (fun x => Answer.record x.1) hrun
  delete := by
    rw [World.answer_delete, h.delete]
    rfl
  openSink name hname := by
    obtain ⟨i, hi⟩ := Option.isSome_iff_exists.mp hname
    rw [World.answer_openSink, h.openSink, blobIndex, hi]
    rfl
  openSource name hname := by
    obtain ⟨i, hi⟩ := Option.isSome_iff_exists.mp hname
    rw [World.answer_openSource, h.content, blobIndex, hi]
    rfl
  notBlob name hname := by
    rw [World.answer_openSink, World.answer_openSource, h.openSink, h.content, blobIndex, hname]
    exact ⟨rfl, rfl⟩

/-- A commit for a record that is gone fails, and uses up its sink only. In particular it does not
reach a record that was inserted after the removal. -/
theorem Gone.commit_step (h : w.memory.Gone t id) {k : Nat} (hs : w.sink? k = some s)
    (hentity : s.entity = t.name) (hid : s.id = id) :
    w.answer (.commit k) = .length (.error (.missingRecord t.name id)) ∧
      (w.step (.commit k)).memory = w.memory := by
  have hrun := run_change_of_error (f := fun m => m.commit s) (h.commit hentity hid)
  refine ⟨?_, ?_⟩
  · rw [World.answer_commit w hs, hrun]
  · rw [World.step_commit w hs]
    exact congrArg Prod.snd hrun

/-! ### Histories -/

variable {calls : List Call} {before after : List Entry}

/-- A removal that succeeded leaves its identity without a record. -/
theorem gone_of_answer (h : w.memory.Ascending) (hanswer : w.answer (.delete t id) = .done (.ok ())) :
    (w.step (.delete t id)).memory.Gone t id := by
  rw [World.answer_delete] at hanswer
  cases hm : w.memory.delete t id with
  | error e => simp [hm, Except.map] at hanswer
  | ok m =>
    have hok : (w.memory.delete t id).map (Prod.mk ()) = .ok ((), m) := by rw [hm]; rfl
    have hrun := run_change_of_ok (f := fun m => (m.delete t id).map ((), ·)) hok
    have hmemory : (w.step (.delete t id)).memory = m := congrArg Prod.snd hrun
    rw [hmemory]
    exact gone_of_delete h hm

/-- A record that was removed at some moment of a run is gone at its end, whatever was called in
between. -/
theorem gone_of_history (h : history calls = before ++ ⟨.delete t id, .done (.ok ())⟩ :: after) :
    (run calls).memory.Gone t id := by
  obtain ⟨-, hanswer, -⟩ := World.entries_split h
  have hgone := gone_of_answer (ascending_run _) hanswer
  rw [World.calls_of_entries h, run, List.foldl_append, List.foldl_cons]
  exact hgone.foldl _

/-- The identity that was given to a new record at some moment of a run: it is above all that
records of the type ever had, and the count of inserts bounds it. -/
theorem id_of_insertion {r : Registry} (hr : r.Resolved) (hcalls : ∀ c ∈ calls, c.UsesTypesOf r)
    {record stored : Record}
    (h : history calls = before ++ ⟨.insert record, .record (.ok stored)⟩ :: after) :
    ∃ id : Int, stored.id = some id ∧ id ≤ calls.countP Call.isInsert ∧
      ∀ k, Held (before.map Entry.call) record.type k → k < id := by
  obtain ⟨-, hanswer, -⟩ := World.entries_split h
  rw [World.calls_of_entries h] at hcalls
  have htype : record.type ∈ r.types := hcalls (.insert record) (by simp)
  have hstored : (run (before.map Entry.call)).memory.insert record = (stored, _) :=
    Prod.ext (Except.ok.inj (Answer.record.inj hanswer)) rfl
  refine ⟨(run (before.map Entry.call)).memory.nextId record.type, ?_, ?_, ?_⟩
  · have hid := id_insert hr htype (run (before.map Entry.call)).memory
    rwa [hstored] at hid
  · have hbefore := invariant_run hr fun c hc => hcalls c (List.mem_append_left _ hc)
    have hle := (hbefore.memory.table hr htype).lastId_le
    rw [World.calls_of_entries h, List.countP_append, List.countP_cons_of_pos rfl, nextId]
    omega
  · intro k hk
    exact hk.lt_nextId

/-- **Identities are never reused**, whatever calls a run makes.

* A new record is given an identity that is greater than all that records of its type had at any
  moment before. It is at most the number of records that were inserted.
* Once a record was removed, every later call on it answers that it is missing, and a commit of a
  sink that was opened for it changes nothing. -/
theorem identities_never_reused {d : Schema.Document} {r : Registry}
    (hd : Registry.ofDocument d = .ok r) (hcalls : ∀ c ∈ calls, c.UsesTypesOf r) :
    (∀ before after record stored,
      history calls = before ++ ⟨.insert record, .record (.ok stored)⟩ :: after →
        ∃ id : Int, stored.id = some id ∧ id ≤ calls.countP Call.isInsert ∧
          ∀ k, Held (before.map Entry.call) record.type k → k < id) ∧
    ∀ before after t id,
      history calls = before ++ ⟨.delete t id, .done (.ok ())⟩ :: after →
        (run calls).Misses t id ∧
        ∀ name k, .opening t id name k ∈ before → ∀ s, (run calls).sink? k = some s →
          (run calls).answer (.commit k) = .length (.error (.missingRecord t.name id)) ∧
            ((run calls).step (.commit k)).memory = (run calls).memory := by
  have hr := Registry.resolved_of_ofDocument hd
  constructor
  · intro before after record stored h
    exact id_of_insertion hr hcalls h
  · intro before after t id h
    have hgone := gone_of_history h
    refine ⟨hgone.misses, fun name k hopening s hs => ?_⟩
    -- the sink still leads to the record that it was opened for
    have hrecorded := recorded_run hr hcalls
    obtain ⟨u, hu, other, hopened, hentity, -⟩ := hrecorded.sinks k s hs
    have hmem : .opening t id name k ∈ history calls := by
      rw [h]
      exact List.mem_append_left _ hopening
    obtain ⟨rfl, hid, -⟩ := hrecorded.openings t id name u s.id other k hmem hopened
    exact hgone.commit_step hs hentity hid.symm

/-- The last photo is removed while its picture is being uploaded, and another photo is stored. -/
def photo.reissued : List Call :=
  [.insert (claimed .null), .insert (claimed (.integer 9)), .openSink photo 2 "Picture",
    .write 0 [1], .delete photo 2, .insert (claimed (.integer 2)), .update (claimed (.integer 2))]

/-- The new photo is not the one that was removed, and the upload that is still open does not reach
it. -/
theorem identities_never_reused_photo :
    Registry.ofDocument album = .ok ⟨[photo]⟩ ∧
      (∀ c ∈ photo.reissued, c.UsesTypesOf ⟨[photo]⟩) ∧
      Held (photo.reissued.take 5) photo 2 ∧
      (∃ id : Int, ((run (photo.reissued.take 6)).memory.get photo id).isSome ∧ 2 < id) ∧
      (run photo.reissued).Misses photo 2 ∧
      (run photo.reissued).answer (.commit 0) = .length (.error (.missingRecord "Photo" 2)) := by
  have halbum : Registry.ofDocument album = .ok ⟨[photo]⟩ := rfl
  have hcalls : ∀ c ∈ photo.reissued, c.UsesTypesOf ⟨[photo]⟩ := by
    simp [photo.reissued, Call.UsesTypesOf, photo.claimed]
  have hheld : Held (photo.reissued.take 5) photo 2 := ⟨photo.reissued.take 2, ⟨_, rfl⟩, rfl⟩
  obtain ⟨hgiven, hremoved⟩ := identities_never_reused halbum hcalls
  obtain ⟨hmisses, hstale⟩ :=
    hremoved ((history photo.reissued).take 4) ((history photo.reissued).drop 5) photo 2 rfl
  refine ⟨halbum, hcalls, hheld, ?_, hmisses, ?_⟩
  · obtain ⟨id, hid, -, hlt⟩ := hgiven ((history photo.reissued).take 5)
      ((history photo.reissued).drop 6) _ ⟨photo, [.integer 3, .null, .text "sea.png"], rfl⟩ rfl
    obtain rfl : 3 = id := Option.some.inj hid
    exact ⟨3, rfl, hlt 2 hheld⟩
  · exact (hstale "Picture" 0 (List.mem_of_getElem? (i := 2) rfl) _ rfl).1

end RecordService.Memory
