import RecordService.Proofs.Http.Relay

/-!
# Uploads are stored whole or not at all

Whatever the two parties of an upload do in turns, and whatever other clients do in between: an
upload that is answered with a success has stored all bytes of its field, in one change of the
store, and one that is answered with a failure has not changed the store
(`RecordService.Http.Relay.stored_whole_or_not_at_all`).

What carries this is that nothing is lost on the way. The field is what the copy has taken, what is
in the queue and what the pump still has to pass on, in this order. An item that breaks the field
off stays in the queue until the copy takes it, so the copy does not come to the end of the queue
before.

* `RecordService.Http.Relay.Copy.Holds`: what the copy holds of a field.
* `RecordService.Http.Relay.Invariant`: what every turn keeps.
* `RecordService.Http.Relay.State.Untouched`, `RecordService.Http.Relay.State.Stored`: what the
  turns of an upload did to the store.
-/

namespace RecordService.Http

/-- All bytes of a field. -/
def Multipart.Field.content (f : Multipart.Field) : Bytes := f.chunks.flatten

namespace Relay

open Memory

variable {j : Job} {field : Multipart.Field} {s s' : State} {t : Turn} {turns : List Turn}

/-! ### What is on its way -/

/-- What the pump still has to pass on. -/
def Pump.rest : Pump → Feed
  | .sending rest => rest.feed
  | _ => []

/-- What the copy has not taken yet. -/
def State.pending (s : State) : Feed := s.queue ++ s.pump.rest

/-- A pump that is done has nothing to pass on. -/
theorem Pump.rest_eq_nil {p : Pump} (h : p.isSending = false) : p.rest = [] := by
  cases p with
  | sending rest => simp [isSending] at h
  | finished received => rfl
  | abandoned => rfl

/-- Behind an empty queue that is closed, nothing is to come. -/
theorem State.pending_eq_nil (hqueue : s.queue = []) (hpump : s.pump.isSending = false) :
    s.pending = [] := by
  rw [pending, hqueue, Pump.rest_eq_nil hpump]
  rfl

/-- **What the copy holds of a field** when `pending` is still to come. When it commits, it holds
all of it. -/
def Copy.Holds (field : Multipart.Field) (pending : Feed) : Copy → Prop
  | .starting => pending = field.feed
  | .opening _ _ _ => pending = field.feed
  | .reading sink _ current =>
    ∃ chunks : List Bytes, field.feed = chunks.map .bytes ++ pending ∧
      sink.staged ++ current = chunks.flatten
  | .committing sink => field.broken = none ∧ sink.staged = field.content
  | .finished (.ok _) => field.broken = none
  | .finished (.error _) => True
  | .died _ => True

/-- What the pump knows of a field: whether it is one that breaks off. -/
def Pump.Knows (field : Multipart.Field) : Pump → Prop
  | .sending rest => rest.broken = field.broken
  | .finished (.ok _) => True
  | .finished (.error _) => field.broken ≠ none
  | .abandoned => True

/-- Whether a sink leads to the property that a job names. -/
def Job.Leads (j : Job) (sink : MemorySink) : Prop :=
  ∃ t id, j.registry.resolve j.address.entity = .ok t ∧ j.address.id = some id ∧
    sink.entity = t.name ∧ sink.id = id ∧ blobIndex t j.property = .ok sink.index

/-- Whether the copy works on the property that a job names. -/
def Copy.WorksOn (j : Job) : Copy → Prop
  | .opening r a id => j.registry.resolve j.address.entity = .ok r.type ∧ j.address.id = some id ∧
    a.name = j.property
  | .reading sink _ _ => j.Leads sink
  | .committing sink => j.Leads sink
  | _ => True

/-- **What every turn keeps.** Once a request was given up, nothing is promised of what the copy
holds. -/
structure Invariant (j : Job) (field : Multipart.Field) (s : State) : Prop where
  world : ∃ n, s.world.Invariant j.registry n
  knows : s.pump.Knows field
  worksOn : s.copy.WorksOn j
  holds : s.pump ≠ .abandoned → s.copy.Holds field s.pending

/-- The invariant holds before the first turn: everything is still to come, and nothing is held. -/
theorem invariant_start {n : Nat} {w : World} (hw : w.Invariant j.registry n)
    (field : Multipart.Field) : Invariant j field (.start field w) where
  world := ⟨n, hw⟩
  knows := rfl
  worksOn := trivial
  holds _ := rfl

/-! ### One turn -/

/-- A field is never interrupted, as interruptions come from readers that can be asked again. -/
theorem interrupted_not_mem_feed (field : Multipart.Field) : .interrupted ∉ field.feed := by
  unfold Multipart.Field.feed
  cases field.broken <;> simp

/-- A feed of chunks is that of a field which arrives whole. So when the copy finds no break in what
it was fed, there was none in the field. -/
theorem eq_of_feed {chunks : List Bytes} (h : field.feed = chunks.map .bytes) :
    field.broken = none ∧ field.chunks = chunks := by
  obtain ⟨fieldChunks, broken⟩ := field
  cases broken with
  | none =>
    have hinjective : Function.Injective Delivery.bytes := fun _ _ => Delivery.bytes.inj
    refine ⟨rfl, List.map_injective_iff.mpr hinjective ?_⟩
    simpa [Multipart.Field.feed] using h
  | some text =>
    have hmem : Delivery.broken text ∈ chunks.map Delivery.bytes := by
      rw [← h]
      simp [Multipart.Field.feed]
    simp at hmem

/-- Once the copy is done, it does not matter what is still to come, since it does not hold anything
any more. -/
theorem Copy.Holds.of_isFinished {c : Copy} {pending : Feed} (h : c.Holds field pending)
    (hc : c.isFinished) (more : Feed) : c.Holds field more := by
  cases c with
  | finished stored => cases stored <;> exact h
  | died text => trivial
  | _ => simp [Copy.isFinished] at hc

/-- **Nothing is lost on the way.** A turn of the pump moves an item from the field to the end of
the queue, and a turn of the copy takes one from the front, so what the copy holds, the queue and
the rest of the field make up the same field as before. Giving up the request is left out, since it
drops the rest. -/
theorem Moves.holds (h : Moves j s t s') (hs : s.pump ≠ .abandoned → s.copy.Holds field s.pending)
    (hs' : s'.pump ≠ .abandoned) : s'.copy.Holds field s'.pending := by
  cases h with
  | wait _ _ => exact hs hs'
  | send hpump =>
    have hholds := hs (by simp [hpump])
    simpa [State.pending, hpump, Pump.rest, Multipart.Field.feed] using hholds
  | sendBroken hpump =>
    have hholds := hs (by simp [hpump])
    simpa [State.pending, hpump, Pump.rest, Multipart.Field.feed] using hholds
  | finish hpump hended hfares =>
    have hholds := hs (by simp [hpump])
    rcases hended with hfeed | hfinished
    · simpa [State.pending, hpump, Pump.rest, hfeed] using hholds
    · exact hholds.of_isFinished hfinished _
  | find hcopy hfound =>
    have hholds := hs hs'
    rw [hcopy] at hholds
    exact hholds
  | openSink hcopy hopened =>
    have hholds := hs hs'
    rw [hcopy] at hholds
    obtain ⟨-, -, -, hstaged⟩ := openSink_eq_ok hopened
    exact ⟨[], hholds.symm, by simp [hstaged]⟩
  | @take sink total b queue hcopy hitems =>
    have hholds := hs hs'
    rw [hcopy] at hholds
    obtain ⟨chunks, hfeed, hbytes⟩ := hholds
    rw [State.pending, hitems] at hfeed
    refine ⟨chunks ++ [b], ?_, ?_⟩
    · rw [hfeed, State.pending]
      simp
    · rw [List.append_nil] at hbytes
      simp [hbytes]
  | skip hcopy hitems =>
    have hholds := hs hs'
    rw [hcopy] at hholds
    obtain ⟨chunks, hfeed, -⟩ := hholds
    refine absurd ?_ (interrupted_not_mem_feed field)
    rw [hfeed, State.pending, hitems]
    simp
  | write hcopy hsome =>
    have hholds := hs hs'
    rw [hcopy] at hholds
    obtain ⟨chunks, hfeed, hbytes⟩ := hholds
    refine ⟨chunks, hfeed, ?_⟩
    rw [← hbytes, MemorySink.staged_write, List.append_assoc, List.take_append_drop]
  | close hcopy hitems hpump =>
    have hholds := hs hs'
    rw [hcopy] at hholds
    obtain ⟨chunks, hfeed, hbytes⟩ := hholds
    rw [State.pending_eq_nil hitems hpump, List.append_nil] at hfeed
    obtain ⟨hbroken, hchunks⟩ := eq_of_feed hfeed
    refine ⟨hbroken, ?_⟩
    rw [Multipart.Field.content, hchunks, ← hbytes, List.append_nil]
  | commit hcopy hcommitted =>
    have hholds := hs hs'
    rw [hcopy] at hholds
    exact hholds.1
  | fail _ _ e queue hcopy => trivial
  | die _ => trivial
  | abandon => exact absurd rfl hs'
  | other c => exact hs hs'

/-- A field that breaks off is not received, and one that does not is. -/
theorem Pump.knows_received {rest : Multipart.Field} (h : rest.broken = field.broken) :
    (finished rest.received).Knows field := by
  unfold Multipart.Field.received
  cases hbroken : rest.broken with
  | none => trivial
  | some text => exact fun hnone => by simp [← h, hbroken] at hnone

/-- What the pump knows of the field does not change while it passes on chunks: whether it breaks
off is a part of the rest. -/
theorem Moves.knows (h : Moves j s t s') (hs : s.pump.Knows field) : s'.pump.Knows field := by
  cases h with
  | send hpump =>
    rw [hpump] at hs
    exact hs
  | sendBroken hpump =>
    rw [hpump] at hs
    exact Pump.knows_received hs
  | finish hpump hended hfares =>
    rw [hpump] at hs
    rcases hfares with rfl | rfl
    · trivial
    · exact Pump.knows_received hs
  | abandon => trivial
  | _ => exact hs

/-- What the copy works on stays the attribute of the record that the job is for, from the moment
when it was found. -/
theorem Moves.worksOn (h : Moves j s t s') (hs : s.copy.WorksOn j) {n : Nat}
    (hm : s.world.memory.Consistent j.registry n) (hr : j.registry.Resolved) :
    s'.copy.WorksOn j := by
  cases h with
  | find hcopy hfound => exact find_eq_ok hm hr hfound
  | openSink hcopy hopened =>
    rw [hcopy] at hs
    obtain ⟨ht, hid, hname⟩ := hs
    obtain ⟨hentity, hsid, hindex, -⟩ := openSink_eq_ok hopened
    exact ⟨_, _, ht, hid, hentity, hsid, hname ▸ hindex⟩
  | take hcopy _ =>
    rw [hcopy] at hs
    exact hs
  | write hcopy _ =>
    rw [hcopy] at hs
    exact hs
  | close hcopy _ _ =>
    rw [hcopy] at hs
    exact hs
  | commit _ _ => trivial
  | fail _ _ _ _ _ => trivial
  | die _ => trivial
  | _ => exact hs

/-- A sink that leads to what the job is for leads to a binary attribute. -/
theorem Job.Leads.placed {sink : MemorySink} (h : j.Leads sink) : sink.Placed j.registry := by
  obtain ⟨t, id, ht, -, hentity, -, hindex⟩ := h
  obtain ⟨a, ha, -, hblob⟩ := blobIndex_eq_ok hindex
  exact ⟨t, (Registry.resolve_eq_ok ht).1, hentity.symm, a, ha, hblob⟩

/-- Own turns and those of other clients keep the store consistent, and the sinks that are open on
it placed. -/
theorem Moves.world (h : Moves j s t s') (hs : s.copy.WorksOn j) (hr : j.registry.Resolved)
    (ht : t.UsesTypesOf j.registry) (hw : ∃ n, s.world.Invariant j.registry n) :
    ∃ n, s'.world.Invariant j.registry n := by
  obtain ⟨n, hw⟩ := hw
  cases h with
  | commit hcopy hcommitted =>
    rw [hcopy] at hs
    exact ⟨n, hw.withMemory (hw.memory.commit hr hs.placed hcommitted)⟩
  | other c => exact ⟨_, hw.step hr ht⟩
  | _ => exact ⟨n, hw⟩

/-- **Turns keep the invariant**, whichever party or client takes them. -/
theorem Invariant.step (h : Invariant j field s) (hr : j.registry.Resolved)
    (ht : t.UsesTypesOf j.registry) : Invariant j field (s.step j t) := by
  have hmoves := moves_step j s t
  obtain ⟨n, hw⟩ := h.world
  exact ⟨hmoves.world h.worksOn hr ht h.world, hmoves.knows h.knows,
    hmoves.worksOn h.worksOn hw.memory hr, hmoves.holds h.holds⟩

/-! ### What the turns do to the store -/

/-- Whether no turn of the upload changes the store. -/
def State.Untouched (j : Job) : State → List Turn → Prop
  | _, [] => True
  | s, t :: turns =>
    (t.Own → (s.step j t).world.memory = s.world.memory) ∧ Untouched j (s.step j t) turns

/-- Whether the next turn of the copy commits some content for the property that a job names. -/
def State.Commits (j : Job) (s : State) (content : Bytes) : Prop :=
  ∃ t id sink, j.registry.resolve j.address.entity = .ok t ∧ j.address.id = some id ∧
    (sink.entity = t.name ∧ sink.id = id ∧ blobIndex t j.property = .ok sink.index) ∧
    s.copy = .committing sink ∧ sink.staged = content ∧
    s.world.memory.commit sink = .ok (content.length, (s.step j .copy).world.memory) ∧
    (s.step j .copy).world.memory.content t id j.property = .ok (some content)

/-- Whether the upload commits some content in one turn, and changes the store in no other. -/
def State.Stored (j : Job) (s : State) (turns : List Turn) (content : Bytes) : Prop :=
  ∃ before after, turns = before ++ .copy :: after ∧ s.Untouched j before ∧
    (s.run j before).Commits j content ∧ ((s.run j before).step j .copy).Untouched j after

/-- What later turns store is stored by the whole run, if the first turn does not change the store
itself. -/
theorem State.Stored.cons {content : Bytes} (h : (s.step j t).Stored j turns content)
    (ht : t.Own → (s.step j t).world.memory = s.world.memory) :
    s.Stored j (t :: turns) content := by
  obtain ⟨before, after, rfl, hbefore, hcommits, hafter⟩ := h
  exact ⟨t :: before, after, rfl, ⟨ht, hbefore⟩, hcommits, hafter⟩

/-- **What a turn of the upload does to the store**: nothing, or it commits what the copy holds.
Only then the copy is done with a success. So one look at the turn that commits is enough to know
what an upload stores. -/
theorem Moves.own (h : Moves j s t s') (ht : t.Own) :
    (s'.world.memory = s.world.memory ∧
      ∀ size, s'.copy = .finished (.ok size) → s.copy = .finished (.ok size)) ∨
    ∃ sink size, t = .copy ∧ s.copy = .committing sink ∧
      s.world.memory.commit sink = .ok (size, s'.world.memory) ∧
      s'.copy = .finished (.ok size) := by
  cases h with
  | @commit sink size m hcopy hcommitted => exact .inr ⟨sink, size, rfl, hcopy, hcommitted, rfl⟩
  | other c => exact ht.elim
  | wait _ _ => exact .inl ⟨rfl, fun _ h => h⟩
  | send _ => exact .inl ⟨rfl, fun _ h => h⟩
  | sendBroken _ => exact .inl ⟨rfl, fun _ h => h⟩
  | finish _ _ _ => exact .inl ⟨rfl, fun _ h => h⟩
  | skip _ _ => exact .inl ⟨rfl, fun _ h => h⟩
  | abandon => exact .inl ⟨rfl, fun _ h => h⟩
  | find _ _ => exact .inl ⟨rfl, by simp⟩
  | openSink _ _ => exact .inl ⟨rfl, by simp⟩
  | take _ _ => exact .inl ⟨rfl, by simp⟩
  | write _ _ => exact .inl ⟨rfl, by simp⟩
  | close _ _ _ => exact .inl ⟨rfl, by simp⟩
  | fail _ _ _ _ _ => exact .inl ⟨rfl, by simp⟩
  | die _ => exact .inl ⟨rfl, by simp⟩

/-- A copy that is done stays as it is, whatever is still passed on to it. -/
theorem Moves.copy_of_isFinished (h : Moves j s t s') (hs : s.copy.isFinished) :
    s'.copy = s.copy := by
  cases h with
  | find hcopy _ => simp [hcopy, Copy.isFinished] at hs
  | openSink hcopy _ => simp [hcopy, Copy.isFinished] at hs
  | take hcopy _ => simp [hcopy, Copy.isFinished] at hs
  | write hcopy _ => simp [hcopy, Copy.isFinished] at hs
  | close hcopy _ _ => simp [hcopy, Copy.isFinished] at hs
  | commit hcopy _ => simp [hcopy, Copy.isFinished] at hs
  | fail _ _ _ _ hcopy => simp [hcopy] at hs
  | die hcopy => simp [hcopy] at hs
  | _ => rfl

/-- A copy that is done does not change the store any more, by induction over the turns that follow.
-/
theorem untouched_of_isFinished (hs : s.copy.isFinished) (turns : List Turn) :
    (s.run j turns).copy = s.copy ∧ s.Untouched j turns := by
  induction turns generalizing s with
  | nil => exact ⟨rfl, trivial⟩
  | cons t turns ih =>
    have hmoves := moves_step j s t
    have hcopy := hmoves.copy_of_isFinished hs
    obtain ⟨hrun, huntouched⟩ := ih (s := s.step j t) (by rw [hcopy]; exact hs)
    refine ⟨hrun.trans hcopy, fun ht => ?_, huntouched⟩
    rcases hmoves.own ht with ⟨hmemory, -⟩ | ⟨sink, size, -, hcommitting, -⟩
    · exact hmemory
    · simp [hcommitting, Copy.isFinished] at hs

/-- A request that was given up stays so: nobody is left to pass anything on. -/
theorem Moves.abandoned (h : Moves j s t s') (hs : s.pump = .abandoned) : s'.pump = .abandoned := by
  cases h with
  | send hpump => simp [hs] at hpump
  | sendBroken hpump => simp [hs] at hpump
  | finish hpump _ _ => simp [hs] at hpump
  | abandon => rfl
  | _ => exact hs

/-- A job that was given up stays so for any number of turns. -/
theorem abandoned_run (hs : s.pump = .abandoned) (turns : List Turn) :
    (s.run j turns).pump = .abandoned := by
  induction turns generalizing s with
  | nil => exact hs
  | cons t turns ih => exact ih ((moves_step j s t).abandoned hs)

/-- What is put in place is found, since the record is there: otherwise the commit would have
failed. -/
theorem Job.Leads.commits {sink : MemorySink} {size n : Nat} (h : j.Leads sink)
    (hw : s.world.Invariant j.registry n) (hr : j.registry.Resolved)
    (hcopy : s.copy = .committing sink)
    (hcommit : s.world.memory.commit sink = .ok (size, (s.step j .copy).world.memory)) :
    s.Commits j sink.staged ∧ size = sink.staged.length := by
  obtain ⟨t, id, ht, hid, hentity, rfl, hindex⟩ := h
  have hsize : size = sink.staged.length := (length_of_commit hcommit).symm
  have hrow := row_of_commit hcommit
  rw [hentity] at hrow
  obtain ⟨row, hrow⟩ := Option.isSome_iff_exists.mp hrow
  have htable := hw.memory.table hr (Registry.resolve_eq_ok ht).1
  have hconsistent := (htable.rows _ row (htable.row?_eq_some_iff.mp hrow)).2.2
  have hcontent := content_commit_self hcommit hentity hrow hconsistent hindex
  exact ⟨⟨t, sink.id, sink, ht, hid, ⟨hentity, rfl, hindex⟩, hcopy, rfl, hsize ▸ hcommit,
    hcontent⟩, hsize⟩

/-- **A commit stores the whole field.** The copy commits only at the end of a closed queue, and
unless the request was given up, the pump closes the queue only behind the field. -/
theorem Invariant.commits {sink : MemorySink} {size : Nat} (h : Invariant j field s)
    (hr : j.registry.Resolved) (hs : s.pump ≠ .abandoned) (hcopy : s.copy = .committing sink)
    (hcommit : s.world.memory.commit sink = .ok (size, (s.step j .copy).world.memory)) :
    s.Commits j field.content ∧ size = field.content.length := by
  have hholds := h.holds hs
  have hleads := h.worksOn
  rw [hcopy] at hholds hleads
  obtain ⟨n, hw⟩ := h.world
  rw [← hholds.2]
  exact Job.Leads.commits hleads hw hr hcopy hcommit

/-- The copy that commits is done with a success, and answers the length of the content. -/
theorem State.Commits.copy_step {content : Bytes} (h : s.Commits j content) :
    (s.step j .copy).copy = .finished (.ok content.length) := by
  obtain ⟨t, id, sink, -, -, -, hcopy, -, hcommit, -⟩ := h
  have hrun : (Records.store (RecordStore.commit (m := StateM Memory) sink)).run.run
      s.world.memory = (.ok content.length, (s.step j .copy).world.memory) :=
    run_store_change_of_ok hcommit
  change (s.copyTurn j).copy = _
  simp only [State.copyTurn, hcopy, State.attempt, hrun]

/-- An upload that has stored its content is done with a success. -/
theorem State.Stored.copy_run {content : Bytes} (h : s.Stored j turns content) :
    (s.run j turns).copy = .finished (.ok content.length) := by
  obtain ⟨before, after, rfl, -, hcommits, -⟩ := h
  have hcopy := hcommits.copy_step
  have hfinished : ((s.run j before).step j .copy).copy.isFinished := by rw [hcopy]; rfl
  have hrun : s.run j (before ++ .copy :: after) =
      ((s.run j before).step j .copy).run j after := List.foldl_append
  rw [hrun, (untouched_of_isFinished hfinished after).1, hcopy]

/-- What may become of an upload: the copy has not succeeded and the store is as it was, or it has
and the content is stored. -/
def State.WholeOrNot (j : Job) (s : State) (turns : List Turn) (content : Bytes) : Prop :=
  ((∀ size, (s.run j turns).copy ≠ .finished (.ok size)) ∧ s.Untouched j turns) ∨
    (s.run j turns).copy = .finished (.ok content.length) ∧ s.Stored j turns content

/-- The alternative holds of a run if it holds of what follows a turn that does not change the
store. -/
theorem State.WholeOrNot.cons {content : Bytes} (h : (s.step j t).WholeOrNot j turns content)
    (ht : t.Own → (s.step j t).world.memory = s.world.memory) :
    s.WholeOrNot j (t :: turns) content :=
  h.imp (fun ⟨hfailed, huntouched⟩ => ⟨hfailed, ht, huntouched⟩)
    fun ⟨hdone, hstored⟩ => ⟨hdone, hstored.cons ht⟩

/-- **Whole or not at all**, by induction over the turns. A turn either commits, and then the copy
is done and nothing more is changed, or it leaves the store as it is and the turns behind it decide.
-/
theorem Invariant.wholeOrNot (h : Invariant j field s) (hr : j.registry.Resolved)
    (hturns : ∀ t ∈ turns, t.UsesTypesOf j.registry) (hcopy : s.copy.isFinished = false)
    (hpump : (s.run j turns).pump ≠ .abandoned) : s.WholeOrNot j turns field.content := by
  induction turns generalizing s with
  | nil =>
    refine .inl ⟨fun size hsize => ?_, trivial⟩
    have hsize : s.copy = .finished (.ok size) := hsize
    simp [hsize, Copy.isFinished] at hcopy
  | cons t turns ih =>
    obtain ⟨ht, hrest⟩ := List.forall_mem_cons.mp hturns
    have hmoves := moves_step j s t
    have hs : s.pump ≠ .abandoned := fun hs => hpump (abandoned_run hs (t :: turns))
    by_cases hown : t.Own
    · rcases hmoves.own hown with ⟨hmemory, hsuccess⟩ | ⟨sink, size, rfl, hcommitting, hm, hnext⟩
      · cases hnext : (s.step j t).copy.isFinished with
        | false => exact (ih (h.step hr ht) hrest hnext hpump).cons fun _ => hmemory
        | true =>
          -- the copy has failed, and does nothing in the turns that are left
          obtain ⟨hrun, huntouched⟩ := untouched_of_isFinished (j := j) hnext turns
          refine .inl ⟨fun size hsize => ?_, fun _ => hmemory, huntouched⟩
          have hdone := hsuccess size (hrun.symm.trans hsize)
          simp [hdone, Copy.isFinished] at hcopy
      · obtain ⟨hcommits, rfl⟩ := h.commits hr hs hcommitting hm
        have hfinished : (s.step j .copy).copy.isFinished := by rw [hnext]; rfl
        obtain ⟨hrun, huntouched⟩ := untouched_of_isFinished (j := j) hfinished turns
        exact .inr ⟨hrun.trans hnext, [], turns, rfl, trivial, hcommits, huntouched⟩
    · cases t with
      | other c =>
        exact (ih (h.step hr ht) hrest hcopy hpump).cons fun hown' => absurd hown' hown
      | _ => exact absurd trivial hown

/-- A whole run keeps the invariant, by induction over its turns. -/
theorem Invariant.run (h : Invariant j field s) (hr : j.registry.Resolved)
    (hturns : ∀ t ∈ turns, t.UsesTypesOf j.registry) : Invariant j field (s.run j turns) := by
  induction turns generalizing s with
  | nil => exact h
  | cons t turns ih =>
    obtain ⟨ht, hturns⟩ := List.forall_mem_cons.mp hturns
    exact ih (h.step hr ht) hturns

/-! ### The answer -/

/-- There is an answer when both parties are done. It is that of the copy, unless the field did not
arrive whole or the copy broke down. -/
theorem result?_eq_some {result : Except RequestError Nat} (h : s.result? = some result) :
    ∃ received, s.pump = .finished received ∧
      ((∃ stored, s.copy = .finished stored ∧ result = received.bind fun _ => stored) ∨
        ∃ text, s.copy = .died text ∧ result = .error (.ofStorage (.runtime text))) := by
  unfold State.result? at h
  split at h
  · next received stored hpump hcopy =>
    exact ⟨received, hpump, .inl ⟨stored, hcopy, (Option.some.inj h).symm⟩⟩
  · next received text hpump hcopy =>
    exact ⟨received, hpump, .inr ⟨text, hcopy, (Option.some.inj h).symm⟩⟩
  · simp at h

/-- If the copy stored the field, then the field did not break off, so the pump has no failure to
answer with. -/
theorem Invariant.received_of_stored {received : Except RequestError Unit} {size : Nat}
    (h : Invariant j field s) (hpump : s.pump = .finished received)
    (hcopy : s.copy = .finished (.ok size)) : field.broken = none ∧ received = .ok () := by
  have hknows := h.knows
  have hholds := h.holds (by simp [hpump])
  rw [hpump] at hknows
  rw [hcopy] at hholds
  have hwhole : field.broken = none := hholds
  cases received with
  | ok _ => exact ⟨hwhole, rfl⟩
  | error e => exact absurd hwhole hknows

/-- **An upload is stored whole or not at all.** The turns of its two parties and the calls of other
clients come in any order, and the copy may fail or break down meanwhile. The upload is answered
with a success exactly if one turn of it has committed all bytes of the field, and then the field
has arrived whole and the answer tells how many bytes these are. If it is answered with a failure,
then no turn of it has changed the store. -/
theorem stored_whole_or_not_at_all {d : Schema.Document} {j : Job}
    (hd : Registry.ofDocument d = .ok j.registry) {calls : List Call}
    (hcalls : ∀ c ∈ calls, c.UsesTypesOf j.registry) (field : Multipart.Field)
    {turns : List Turn} (hturns : ∀ t ∈ turns, t.UsesTypesOf j.registry) {response : Response}
    (hanswer : ((State.start field (Memory.run calls)).run j turns).answer? = some response) :
    (response.Successful ↔
        (State.start field (Memory.run calls)).Stored j turns field.content) ∧
      (response.Successful → field.broken = none ∧
        response = .data 201 (.object [("length", .ofInt field.content.length)])) ∧
      (¬response.Successful → (State.start field (Memory.run calls)).Untouched j turns) := by
  have hr := Registry.resolved_of_ofDocument hd
  have hstart := invariant_start (j := j) (invariant_run hr hcalls) field
  have hend := hstart.run hr hturns
  obtain ⟨result, hresult, rfl⟩ := Option.map_eq_some_iff.mp hanswer
  obtain ⟨received, hpump, hended⟩ := result?_eq_some hresult
  rcases hstart.wholeOrNot hr hturns rfl (by simp [hpump]) with
    ⟨hfailed, huntouched⟩ | ⟨hdone, hstored⟩
  · -- the copy ended with a failure, so whatever the pump reports, the answer is one
    have hanswered : ∃ e, result = .error e := by
      rcases hended with ⟨stored, hcopy, rfl⟩ | ⟨text, -, rfl⟩
      · cases received with
        | error e => exact ⟨e, rfl⟩
        | ok _ =>
          cases stored with
          | error e => exact ⟨e, rfl⟩
          | ok size => exact absurd hcopy (hfailed size)
      · exact ⟨_, rfl⟩
    obtain ⟨e, rfl⟩ := hanswered
    have hrefused := Response.not_successful_ofError e
    exact ⟨⟨fun h => absurd h hrefused, fun h => absurd h.copy_run (hfailed _)⟩,
      fun h => absurd h hrefused, fun _ => huntouched⟩
  · obtain ⟨hwhole, rfl⟩ := hend.received_of_stored hpump hdone
    have hresult : result = .ok field.content.length := by
      rcases hended with ⟨stored, hcopy, rfl⟩ | ⟨text, hcopy, -⟩
      · exact Copy.finished.inj (hcopy.symm.trans hdone)
      · simp [hdone] at hcopy
    subst hresult
    have hstatus : 201 < 400 := by decide
    exact ⟨⟨fun _ => hstored, fun _ => hstatus⟩, fun _ => ⟨hwhole, rfl⟩, fun h => absurd hstatus h⟩

/-- The picture of the first photo. -/
def picture : Job := ⟨⟨[photo]⟩, ⟨"Photo", some 1⟩, "Picture"⟩

/-- A picture that arrives in three chunks, the second of them empty. -/
def picture.arriving : Multipart.Field := ⟨[[1, 2], [], [3]], none⟩

/-- Turns up to the last one of the copy. The photo is edited while its picture is on the way. -/
def picture.sent : List Turn :=
  [.pump, .copy, .copy, .pump, .other (.update (photo.claimed (.integer 1))), .copy, .copy, .pump,
    .copy, .copy, .pump, .copy, .copy]

/-- The picture is stored whole, and not at all if the photo is deleted just before. -/
theorem stored_whole_or_not_at_all_photo :
    Registry.ofDocument album = .ok picture.registry ∧
      (∀ c ∈ [Call.insert (photo.claimed .null)], c.UsesTypesOf picture.registry) ∧
      let s := State.start picture.arriving (Memory.run [.insert (photo.claimed .null)])
      ((∀ t ∈ picture.sent ++ [.copy], t.UsesTypesOf picture.registry) ∧
          (s.run picture (picture.sent ++ [.copy])).answer? =
            some (.data 201 (.object [("length", .ofInt 3)])) ∧
          s.Stored picture (picture.sent ++ [.copy]) [1, 2, 3]) ∧
        (∀ t ∈ picture.sent ++ [.other (.delete photo 1), .copy],
            t.UsesTypesOf picture.registry) ∧
          (s.run picture (picture.sent ++ [.other (.delete photo 1), .copy])).answer? =
            some (.ofError (.noRecord "Photo" 1)) ∧
          s.Untouched picture (picture.sent ++ [.other (.delete photo 1), .copy]) := by
  have halbum : Registry.ofDocument album = .ok picture.registry := rfl
  have hcalls : ∀ c ∈ [Call.insert (photo.claimed .null)], c.UsesTypesOf picture.registry := by
    simp [picture, Call.UsesTypesOf, photo.claimed]
  have hkept : ∀ t ∈ picture.sent ++ [.copy], t.UsesTypesOf picture.registry := by
    simp [picture.sent, picture, Turn.UsesTypesOf, Call.UsesTypesOf, photo.claimed]
  have hdeleted : ∀ t ∈ picture.sent ++ [.other (.delete photo 1), .copy],
      t.UsesTypesOf picture.registry := by
    simp [picture.sent, picture, Turn.UsesTypesOf, Call.UsesTypesOf, photo.claimed]
  have hanswer : ((State.start picture.arriving (Memory.run [.insert (photo.claimed .null)])).run
      picture (picture.sent ++ [.copy])).answer? =
        some (.data 201 (.object [("length", .ofInt 3)])) := by
    rfl
  have hrefusal : ((State.start picture.arriving (Memory.run [.insert (photo.claimed .null)])).run
      picture (picture.sent ++ [.other (.delete photo 1), .copy])).answer? =
        some (.ofError (.noRecord "Photo" 1)) := by
    rfl
  obtain ⟨hstored, -⟩ := stored_whole_or_not_at_all halbum hcalls picture.arriving hkept hanswer
  obtain ⟨-, -, huntouched⟩ :=
    stored_whole_or_not_at_all halbum hcalls picture.arriving hdeleted hrefusal
  exact ⟨halbum, hcalls, ⟨hkept, hanswer, hstored.mp (show 201 < 400 by decide)⟩, hdeleted,
    hrefusal, huntouched (Response.not_successful_ofError _)⟩

end Relay

end RecordService.Http
