import RecordService.Proofs.Feed
import RecordService.Proofs.Http.Delivery

/-!
# Uploads take turns in any order

The service receives an upload as if nothing happened meanwhile: one side passes on the whole field,
the other stores it. If no other client gets in between, then the two parties do the same to the
store, in whatever order they take their turns (`RecordService.Http.Relay.received_in_turns`). They
also give the same answer, unless the field breaks off: then both answers are failures, but the copy
may fail for a reason of its own before the pump comes to the break.

Neither party waits for the other forever. The queue has room or something to take, so whenever both
have had a turn, one of them was of use (`RecordService.Http.Relay.answered_after_rounds`).

* `RecordService.Http.Relay.Copy.remaining`: what the copy has left to do, as one operation.
* `RecordService.Http.Relay.State.work`: a bound on the turns that are of use.
-/

namespace RecordService.Http.Relay

open Memory

variable {j : Job} {field : Multipart.Field} {s s' : State} {t : Turn} {turns : List Turn}

/-- Whether a turn is one of the two parties as they are meant to take it. -/
def Turn.Proper : Turn → Prop
  | pump => True
  | copy => True
  | _ => False

/-! ### What is left to do -/

/-- Writes all of a feed to a sink and commits it. -/
def finish (sink : MemorySink) (total : Nat) (f : Feed) :
    ExceptT RequestError (StateM Memory) Nat := do
  let write := fun s chunk => Records.store (RecordStore.write (m := StateM Memory) s chunk)
  let (sink, _) ← f.copyFrom Content.brokenSource write sink total
  Records.store (RecordStore.commit (m := StateM Memory) sink)

/-- **What the copy has left to do** when `pending` is still to come. -/
def Copy.remaining (j : Job) (pending : Feed) : Copy → ExceptT RequestError (StateM Memory) Nat
  | .starting => do
    let r ← Entities.load j.registry j.address
    Content.upload r (← Path.resolve r.type j.property) pending
  | .opening r a id => do
    let sink ← Records.store (RecordStore.openSink (m := StateM Memory) r.type id a.name)
    finish sink 0 pending
  | .reading sink total current => finish sink total (.bytes current :: pending)
  | .committing sink => Records.store (RecordStore.commit (m := StateM Memory) sink)
  | .finished stored => ExceptT.mk (pure stored)
  | .died text => throw (.ofStorage (.runtime text))

/-- What becomes of the upload and of the store when the copy does what it has left to do. -/
def State.outcome (j : Job) (s : State) : Except RequestError Nat × Memory :=
  (s.copy.remaining j s.pending).run.run s.world.memory

/-- An empty chunk adds nothing to a content. -/
theorem finish_empty (sink : MemorySink) (total : Nat) (f : Feed) :
    finish sink total (.bytes [] :: f) = finish sink total f := by
  simp only [finish, Feed.copyFrom_empty]

/-- The copy has left what is behind the operation that it runs. Running it now or later gives the
same outcome, since nobody else uses the store in between. -/
theorem outcome_attempt {α : Type} {x : ExceptT RequestError (StateM Memory) α} {next : α → Copy}
    (h : s.copy.remaining j s.pending = x >>= fun a => (next a).remaining j s.pending) :
    (s.attempt x next).outcome j = s.outcome j := by
  unfold State.outcome
  rw [h, run_bind]
  unfold State.attempt
  rcases x.run.run s.world.memory with ⟨e | a, m⟩ <;> rfl

/-- A turn of the pump moves an item from the rest of the field to the queue, and the copy will come
to it in either place. -/
theorem outcome_pumpTurn (j : Job) (s : State) : s.pumpTurn.outcome j = s.outcome j := by
  -- either the pending items stay, or the copy does not look at them any more
  have hdone {s' : State} (hcopy : s'.copy = s.copy) (hworld : s'.world = s.world)
      (hfinished : s.copy.isFinished) : s'.outcome j = s.outcome j := by
    unfold State.outcome
    rw [hcopy, hworld]
    cases h : s.copy with
    | finished stored => rfl
    | died text => rfl
    | _ => simp [h, Copy.isFinished] at hfinished
  have hpending {s' : State} (hcopy : s'.copy = s.copy) (hworld : s'.world = s.world)
      (hpending : s'.pending = s.pending) : s'.outcome j = s.outcome j := by
    unfold State.outcome
    rw [hcopy, hworld, hpending]
  unfold State.pumpTurn
  split
  · next chunk chunks broken hpump =>
    split
    · next hfinished => exact hdone rfl rfl hfinished
    · split
      · refine hpending rfl rfl ?_
        simp [State.pending, hpump, Pump.rest, Multipart.Field.feed]
      · rfl
  · next text hpump =>
    dsimp only
    split
    · next hfinished => exact hdone rfl rfl hfinished
    · split
      · refine hpending rfl rfl ?_
        simp [State.pending, hpump, Pump.rest, Multipart.Field.feed]
      · rfl
  · next hpump =>
    refine hpending rfl rfl ?_
    simp [State.pending, hpump, Pump.rest, Multipart.Field.feed]
  · rfl
  · rfl

/-- Taking an item is the next thing that the copy has left to do. -/
theorem outcome_takeTurn {sink : MemorySink} {total : Nat}
    (hcopy : s.copy = .reading sink total []) :
    (s.takeTurn sink total).outcome j = s.outcome j := by
  have hs : s.outcome j = (finish sink total s.pending).run.run s.world.memory := by
    rw [State.outcome, hcopy, Copy.remaining, finish_empty]
  rw [hs]
  unfold State.takeTurn
  split
  · next b queue hitems =>
    rw [State.pending, hitems]
    rfl
  · next queue hitems =>
    simp only [State.outcome, hcopy, Copy.remaining, finish_empty]
    simp only [State.pending, hitems, finish, List.cons_append, Feed.copyFrom_interrupted]
  · next text queue hitems =>
    simp only [State.pending, hitems, finish, List.cons_append, Feed.copyFrom_broken]
    rfl
  · next hitems =>
    split
    · exact hs
    · next hclosed =>
      have hpending : s.pending = [] := s.pending_eq_nil hitems (Bool.eq_false_iff.mpr hclosed)
      simp only [hpending, finish, Feed.copyFrom_nil, pure_bind]
      rfl

/-- Each phase of the copy runs one operation of what is left, in front. -/
theorem outcome_copyTurn (j : Job) (s : State) : (s.copyTurn j).outcome j = s.outcome j := by
  unfold State.copyTurn
  split
  · next hcopy =>
    refine outcome_attempt ?_
    simp only [hcopy, Copy.remaining, Job.find, bind_assoc, pure_bind]
    rfl
  · next r a id hcopy =>
    refine outcome_attempt ?_
    simp only [hcopy, Copy.remaining, finish_empty]
  · next hcopy => exact outcome_takeTurn hcopy
  · next sink total b bs hcopy =>
    refine outcome_attempt ?_
    simp only [hcopy, Copy.remaining, finish, Feed.copyFrom_bytes _ _ _ _ (List.cons_ne_nil b bs),
      bind_assoc]
  · next sink hcopy =>
    refine outcome_attempt ?_
    rw [hcopy]
    exact (bind_pure _).symm
  · rfl
  · rfl

/-- A turn of one of the parties leaves the outcome as it is. The outcome is what the copy would
come to on its own, from the state in which it is. -/
theorem outcome_step (ht : t.Proper) : (s.step j t).outcome j = s.outcome j := by
  cases t with
  | pump => exact outcome_pumpTurn j s
  | copy => exact outcome_copyTurn j s
  | _ => exact ht.elim

/-- The outcome is the same from the start to the end of a run, since no turn changes it. -/
theorem outcome_run (hturns : ∀ t ∈ turns, t.Proper) :
    (s.run j turns).outcome j = s.outcome j := by
  induction turns generalizing s with
  | nil => rfl
  | cons t turns ih =>
    obtain ⟨ht, hturns⟩ := List.forall_mem_cons.mp hturns
    exact (ih hturns).trans (outcome_step ht)

/-- The pump knows to the end whether its field breaks off. -/
theorem knows_run (hs : s.pump.Knows field) (turns : List Turn) :
    (s.run j turns).pump.Knows field := by
  induction turns generalizing s with
  | nil => exact hs
  | cons t turns ih => exact ih ((moves_step j s t).knows hs)

/-- A copy from a feed that breaks does not succeed, so the two answers agree in being failures. -/
theorem fails_remaining {feed : Feed} {text : String} (h : .broken text ∈ feed) :
    Fails (Copy.remaining j feed .starting) :=
  fails_bind fun r => fails_bind fun p => Content.fails_upload r p h

/-- **The order of the turns does not matter** if no other client gets in between. The two parties
leave the store as the service does that receives all of the field at once. They answer what it
answers, and if the field breaks off, both answer with a failure. -/
theorem received_in_turns (field : Multipart.Field) (w : World) (hturns : ∀ t ∈ turns, t.Proper)
    {result : Except RequestError Nat}
    (hresult : ((State.start field w).run j turns).result? = some result) :
    let atOnce := (Entities.receive j.registry j.address j.property field).run.run w.memory
    ((State.start field w).run j turns).world.memory = atOnce.2 ∧
      (field.broken = none → result = atOnce.1) ∧
      (field.broken ≠ none → (∃ e, result = .error e) ∧ ∃ e, atOnce.1 = .error e) := by
  obtain ⟨received, hpump, hended⟩ := result?_eq_some hresult
  obtain ⟨stored, hend, hresult⟩ : ∃ stored,
      ((State.start field w).run j turns).outcome j =
          (stored, ((State.start field w).run j turns).world.memory) ∧
        (result = received.bind (fun _ => stored) ∨
          ∃ e, stored = .error e ∧ result = .error e) := by
    rcases hended with ⟨stored, hcopy, hresult⟩ | ⟨text, hcopy, hresult⟩
    · exact ⟨stored, by rw [State.outcome, hcopy]; rfl, .inl hresult⟩
    · exact ⟨_, by rw [State.outcome, hcopy]; rfl, .inr ⟨_, rfl, hresult⟩⟩
  -- the copy did what it had to do from the start on
  have hcopied : (Copy.remaining j field.feed .starting).run.run w.memory =
      (stored, ((State.start field w).run j turns).world.memory) :=
    (outcome_run hturns).symm.trans hend
  have hreceive : Entities.receive j.registry j.address j.property field =
      upload field fun feed => Copy.remaining j feed .starting := rfl
  rw [hreceive, run_upload, hcopied]
  refine ⟨rfl, fun hwhole => ?_, fun hbroken => ?_⟩
  · have hknows := knows_run (j := j) (show (State.start field w).pump.Knows field from rfl) turns
    rw [hpump] at hknows
    rw [Multipart.Field.received_of_whole hwhole]
    rcases hresult with rfl | ⟨e, rfl, rfl⟩
    · cases received with
      | ok _ => rfl
      | error e => exact absurd hwhole hknows
    · rfl
  · obtain ⟨text, htext⟩ := Option.ne_none_iff_exists'.mp hbroken
    have hfails := fails_remaining (j := j) (Multipart.Field.broken_mem_feed htext)
    refine ⟨?_, _, by rw [Multipart.Field.received_of_broken htext]; rfl⟩
    rcases hresult with rfl | ⟨e, -, hresult⟩
    · -- if the pump has not noticed the break, the copy has
      cases received with
      | error e => exact ⟨e, rfl⟩
      | ok _ =>
        cases stored with
        | error e => exact ⟨e, rfl⟩
        | ok size => exact absurd (congrArg Prod.fst hcopied) (hfails _ _)
    · exact ⟨e, hresult⟩

/-! ### Neither party waits forever -/

/-- A bound on the turns that the pump has left to do. -/
def Pump.work : Pump → Nat
  | sending rest => rest.feed.weight + rest.feed.length + 1
  | _ => 0

/-- A bound on the turns that the copy has left to do, beside those for what is in the queue. -/
def Copy.work : Copy → Nat
  | starting => 4
  | opening _ _ _ => 3
  | reading _ _ current => current.length + 2
  | committing _ => 1
  | finished _ => 0
  | died _ => 0

/-- **A bound on the turns that are of use**, unless the request is given up. -/
def State.work (s : State) : Nat := s.pump.work + s.queue.weight + s.copy.work

/-- The two parties and the queue, without the store. -/
def State.parties (s : State) : Pump × Feed × Copy := (s.pump, s.queue, s.copy)

/-- There is work as long as the copy is not done. -/
theorem Copy.work_pos {c : Copy} (h : c.isFinished = false) : 0 < c.work := by
  cases c with
  | finished stored => simp [isFinished] at h
  | died text => simp [isFinished] at h
  | _ => simp [work]

/-- **A turn is of use, or changes nothing between the parties.** A call of another client, for
example, may change the store, but it takes no work off the parties and gives them none. -/
theorem Moves.work (h : Moves j s t s') (ht : t ≠ .abandon) :
    s'.parties = s.parties ∨ s'.work < s.work := by
  cases h with
  | wait _ _ => exact .inl rfl
  | other c => exact .inl rfl
  | abandon => exact absurd rfl ht
  | send hpump =>
    right
    simp only [State.work, hpump, Pump.work, Multipart.Field.feed, List.map_cons, List.cons_append,
      Feed.weight, List.length_cons, Feed.weight_append]
    omega
  | sendBroken hpump =>
    right
    simp only [State.work, hpump, Pump.work, Multipart.Field.feed, Feed.weight_append]
    simp [Feed.weight]
    omega
  | finish hpump _ _ =>
    right
    simp only [State.work, hpump, Pump.work]
    omega
  | find hcopy _ =>
    right
    simp only [State.work, hcopy, Copy.work]
    omega
  | openSink hcopy _ =>
    right
    simp only [State.work, hcopy, Copy.work, List.length_nil]
    omega
  | take hcopy hitems =>
    right
    simp only [State.work, hcopy, hitems, Copy.work, Feed.weight, List.length_nil]
    omega
  | skip hcopy hitems =>
    right
    simp only [State.work, hitems, Feed.weight]
    omega
  | @write sink total size current hcopy hsome =>
    right
    have hpos : 0 < current.length := List.length_pos_iff.mpr hsome
    have hchunk : 0 < Feed.chunkSize := by decide
    simp only [State.work, hcopy, Copy.work, List.length_drop]
    omega
  | close hcopy _ _ =>
    right
    simp only [State.work, hcopy, Copy.work, List.length_nil]
    omega
  | commit hcopy _ =>
    right
    simp only [State.work, hcopy, Copy.work]
    omega
  | fail _ _ e left hcopy =>
    right
    have hqueue := Feed.weight_le_of_suffix left
    have hpos := Copy.work_pos hcopy
    have hdone : (Copy.finished (.error e)).work = 0 := rfl
    simp only [State.work, hdone]
    omega
  | @die text hcopy =>
    right
    have hpos := Copy.work_pos hcopy
    have hdone : (Copy.died text).work = 0 := rfl
    simp only [State.work, hdone]
    omega

/-- The pump goes on if nobody takes anything any more, or if there is room. It waits only for a
copy that is alive. -/
theorem pump_pumpTurn_ne (hpump : s.pump.isSending)
    (hroom : s.copy.isFinished ∨ s.queue.length < depth) : s.pumpTurn.pump ≠ s.pump := by
  unfold State.pumpTurn
  split
  · next chunk chunks broken hsending =>
    rw [hsending]
    split
    · simp
    · next hcopy =>
      rw [if_pos (hroom.resolve_left hcopy)]
      simp
  · next text hsending =>
    rw [hsending]
    dsimp only
    split
    · simp
    · next hcopy =>
      rw [if_pos (hroom.resolve_left hcopy)]
      simp
  · next hsending =>
    rw [hsending]
    simp
  · next hsending => simp [hsending, Pump.isSending] at hpump
  · next hsending => simp [hsending, Pump.isSending] at hpump

/-- The copy is another one behind an operation, however that goes: the phases follow each other,
and a failure ends them. -/
theorem copy_attempt_ne {α : Type} {x : ExceptT RequestError (StateM Memory) α} {next : α → Copy}
    (hcopy : s.copy.isFinished = false) (hnext : ∀ a, next a ≠ s.copy) :
    (s.attempt x next).copy ≠ s.copy := by
  unfold State.attempt
  rcases x.run.run s.world.memory with ⟨e | a, m⟩
  · intro h
    rw [← h] at hcopy
    simp [Copy.isFinished] at hcopy
  · exact hnext a

/-- The copy goes on if it does not wait for an item. It waits only for a pump that is still
sending. -/
theorem copyTurn_ne (hcopy : s.copy.isFinished = false)
    (hitem : s.queue ≠ [] ∨ s.pump.isSending = false ∨
      ∀ sink total, s.copy ≠ .reading sink total []) :
    (s.copyTurn j).copy ≠ s.copy ∨ (s.copyTurn j).queue ≠ s.queue := by
  unfold State.copyTurn
  split
  · next hc => exact .inl (copy_attempt_ne hcopy fun a => by simp [hc])
  · next hc => exact .inl (copy_attempt_ne hcopy fun a => by simp [hc])
  · next sink total hc =>
    unfold State.takeTurn
    split
    · next hitems => exact .inr (by simp [hitems])
    · next hitems => exact .inr (by simp [hitems])
    · next hitems => exact .inr (by simp [hitems])
    · next hitems =>
      have hclosed : s.pump.isSending = false := by
        rcases hitem with h | h | h
        · exact absurd hitems h
        · exact h
        · exact absurd hc (h sink total)
      rw [hclosed]
      exact .inl (by simp [hc])
  · next sink total b bs hc =>
    refine .inl (copy_attempt_ne hcopy fun a => ?_)
    have hne : (b :: bs).drop Feed.chunkSize ≠ b :: bs := fun h => by
      have hlength := congrArg List.length h
      have hchunk : 0 < Feed.chunkSize := by decide
      rw [List.length_drop, List.length_cons] at hlength
      omega
    simp [hc, hne]
  · next hc => exact .inl (copy_attempt_ne hcopy fun a => by simp [hc])
  · next hc => simp [hc, Copy.isFinished] at hcopy
  · next hc => simp [hc, Copy.isFinished] at hcopy

/-- **One of the parties can go on** until both are done, whatever becomes of the store. If the copy
waits, then the queue is empty, so that there is room for the pump. It is the same party for all
stores, as the parties do not look at the store to know whether they have to wait. -/
theorem exists_ready (j : Job) (hpump : s.pump ≠ .abandoned) (hs : s.result? = none) :
    ∃ t, (t = .pump ∨ t = .copy) ∧
      ∀ s' : State, s'.parties = s.parties → (s'.step j t).parties ≠ s'.parties := by
  have hparts {s' : State} (h : s'.parties = s.parties) :
      s'.pump = s.pump ∧ s'.queue = s.queue ∧ s'.copy = s.copy := by
    simpa only [State.parties, Prod.mk.injEq] using h
  cases hcopy : s.copy.isFinished with
  | true =>
    have hsending : s.pump.isSending := by
      cases hp : s.pump with
      | sending rest => rfl
      | abandoned => exact absurd hp hpump
      | finished received =>
        cases hc : s.copy with
        | finished stored => simp [State.result?, hp, hc] at hs
        | died text => simp [State.result?, hp, hc] at hs
        | _ => simp [hc, Copy.isFinished] at hcopy
    refine ⟨.pump, .inl rfl, fun s' hs' h => ?_⟩
    obtain ⟨hp, -, hc⟩ := hparts hs'
    exact pump_pumpTurn_ne (hp ▸ hsending) (.inl (hc ▸ hcopy)) (congrArg Prod.fst h)
  | false =>
    by_cases hitem : s.queue ≠ [] ∨ s.pump.isSending = false ∨
        ∀ sink total, s.copy ≠ .reading sink total []
    · refine ⟨.copy, .inr rfl, fun s' hs' h => ?_⟩
      obtain ⟨hp, hq, hc⟩ := hparts hs'
      rw [← hp, ← hq, ← hc] at hitem
      rcases copyTurn_ne (j := j) (hc ▸ hcopy) hitem with hne | hne
      · exact hne (congrArg (fun p => p.2.2) h)
      · exact hne (congrArg (fun p => p.2.1) h)
    · -- the copy waits, so the queue is empty and has room
      simp only [not_or, not_not, Bool.not_eq_false] at hitem
      obtain ⟨hqueue, hsending, -⟩ := hitem
      refine ⟨.pump, .inl rfl, fun s' hs' h => ?_⟩
      obtain ⟨hp, hq, -⟩ := hparts hs'
      refine pump_pumpTurn_ne (hp ▸ hsending) (.inr ?_) (congrArg Prod.fst h)
      rw [hq, hqueue]
      decide

/-- Whether both parties have a turn, and the request is not given up. -/
structure Round (turns : List Turn) : Prop where
  pump : .pump ∈ turns
  copy : .copy ∈ turns
  kept : ∀ t ∈ turns, t ≠ .abandon

/-- Work is counted from what the parties have to do, without the store. -/
theorem work_eq_of_parties (h : s'.parties = s.parties) : s'.work = s.work := by
  obtain ⟨hpump, hqueue, hcopy⟩ : s'.pump = s.pump ∧ s'.queue = s.queue ∧ s'.copy = s.copy := by
    simpa only [State.parties, Prod.mk.injEq] using h
  simp only [State.work, hpump, hqueue, hcopy]

/-- No turn makes more work, so a run does not either. -/
theorem work_run_le (hkept : ∀ t ∈ turns, t ≠ .abandon) : (s.run j turns).work ≤ s.work := by
  induction turns generalizing s with
  | nil => exact le_rfl
  | cons t turns ih =>
    obtain ⟨ht, hkept⟩ := List.forall_mem_cons.mp hkept
    refine (ih (s := s.step j t) hkept).trans ?_
    rcases (moves_step j s t).work ht with hsame | hless
    · exact (work_eq_of_parties hsame).le
    · exact hless.le

/-- Turns with one of a party that can go on are of use. Either an earlier turn has been of use, or
the parties are as they were when this one could go on. -/
theorem work_run_lt (hkept : ∀ t ∈ turns, t ≠ .abandon) (ht : t ∈ turns)
    (hready : ∀ s' : State, s'.parties = s.parties → (s'.step j t).parties ≠ s'.parties) :
    (s.run j turns).work < s.work := by
  induction turns generalizing s with
  | nil => simp at ht
  | cons next turns ih =>
    obtain ⟨hnext, hkept⟩ := List.forall_mem_cons.mp hkept
    have hrest : (s.run j (next :: turns)).work ≤ (s.step j next).work := work_run_le hkept
    rcases (moves_step j s next).work hnext with hsame | hless
    · rcases List.mem_cons.mp ht with rfl | ht
      · exact absurd hsame (hready s rfl)
      · -- nothing has happened between the parties, so this one can still go on
        have hlater : (s.run j (next :: turns)).work < (s.step j next).work :=
          ih hkept ht fun s' hs' => hready s' (hs'.trans hsame)
        rwa [work_eq_of_parties hsame] at hlater
    · exact hrest.trans_lt hless

/-- **Every round is of use** until both parties are done, because it has a turn of each of them. -/
theorem Round.work_lt (h : Round turns) (hpump : s.pump ≠ .abandoned) (hs : s.result? = none) :
    (s.run j turns).work < s.work := by
  obtain ⟨t, ht, hready⟩ := exists_ready j hpump hs
  refine work_run_lt h.kept ?_ hready
  rcases ht with rfl | rfl
  · exact h.pump
  · exact h.copy

/-- A request that nobody gives up stays. -/
theorem Moves.kept (h : Moves j s t s') (ht : t ≠ .abandon) (hs : s.pump ≠ .abandoned) :
    s'.pump ≠ .abandoned := by
  cases h with
  | send _ => simp
  | sendBroken _ => simp
  | finish _ _ _ => simp
  | abandon => exact absurd rfl ht
  | _ => exact hs

/-- A job that is not given up is not given up in any number of turns. -/
theorem kept_run (hkept : ∀ t ∈ turns, t ≠ .abandon) (hs : s.pump ≠ .abandoned) :
    (s.run j turns).pump ≠ .abandoned := by
  induction turns generalizing s with
  | nil => exact hs
  | cons t turns ih =>
    obtain ⟨ht, hkept⟩ := List.forall_mem_cons.mp hkept
    exact ih hkept ((moves_step j s t).kept ht hs)

/-- A pump that is done stays as it is. -/
theorem Moves.pump_of_finished (h : Moves j s t s') (ht : t ≠ .abandon)
    {received : Except RequestError Unit} (hs : s.pump = .finished received) :
    s'.pump = .finished received := by
  cases h with
  | send hpump => simp [hs] at hpump
  | sendBroken hpump => simp [hs] at hpump
  | finish hpump _ _ => simp [hs] at hpump
  | abandon => exact absurd rfl ht
  | _ => exact hs

/-- The result of an upload stays as it is, so it does not matter when the client is told. -/
theorem result?_run (hkept : ∀ t ∈ turns, t ≠ .abandon) {result : Except RequestError Nat}
    (hs : s.result? = some result) : (s.run j turns).result? = some result := by
  induction turns generalizing s with
  | nil => exact hs
  | cons t turns ih =>
    obtain ⟨ht, hkept⟩ := List.forall_mem_cons.mp hkept
    refine ih hkept ?_
    obtain ⟨received, hpump, hended⟩ := result?_eq_some hs
    have hfinished : s.copy.isFinished := by
      rcases hended with ⟨stored, hcopy, -⟩ | ⟨text, hcopy, -⟩ <;> rw [hcopy] <;> rfl
    have hcopy := (moves_step j s t).copy_of_isFinished hfinished
    rw [State.result?, (moves_step j s t).pump_of_finished ht hpump, hcopy, ← hpump]
    exact hs

/-- Where no work is left, both parties are done. -/
theorem result?_of_work_eq_zero (hpump : s.pump ≠ .abandoned) (hwork : s.work = 0) :
    ∃ result, s.result? = some result := by
  simp only [State.work, Nat.add_eq_zero_iff] at hwork
  obtain ⟨⟨hsent, -⟩, hcopied⟩ := hwork
  cases hp : s.pump with
  | sending rest => simp [hp, Pump.work] at hsent
  | abandoned => exact absurd hp hpump
  | finished received =>
    cases hc : s.copy with
    | finished stored => exact ⟨_, by rw [State.result?, hp, hc]⟩
    | died text => exact ⟨_, by rw [State.result?, hp, hc]⟩
    | _ => simp [hc, Copy.work] at hcopied

/-- **Neither party waits forever.** Whatever other clients do meanwhile, and wherever the copy
fails, there is an answer after as many rounds as there is work. -/
theorem answered_after_rounds (hpump : s.pump ≠ .abandoned) {rounds : List (List Turn)}
    (hrounds : ∀ turns ∈ rounds, Round turns) (hwork : s.work ≤ rounds.length) :
    ∃ response, (s.run j rounds.flatten).answer? = some response := by
  have hresult : ∃ result, (s.run j rounds.flatten).result? = some result := by
    induction rounds generalizing s with
    | nil => exact result?_of_work_eq_zero hpump (Nat.le_zero.mp hwork)
    | cons turns rounds ih =>
      obtain ⟨hround, hrounds⟩ := List.forall_mem_cons.mp hrounds
      have hrun : s.run j (turns :: rounds).flatten = (s.run j turns).run j rounds.flatten :=
        List.foldl_append
      rw [hrun]
      cases hs : s.result? with
      | some result =>
        refine ⟨result, result?_run ?_ (result?_run hround.kept hs)⟩
        intro t ht
        obtain ⟨round, hround, ht⟩ := List.mem_flatten.mp ht
        exact (hrounds round hround).kept t ht
      | none =>
        have hless := hround.work_lt (j := j) hpump hs
        rw [List.length_cons] at hwork
        exact ih (kept_run hround.kept hpump) hrounds (by omega)
  obtain ⟨result, hresult⟩ := hresult
  exact ⟨_, congrArg (Option.map _) hresult⟩

/-- The two parties on their own come to an answer, so what is said above of runs with an answer is
not said of nothing. -/
theorem exists_turns (j : Job) (field : Multipart.Field) (w : World) :
    ∃ turns, (∀ t ∈ turns, t.Proper) ∧
      ∃ response, ((State.start field w).run j turns).answer? = some response := by
  have hround : Round [.pump, .copy] := ⟨by simp, by simp, by simp⟩
  refine ⟨(List.replicate (State.start field w).work [.pump, .copy]).flatten, fun t ht => ?_, ?_⟩
  · obtain ⟨turns, hturns, ht⟩ := List.mem_flatten.mp ht
    rw [List.eq_of_mem_replicate hturns] at ht
    rcases List.mem_pair.mp ht with rfl | rfl <;> trivial
  · refine answered_after_rounds (by simp [State.start]) (fun turns hturns => ?_)
      (List.length_replicate ▸ le_rfl)
    exact List.eq_of_mem_replicate hturns ▸ hround

end RecordService.Http.Relay
