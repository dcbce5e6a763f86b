import RecordService.Proofs.Http.Delivery

/-!
# Uploads that are given up

The client may go away while its upload is on the way. This closes the queue like the end of the
field does, and the copy cannot tell one from the other: it commits what was passed on before. What
holds of every upload is that it stores the chunks that were passed on, in one turn, or nothing; and
these are all chunks of the field unless the request was given up
(`RecordService.Http.Relay.stored_is_what_was_sent`). A request that is given up between two chunks
can replace the stored content by the first of them
(`RecordService.Http.Relay.abandoned_upload_replaces_content`).

* `RecordService.Http.Relay.State.sent`: what the pump passes on in some turns.
* `RecordService.Http.Relay.Sent`: what every turn keeps.
-/

namespace RecordService.Http.Relay

open Memory

variable {j : Job} {field : Multipart.Field} {items : Feed} {s s' : State} {t : Turn}
variable {turns : List Turn}

/-! ### What was passed on -/

/-- What a turn passes on that leads from one state to another. -/
def passed (t : Turn) (s s' : State) : Feed :=
  match t with
  | .pump => s'.queue.drop s.queue.length
  | _ => []

/-- What the pump passes on in some turns. -/
def State.sent (j : Job) : State → List Turn → Feed
  | _, [] => []
  | s, t :: turns => passed t s (s.step j t) ++ State.sent j (s.step j t) turns

/-- Nothing is passed on where the queue does not grow. -/
theorem passed_eq_nil (h : s'.queue.length ≤ s.queue.length) : passed t s s' = [] := by
  cases t with
  | pump => exact List.drop_eq_nil_of_le h
  | _ => rfl

/-- What a turn of the pump adds to the queue was passed on by it. -/
theorem passed_pump (h : s'.queue = s.queue ++ items) : passed .pump s s' = items := by
  rw [passed, h, List.drop_left]

/-- **What the copy made of what was passed on**: some of it may still be in the queue, and the rest
was taken from there. -/
def Copy.Took (items queue : Feed) : Copy → Prop
  | .starting => items = queue
  | .opening _ _ _ => items = queue
  | .reading sink _ current =>
    ∃ chunks : List Bytes, items = chunks.map .bytes ++ queue ∧
      sink.staged ++ current = chunks.flatten
  | .committing sink =>
    ∃ chunks : List Bytes, items = chunks.map .bytes ∧ sink.staged = chunks.flatten
  | .finished _ => True
  | .died _ => True

/-- **What every turn keeps** when `items` were passed on. -/
structure Sent (field : Multipart.Field) (items : Feed) (s : State) : Prop where
  front : items <+: field.feed
  /-- What was not passed on is still to come, unless the request was given up or nobody takes
  anything any more. -/
  rest : items ++ s.pump.rest = field.feed ∨
    s.pump.isSending = false ∧ (s.pump = .abandoned ∨ s.copy.isFinished)
  took : s.copy.Took items s.queue
  closed : ∀ sink, s.copy = .committing sink → s.pump.isSending = false

/-- Nothing was passed on before the first turn. -/
theorem sent_start (field : Multipart.Field) (w : World) : Sent field [] (.start field w) where
  front := List.nil_prefix
  rest := .inl rfl
  took := rfl
  closed _ h := by cases h

/-! ### One turn -/

/-- What is passed on comes to the end of the queue, so the copy will have taken it last. -/
theorem Copy.Took.append {c : Copy} {queue : Feed} (h : c.Took items queue)
    (hc : ∀ sink, c ≠ .committing sink) (more : Feed) : c.Took (items ++ more) (queue ++ more) := by
  cases c with
  | starting =>
    obtain rfl : items = queue := h
    exact rfl
  | opening r a id =>
    obtain rfl : items = queue := h
    exact rfl
  | reading sink total current =>
    obtain ⟨chunks, rfl, hbytes⟩ := h
    exact ⟨chunks, List.append_assoc _ _ _, hbytes⟩
  | committing sink => exact absurd rfl (hc sink)
  | finished stored => trivial
  | died text => trivial

/-- **The pump passes on the field in order.** What was passed on grows by what the rest of the
field loses. -/
theorem Sent.pump (h : Sent field items s) {more : Feed} (hsending : s.pump.isSending)
    (hrest : s.pump.rest = more ++ s'.pump.rest) (hqueue : s'.queue = s.queue ++ more)
    (hcopy : s'.copy = s.copy) : Sent field (items ++ passed .pump s s') s' := by
  have hfeed : items ++ more ++ s'.pump.rest = field.feed := by
    rcases h.rest with hfeed | ⟨hclosed, -⟩
    · rw [List.append_assoc, ← hrest, hfeed]
    · simp [hclosed] at hsending
  have hopen : ∀ sink, s.copy ≠ .committing sink := fun sink hsink => by
    simp [h.closed sink hsink] at hsending
  rw [passed_pump hqueue]
  refine ⟨⟨_, hfeed⟩, .inl hfeed, ?_, fun sink hsink => absurd (hcopy ▸ hsink) (hopen sink)⟩
  rw [hcopy, hqueue]
  exact h.took.append hopen more

/-- **The copy works on what was passed on**, and the pump does nothing meanwhile. The copy commits
only behind a closed queue, and then it has taken all that was passed on. -/
theorem Sent.copy (h : Sent field items s) (hpump : s'.pump = s.pump)
    (hqueue : s'.queue <:+ s.queue) (hfinished : s.copy.isFinished → s'.copy.isFinished)
    (htook : s'.copy.Took items s'.queue)
    (hclosed : ∀ sink, s'.copy = .committing sink → s.pump.isSending = false) :
    Sent field (items ++ passed t s s') s' := by
  rw [passed_eq_nil hqueue.length_le, List.append_nil]
  refine ⟨h.front, ?_, htook, fun sink hsink => hpump ▸ hclosed sink hsink⟩
  rw [hpump]
  exact h.rest.imp_right fun ⟨hsending, hcut⟩ => ⟨hsending, hcut.imp_right hfinished⟩

/-- **The pump leaves off**, since the request was given up or nobody takes anything any more. What
was passed on is then no longer all of the field, but still the beginning of it. -/
theorem Sent.cut (h : Sent field items s) (hsending : s'.pump.isSending = false)
    (hcut : s'.pump = .abandoned ∨ s'.copy.isFinished) (hqueue : s'.queue = s.queue)
    (hcopy : s'.copy = s.copy) : Sent field (items ++ passed t s s') s' := by
  rw [passed_eq_nil (hqueue ▸ Nat.le_refl _), List.append_nil]
  refine ⟨h.front, .inr ⟨hsending, hcut⟩, ?_, fun _ _ => hsending⟩
  rw [hcopy, hqueue]
  exact h.took

/-- **Turns keep what was passed on**, by one of the three lemmas above for each move. -/
theorem Moves.sent (h : Moves j s t s') (hs : Sent field items s) :
    Sent field (items ++ passed t s s') s' := by
  have htook := hs.took
  -- a copy that stays as it is
  have hsame (hpump : s'.pump = s.pump) (hqueue : s'.queue = s.queue) (hcopy : s'.copy = s.copy) :
      Sent field (items ++ passed t s s') s' :=
    hs.copy hpump (hqueue ▸ List.suffix_rfl) (fun hc => hcopy ▸ hc)
      (by rw [hcopy, hqueue]; exact htook) fun sink hsink => hs.closed sink (hcopy ▸ hsink)
  cases h with
  | wait _ _ => exact hsame rfl rfl rfl
  | other c => exact hsame rfl rfl rfl
  | send hpump =>
    refine hs.pump (by simp [hpump, Pump.isSending]) ?_ rfl rfl
    simp [hpump, Pump.rest, Multipart.Field.feed]
  | sendBroken hpump =>
    refine hs.pump (by simp [hpump, Pump.isSending]) ?_ rfl rfl
    simp [hpump, Pump.rest, Multipart.Field.feed]
  | finish hpump hended hfares =>
    rcases hended with hfeed | hfinished
    · have hrest : s.pump.rest = [] ++ [] := by
        rw [hpump]
        exact hfeed
      exact hs.pump (by simp [hpump, Pump.isSending]) hrest (List.append_nil _).symm rfl
    · exact hs.cut rfl (.inr hfinished) rfl rfl
  | find hcopy hfound =>
    rw [hcopy] at htook
    exact hs.copy rfl List.suffix_rfl (by simp [hcopy, Copy.isFinished]) htook (by simp)
  | openSink hcopy hopened =>
    rw [hcopy] at htook
    obtain ⟨-, -, -, hstaged⟩ := openSink_eq_ok hopened
    exact hs.copy rfl List.suffix_rfl (by simp [hcopy, Copy.isFinished])
      ⟨[], htook, by simp [hstaged]⟩ (by simp)
  | @take sink total b queue hcopy hitems =>
    rw [hcopy, hitems] at htook
    obtain ⟨chunks, rfl, hbytes⟩ := htook
    refine hs.copy rfl (hitems ▸ List.suffix_cons _ _) (by simp [hcopy, Copy.isFinished])
      ⟨chunks ++ [b], by simp, ?_⟩ (by simp)
    rw [List.append_nil] at hbytes
    simp [hbytes]
  | skip hcopy hitems =>
    rw [hcopy, hitems] at htook
    obtain ⟨chunks, rfl, -⟩ := htook
    exact absurd (hs.front.subset (by simp)) (interrupted_not_mem_feed field)
  | write hcopy hsome =>
    rw [hcopy] at htook
    obtain ⟨chunks, hitems, hbytes⟩ := htook
    refine hs.copy rfl List.suffix_rfl (by simp [hcopy, Copy.isFinished])
      ⟨chunks, hitems, ?_⟩ (by simp)
    rw [← hbytes, MemorySink.staged_write, List.append_assoc, List.take_append_drop]
  | close hcopy hitems hpump =>
    rw [hcopy, hitems] at htook
    obtain ⟨chunks, hchunks, hbytes⟩ := htook
    rw [List.append_nil] at hchunks hbytes
    exact hs.copy rfl List.suffix_rfl (by simp [hcopy, Copy.isFinished]) ⟨chunks, hchunks, hbytes⟩
      fun _ _ => hpump
  | commit hcopy hcommitted =>
    exact hs.copy rfl List.suffix_rfl (fun _ => rfl) trivial (by simp)
  | fail _ _ e hqueue hcopy => exact hs.copy rfl hqueue (fun _ => rfl) trivial (by simp)
  | die hcopy => exact hs.copy rfl List.suffix_rfl (fun _ => rfl) trivial (by simp)
  | abandon => exact hs.cut rfl (.inl rfl) rfl rfl

/-! ### Whole runs -/

/-- Nothing is passed on by a pump that is done. -/
theorem Moves.passed_of_not_isSending (h : Moves j s t s') (hs : s.pump.isSending = false) :
    passed t s s' = [] ∧ s'.pump.isSending = false := by
  cases h with
  | send hpump => simp [hpump, Pump.isSending] at hs
  | sendBroken hpump => simp [hpump, Pump.isSending] at hs
  | finish hpump _ _ => simp [hpump, Pump.isSending] at hs
  | abandon => exact ⟨passed_eq_nil (Nat.le_refl _), rfl⟩
  | take hcopy hitems => exact ⟨rfl, hs⟩
  | skip hcopy hitems => exact ⟨rfl, hs⟩
  | fail _ _ e hqueue hcopy => exact ⟨passed_eq_nil hqueue.length_le, hs⟩
  | _ => exact ⟨passed_eq_nil (Nat.le_refl _), hs⟩

/-- A pump that has stopped sending sends nothing in any number of turns. -/
theorem sent_of_not_isSending (hs : s.pump.isSending = false) (turns : List Turn) :
    s.sent j turns = [] := by
  induction turns generalizing s with
  | nil => rfl
  | cons t turns ih =>
    obtain ⟨hpassed, hs'⟩ := (moves_step j s t).passed_of_not_isSending hs
    rw [State.sent, hpassed, ih hs']
    rfl

/-- A request is only given up by a turn that does it, so a run without such a turn ends with the
pump having passed on all of the field. -/
theorem Moves.abandon_of_abandoned (h : Moves j s t s') (hs : s'.pump = .abandoned) :
    s.pump = .abandoned ∨ t = .abandon := by
  cases h with
  | abandon => exact .inr rfl
  | send _ => cases hs
  | sendBroken _ => cases hs
  | finish _ _ _ => cases hs
  | _ => exact .inl hs

/-- What may become of an upload when `items` were passed on before: it does not change the store, or
it stores the chunks that were passed on, and these are the whole field unless the request was given
up. -/
def State.AsSent (j : Job) (field : Multipart.Field) (items : Feed) (s : State)
    (turns : List Turn) : Prop :=
  s.Untouched j turns ∨ ∃ chunks : List Bytes, items ++ s.sent j turns = chunks.map .bytes ∧
    s.Stored j turns chunks.flatten ∧ items ++ s.sent j turns <+: field.feed ∧
    (items ++ s.sent j turns = field.feed ∨ s.pump = .abandoned ∨ .abandon ∈ turns)

/-- What later turns store is stored by the whole run, if the first turn does not change the store
itself. -/
theorem State.AsSent.cons
    (h : (s.step j t).AsSent j field (items ++ passed t s (s.step j t)) turns)
    (ht : t.Own → (s.step j t).world.memory = s.world.memory) :
    s.AsSent j field items (t :: turns) := by
  rcases h with huntouched | ⟨chunks, hchunks, hstored, hfront, hwhole⟩
  · exact .inl ⟨ht, huntouched⟩
  · rw [List.append_assoc] at hchunks hfront hwhole
    refine .inr ⟨chunks, hchunks, hstored.cons ht, hfront, hwhole.imp_right ?_⟩
    rintro (habandoned | hmem)
    · refine ((moves_step j s t).abandon_of_abandoned habandoned).imp_right ?_
      rintro rfl
      exact List.mem_cons_self
    · exact .inr (List.mem_cons_of_mem _ hmem)

/-- **What is stored was passed on**, by induction over the turns. The list of what was passed on
grows along the run, so the statement is about any such list and any state that fits it. -/
theorem Sent.asSent (hs : Sent field items s) (h : Invariant j field s) (hr : j.registry.Resolved)
    (hturns : ∀ t ∈ turns, t.UsesTypesOf j.registry) (hcopy : s.copy.isFinished = false) :
    s.AsSent j field items turns := by
  induction turns generalizing s items with
  | nil => exact .inl trivial
  | cons t turns ih =>
    obtain ⟨ht, hrest⟩ := List.forall_mem_cons.mp hturns
    have hmoves := moves_step j s t
    by_cases hown : t.Own
    · rcases hmoves.own hown with ⟨hmemory, -⟩ | ⟨sink, size, rfl, hcommitting, hcommit, hnext⟩
      · cases hfinished : (s.step j t).copy.isFinished with
        | false => exact (ih (hmoves.sent hs) (h.step hr ht) hrest hfinished).cons fun _ => hmemory
        | true => exact .inl ⟨fun _ => hmemory, (untouched_of_isFinished hfinished turns).2⟩
      · -- the queue is closed and empty, so nothing was passed on that the copy does not hold
        have hclosed := hs.closed sink hcommitting
        have hnone : s.sent j (.copy :: turns) = [] := sent_of_not_isSending hclosed _
        have htook := hs.took
        have hleads := h.worksOn
        rw [hcommitting] at htook hleads
        obtain ⟨chunks, hchunks, hstaged⟩ := htook
        obtain ⟨n, hw⟩ := h.world
        obtain ⟨hcommits, -⟩ := Job.Leads.commits hleads hw hr hcommitting hcommit
        have hfinished : (s.step j .copy).copy.isFinished := by rw [hnext]; rfl
        refine .inr ⟨chunks, ?_, ?_, ?_, ?_⟩
        · rw [hnone, List.append_nil, hchunks]
        · rw [← hstaged]
          exact ⟨[], turns, rfl, trivial, hcommits, (untouched_of_isFinished hfinished turns).2⟩
        · rw [hnone, List.append_nil]
          exact hs.front
        · rw [hnone, List.append_nil]
          rcases hs.rest with hfeed | ⟨-, habandoned | hdone⟩
          · left
            rw [← hfeed, Pump.rest_eq_nil hclosed, List.append_nil]
          · exact .inr (.inl habandoned)
          · simp [hcopy] at hdone
    · cases t with
      | other c =>
        exact (ih (hmoves.sent hs) (h.step hr ht) hrest hcopy).cons fun hown' => absurd hown' hown
      | _ => exact absurd trivial hown

/-- Turns of the upload alone that do not change the store leave it as it is. -/
theorem State.Untouched.memory_run (h : s.Untouched j turns) (hown : ∀ t ∈ turns, t.Own) :
    (s.run j turns).world.memory = s.world.memory := by
  induction turns generalizing s with
  | nil => rfl
  | cons t turns ih =>
    obtain ⟨ht, hturns⟩ := List.forall_mem_cons.mp hown
    exact (ih h.2 hturns).trans (h.1 ht)

/-! ### What is stored -/

/-- The bytes of a delivery. -/
def bytes? : Delivery → Option Bytes
  | .bytes b => some b
  | _ => none

/-- The chunks of a feed of chunks. -/
theorem filterMap_bytes? (chunks : List Bytes) :
    (chunks.map Delivery.bytes).filterMap bytes? = chunks := by
  rw [List.filterMap_map]
  exact List.filterMap_some

/-- Chunks that a feed begins with are the first chunks of its field. -/
theorem chunks_of_feed {chunks : List Bytes} (h : chunks.map .bytes <+: field.feed) :
    chunks <+: field.chunks := by
  have hfeed : field.feed.filterMap bytes? = field.chunks := by
    rw [Multipart.Field.feed, List.filterMap_append, filterMap_bytes?]
    cases field.broken <;> simp [bytes?]
  have hfirst := h.filterMap bytes?
  rwa [filterMap_bytes?, hfeed] at hfirst

/-- **An upload stores what was passed on, or nothing.** The turns of its two parties and the calls of
other clients come in any order, the copy may fail or break down meanwhile, and the request may be
given up. Either no turn of the upload changes the store, or one turn of it commits the chunks that
were passed on, which are the first ones of the field. If some chunk was not passed on, then the
request was given up. -/
theorem stored_is_what_was_sent {d : Schema.Document} {j : Job}
    (hd : Registry.ofDocument d = .ok j.registry) {calls : List Call}
    (hcalls : ∀ c ∈ calls, c.UsesTypesOf j.registry) (field : Multipart.Field)
    {turns : List Turn} (hturns : ∀ t ∈ turns, t.UsesTypesOf j.registry) :
    let s := State.start field (Memory.run calls)
    s.Untouched j turns ∨ ∃ chunks : List Bytes, s.sent j turns = chunks.map .bytes ∧
      chunks <+: field.chunks ∧ s.Stored j turns chunks.flatten ∧
      (chunks = field.chunks ∧ field.broken = none ∨ .abandon ∈ turns) := by
  intro s
  have hr := Registry.resolved_of_ofDocument hd
  have hstart := invariant_start (j := j) (invariant_run hr hcalls) field
  rcases (sent_start field (Memory.run calls)).asSent hstart hr hturns rfl with
    huntouched | ⟨chunks, hchunks, hstored, hfront, hwhole⟩
  · exact .inl huntouched
  · rw [List.nil_append] at hchunks hfront hwhole
    refine .inr ⟨chunks, hchunks, chunks_of_feed (hchunks ▸ hfront), hstored, ?_⟩
    rcases hwhole with hfeed | habandoned | hmem
    · obtain ⟨hbroken, hall⟩ := eq_of_feed (hfeed.symm.trans hchunks)
      exact .inl ⟨hall.symm, hbroken⟩
    · cases habandoned
    · exact .inr hmem

/-- A photo with a picture of one byte. -/
def picture.before : List Call :=
  [.insert (photo.claimed .null), .openSink photo 1 "Picture", .write 0 [9], .commit 0]

/-- Another picture for the photo, in two chunks. -/
def picture.halves : State := .start ⟨[[1], [2]], none⟩ (Memory.run picture.before)

/-- The client goes away when one chunk was passed on. -/
def picture.abandoned : List Turn :=
  [.pump, .abandon, .copy, .copy, .copy, .copy, .copy, .copy]

theorem picture.own_abandoned : ∀ t ∈ picture.abandoned, t.Own := by
  simp [picture.abandoned, Turn.Own]

theorem picture.content_before :
    picture.halves.world.memory.content photo 1 "Picture" = .ok (some [9]) := by rfl

theorem picture.content_after :
    (picture.halves.run picture picture.abandoned).world.memory.content photo 1 "Picture" =
      .ok (some [1]) := by rfl

theorem picture.not_untouched : ¬picture.halves.Untouched picture picture.abandoned := by
  intro h
  have hafter := picture.content_after
  rw [h.memory_run picture.own_abandoned, picture.content_before] at hafter
  cases hafter

/-- What was passed on before the client went away is stored. -/
theorem stored_is_what_was_sent_photo :
    Registry.ofDocument album = .ok picture.registry ∧
      (∀ c ∈ picture.before, c.UsesTypesOf picture.registry) ∧
      (∀ t ∈ picture.abandoned, t.UsesTypesOf picture.registry) ∧
      ∃ chunks : List Bytes,
        picture.halves.sent picture picture.abandoned = chunks.map .bytes ∧
          chunks <+: [[1], [2]] ∧ picture.halves.Stored picture picture.abandoned chunks.flatten := by
  have halbum : Registry.ofDocument album = .ok picture.registry := rfl
  have hcalls : ∀ c ∈ picture.before, c.UsesTypesOf picture.registry := by
    simp [picture.before, picture, Call.UsesTypesOf, photo.claimed]
  have hturns : ∀ t ∈ picture.abandoned, t.UsesTypesOf picture.registry := by
    simp [picture.abandoned, Turn.UsesTypesOf]
  refine ⟨halbum, hcalls, hturns, ?_⟩
  rcases stored_is_what_was_sent halbum hcalls ⟨[[1], [2]], none⟩ hturns with
    huntouched | ⟨chunks, hsent, hfirst, hstored, -⟩
  · exact absurd huntouched picture.not_untouched
  · exact ⟨chunks, hsent, hfirst, hstored⟩

/-- **A request that is given up replaces stored content.** Only one of two chunks was passed on, and
it is the content of the picture in the end, in place of the one before. -/
theorem abandoned_upload_replaces_content :
    (∀ t ∈ picture.abandoned, t.Own) ∧
      picture.halves.sent picture picture.abandoned = [.bytes [1]] ∧
      picture.halves.world.memory.content photo 1 "Picture" = .ok (some [9]) ∧
      (picture.halves.run picture picture.abandoned).world.memory.content photo 1 "Picture" =
        .ok (some [1]) ∧
      ¬picture.halves.Untouched picture picture.abandoned :=
  ⟨picture.own_abandoned, by rfl, picture.content_before, picture.content_after,
    picture.not_untouched⟩

end RecordService.Http.Relay
