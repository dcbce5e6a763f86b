import RecordService.Proofs.Outcome
import RecordService.Proofs.Store.Run
import RecordService.Store.Content

/-!
# What operations do to the store in memory

An operation that only reads leaves the store as it is. One that changes the store makes one change,
in its last step, behind everything that may fail. So the store is as before whenever the operation
fails, and changed exactly once whenever it succeeds.

* `RecordService.Memory.Change`: one change of the store.
* `RecordService.Memory.ReadsOnly`: actions that leave the store as it is.
* `RecordService.Memory.ChangesOnce`: actions that change it once if they succeed, and otherwise
  leave it as it is.
* `RecordService.Memory.Fails`: actions that do not succeed in any state.
* `RecordService.Records.run_save`, `RecordService.Records.run_remove`,
  `RecordService.Content.run_upload`: all that these operations may do.
* `RecordService.Content.changesOnce_upload`, `RecordService.Content.fails_upload`: an upload, and
  one whose feed breaks.
-/

namespace RecordService

namespace Memory

variable {α β ε : Type}

/-! ### Actions -/

/-- Whether an action leaves the store as it is. -/
def ReadsOnly (x : StateM Memory α) : Prop := ∀ m, (x.run m).2 = m

/-- **One change of the store**: a new record, other values of a record, a record less, or other
content of a record. -/
inductive Change (m : Memory) : Memory → Prop
  | insert (r : Record) : Change m (m.insert r).2
  | update {r stored : Record} {m' : Memory} (h : m.update r = .ok (stored, m')) : Change m m'
  | delete {t : RecordType} {id : Int} {m' : Memory} (h : m.delete t id = .ok m') : Change m m'
  | commit {s : MemorySink} {size : Nat} {m' : Memory} (h : m.commit s = .ok (size, m')) :
      Change m m'

/-- Whether an action either fails and leaves the store as it is, or changes it once and has a result
as `done` says. -/
def ChangesOnce (done : α → Prop) (x : ExceptT ε (StateM Memory) α) : Prop :=
  ∀ m, (∃ e, x.run.run m = (.error e, m)) ∨
    ∃ a m', x.run.run m = (.ok a, m') ∧ done a ∧ m.Change m'

/-- Whether an action does not succeed in any state. -/
def Fails (x : ExceptT ε (StateM Memory) α) : Prop := ∀ m a, (x.run.run m).1 ≠ .ok a

variable {x : ExceptT ε (StateM Memory) α} {f : α → ExceptT ε (StateM Memory) β}
variable {a : α} {m m' : Memory}

/-- One action behind another runs in the state that this one leaves, if it succeeds. A failure of
the first keeps what the first had changed, so the order of checks and changes matters. -/
theorem run_bind (x : ExceptT ε (StateM Memory) α) (f : α → ExceptT ε (StateM Memory) β)
    (m : Memory) :
    (x >>= f).run.run m = match x.run.run m with
      | (.ok a, m) => (f a).run.run m
      | (.error e, m) => (.error e, m) := by
  change (ExceptT.bind x f).run.run m = _
  simp only [ExceptT.bind, ExceptT.run, ExceptT.mk]
  rcases h : StateT.run x m with ⟨_ | _, _⟩ <;> simp [h, ExceptT.bindCont] <;> rfl

/-- Behind an action that succeeds, the next one runs on its result. -/
theorem run_bind_of_ok (h : x.run.run m = (.ok a, m'))
    (f : α → ExceptT ε (StateM Memory) β) : (x >>= f).run.run m = (f a).run.run m' := by
  rw [run_bind, h]

/-! ### Reading -/

theorem readsOnly_pure (a : α) : ReadsOnly (pure a : ExceptT ε (StateM Memory) α).run :=
  fun _ => rfl

theorem readsOnly_throw (e : ε) : ReadsOnly (throw e : ExceptT ε (StateM Memory) α).run :=
  fun _ => rfl

/-- What does not depend on the store leaves it as it is. -/
theorem readsOnly_liftM (e : Except ε α) :
    ReadsOnly (liftM e : ExceptT ε (StateM Memory) α).run := fun _ => rfl

theorem run_liftM_ok {e : Except ε α} (h : e = .ok a) :
    (ExceptT.mk (pure e) : ExceptT ε (StateM Memory) α).run.run m = (.ok a, m) := by
  rw [h]
  rfl

/-- Behind an action that only reads, the next one runs in the same state, unless the first fails.
With this a request is peeled from its front: every check and look-up leaves the store that the rest
of the request is about. -/
theorem ReadsOnly.run_bind (hx : ReadsOnly x.run) (f : α → ExceptT ε (StateM Memory) β)
    (m : Memory) :
    (∃ e, (x.run.run m).1 = .error e ∧ (x >>= f).run.run m = (.error e, m)) ∨
      ∃ a, (x.run.run m).1 = .ok a ∧ (x >>= f).run.run m = (f a).run.run m := by
  have hm := hx m
  rw [Memory.run_bind]
  rcases h : x.run.run m with ⟨e | a, m'⟩
  · rw [h] at hm
    exact .inl ⟨e, rfl, Prod.ext rfl hm⟩
  · rw [h] at hm
    obtain rfl : m' = m := hm
    exact .inr ⟨a, rfl, rfl⟩

/-- Two readings in a row are a reading. -/
theorem ReadsOnly.bind (hx : ReadsOnly x.run) (hf : ∀ a, ReadsOnly (f a).run) :
    ReadsOnly (x >>= f).run := by
  intro m
  rcases hx.run_bind f m with ⟨e, -, h⟩ | ⟨a, -, h⟩
  · rw [h]
  · rw [h]
    exact hf a m

theorem ReadsOnly.map (hx : ReadsOnly x.run) (g : α → β) : ReadsOnly (g <$> x).run := by
  have h : g <$> x = x >>= fun a => pure (g a) := (bind_pure_comp g x).symm
  rw [h]
  exact hx.bind fun a => readsOnly_pure (g a)

theorem ReadsOnly.lift {y : StateM Memory α} (hy : ReadsOnly y) :
    ReadsOnly (ExceptT.lift y : ExceptT ε (StateM Memory) α).run := fun m => hy m

/-- Looking at the store is a reading, also if what is looked for is missing. -/
theorem readsOnly_inspect (g : Memory → Except StorageError α) : ReadsOnly (inspect g).run :=
  fun _ => rfl

/-- An operation of the store as part of a request. Only the form of its error changes, so what
holds of the store holds of the request. -/
theorem run_store (x : ExceptT StorageError (StateM Memory) α) (m : Memory) :
    (Records.store x).run.run m =
      ((x.run.run m).1.mapError RequestError.ofStorage, (x.run.run m).2) := rfl

/-- Reading from the store as part of a request. -/
theorem run_store_inspect {g : Memory → Except StorageError α} (h : g m = .ok a) :
    (Records.store (inspect g)).run.run m = (.ok a, m) := by
  have hrun : (inspect g).run.run m = (g m, m) := rfl
  rw [run_store, hrun, h]
  rfl

theorem ReadsOnly.store {x : ExceptT StorageError (StateM Memory) α} (hx : ReadsOnly x.run) :
    ReadsOnly (Records.store x).run := fun m => hx m

/-! ### Changing -/

/-- Changing the store as part of a request. -/
theorem run_store_change_of_ok {g : Memory → Except StorageError (α × Memory)}
    (h : g m = .ok (a, m')) : (Records.store (change g)).run.run m = (.ok a, m') := by
  rw [run_store, run_change_of_ok h]
  rfl

/-- A change that is part of a request happens or fails, and a change that fails leaves the store as
it was. -/
theorem run_store_change (g : Memory → Except StorageError (α × Memory)) (m : Memory) :
    (∃ e, (Records.store (change g)).run.run m = (.error e, m)) ∨
      ∃ a m', g m = .ok (a, m') ∧ (Records.store (change g)).run.run m = (.ok a, m') := by
  cases h : g m with
  | error e =>
    rw [run_store, run_change_of_error h]
    exact .inl ⟨_, rfl⟩
  | ok p =>
    obtain ⟨a, m'⟩ := p
    exact .inr ⟨a, m', rfl, run_store_change_of_ok h⟩

/-- Reading first changes nothing, so an action with checks in front changes the store once if the
rest does. -/
theorem ReadsOnly.bind_changesOnce {done : β → Prop} (hx : ReadsOnly x.run)
    (hf : ∀ a, ChangesOnce done (f a)) : ChangesOnce done (x >>= f) := by
  intro m
  rcases hx.run_bind f m with ⟨e, -, h⟩ | ⟨a, -, h⟩
  · exact .inl ⟨e, h⟩
  · rw [h]
    exact hf a m

/-- Behind a change there is only the result to give. A check behind the change could still fail,
and then the store would be changed by a request that was refused. -/
theorem ChangesOnce.bind_pure {done : α → Prop} {done' : β → Prop} {g : α → β}
    (hx : ChangesOnce done x) (hg : ∀ a, done a → done' (g a)) :
    ChangesOnce done' (x >>= fun a => pure (g a)) := by
  intro m
  rw [run_bind]
  rcases hx m with ⟨e, h⟩ | ⟨a, m', h, ha, hm⟩
  · rw [h]
    exact .inl ⟨e, rfl⟩
  · rw [h]
    exact .inr ⟨g a, m', rfl, hg a ha, hm⟩

/-! ### Failing -/

theorem fails_throw (e : ε) : Fails (throw e : ExceptT ε (StateM Memory) α) := by
  intro m a h
  have h : (Except.error e : Except ε α) = .ok a := h
  simp at h

/-- What follows an action that fails is not reached. -/
theorem Fails.bind (hx : Fails x) (f : α → ExceptT ε (StateM Memory) β) : Fails (x >>= f) := by
  intro m b hb
  rw [run_bind] at hb
  rcases h : x.run.run m with ⟨e | a, m'⟩
  · simp only [h, reduceCtorEq] at hb
  · exact hx m a (by rw [h])

/-- An action fails if what follows it fails on each of its results. -/
theorem fails_bind (hf : ∀ a, Fails (f a)) : Fails (x >>= f) := by
  intro m b hb
  rw [run_bind] at hb
  rcases h : x.run.run m with ⟨e | a, m'⟩
  · simp only [h, reduceCtorEq] at hb
  · rw [h] at hb
    exact hf a m' b hb

/-- What fails has not changed anything, if it is of those that change the store only when they
succeed. -/
theorem Fails.readsOnly {done : α → Prop} (hx : Fails x) (hc : ChangesOnce done x) :
    ReadsOnly x.run := by
  intro m
  rcases hc m with ⟨e, h⟩ | ⟨a, m', h, -, -⟩
  · rw [h]
  · exact absurd (congrArg Prod.fst h) (hx m a)

theorem changesOnce_throw (done : α → Prop) (e : ε) :
    ChangesOnce done (throw e : ExceptT ε (StateM Memory) α) := fun _ => .inl ⟨e, rfl⟩

end Memory

open Memory

/-! ### Feeds -/

namespace Feed

variable {σ ε : Type} {failed : String → ε} {write : σ → Bytes → ExceptT ε (StateM Memory) σ}

/-- A feed that breaks does so in this read or in a later one, and does not end before. -/
theorem broken_mem_read {text : String} {f rest : Feed} {room : Nat} {result : ReadResult}
    (h : .broken text ∈ f) (hr : f.read room = (result, rest)) :
    (∃ t, result = .broken t) ∨ result ≠ .ended ∧ .broken text ∈ rest := by
  fun_induction read room f with
  | case1 => simp at h
  | case2 f ih => exact ih (by simpa using h) hr
  | case3 b bs f hd =>
    obtain ⟨rfl, rfl⟩ := Prod.mk.inj hr
    exact .inr ⟨by simp, by simpa using h⟩
  | case4 b bs f c cs hd =>
    obtain ⟨rfl, rfl⟩ := Prod.mk.inj hr
    exact .inr ⟨by simp, by simpa using h⟩
  | case5 f =>
    obtain ⟨rfl, rfl⟩ := Prod.mk.inj hr
    exact .inr ⟨by simp, by simpa using h⟩
  | case6 t f =>
    obtain ⟨rfl, rfl⟩ := Prod.mk.inj hr
    exact .inl ⟨t, rfl⟩

/-- Copying leaves the store as it is if writing to the sink does: the bytes are staged, and the
commit is a step of its own. -/
theorem readsOnly_copyFrom (hw : ∀ s chunk, ReadsOnly (write s chunk).run) (sink : σ) (total : Nat)
    (f : Feed) : ReadsOnly (copyFrom failed write sink total f).run := by
  fun_induction copyFrom failed write sink total f with
  | case1 sink total f rest hr => exact readsOnly_pure _
  | case2 sink total f text rest hr => exact readsOnly_throw _
  | case3 sink total f rest hr ih => exact ih
  | case4 sink total f b rest hr ih => exact (hw sink b).bind ih

/-- What writing keeps of a sink, the copy of a feed keeps. It is used for where the sink leads,
which the commit at the end relies on. -/
theorem copyFrom_keeps {P : σ → Prop}
    (hw : ∀ s chunk m s' m', P s → (write s chunk).run.run m = (.ok s', m') → P s')
    {sink s : σ} {total n : Nat} {f : Feed} {m m' : Memory} (h : P sink)
    (hcopy : (copyFrom failed write sink total f).run.run m = (.ok (s, n), m')) : P s := by
  fun_induction copyFrom failed write sink total f generalizing m with
  | case1 sink total f rest hr =>
    obtain rfl : sink = s := congrArg Prod.fst (Except.ok.inj (congrArg Prod.fst hcopy))
    exact h
  | case2 sink total f text rest hr =>
    have hfailed : (Except.error (failed text) : Except ε (σ × Nat)) = .ok (s, n) :=
      congrArg Prod.fst hcopy
    simp at hfailed
  | case3 sink total f rest hr ih => exact ih h hcopy
  | case4 sink total f b rest hr ih =>
    rw [run_bind] at hcopy
    rcases hwrite : (write sink b).run.run m with ⟨e | next, later⟩
    · rw [hwrite] at hcopy
      exact absurd (congrArg Prod.fst hcopy) (by simp)
    · rw [hwrite] at hcopy
      exact ih next (hw sink b m next later h hwrite) hcopy

/-- The copy of a feed that breaks does not succeed, however much was written before. -/
theorem fails_copyFrom {text : String} {f : Feed} (h : .broken text ∈ f) (sink : σ) (total : Nat) :
    Fails (copyFrom failed write sink total f) := by
  -- every read either breaks or leaves the break ahead
  fun_induction copyFrom failed write sink total f with
  | case1 sink total f rest hr =>
    rcases broken_mem_read h hr with ⟨t, ht⟩ | ⟨hne, -⟩
    · cases ht
    · exact absurd rfl hne
  | case2 sink total f t rest hr => exact fails_throw _
  | case3 sink total f rest hr ih => exact ih ((broken_mem_read h hr).resolve_left (by simp)).2
  | case4 sink total f b rest hr ih =>
    exact fails_bind fun s => ih s ((broken_mem_read h hr).resolve_left (by simp)).2

end Feed

/-! ### Records -/

namespace Records

theorem readsOnly_find (t : RecordType) (top skip : Option Int) (f : Option Filter) (o : Order) :
    ReadsOnly (find (m := StateM Memory) t top skip f o).run :=
  (readsOnly_liftM (selection t top skip f o)).bind fun _ => (readsOnly_inspect _).store

theorem readsOnly_count (t : RecordType) (f : Option Filter) :
    ReadsOnly (count (m := StateM Memory) t f).run :=
  (readsOnly_liftM (checkFilter t f)).bind fun _ => (readsOnly_inspect _).store

theorem readsOnly_findById (t : RecordType) (id : Int) :
    ReadsOnly (findById (m := StateM Memory) t id).run := (readsOnly_inspect _).store

theorem readsOnly_duplicate (t : RecordType) (id : Int) :
    ReadsOnly (duplicate (m := StateM Memory) t id).run :=
  (readsOnly_findById t id).bind fun r => readsOnly_pure (r.map Record.duplicate)

/-- What saving a record does: nothing if it fails, and otherwise an insert or an update of a record
that has the values it needs. The required values are checked before the store is asked. -/
theorem run_save (r : Record) (m : Memory) :
    (∃ e, (save (m := StateM Memory) r).run.run m = (.error e, m)) ∨
      checkRequired r = .ok () ∧
        (r.id = none ∧
            (save (m := StateM Memory) r).run.run m = (.ok (m.insert r).1, (m.insert r).2) ∨
          ∃ id stored m', r.id = some id ∧ m.update r = .ok (stored, m') ∧
            (save (m := StateM Memory) r).run.run m = (.ok stored, m')) := by
  unfold save
  rcases (readsOnly_liftM (checkRequired r)).run_bind _ m with ⟨e, -, h⟩ | ⟨_, hrequired, h⟩
  · exact .inl ⟨e, h⟩
  · have hrequired : checkRequired r = .ok () := hrequired
    cases hid : r.id with
    | none =>
      simp only [hid] at h
      exact .inr ⟨hrequired, .inl ⟨rfl, h⟩⟩
    | some id =>
      simp only [hid] at h
      rcases run_store_change (fun m => m.update r) m with ⟨e, hrun⟩ | ⟨stored, m', hm, hrun⟩
      · exact .inl ⟨e, h.trans hrun⟩
      · exact .inr ⟨hrequired, .inr ⟨id, stored, m', rfl, hm, h.trans hrun⟩⟩

/-- Saving changes the store once, or fails and leaves it. -/
theorem changesOnce_save (r : Record) :
    ChangesOnce (fun _ => True) (save (m := StateM Memory) r) := by
  intro m
  rcases run_save r m with ⟨e, h⟩ | ⟨-, ⟨-, h⟩ | ⟨id, stored, m', -, hm, h⟩⟩
  · exact .inl ⟨e, h⟩
  · exact .inr ⟨_, _, h, trivial, .insert r⟩
  · exact .inr ⟨stored, m', h, trivial, .update hm⟩

/-- What a removal does. It fails where there is no record to remove. -/
theorem run_remove (t : RecordType) (id : Int) (m : Memory) :
    (∃ e, (remove (m := StateM Memory) t id).run.run m = (.error e, m)) ∨
      ∃ m', m.delete t id = .ok m' ∧
        (remove (m := StateM Memory) t id).run.run m = (.ok (), m') := by
  rcases run_store_change (fun m => (m.delete t id).map ((), ·)) m with ⟨e, h⟩ | ⟨_, m', hm, h⟩
  · exact .inl ⟨e, h⟩
  · obtain ⟨_, hm, ⟨⟩⟩ := Outcome.map_eq_ok_iff.mp hm
    exact .inr ⟨m', hm, h⟩

theorem changesOnce_remove (t : RecordType) (id : Int) :
    ChangesOnce (fun _ => True) (remove (m := StateM Memory) t id) := by
  intro m
  rcases run_remove t id m with ⟨e, h⟩ | ⟨m', hm, h⟩
  · exact .inl ⟨e, h⟩
  · exact .inr ⟨(), m', h, trivial, .delete hm⟩

end Records

/-! ### Content -/

namespace Content

theorem readsOnly_download (r : Record) (p : Path) :
    ReadsOnly (download (m := StateM Memory) r p).run := by
  refine (readsOnly_liftM (requireBlob r p)).bind fun target => ?_
  obtain ⟨a, id⟩ := target
  exact (readsOnly_inspect _).store.bind fun source => readsOnly_pure _

theorem changesOnce_commit (s : MemorySink) :
    ChangesOnce (fun _ => True) (Records.store (RecordStore.commit (m := StateM Memory) s)) := by
  intro m
  rcases run_store_change (fun m => m.commit s) m with ⟨e, h⟩ | ⟨size, m', hm, h⟩
  · exact .inl ⟨e, h⟩
  · exact .inr ⟨size, m', h, trivial, .commit hm⟩

/-- What an upload does: nothing if it fails, and otherwise a commit of a sink that leads where the
one leads that was opened for it. What was staged is not described here, since it depends on the
feed. -/
theorem run_upload (r : Record) (p : Path) (f : Feed) (m : Memory) :
    (∃ e, (upload (m := StateM Memory) r p f).run.run m = (.error e, m)) ∨
      ∃ a id opened sink size m', requireBlob r p = .ok (a, id) ∧
        m.openSink r.type id a.name = .ok opened ∧
        (sink.entity = opened.entity ∧ sink.id = opened.id ∧ sink.index = opened.index) ∧
        m.commit sink = .ok (size, m') ∧
        (upload (m := StateM Memory) r p f).run.run m = (.ok size, m') := by
  have hw (s : MemorySink) (chunk : Bytes) :
      ReadsOnly (Records.store (RecordStore.write (m := StateM Memory) s chunk)).run :=
    (readsOnly_inspect _).store
  unfold upload
  rcases (readsOnly_liftM (requireBlob r p)).run_bind _ m with ⟨e, -, h⟩ | ⟨⟨a, id⟩, hblob, h⟩
  · exact .inl ⟨e, h⟩
  rcases (readsOnly_inspect fun m => m.openSink r.type id a.name).store.run_bind _ m with
    ⟨e, -, hopen⟩ | ⟨opened, hopened, hopen⟩
  · exact .inl ⟨e, h.trans hopen⟩
  have hreads : ReadsOnly (f.copy brokenSource
      (fun s chunk => Records.store (RecordStore.write (m := StateM Memory) s chunk)) opened).run :=
    Feed.readsOnly_copyFrom hw opened 0 f
  rcases hreads.run_bind _ m with ⟨e, -, hcopy⟩ | ⟨⟨sink, total⟩, hcopied, hcopy⟩
  · exact .inl ⟨e, h.trans (hopen.trans hcopy)⟩
  have hrun := h.trans (hopen.trans hcopy)
  have hplace : sink.entity = opened.entity ∧ sink.id = opened.id ∧ sink.index = opened.index := by
    refine Feed.copyFrom_keeps
      (P := fun s => s.entity = opened.entity ∧ s.id = opened.id ∧ s.index = opened.index)
      ?_ ⟨rfl, rfl, rfl⟩ (Prod.ext hcopied rfl)
    intro s chunk m s' m' hs hwrite
    obtain rfl : s.write chunk = s' := Except.ok.inj (congrArg Prod.fst hwrite)
    exact hs
  rcases run_store_change (fun m => m.commit sink) m with ⟨e, hcommit⟩ | ⟨size, m', hm, hcommit⟩
  · exact .inl ⟨e, hrun.trans hcommit⟩
  · exact .inr ⟨a, id, opened, sink, size, m', hblob, Outcome.mapError_eq_ok_iff.mp hopened, hplace,
      hm, hrun.trans hcommit⟩

/-- An upload changes the store at the very end or not at all, because what arrives is kept apart
until all of it is there. -/
theorem changesOnce_upload (r : Record) (p : Path) (f : Feed) :
    ChangesOnce (fun _ => True) (upload (m := StateM Memory) r p f) := by
  intro m
  rcases run_upload r p f m with ⟨e, h⟩ | ⟨a, id, opened, sink, size, m', -, -, -, hm, h⟩
  · exact .inl ⟨e, h⟩
  · exact .inr ⟨size, m', h, trivial, .commit hm⟩

/-- An upload whose feed breaks does not succeed, wherever in the feed the break is. -/
theorem fails_upload (r : Record) (p : Path) {f : Feed} {text : String} (h : .broken text ∈ f) :
    Fails (upload (m := StateM Memory) r p f) :=
  fails_bind fun _ => fails_bind fun sink => (Feed.fails_copyFrom h sink 0).bind _

end Content

end RecordService
