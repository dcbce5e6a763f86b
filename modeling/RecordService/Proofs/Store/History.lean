import RecordService.Proofs.Store.Run

/-!
# Histories of the store in memory

What the clients of the store see: their calls, and what each of them answers. Clients know a sink
or a source by the number that opening it answered. What was written to a sink, what a source
yielded, and which commits succeeded, can be told from a history alone.

* `RecordService.Memory.Answer`, `RecordService.Memory.Entry`: what a call answers, and the two
  together.
* `RecordService.Memory.history`: the calls of a run with their answers.
* `RecordService.Memory.written`, `RecordService.Memory.yielded`: the bytes that went into a sink, and
  those that came out of a source.
* `RecordService.Memory.Shows`: the content of an attribute of a record, as a history tells it.
-/

namespace RecordService.Memory

/-! ### Answers -/

/-- What a call answers. -/
inductive Answer where
  | record (result : Except StorageError Record)
  | done (result : Except StorageError Unit)
  /-- The number of the sink that was opened. -/
  | sink (result : Except StorageError Nat)
  /-- The length of the content that was committed. -/
  | length (result : Except StorageError Nat)
  /-- The number of the source that was opened, if there is any content. -/
  | source (result : Except StorageError (Option Nat))
  | bytes (result : Except StorageError Bytes)
  /-- There is no such sink or source, or it is used up. -/
  | closed

/-- A call with its answer. -/
structure Entry where
  call : Call
  answer : Answer

namespace World

/-- What a call answers. -/
def answer (w : World) : Call → Answer
  | .insert r => .record ((RecordStore.insert (m := StateM Memory) r).run.run w.memory).1
  | .update r => .record ((RecordStore.update (m := StateM Memory) r).run.run w.memory).1
  | .delete t id => .done ((RecordStore.delete (m := StateM Memory) t id).run.run w.memory).1
  | .openSink t id name =>
    .sink (((RecordStore.openSink (m := StateM Memory) t id name).run.run w.memory).1.map
      fun _ => w.sinks.length)
  | .write k chunk =>
    match w.sink? k with
    | none => .closed
    | some s =>
      .done (((RecordStore.write (m := StateM Memory) s chunk).run.run w.memory).1.map fun _ => ())
  | .commit k =>
    match w.sink? k with
    | none => .closed
    | some s => .length ((RecordStore.commit (m := StateM Memory) s).run.run w.memory).1
  | .drop k =>
    match w.sink? k with
    | none => .closed
    | some _ => .done (.ok ())
  | .openSource t id name =>
    .source (((RecordStore.openSource (m := StateM Memory) t id name).run.run w.memory).1.map
      fun s => s.map fun _ => w.sources.length)
  | .read k most =>
    match w.sources[k]? with
    | none => .closed
    | some s => .bytes ((RecordStore.read (m := StateM Memory) s most).run w.memory).1.1

/-- What a call does to the store, by what it answers. -/
inductive Effect (w : World) : Call → Memory → Prop
  | nothing {c : Call} (insert : ∀ record, c ≠ .insert record)
      (commit : ∀ k size, c = .commit k → w.answer c ≠ .length (.ok size)) : Effect w c w.memory
  | insert (record : Record) : Effect w (.insert record) (w.memory.insert record).2
  | update {record stored : Record} {m : Memory} (h : w.memory.update record = .ok (stored, m)) :
      Effect w (.update record) m
  | delete {t : RecordType} {id : Int} {m : Memory} (h : w.memory.delete t id = .ok m) :
      Effect w (.delete t id) m
  | commit {k size : Nat} {s : MemorySink} {m : Memory} (sink : w.sink? k = some s)
      (h : w.memory.commit s = .ok (size, m)) (answer : w.answer (.commit k) = .length (.ok size)) :
      Effect w (.commit k) m

/-- A list of calls with their answers, from a state on. -/
def entries (w : World) : List Call → List Entry
  | [] => []
  | c :: calls => ⟨c, w.answer c⟩ :: (w.step c).entries calls

variable (w : World)

theorem answer_openSink (t : RecordType) (id : Int) (name : String) :
    w.answer (.openSink t id name) =
      .sink ((w.memory.openSink t id name).map fun _ => w.sinks.length) := rfl

theorem answer_openSource (t : RecordType) (id : Int) (name : String) :
    w.answer (.openSource t id name) =
      .source ((w.memory.content t id name).map fun c => c.map fun _ => w.sources.length) := rfl

/-- A commit answers with the length that was written, or with the failure. -/
theorem answer_commit {k : Nat} {s : MemorySink} (hs : w.sink? k = some s) :
    w.answer (.commit k) = .length ((change fun m => m.commit s).run.run w.memory).1 := by
  simp only [answer, hs]
  rfl

/-- **The five things that can happen to the store**: nothing, an insert, an update, a removal or a
commit. Every law about runs is proved by these cases, so no such proof looks at the calls
themselves. -/
theorem effect_step (c : Call) : w.Effect c (w.step c).memory := by
  cases c with
  | insert record => exact .insert record
  | update record =>
    have hrun : (w.step (.update record)).memory =
        ((change fun m => m.update record).run.run w.memory).2 := rfl
    cases hm : w.memory.update record with
    | error e =>
      rw [hrun, run_change_of_error (f := fun m => m.update record) hm]
      exact .nothing (by simp) (by simp)
    | ok p =>
      rw [hrun, run_change_of_ok (f := fun m => m.update record) hm]
      exact .update hm
  | delete t id =>
    have hrun : (w.step (.delete t id)).memory =
        ((change fun m => (m.delete t id).map ((), ·)).run.run w.memory).2 := rfl
    cases hm : w.memory.delete t id with
    | error e =>
      have herror : (w.memory.delete t id).map (Prod.mk ()) = .error e := by rw [hm]; rfl
      rw [hrun, run_change_of_error (f := fun m => (m.delete t id).map ((), ·)) herror]
      exact .nothing (by simp) (by simp)
    | ok m =>
      have hok : (w.memory.delete t id).map (Prod.mk ()) = .ok ((), m) := by rw [hm]; rfl
      rw [hrun, run_change_of_ok (f := fun m => (m.delete t id).map ((), ·)) hok]
      exact .delete hm
  | commit k =>
    cases hs : w.sink? k with
    | none =>
      rw [step_commit_of_closed w hs]
      exact .nothing (by simp) (by simp [answer, hs])
    | some s =>
      have hanswer := w.answer_commit hs
      rw [step_commit w hs]
      change w.Effect _ ((change fun m => m.commit s).run.run w.memory).2
      cases hm : w.memory.commit s with
      | error e =>
        rw [run_change_of_error (f := fun m => m.commit s) hm] at hanswer ⊢
        exact .nothing (by simp) (by simp [hanswer])
      | ok p =>
        rw [run_change_of_ok (f := fun m => m.commit s) hm] at hanswer ⊢
        exact .commit hs hm hanswer
  | openSink t id name =>
    rw [memory_step_openSink]
    exact .nothing (by simp) (by simp)
  | write k chunk =>
    rw [memory_step_write]
    exact .nothing (by simp) (by simp)
  | drop k => exact .nothing (by simp) (by simp)
  | openSource t id name =>
    rw [memory_step_openSource]
    exact .nothing (by simp) (by simp)
  | read j most =>
    rw [memory_step_read]
    exact .nothing (by simp) (by simp)

/-- The entries of calls in a row: the later calls are answered in the state that the earlier ones
lead to. -/
theorem entries_append (calls more : List Call) :
    w.entries (calls ++ more) = w.entries calls ++ (calls.foldl step w).entries more := by
  induction calls generalizing w with
  | nil => rfl
  | cons c calls ih => simp only [List.cons_append, entries, ih, List.foldl_cons]

@[simp] theorem map_call_entries (calls : List Call) : (w.entries calls).map Entry.call = calls := by
  induction calls generalizing w with
  | nil => rfl
  | cons c calls ih => simp only [entries, List.map_cons, ih]

/-- The calls around one entry. A place in a history is a place in the calls that made it. -/
theorem calls_of_entries {w : World} {calls : List Call} {before after : List Entry} {e : Entry}
    (h : w.entries calls = before ++ e :: after) :
    calls = before.map Entry.call ++ e.call :: after.map Entry.call := by
  rw [← w.map_call_entries calls, h, List.map_append, List.map_cons]

/-- The calls before an entry lead to the state in which its call was made, so that its answer can
be computed there. -/
theorem entries_split {w : World} {calls : List Call} {before after : List Entry} {e : Entry}
    (h : w.entries calls = before ++ e :: after) :
    w.entries (before.map Entry.call) = before ∧
      ((before.map Entry.call).foldl step w).answer e.call = e.answer ∧
      (((before.map Entry.call).foldl step w).step e.call).entries (after.map Entry.call) = after := by
  rw [calls_of_entries h, entries_append, entries] at h
  have hlength : (w.entries (before.map Entry.call)).length = before.length := by
    rw [← List.length_map (f := Entry.call), map_call_entries, List.length_map]
  obtain ⟨hbefore, hrest⟩ := List.append_inj h hlength
  obtain ⟨he, hafter⟩ := List.cons.inj hrest
  exact ⟨hbefore, congrArg Entry.answer he, hafter⟩

end World

/-! ### Histories -/

/-- The calls of a run with their answers, from the empty store. -/
def history (calls : List Call) : List Entry := World.entries {} calls

theorem run_concat (calls : List Call) (c : Call) : run (calls ++ [c]) = (run calls).step c := by
  simp [run]

theorem history_concat (calls : List Call) (c : Call) :
    history (calls ++ [c]) = history calls ++ [⟨c, (run calls).answer c⟩] := by
  rw [history, World.entries_append]
  rfl

/-- The bytes that an entry writes to a sink. -/
def Entry.chunk? (k : Nat) : Entry → Option Bytes
  | ⟨.write j chunk, .done (.ok _)⟩ => if j = k then some chunk else none
  | _ => none

/-- All bytes that were written to a sink, in their order. -/
def written (k : Nat) (h : List Entry) : Bytes := (h.filterMap (Entry.chunk? k)).flatten

/-- The bytes that an entry reads from a source. -/
def Entry.bytes? (j : Nat) : Entry → Option Bytes
  | ⟨.read i _, .bytes (.ok bytes)⟩ => if i = j then some bytes else none
  | _ => none

/-- All bytes that a source yielded, in their order. -/
def yielded (j : Nat) (h : List Entry) : Bytes := (h.filterMap (Entry.bytes? j)).flatten

/-- What was written to a sink grows by the last entry, if this wrote to it. -/
theorem written_concat (k : Nat) (h : List Entry) (e : Entry) :
    written k (h ++ [e]) = written k h ++ (e.chunk? k).getD [] := by
  cases he : e.chunk? k <;> simp [written, he]

theorem yielded_cons (j : Nat) (e : Entry) (h : List Entry) :
    yielded j (e :: h) = (e.bytes? j).getD [] ++ yielded j h := by
  cases he : e.bytes? j <;> simp [yielded, he]

/-! ### What histories tell of contents -/

/-- The entry of a sink with number `k` that was opened for the attribute `name` of a record. -/
def Entry.opening (t : RecordType) (id : Int) (name : String) (k : Nat) : Entry :=
  ⟨.openSink t id name, .sink (.ok k)⟩

/-- The entry of a sink that was committed. -/
def Entry.commitment (k size : Nat) : Entry := ⟨.commit k, .length (.ok size)⟩

section

variable (h : List Entry) (t : RecordType) (id : Int) (name : String)

/-- Whether an entry stores a new record of a type under this identity. -/
def Entry.Inserts (e : Entry) : Prop :=
  ∃ record stored, e = ⟨.insert record, .record (.ok stored)⟩ ∧ record.type = t ∧ stored.id = some id

/-- Whether an entry of a history settles what content the attribute `name` of a record has: it
stores the record, or commits a sink that was opened for the attribute. -/
def Settles (e : Entry) : Prop :=
  e.Inserts t id ∨ ∃ k size, e = .commitment k size ∧ .opening t id name k ∈ h

/-- **The content of an attribute of a record, as a history tells it.** The entry that settled it
last decides. A new record has no content, and a commit leaves what was written to its sink. -/
inductive Shows : Option Bytes → Prop
  | inserted {before after : List Entry} {e : Entry} (split : h = before ++ e :: after)
      (inserts : e.Inserts t id) (last : ∀ d ∈ after, ¬Settles h t id name d) : Shows none
  | committed {before after : List Entry} {k size : Nat}
      (split : h = before ++ .commitment k size :: after) (opened : .opening t id name k ∈ h)
      (last : ∀ d ∈ after, ¬Settles h t id name d) : Shows (some (written k before))

end

section

variable {h : List Entry} {t : RecordType} {id : Int} {name : String} {e d : Entry}

/-- What an entry settles does not depend on later openings of other sinks: the number of a sink
that is opened now was not in use before. -/
theorem settles_concat (hd : d ∈ h) (hfresh : ∀ k size, e = .opening t id name k →
    .commitment k size ∉ h) : Settles (h ++ [e]) t id name d → Settles h t id name d := by
  rintro (hinserts | ⟨k, size, rfl, hopen⟩)
  · exact .inl hinserts
  · rcases List.mem_append.mp hopen with hopen | hopen
    · exact .inr ⟨k, size, rfl, hopen⟩
    · exact absurd hd (hfresh k size (List.mem_singleton.mp hopen).symm)

/-- An entry that settles nothing leaves the content that a history tells. It covers the failing
calls, the readings and the calls on other records at once. -/
theorem Shows.concat {content : Option Bytes} (hs : Shows h t id name content)
    (he : ¬Settles (h ++ [e]) t id name e)
    (hfresh : ∀ k size, e = .opening t id name k → .commitment k size ∉ h) :
    Shows (h ++ [e]) t id name content := by
  have hlast : ∀ {before after : List Entry} {c : Entry}, h = before ++ c :: after →
      (∀ d ∈ after, ¬Settles h t id name d) →
      ∀ d ∈ after ++ [e], ¬Settles (h ++ [e]) t id name d := by
    rintro before after c rfl hafter d hd
    rcases List.mem_append.mp hd with hd | hd
    · exact fun hsettles => hafter d hd (settles_concat (by simp [hd]) hfresh hsettles)
    · obtain rfl := List.mem_singleton.mp hd
      exact he
  cases hs with
  | inserted split inserts last =>
    exact .inserted (by rw [split, List.append_assoc, List.cons_append]) inserts (hlast split last)
  | committed split opened last =>
    exact .committed (by rw [split, List.append_assoc, List.cons_append])
      (List.mem_append_left _ opened) (hlast split last)

end

end RecordService.Memory
