import RecordService.Schema.Registry
import RecordService.Store.Memory

/-!
# Runs of the store in memory

What clients do with the store in memory, in any order and with any number of sinks and sources open
at once. A call that fails may still have used up its sink.

* `RecordService.Memory.Call`: a call of a client.
* `RecordService.Memory.World`: the store, and what clients have opened.
* `RecordService.Memory.run`: what a list of calls leads to.
-/

namespace RecordService.Memory

/-- A call of a client. Sinks and sources are told apart by the order in which they were opened. -/
inductive Call where
  | insert (r : Record)
  | update (r : Record)
  | delete (t : RecordType) (id : Int)
  | openSink (t : RecordType) (id : Int) (name : String)
  | write (sink : Nat) (chunk : Bytes)
  | commit (sink : Nat)
  /-- Gives up a sink without committing it. -/
  | drop (sink : Nat)
  | openSource (t : RecordType) (id : Int) (name : String)
  | read (source : Nat) (most : Nat)

/-- Whether the record type of a call is one of a registry. -/
def Call.UsesTypesOf (r : Registry) : Call → Prop
  | insert record => record.type ∈ r.types
  | update record => record.type ∈ r.types
  | delete t _ => t ∈ r.types
  | openSink t _ _ => t ∈ r.types
  | openSource t _ _ => t ∈ r.types
  | _ => True

/-- Whether a call asks for a new record. Inserts never fail. -/
def Call.isInsert : Call → Bool
  | insert _ => true
  | _ => false

/-- The store and what clients have opened. -/
structure World where
  memory : Memory := {}
  /-- The sinks that were opened, `none` for one that is committed or dropped. -/
  sinks : List (Option MemorySink) := []
  /-- What is left to read of the sources that were opened. -/
  sources : List Bytes := []

namespace World

/-- The world behind an operation that opens nothing. -/
def after {α : Type} (w : World) (x : ExceptT StorageError (StateM Memory) α) : World :=
  { w with memory := (x.run.run w.memory).2 }

/-- The sink with a number, unless it is used up. -/
def sink? (w : World) (k : Nat) : Option MemorySink := (w.sinks[k]?).join

/-- The world without a sink. -/
def without (w : World) (k : Nat) : World := { w with sinks := w.sinks.set k none }

/-- What a call does. A commit uses up its sink whether or not it succeeds. -/
def step (w : World) : Call → World
  | .insert r => w.after (RecordStore.insert r)
  | .update r => w.after (RecordStore.update r)
  | .delete t id => w.after (RecordStore.delete t id)
  | .openSink t id name =>
    match (RecordStore.openSink (m := StateM Memory) t id name).run.run w.memory with
    | (.ok s, m) => { w with memory := m, sinks := w.sinks ++ [some s] }
    | (.error _, m) => { w with memory := m }
  | .write k chunk =>
    match w.sink? k with
    | none => w
    | some s =>
      match (RecordStore.write (m := StateM Memory) s chunk).run.run w.memory with
      | (.ok s, m) => { w with memory := m, sinks := w.sinks.set k (some s) }
      | (.error _, m) => { w with memory := m }
  | .commit k =>
    match w.sink? k with
    | none => w
    | some s => (w.after (RecordStore.commit (m := StateM Memory) s)).without k
  | .drop k => w.without k
  | .openSource t id name =>
    match (RecordStore.openSource (m := StateM Memory) t id name).run.run w.memory with
    | (.ok s, m) => { w with memory := m, sources := w.sources ++ s.toList }
    | (.error _, m) => { w with memory := m }
  | .read k most =>
    match w.sources[k]? with
    | none => w
    | some s =>
      match (RecordStore.read (m := StateM Memory) s most).run w.memory with
      | ((_, s), m) => { w with memory := m, sources := w.sources.set k s }

variable (w : World) {s : MemorySink} {k : Nat}

/-- Opening a sink looks at the store and leaves it as it is. The sink gets the next number; if
there is no record or no such attribute, nothing is opened. -/
theorem step_openSink (t : RecordType) (id : Int) (name : String) :
    w.step (.openSink t id name) = match w.memory.openSink t id name with
      | .ok s => { w with sinks := w.sinks ++ [some s] }
      | .error _ => w := by
  have hrun : (RecordStore.openSink (m := StateM Memory) t id name).run.run w.memory =
      (w.memory.openSink t id name, w.memory) := rfl
  simp only [step, hrun]
  cases w.memory.openSink t id name <;> rfl

/-- Opening a source leaves the store as well. A source keeps the content that was there, and there
is nothing to read where there is no content. -/
theorem step_openSource (t : RecordType) (id : Int) (name : String) :
    w.step (.openSource t id name) = match w.memory.content t id name with
      | .ok c => { w with sources := w.sources ++ c.toList }
      | .error _ => w := by
  have hrun : (RecordStore.openSource (m := StateM Memory) t id name).run.run w.memory =
      (w.memory.content t id name, w.memory) := rfl
  simp only [step, hrun]
  cases w.memory.content t id name <;> rfl

/-- What is written is staged in the sink, out of sight of all readers. -/
theorem step_write (hs : w.sink? k = some s) (chunk : Bytes) :
    w.step (.write k chunk) = { w with sinks := w.sinks.set k (some (s.write chunk)) } := by
  simp only [step, hs]
  rfl

/-- A sink that is used up takes nothing more. -/
theorem step_write_of_closed (hs : w.sink? k = none) (chunk : Bytes) :
    w.step (.write k chunk) = w := by
  simp only [step, hs]

/-- A commit uses up its sink, whatever becomes of what was staged. -/
theorem step_commit (hs : w.sink? k = some s) :
    w.step (.commit k) = (w.after (change fun m => m.commit s)).without k := by
  simp only [step, hs]
  rfl

/-- A sink that is used up cannot be committed, so a second commit has no effect. -/
theorem step_commit_of_closed (hs : w.sink? k = none) : w.step (.commit k) = w := by
  simp only [step, hs]

/-- What is read is taken from the front of what the source has left. -/
theorem step_read {rest : Bytes} (hr : w.sources[k]? = some rest) (most : Nat) :
    w.step (.read k most) = { w with sources := w.sources.set k (rest.drop most) } := by
  simp only [step, hr]
  rfl

theorem step_read_of_closed (hr : w.sources[k]? = none) (most : Nat) :
    w.step (.read k most) = w := by
  simp only [step, hr]

/-! ### Calls that leave the store as it is

Sinks collect on the side and sources hold what they will yield, so opening and using them does not
touch what is stored. -/

@[simp] theorem memory_step_openSink (t : RecordType) (id : Int) (name : String) :
    (w.step (.openSink t id name)).memory = w.memory := by
  rw [step_openSink]
  split <;> rfl

@[simp] theorem memory_step_write (k : Nat) (chunk : Bytes) :
    (w.step (.write k chunk)).memory = w.memory := by
  cases hs : w.sink? k with
  | none => rw [step_write_of_closed w hs]
  | some s => rw [step_write w hs]

@[simp] theorem memory_step_openSource (t : RecordType) (id : Int) (name : String) :
    (w.step (.openSource t id name)).memory = w.memory := by
  rw [step_openSource]
  split <;> rfl

@[simp] theorem memory_step_read (k most : Nat) : (w.step (.read k most)).memory = w.memory := by
  cases hr : w.sources[k]? with
  | none => rw [step_read_of_closed w hr]
  | some rest => rw [step_read w hr]

end World

/-- What a list of calls leads to, from the empty store. -/
def run (calls : List Call) : World := calls.foldl World.step {}

/-! ### Changes -/

section

variable {α : Type} {f : Memory → Except StorageError (α × Memory)} {m m' : Memory}

/-- A change that succeeds leads to its state. -/
theorem run_change_of_ok {a : α} (h : f m = .ok (a, m')) :
    (change f).run.run m = (.ok a, m') := by
  simp only [change, ExceptT.run, StateT.run, h]

/-- A change that fails leaves the state. -/
theorem run_change_of_error {e : StorageError} (h : f m = .error e) :
    (change f).run.run m = (.error e, m) := by
  simp only [change, ExceptT.run, StateT.run, h]

end

/-! ### An album -/

/-- A schema to show runs on. -/
def album : Schema.Document where
  entities := [{
    name := "Photo"
    attributes := [
      { name := "Id", kind := .integer },
      { name := "Picture", kind := .blob },
      { name := "PictureFileName", kind := .text }] }]

/-- The record type of the album. -/
def photo : RecordType where
  name := "Photo"
  space := "public"
  table := "Photo"
  attributes := [
    { name := "Id", kind := .integer, nullable := true, sidecar := none, target := none },
    { name := "Picture", kind := .blob, nullable := true, sidecar := "PictureFileName",
      target := none },
    { name := "PictureFileName", kind := .text, nullable := true, sidecar := none, target := none }]
  identity := 0

/-- A photo whose value claims seven bytes of content. -/
def photo.claimed (id : Value) : Record := ⟨photo, [id, .blob 7, .text "sea.png"], rfl⟩

/-- Two photos. The content of the second is uploaded, and the record is changed while a further
upload is going on, which is given up. The first photo is deleted under an upload. -/
def photo.calls : List Call :=
  [.insert (claimed .null), .insert (claimed (.integer 5)), .openSink photo 2 "Picture",
    .write 0 [1, 2], .openSink photo 2 "Picture", .write 1 [9], .write 0 [3], .commit 0,
    .update (claimed (.integer 2)), .update (claimed (.integer 8)), .drop 1,
    .openSink photo 1 "Picture", .delete photo 1, .write 2 [4], .commit 2]

end RecordService.Memory
