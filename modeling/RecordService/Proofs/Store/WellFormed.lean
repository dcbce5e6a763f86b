import RecordService.Proofs.Record.Texts
import RecordService.Proofs.Store.Effect
import RecordService.Proofs.Store.History
import RecordService.Proofs.Store.Lookup

/-!
# Stored rows are as their types declare them

Neither records nor the store look at the kinds of values. What a row holds is right all the same,
because of where its values come from: clients make records from texts, which are read by the kinds
of the attributes, or copy stored ones; saving asks for the values that are required; and the store
itself gives the identities and the lengths of binary content
(`RecordService.Memory.rows_wellFormed`).

* `RecordService.RecordType.Chosen`: the attributes whose values clients choose.
* `RecordService.RecordType.Fits`, `RecordService.RecordType.Complete`: what records made from texts
  have, and what saving asks for.
* `RecordService.Memory.Edit`, `RecordService.Memory.Editor`: what clients do with records.
* `RecordService.Memory.Editor.Invariant`: what all of them keep.
* `RecordService.Row.WellFormed`: a row that is as its type declares it.
-/

namespace RecordService

open Memory

/-! ### Values -/

namespace RecordType

variable {t : RecordType} {values other : List Value} {i : Nat} {a : Attribute}

/-- Whether clients choose the values of the attribute at a position. The identity and binary content
are up to the store. -/
structure Chosen (t : RecordType) (i : Nat) (a : Attribute) : Prop where
  getElem? : t.attributes[i]? = some a
  ne_identity : i ≠ t.identity
  ne_blob : a.kind ≠ .blob

/-- Whether each value that a client chose is one of its attribute, or `null`. -/
def Fits (t : RecordType) (values : List Value) : Prop :=
  ∀ i a v, t.Chosen i a → values[i]? = some v → v = .null ∨ v.Readable a.kind

/-- Whether no value that has to be chosen is missing. -/
def Complete (t : RecordType) (values : List Value) : Prop :=
  ∀ i a, t.Chosen i a → a.nullable = false → values[i]? ≠ some .null

/-- Whether two lists have the same values for the attributes that clients choose. -/
def SameChoice (t : RecordType) (values other : List Value) : Prop :=
  ∀ i a, t.Chosen i a → other[i]? = values[i]?

/-- Whether values fit does not depend on the identity and the binary content, which the store fills
in. -/
theorem Fits.congr (h : t.Fits values) (hsame : t.SameChoice values other) : t.Fits other := by
  intro i a v ha hv
  rw [hsame i a ha] at hv
  exact h i a v ha hv

/-- Whether values are complete does not depend on what the store fills in. -/
theorem Complete.congr (h : t.Complete values) (hsame : t.SameChoice values other) :
    t.Complete other := by
  intro i a ha hnullable
  rw [hsame i a ha]
  exact h i a ha hnullable

theorem sameChoice_setIdentity (v : Value) : t.SameChoice values (values.set t.identity v) :=
  fun _ _ ha => List.getElem?_set_ne ha.ne_identity.symm

theorem sameChoice_setBlob (ha : t.attributes[i]? = some a) (hblob : a.kind = .blob) (v : Value) :
    t.SameChoice values (values.set i v) :=
  fun _ _ hb => List.getElem?_set_ne (ne_of_blob hb.getElem? hb.ne_blob ha hblob).symm

/-- A new row keeps what the client chose: the store sets the identity and clears the binary
attributes. -/
theorem sameChoice_freshValues (record : Record) (id : Int) :
    record.type.SameChoice record.values (freshValues record id) := by
  intro i a ha
  rw [getElem?_freshValues ha.getElem? ha.ne_identity.symm, if_neg ha.ne_blob]

/-- An updated row has what the client chose, and its binary attributes as they were. -/
theorem sameChoice_mergedValues {stored : List Value}
    (hstored : stored.length = t.attributes.length) (hvalues : values.length = t.attributes.length) :
    t.SameChoice values (mergedValues t stored values) := by
  intro i a ha
  rw [getElem?_mergedValues ha.getElem? hstored hvalues, if_neg ha.ne_blob]

end RecordType

/-! ### Records -/

/-- Records from texts fit their types, as every text was coerced to the kind of its attribute. -/
theorem Record.fits_of_ofTexts {t : RecordType} {ts : Texts} {record : Record}
    (h : Record.ofTexts t ts = .ok record) : record.type = t ∧ t.Fits record.values := by
  have hholds := Record.holds_of_ofTexts h
  exact ⟨hholds.type, fun i a v ha hv => hholds.readable ha.getElem? hv⟩

/-- **A record that passes the check is complete.** The check asks for the required attributes of
scalar kinds, and this is all that completeness speaks of. -/
theorem Records.complete_of_checkRequired {d : Schema.Document} {r : Registry}
    (hd : Registry.ofDocument d = .ok r) {record : Record} (ht : record.type ∈ r.types)
    (h : Records.checkRequired record = .ok ()) : record.type.Complete record.values := by
  intro i a ha hnullable hnull
  have hidentity : a.isIdentity = false := by
    rw [Bool.eq_false_iff]
    exact fun hname => ha.ne_identity (Registry.eq_identity_of_isIdentity hd ht ha.getElem? hname)
  have hmem : (a, Value.null) ∈ record.type.attributes.zip record.values :=
    List.mem_of_getElem? (List.getElem?_zip_eq_some.mpr ⟨ha.getElem?, hnull⟩)
  unfold Records.checkRequired at h
  split at h
  · simp at h
  · next hnone =>
    have hnot := List.find?_eq_none.mp hnone _ hmem
    simp [Records.isRequired, hnullable, hidentity, ha.ne_blob, Value.isNull] at hnot

/-! ### The store -/

namespace Memory

/-- Whether the rows of a store are consistent, and have the values that clients have to choose. -/
structure WellFormed (r : Registry) (m : Memory) : Prop where
  consistent : ∃ n, m.Consistent r n
  chosen : ∀ entity table, (entity, table) ∈ m.tables → ∀ t ∈ r.types, t.name = entity →
    ∀ id row, (id, row) ∈ table.rows → t.Fits row.values ∧ t.Complete row.values

section

variable {r : Registry} {m m' : Memory} {n : Nat} {t : RecordType}

theorem wellFormed_empty (r : Registry) : Memory.WellFormed r {} :=
  ⟨⟨0, consistent_empty r 0⟩, by simp⟩

theorem WellFormed.table (h : m.WellFormed r) (ht : t ∈ r.types) {id : Int} {row : Row}
    (hrow : (id, row) ∈ (m.table t.name).rows) : t.Fits row.values ∧ t.Complete row.values := by
  unfold Memory.table at hrow
  cases hlookup : m.tables.lookup t.name with
  | none => simp [hlookup] at hrow
  | some table =>
    rw [hlookup] at hrow
    obtain ⟨before, after, htables, -⟩ := List.lookup_eq_some_iff.mp hlookup
    exact h.chosen t.name table (by simp [htables]) t ht rfl id row hrow

theorem WellFormed.withTable (h : m.WellFormed r) (hr : r.Resolved) (ht : t ∈ r.types)
    {table : Table} (hc : (m.withTable t.name table).Consistent r n)
    (hrows : ∀ id row, (id, row) ∈ table.rows → t.Fits row.values ∧ t.Complete row.values) :
    (m.withTable t.name table).WellFormed r := by
  refine ⟨⟨n, hc⟩, fun entity other hmem u hu hname => ?_⟩
  rcases mem_replace hmem with ⟨rfl, rfl⟩ | hmem
  · obtain rfl := hr.eq_of_name hu ht hname
    exact hrows
  · exact h.chosen entity other hmem u hu hname

/-- A new row has the values that the client chose, so it fits and is complete if the record is. -/
theorem WellFormed.insert (h : m.WellFormed r) (hr : r.Resolved) {record : Record}
    (ht : record.type ∈ r.types) (hfits : record.type.Fits record.values)
    (hcomplete : record.type.Complete record.values) : (m.insert record).2.WellFormed r := by
  obtain ⟨n, hc⟩ := h.consistent
  refine h.withTable hr ht (hc.insert hr ht) fun id row hrow => ?_
  rcases List.mem_append.mp hrow with hrow | hrow
  · exact h.table ht hrow
  · obtain ⟨-, rfl⟩ := Prod.mk.inj (List.mem_singleton.mp hrow)
    have hsame := RecordType.sameChoice_freshValues record ((m.table record.type.name).lastId + 1)
    exact ⟨hfits.congr hsame, hcomplete.congr hsame⟩

/-- An update gives a row the values that the client chose, and leaves all other rows. -/
theorem WellFormed.update (h : m.WellFormed r) (hr : r.Resolved) {record stored : Record}
    (ht : record.type ∈ r.types) (hfits : record.type.Fits record.values)
    (hcomplete : record.type.Complete record.values) (hm : m.update record = .ok (stored, m')) :
    m'.WellFormed r := by
  obtain ⟨n, hc⟩ := h.consistent
  have hc' := hc.update hr ht hm
  have htable := hc.table hr ht
  obtain ⟨id, old, -, hold, rfl⟩ := update_eq_ok hm
  have hlength := (htable.rows id old (htable.row?_eq_some_iff.mp hold)).2.2.length_values
  refine h.withTable hr ht hc' fun k row hrow => ?_
  rcases Table.mem_rows_modify hrow with hrow | ⟨-, before, -, rfl⟩
  · exact h.table ht hrow
  · have hsame := RecordType.sameChoice_mergedValues hlength record.length_values
    exact ⟨hfits.congr hsame, hcomplete.congr hsame⟩

theorem WellFormed.delete (h : m.WellFormed r) (hr : r.Resolved) {id : Int} (ht : t ∈ r.types)
    (hm : m.delete t id = .ok m') : m'.WellFormed r := by
  obtain ⟨n, hc⟩ := h.consistent
  have hc' := hc.delete hr ht hm
  obtain rfl := delete_eq_ok hm
  exact h.withTable hr ht hc' fun k row hrow => h.table ht (List.mem_of_mem_filter hrow)

/-- A commit leaves what the client chose: it writes to a binary attribute only. -/
theorem WellFormed.commit (h : m.WellFormed r) (hr : r.Resolved) {s : MemorySink} {size : Nat}
    (hs : s.Placed r) (hm : m.commit s = .ok (size, m')) : m'.WellFormed r := by
  obtain ⟨n, hc⟩ := h.consistent
  have hc' := hc.commit hr hs hm
  obtain ⟨t, ht, hname, a, ha, hblob⟩ := hs
  obtain rfl := commit_eq_ok hm
  rw [← hname] at hc' ⊢
  refine h.withTable hr ht hc' fun k row hrow => ?_
  rcases Table.mem_rows_modify hrow with hrow | ⟨-, before, hbefore, rfl⟩
  · exact h.table ht hrow
  · have hsame : t.SameChoice before.values (before.values.set s.index (.blob size)) :=
      RecordType.sameChoice_setBlob ha hblob _
    exact (h.table ht hbefore).imp (·.congr hsame) (·.congr hsame)

end

/-! ### What clients do with records -/

/-- Something that a client does with records. -/
inductive Edit where
  /-- Makes a record of a type from texts, for a stored one if an identity is given. -/
  | compose (t : RecordType) (ts : Texts) (id : Option Int)
  /-- Makes a copy of a stored record. -/
  | duplicate (t : RecordType) (id : Int)
  /-- Saves a record that was made before. -/
  | save (k : Nat)
  | remove (t : RecordType) (id : Int)
  /-- Uploads what a feed delivers. -/
  | upload (record : Record) (p : Path) (f : Feed)
  /-- Makes one call of a transfer of binary content. -/
  | transfer (c : Call)

/-- Whether a call transfers binary content. -/
def Call.isTransfer : Call → Bool
  | insert _ | update _ | delete _ _ => false
  | _ => true

/-- Whether an edit is about the record types of a registry. -/
def Edit.UsesTypesOf (r : Registry) : Edit → Prop
  | compose t _ _ => t ∈ r.types
  | duplicate t _ => t ∈ r.types
  | save _ => True
  | remove t _ => t ∈ r.types
  | upload record _ _ => record.type ∈ r.types
  | transfer c => c.isTransfer ∧ c.UsesTypesOf r

/-- The store with what was opened on it, and the records that clients have made so far. -/
structure Editor where
  world : World := {}
  records : List Record := []

namespace Editor

/-- The same records, over what an operation leaves of the store. -/
def after {α : Type} (e : Editor) (x : ExceptT RequestError (StateM Memory) α) : Editor :=
  { e with world := { e.world with memory := (x.run.run e.world.memory).2 } }

/-- What an edit does. What cannot be made is not there afterwards. -/
def step (e : Editor) : Edit → Editor
  | .compose t ts id =>
    match Record.ofTexts t (id.elim ts ts.withIdentity) with
    | .ok record => { e with records := e.records ++ [record] }
    | .error _ => e
  | .duplicate t id =>
    match (Records.duplicate (m := StateM Memory) t id).run.run e.world.memory with
    | (.ok record, m) => ⟨{ e.world with memory := m }, e.records ++ record.toList⟩
    | (.error _, m) => { e with world := { e.world with memory := m } }
  | .save k =>
    match e.records[k]? with
    | some record => e.after (Records.save (m := StateM Memory) record)
    | none => e
  | .remove t id => e.after (Records.remove (m := StateM Memory) t id)
  | .upload record p f => e.after (Content.upload (m := StateM Memory) record p f)
  | .transfer c => { e with world := e.world.step c }

/-- What a list of edits leads to, from the empty store. -/
def run (edits : List Edit) : Editor := edits.foldl step {}

/-- Stored rows are well-formed, open sinks lead to blob attributes, and the records that were made
fit their types. -/
structure Invariant (r : Registry) (e : Editor) : Prop where
  memory : e.world.memory.WellFormed r
  sinks : ∀ s, some s ∈ e.world.sinks → s.Placed r
  records : ∀ record ∈ e.records, record.type ∈ r.types ∧ record.type.Fits record.values

variable {r : Registry} {e : Editor} {m : Memory}

theorem invariant_empty (r : Registry) : Editor.Invariant r {} :=
  ⟨wellFormed_empty r, by simp, by simp⟩

theorem Invariant.withMemory (h : e.Invariant r) (hm : m.WellFormed r) :
    Editor.Invariant r { e with world := { e.world with memory := m } } :=
  ⟨hm, h.sinks, h.records⟩

theorem Invariant.withRecord (h : e.Invariant r) {record : Record} (ht : record.type ∈ r.types)
    (hfits : record.type.Fits record.values) :
    Editor.Invariant r { e with records := e.records ++ [record] } := by
  refine ⟨h.memory, h.sinks, fun other hother => ?_⟩
  rcases List.mem_append.mp hother with hother | hother
  · exact h.records other hother
  · obtain rfl := List.mem_singleton.mp hother
    exact ⟨ht, hfits⟩

/-- The copy of a stored record fits its type, so a client may go on with it as with a record from
texts. -/
theorem Invariant.duplicate (h : e.Invariant r) (hr : r.Resolved) {t : RecordType} {id : Int}
    (ht : t ∈ r.types) : (e.step (.duplicate t id)).Invariant r := by
  have hrun : (Records.duplicate (m := StateM Memory) t id).run.run e.world.memory =
      (.ok ((e.world.memory.get t id).map Record.duplicate), e.world.memory) := rfl
  simp only [step, hrun]
  cases hrow : e.world.memory.row? t id with
  | none => simpa [Memory.get, hrow] using h
  | some row =>
    obtain ⟨n, hc⟩ := h.memory.consistent
    have htable := hc.table hr ht
    have hmem := htable.row?_eq_some_iff.mp hrow
    have hvalues := Record.values_ofValues (htable.rows id row hmem).2.2.length_values
    have hfits : (Record.ofValues t row.values).type.Fits (Record.ofValues t row.values).values := by
      rw [hvalues]
      exact (h.memory.table ht hmem).1
    simp only [Memory.get, hrow, Option.map_some, Option.toList_some]
    exact h.withRecord ht (hfits.congr (RecordType.sameChoice_setIdentity _))

/-- Saving stores a record only if it is complete. The record itself need not be, since it is
checked when it is saved. -/
theorem Invariant.save {d : Schema.Document} (h : e.Invariant r)
    (hd : Registry.ofDocument d = .ok r) {record : Record} (hrecord : record ∈ e.records) :
    (e.after (Records.save (m := StateM Memory) record)).Invariant r := by
  have hr := Registry.resolved_of_ofDocument hd
  obtain ⟨ht, hfits⟩ := h.records record hrecord
  unfold after
  rcases Records.run_save record e.world.memory with
    ⟨_, hrun⟩ | ⟨hrequired, ⟨-, hrun⟩ | ⟨_, _, m, -, hm, hrun⟩⟩
  · rw [hrun]
    exact h
  · rw [hrun]
    have hcomplete := Records.complete_of_checkRequired hd ht hrequired
    exact h.withMemory (h.memory.insert hr ht hfits hcomplete)
  · rw [hrun]
    have hcomplete := Records.complete_of_checkRequired hd ht hrequired
    exact h.withMemory (h.memory.update hr ht hfits hcomplete hm)

theorem Invariant.remove (h : e.Invariant r) (hr : r.Resolved) {t : RecordType} {id : Int}
    (ht : t ∈ r.types) : (e.after (Records.remove (m := StateM Memory) t id)).Invariant r := by
  unfold after
  rcases Records.run_remove t id e.world.memory with ⟨_, hrun⟩ | ⟨m, hm, hrun⟩
  · rw [hrun]
    exact h
  · rw [hrun]
    exact h.withMemory (h.memory.delete hr ht hm)

/-- An upload puts content in place behind its own sink only, and no open sink of a client is
touched. -/
theorem Invariant.upload (h : e.Invariant r) (hr : r.Resolved) {record : Record}
    (ht : record.type ∈ r.types) (p : Path) (f : Feed) :
    (e.after (Content.upload (m := StateM Memory) record p f)).Invariant r := by
  unfold after
  rcases Content.run_upload record p f e.world.memory with
    ⟨_, hrun⟩ | ⟨a, id, opened, sink, size, m, -, hopened, ⟨hentity, -, hindex⟩, hm, hrun⟩
  · rw [hrun]
    exact h
  · rw [hrun]
    have hplaced := (placed_of_openSink ht hopened).congr hentity hindex
    exact h.withMemory (h.memory.commit hr hplaced hm)

theorem Invariant.transfer (h : e.Invariant r) (hr : r.Resolved) {c : Call} (hc : c.UsesTypesOf r)
    (htransfer : c.isTransfer) : (e.step (.transfer c)).Invariant r := by
  obtain ⟨n, hconsistent⟩ := h.memory.consistent
  have hworld : e.world.Invariant r n := ⟨hconsistent, h.sinks⟩
  refine ⟨?_, (hworld.step hr hc).sinks, h.records⟩
  have heffect := e.world.effect_step c
  change (e.world.step c).memory.WellFormed r
  generalize (e.world.step c).memory = m at heffect ⊢
  cases heffect with
  | nothing => exact h.memory
  | insert => simp [Call.isTransfer] at htransfer
  | update => simp [Call.isTransfer] at htransfer
  | delete => simp [Call.isTransfer] at htransfer
  | commit hs hm => exact h.memory.commit hr (hworld.sink hs) hm

/-- **Edits keep the invariant**, those that fail included: the records that clients hold fit, and
the stored rows fit and are complete. -/
theorem Invariant.step {d : Schema.Document} (h : e.Invariant r)
    (hd : Registry.ofDocument d = .ok r) {edit : Edit} (hedit : edit.UsesTypesOf r) :
    (e.step edit).Invariant r := by
  have hr := Registry.resolved_of_ofDocument hd
  cases edit with
  | compose t ts id =>
    simp only [Editor.step]
    cases hrecord : Record.ofTexts t (id.elim ts ts.withIdentity) with
    | error _ => exact h
    | ok record =>
      obtain ⟨rfl, hfits⟩ := Record.fits_of_ofTexts hrecord
      exact h.withRecord hedit hfits
  | duplicate t id => exact h.duplicate hr hedit
  | save k =>
    simp only [Editor.step]
    cases hrecord : e.records[k]? with
    | none => exact h
    | some record => exact h.save hd (List.mem_of_getElem? hrecord)
  | remove t id => exact h.remove hr hedit
  | upload record p f => exact h.upload hr hedit p f
  | transfer c => exact h.transfer hr hedit.2 hedit.1

/-- A run of edits, by induction from its first one. The invariant is about the records that clients
hold as well, so that a later save has something to start from. -/
theorem Invariant.foldl {d : Schema.Document} (h : e.Invariant r)
    (hd : Registry.ofDocument d = .ok r) {edits : List Edit}
    (hedits : ∀ edit ∈ edits, edit.UsesTypesOf r) :
    (edits.foldl Editor.step e).Invariant r := by
  induction edits generalizing e with
  | nil => exact h
  | cons edit edits ih =>
    obtain ⟨hedit, hedits⟩ := List.forall_mem_cons.mp hedits
    exact ih (h.step hd hedit) hedits

end Editor

end Memory

/-! ### Well-formed rows -/

/-- **A row that is as its type declares it**: the values that clients choose are of the declared
kinds, with finite decimals, and the required ones are there. -/
structure Row.WellFormed (t : RecordType) (id : Int) (row : Row) : Prop where
  length_values : row.values.length = t.attributes.length
  identity : row.values[t.identity]? = some (.integer id)
  kind : ∀ (i : Nat) (a : Attribute) (v : Value), t.attributes[i]? = some a → a.kind ≠ .blob →
    row.values[i]? = some v → v = .null ∨ v.kind? = some a.kind
  finite : ∀ d, .decimal d ∈ row.values → d.isFinite
  blob : ∀ (i : Nat) (a : Attribute) (v : Value), t.attributes[i]? = some a → a.kind = .blob →
    row.values[i]? = some v → v = .null ∨ ∃ size, v = .blob size
  required : ∀ (i : Nat) (a : Attribute), t.attributes[i]? = some a → a.kind ≠ .blob →
    a.nullable = false → row.values[i]? ≠ some .null

/-- What the store and its clients know about a row, taken together. The store answers for the
identity and the binary attributes, and the clients for all others. -/
theorem Row.Consistent.wellFormed {t : RecordType} {id : Int} {row : Row} (h : row.Consistent t id)
    {a : Attribute} (ha : t.attributes[t.identity]? = some a) (hkind : a.kind = .integer)
    (hfits : t.Fits row.values) (hcomplete : t.Complete row.values) : row.WellFormed t id := by
  have hblob : ∀ (i : Nat) (b : Attribute) (v : Value), t.attributes[i]? = some b →
      b.kind = .blob → row.values[i]? = some v → v = .null ∨ ∃ size, v = .blob size := by
    intro i b v hb hblob hv
    rw [h.blob i b hb hblob] at hv
    obtain rfl := Option.some.inj hv
    cases row.content i with
    | none => exact .inl rfl
    | some c => exact .inr ⟨c.length, rfl⟩
  -- the identity is the only attribute besides those that clients choose
  have hreadable : ∀ (i : Nat) (b : Attribute) (v : Value), t.attributes[i]? = some b →
      b.kind ≠ .blob → row.values[i]? = some v →
      i = t.identity ∧ b = a ∧ v = .integer id ∨ v = .null ∨ v.Readable b.kind := by
    intro i b v hb hne hv
    by_cases hi : i = t.identity
    · subst hi
      exact .inl ⟨rfl, Option.some.inj (hb.symm.trans ha), Option.some.inj (hv.symm.trans h.identity)⟩
    · exact .inr (hfits i b v ⟨hb, hi, hne⟩ hv)
  refine ⟨h.length_values, h.identity, ?_, ?_, hblob, ?_⟩
  · intro i b v hb hne hv
    rcases hreadable i b v hb hne hv with ⟨-, rfl, rfl⟩ | hnull | hv
    · exact .inr (congrArg some hkind.symm)
    · exact .inl hnull
    · exact .inr (Value.kind?_of_readable hv)
  · intro d hd
    obtain ⟨i, hi, hv⟩ := List.getElem_of_mem hd
    have hv : row.values[i]? = some (.decimal d) := List.getElem?_eq_some_iff.mpr ⟨hi, hv⟩
    obtain ⟨b, hb⟩ : ∃ b, t.attributes[i]? = some b :=
      ⟨_, List.getElem?_eq_getElem (h.length_values ▸ hi)⟩
    by_cases hkind : b.kind = .blob
    · have hvalue := hblob i b _ hb hkind hv
      simp at hvalue
    · rcases hreadable i b _ hb hkind hv with ⟨-, -, hvalue⟩ | hvalue | hvalue
      · simp at hvalue
      · simp at hvalue
      · cases hb : b.kind with
        | decimal => simpa [hb, Value.Readable] using hvalue
        | _ => simp [hb, Value.Readable] at hvalue
  · intro i b hb hne hnullable
    by_cases hi : i = t.identity
    · subst hi
      simp [h.identity]
    · exact hcomplete i b ⟨hb, hi, hne⟩ hnullable

namespace Memory

/-- **Every stored row is as its type declares it**, whatever clients do: they make records from
texts, with or without an identity, or copy stored ones, and save, remove and upload. -/
theorem rows_wellFormed {d : Schema.Document} {r : Registry} (hd : Registry.ofDocument d = .ok r)
    {edits : List Edit} (hedits : ∀ edit ∈ edits, edit.UsesTypesOf r) {entity : String}
    {table : Table} (htable : (entity, table) ∈ (Editor.run edits).world.memory.tables) :
    ∃ t ∈ r.types, t.name = entity ∧ ∀ id row, (id, row) ∈ table.rows → row.WellFormed t id := by
  have hinvariant := (Editor.invariant_empty r).foldl hd hedits
  obtain ⟨n, hconsistent⟩ := hinvariant.memory.consistent
  obtain ⟨t, ht, hname, hrows⟩ := hconsistent entity table htable
  obtain ⟨a, ha, -, hkind⟩ := (Registry.resolved_of_ofDocument hd).identity t ht
  refine ⟨t, ht, hname, fun id row hrow => ?_⟩
  obtain ⟨hfits, hcomplete⟩ := hinvariant.memory.chosen entity table htable t ht hname id row hrow
  exact (hrows.rows id row hrow).2.2.wellFormed ha hkind hfits hcomplete

/-- A schema with values of several kinds, one of them required. -/
def gallery : Schema.Document where
  entities := [{
    name := "Print"
    attributes := [
      { name := "Id", kind := .integer },
      { name := "Title", kind := .text, nullable := false },
      { name := "Price", kind := .decimal },
      { name := "Picture", kind := .blob },
      { name := "PictureFileName", kind := .text }] }]

/-- The record type of the gallery. -/
def print : RecordType where
  name := "Print"
  space := "public"
  table := "Print"
  attributes := [
    { name := "Id", kind := .integer, nullable := true, sidecar := none, target := none },
    { name := "Title", kind := .text, nullable := false, sidecar := none, target := none },
    { name := "Price", kind := .decimal, nullable := true, sidecar := none, target := none },
    { name := "Picture", kind := .blob, nullable := true, sidecar := "PictureFileName",
      target := none },
    { name := "PictureFileName", kind := .text, nullable := true, sidecar := none, target := none }]
  identity := 0

/-- A print is saved, and a picture of it is uploaded. It is copied, and the copy is saved and changed.
A print without a title is not saved. -/
def print.edits : List Edit :=
  [.compose print (.ofList [("Title", "Sea"), ("Price", "2.5")]) none, .save 0,
    .upload ⟨print, [.integer 1, .null, .null, .null, .null], rfl⟩ ⟨"Print", "Picture", 3, .blob⟩
      [.bytes [1, 2], .interrupted, .bytes [3]],
    .duplicate print 1, .save 1, .compose print (.ofList [("Title", "Sky")]) (some 2), .save 2,
    .compose print (.ofList [("Price", "")]) none, .save 3]

/-- Two prints are stored in the end. -/
theorem rows_wellFormed_print :
    Registry.ofDocument gallery = .ok ⟨[print]⟩ ∧
      (∀ edit ∈ print.edits, edit.UsesTypesOf ⟨[print]⟩) ∧
      ∃ table, ("Print", table) ∈ (Editor.run print.edits).world.memory.tables ∧
        (table.rows.map fun (id, row) => (id, row.values.map Value.display)) =
          [(1, ["1", "Sea", "2.5", "3", ""]), (2, ["2", "Sky", "", "", ""])] ∧
        ∀ id row, (id, row) ∈ table.rows → row.WellFormed print id := by
  have hgallery : Registry.ofDocument gallery = .ok ⟨[print]⟩ := rfl
  have hedits : ∀ edit ∈ print.edits, edit.UsesTypesOf ⟨[print]⟩ := by
    simp [print.edits, Edit.UsesTypesOf]
  have htable : ("Print", (Editor.run print.edits).world.memory.table "Print") ∈
      (Editor.run print.edits).world.memory.tables := by decide +kernel
  refine ⟨hgallery, hedits, _, htable, by decide +kernel, ?_⟩
  obtain ⟨t, ht, -, hrows⟩ := rows_wellFormed hgallery hedits htable
  obtain rfl : t = print := List.mem_singleton.mp ht
  exact hrows

end Memory

end RecordService
