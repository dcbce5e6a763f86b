import Mathlib.Data.List.Induction
import RecordService.Proofs.Store.History
import RecordService.Proofs.Store.Lookup

/-!
# Histories tell what the store holds

The history of a run tells which content every attribute of a stored record has: nothing if no sink
for it was committed since the record was inserted, and otherwise exactly the bytes that were written
to the sink committed last (`RecordService.Memory.recorded_run`).

* `RecordService.Memory.World.Recorded`: what a history tells of the state that it leads to.
* `RecordService.Memory.World.sink?_step`: the sinks that a call leaves.
-/

namespace RecordService.Memory

variable {r : Registry} {w v : World} {h : List Entry} {t : RecordType} {id : Int} {name : String}

/-! ### The sinks that were opened -/

/-- The sink that an entry opened or used. -/
def Entry.sink? : Entry → Option Nat
  | ⟨.openSink _ _ _, .sink (.ok k)⟩ => some k
  | ⟨.write k _, .done (.ok _)⟩ => some k
  | ⟨.commit k, .length (.ok _)⟩ => some k
  | _ => none

theorem Entry.chunk?_eq_none {e : Entry} {k : Nat} (he : e.sink? ≠ some k) : e.chunk? k = none := by
  unfold Entry.chunk?
  split
  · rename_i j chunk u
    have hj : j ≠ k := fun hj => he (by simp [Entry.sink?, hj])
    simp [hj]
  · rfl

/-- Nothing was written to a sink that no entry mentions. -/
theorem written_eq_nil {k : Nat} (hh : ∀ e ∈ h, e.sink? ≠ some k) : written k h = [] := by
  have hnil : h.filterMap (Entry.chunk? k) = [] :=
    List.filterMap_eq_nil_iff.mpr fun e he => Entry.chunk?_eq_none (hh e he)
  simp [written, hnil]

namespace World

/-- The sinks of a state with one more. The new one has the next number, and no number changes its
sink. -/
theorem sink?_append (o : Option MemorySink) (k : Nat) :
    World.sink? { w with sinks := w.sinks ++ [o] } k =
      if k = w.sinks.length then o else w.sink? k := by
  unfold sink?
  dsimp only
  rcases Nat.lt_trichotomy k w.sinks.length with hlt | rfl | hgt
  · rw [List.getElem?_append_left hlt, if_neg (Nat.ne_of_lt hlt)]
  · simp
  · rw [if_neg (Nat.ne_of_gt hgt), List.getElem?_eq_none (by simp; omega),
      List.getElem?_eq_none (Nat.le_of_lt hgt)]

/-- The sinks of a state with another one in the place of one. A write and a commit are of this
kind. -/
theorem sink?_set {i : Nat} (hi : i < w.sinks.length) (o : Option MemorySink) (k : Nat) :
    World.sink? { w with sinks := w.sinks.set i o } k = if k = i then o else w.sink? k := by
  unfold sink?
  dsimp only
  by_cases hk : k = i
  · subst hk
    simp [hi]
  · rw [if_neg hk, List.getElem?_set_ne (Ne.symm hk)]

/-- A sink that is used up is not found any more, and the others are. -/
theorem sink?_without (i k : Nat) : (w.without i).sink? k = if k = i then none else w.sink? k := by
  unfold sink? without
  dsimp only
  by_cases hk : k = i
  · subst hk
    rw [if_pos rfl, List.getElem?_set_self']
    cases w.sinks[k]? <;> rfl
  · rw [if_neg hk, List.getElem?_set_ne (Ne.symm hk)]

/-- What is still found after a sink was used up was there before, as it is. -/
theorem sink?_of_without {i k : Nat} {s : MemorySink} (hs : (w.without i).sink? k = some s) :
    w.sink? k = some s := by
  rw [sink?_without] at hs
  split at hs
  · simp at hs
  · exact hs

theorem lt_of_sink? {k : Nat} {s : MemorySink} (hs : w.sink? k = some s) : k < w.sinks.length :=
  (List.getElem?_eq_some_iff.mp (Option.join_eq_some_iff.mp hs)).1

theorem answer_write {k : Nat} {s : MemorySink} (hs : w.sink? k = some s) (chunk : Bytes) :
    w.answer (.write k chunk) = .done (.ok ()) := by
  simp only [answer, hs]
  rfl

/-- The sinks of a state after a call: one of before to which nothing was written, one that was just
opened, or one with another chunk. These three cases carry every fact about what is staged. -/
theorem sink?_step {c : Call} {k : Nat} {s : MemorySink} (hs : (w.step c).sink? k = some s) :
    (w.sink? k = some s ∧ (Entry.mk c (w.answer c)).chunk? k = none) ∨
      (∃ t id name, Entry.mk c (w.answer c) = .opening t id name k ∧ k = w.sinks.length ∧
        w.memory.openSink t id name = .ok s) ∨
      ∃ old chunk, w.sink? k = some old ∧ s = old.write chunk ∧
        (Entry.mk c (w.answer c)).chunk? k = some chunk := by
  -- opening, writing and using up are the only things that happen to sinks
  cases c with
  | insert record => exact .inl ⟨hs, rfl⟩
  | update record => exact .inl ⟨hs, rfl⟩
  | delete t id => exact .inl ⟨hs, rfl⟩
  | openSink t id name =>
    rw [step_openSink] at hs
    rw [answer_openSink]
    cases hopen : w.memory.openSink t id name with
    | error e =>
      rw [hopen] at hs
      exact .inl ⟨hs, rfl⟩
    | ok new =>
      rw [hopen] at hs
      dsimp only at hs
      rw [sink?_append] at hs
      split at hs
      · rename_i hk
        cases hs
        exact .inr (.inl ⟨t, id, name, by rw [hk]; rfl, hk, hopen⟩)
      · exact .inl ⟨hs, rfl⟩
  | write i chunk =>
    cases hi : w.sink? i with
    | none =>
      rw [step_write_of_closed w hi] at hs
      refine .inl ⟨hs, ?_⟩
      simp only [answer, hi, Entry.chunk?]
    | some old =>
      rw [step_write w hi, sink?_set (lt_of_sink? hi)] at hs
      rw [answer_write hi]
      by_cases hk : k = i
      · subst hk
        rw [if_pos rfl] at hs
        exact .inr (.inr ⟨old, chunk, hi, (Option.some.inj hs).symm, by simp [Entry.chunk?]⟩)
      · rw [if_neg hk] at hs
        exact .inl ⟨hs, by simp [Entry.chunk?, Ne.symm hk]⟩
  | commit i =>
    refine .inl ⟨?_, rfl⟩
    cases hi : w.sink? i with
    | none => rwa [step_commit_of_closed w hi] at hs
    | some old =>
      rw [step_commit w hi] at hs
      exact (sink?_of_without hs :)
  | drop i => exact .inl ⟨sink?_of_without hs, rfl⟩
  | openSource t id name =>
    refine .inl ⟨?_, rfl⟩
    rw [step_openSource] at hs
    cases hc : w.memory.content t id name with
    | error e => rwa [hc] at hs
    | ok c => rwa [hc] at hs
  | read i most =>
    refine .inl ⟨?_, rfl⟩
    cases hi : w.sources[i]? with
    | none => rwa [step_read_of_closed w hi] at hs
    | some rest => rwa [step_read w hi] at hs

/-- Numbers of sinks are not given away twice, since used-up sinks keep their places. -/
theorem length_sinks_le_step (c : Call) : w.sinks.length ≤ (w.step c).sinks.length := by
  cases c with
  | insert record => exact Nat.le_refl _
  | update record => exact Nat.le_refl _
  | delete t id => exact Nat.le_refl _
  | openSink t id name =>
    rw [step_openSink]
    split <;> simp
  | write i chunk =>
    cases hi : w.sink? i with
    | none => exact Nat.le_of_eq (by rw [step_write_of_closed w hi])
    | some s => simp [step_write w hi]
  | commit i =>
    cases hi : w.sink? i with
    | none => exact Nat.le_of_eq (by rw [step_commit_of_closed w hi])
    | some s => simp [step_commit w hi, without, after]
  | drop i => simp [step, without]
  | openSource t id name =>
    rw [step_openSource]
    split <;> simp
  | read i most =>
    cases hi : w.sources[i]? with
    | none => exact Nat.le_of_eq (by rw [step_read_of_closed w hi])
    | some rest => exact Nat.le_of_eq (by rw [step_read w hi])

/-- Only sinks that were opened are used. The one entry with the next number is the opening itself.
-/
theorem lt_of_entry {c : Call} {k : Nat} (hk : (Entry.mk c (w.answer c)).sink? = some k) :
    k < w.sinks.length ∨ k = w.sinks.length ∧
      ∃ t id name s, c = .openSink t id name ∧ w.memory.openSink t id name = .ok s := by
  cases c with
  | openSink t id name =>
    rw [answer_openSink] at hk
    cases hopen : w.memory.openSink t id name with
    | error e => simp [hopen, Except.map, Entry.sink?] at hk
    | ok s =>
      have hlength : w.sinks.length = k := by simpa [hopen, Except.map, Entry.sink?] using hk
      exact .inr ⟨hlength.symm, t, id, name, s, rfl, hopen⟩
  | write i chunk =>
    cases hi : w.sink? i with
    | none => simp [answer, hi, Entry.sink?] at hk
    | some s =>
      have hki : i = k := by simpa [answer_write hi, Entry.sink?] using hk
      exact .inl (hki ▸ lt_of_sink? hi)
  | commit i =>
    cases hi : w.sink? i with
    | none => simp [answer, hi, Entry.sink?] at hk
    | some s =>
      have hki : i = k := by
        rw [answer_commit w hi] at hk
        unfold Entry.sink? at hk
        split at hk <;> simp_all
      exact .inl (hki ▸ lt_of_sink? hi)
  | insert record => simp [Entry.sink?] at hk
  | update record => simp [Entry.sink?] at hk
  | delete t id => simp [Entry.sink?] at hk
  | drop i => simp [Entry.sink?] at hk
  | openSource t id name => simp [Entry.sink?] at hk
  | read i most => simp [Entry.sink?] at hk

/-! ### What a history tells of a state -/

/-- What a history tells of the sinks and the contents of the state that it leads to. -/
structure Recorded (r : Registry) (h : List Entry) (w : World) : Prop where
  numbers : ∀ e ∈ h, ∀ k, e.sink? = some k → k < w.sinks.length
  openings : ∀ t id name u i other k, .opening t id name k ∈ h → .opening u i other k ∈ h →
    t = u ∧ id = i ∧ name = other
  sinks : ∀ k s, w.sink? k = some s → ∃ t ∈ r.types, ∃ name, .opening t s.id name k ∈ h ∧
    s.entity = t.name ∧ blobIndex t name = .ok s.index ∧ s.staged = written k h
  contents : ∀ t ∈ r.types, ∀ id name c, w.memory.content t id name = .ok c → Shows h t id name c

theorem recorded_empty (r : Registry) : Recorded r [] {} := by
  refine ⟨by simp, by simp, ?_, ?_⟩
  · intro k s hs
    simp [sink?] at hs
  · intro t _ id name c hc
    obtain ⟨i, row, -, hrow, -⟩ := content_eq_ok_iff.mp hc
    simp [row?, table, Table.row?] at hrow

section Step

variable {c : Call} {n : Nat}

theorem Recorded.numbers_step (hw : w.Recorded r h) {e : Entry}
    (he : e ∈ h ++ [⟨c, w.answer c⟩]) {k : Nat} (hk : e.sink? = some k) :
    k < (w.step c).sinks.length := by
  have hle := length_sinks_le_step (w := w) c
  rcases List.mem_append.mp he with he | he
  · exact Nat.lt_of_lt_of_le (hw.numbers e he k hk) hle
  · obtain rfl := List.mem_singleton.mp he
    rcases lt_of_entry hk with hlt | ⟨rfl, t, id, name, s, rfl, hs⟩
    · exact Nat.lt_of_lt_of_le hlt hle
    · simp [step_openSink, hs]

/-- A sink that is opened now was not opened before, nor written to or committed. -/
theorem Recorded.opening_fresh (hw : w.Recorded r h) {k : Nat}
    (he : Entry.mk c (w.answer c) = .opening t id name k) : ∀ e ∈ h, e.sink? ≠ some k := by
  intro e hmem hk
  have hlt := hw.numbers e hmem k hk
  have hopened : (Entry.mk c (w.answer c)).sink? = some k := by rw [he]; rfl
  rcases lt_of_entry hopened with hlt' | ⟨rfl, -⟩
  · obtain ⟨rfl, hanswer⟩ := Entry.mk.inj he
    rw [answer_openSink] at hanswer
    cases hs : w.memory.openSink t id name with
    | error e => simp [hs, Except.map] at hanswer
    | ok s =>
      have hlength : w.sinks.length = k := by simpa [hs, Except.map] using hanswer
      omega
  · omega

theorem Recorded.openings_step (hw : w.Recorded r h) {u : RecordType} {i : Int} {other : String}
    {k : Nat} (ht : .opening t id name k ∈ h ++ [⟨c, w.answer c⟩])
    (hu : .opening u i other k ∈ h ++ [⟨c, w.answer c⟩]) : t = u ∧ id = i ∧ name = other := by
  rcases List.mem_append.mp ht with ht | ht <;> rcases List.mem_append.mp hu with hu | hu
  · exact hw.openings t id name u i other k ht hu
  · exact absurd rfl (hw.opening_fresh (List.mem_singleton.mp hu).symm _ ht)
  · exact absurd rfl (hw.opening_fresh (List.mem_singleton.mp ht).symm _ hu)
  · have heq := (List.mem_singleton.mp ht).trans (List.mem_singleton.mp hu).symm
    simpa [Entry.opening] using heq

/-- An open sink stages exactly what the history says was written to it since its opening. -/
theorem Recorded.sinks_step (hw : w.Recorded r h) (hc : c.UsesTypesOf r) {k : Nat} {s : MemorySink}
    (hs : (w.step c).sink? k = some s) :
    ∃ t ∈ r.types, ∃ name, .opening t s.id name k ∈ h ++ [⟨c, w.answer c⟩] ∧ s.entity = t.name ∧
      blobIndex t name = .ok s.index ∧ s.staged = written k (h ++ [⟨c, w.answer c⟩]) := by
  rw [written_concat]
  rcases sink?_step hs with ⟨hs, hchunk⟩ | ⟨t, id, name, he, rfl, hopen⟩ | ⟨old, chunk, hold, rfl, hchunk⟩
  · obtain ⟨t, ht, name, hopening, hentity, hindex, hstaged⟩ := hw.sinks k s hs
    refine ⟨t, ht, name, List.mem_append_left _ hopening, hentity, hindex, ?_⟩
    simp [hstaged, hchunk]
  · obtain ⟨hentity, rfl, hindex, hstaged⟩ := openSink_eq_ok hopen
    obtain ⟨rfl, -⟩ := Entry.mk.inj he
    refine ⟨t, hc, name, by rw [he]; simp, hentity, hindex, ?_⟩
    -- nothing was written to this sink before
    rw [hstaged, written_eq_nil (hw.opening_fresh he)]
    rfl
  · obtain ⟨t, ht, name, hopening, hentity, hindex, hstaged⟩ := hw.sinks k old hold
    refine ⟨t, ht, name, List.mem_append_left _ hopening, hentity, hindex, ?_⟩
    simp [hstaged, hchunk]

/-- Where a call leaves a content and settles nothing about it, the history tells it as before. -/
theorem Recorded.contents_of_same (hw : w.Recorded r h) (ht : t ∈ r.types) {content : Option Bytes}
    (hcontent : w.memory.content t id name = .ok content)
    (he : ¬Settles (h ++ [⟨c, w.answer c⟩]) t id name ⟨c, w.answer c⟩) :
    Shows (h ++ [⟨c, w.answer c⟩]) t id name content :=
  (hw.contents t ht id name content hcontent).concat he fun _ _ hopen hmem =>
    hw.opening_fresh hopen _ hmem rfl

/-- The contents after a call, by what the call did to the store. A commit of a sink settles the
content of its attribute with what was staged, which by the record of the sinks is all that was
written to it; a new record settles that there is none; every other call leaves the content and what
the history tells of it. -/
theorem Recorded.contents_step (hw : w.Recorded r h) (hi : w.Invariant r n) (hr : r.Resolved)
    (hc : c.UsesTypesOf r) (ht : t ∈ r.types) {content : Option Bytes}
    (hcontent : (w.step c).memory.content t id name = .ok content) :
    Shows (h ++ [⟨c, w.answer c⟩]) t id name content := by
  have heffect := w.effect_step c
  generalize (w.step c).memory = m at heffect hcontent
  cases heffect with
  | nothing hinsert hcommit =>
    refine hw.contents_of_same ht hcontent ?_
    rintro (⟨record, _, heq, -⟩ | ⟨k, size, heq, -⟩)
    · exact hinsert record (Entry.mk.inj heq).1
    · exact hcommit k size (Entry.mk.inj heq).1 (Entry.mk.inj heq).2
  | insert record =>
    have hstored := id_insert hr hc w.memory
    have hanswer : w.answer (.insert record) = .record (.ok (w.memory.insert record).1) := rfl
    -- the content is that of the new record, or of another one, which the insert does not settle
    rcases content_of_insert hi.memory hr hc ht hcontent with ⟨rfl, rfl, rfl⟩ | ⟨hother, hbefore⟩
    · exact .inserted rfl ⟨record, _, by rw [hanswer], rfl, hstored⟩ (by simp)
    · refine hw.contents_of_same ht hbefore ?_
      rintro (⟨_, _, heq, htype, hid⟩ | ⟨_, _, heq, -⟩)
      · rw [hanswer] at heq
        cases heq
        rw [hstored] at hid
        exact hother ⟨htype.symm, (Option.some.inj hid).symm⟩
      · simp [Entry.commitment] at heq
  | update hm =>
    refine hw.contents_of_same ht (content_of_update hm hcontent) ?_
    rintro (⟨_, _, heq, -⟩ | ⟨_, _, heq, -⟩) <;> simp [Entry.commitment] at heq
  | delete hm =>
    refine hw.contents_of_same ht (content_of_delete hm hcontent) ?_
    rintro (⟨_, _, heq, -⟩ | ⟨_, _, heq, -⟩) <;> simp [Entry.commitment] at heq
  | @commit k size s m hs hm hanswer =>
    obtain ⟨u, hu, other, hopening, hentity, hindex, hstaged⟩ := hw.sinks k s hs
    rcases content_of_commit hi.memory hr hm hu hentity hindex ht hcontent with
      ⟨⟨rfl, rfl, rfl⟩, rfl⟩ | ⟨hother, hbefore⟩
    · rw [hanswer, hstaged]
      exact .committed rfl (List.mem_append_left _ hopening) (by simp)
    · refine hw.contents_of_same ht hbefore ?_
      rintro (⟨_, _, heq, -⟩ | ⟨j, _, heq, hopened⟩)
      · simp at heq
      · -- a sink was opened for one attribute only
        obtain rfl : k = j := Call.commit.inj (Entry.mk.inj heq).1
        have hopened : .opening t id name k ∈ h := by
          simpa [Entry.opening] using hopened
        exact hother (hw.openings t id name u s.id other k hopened hopening)

/-- **Calls are recorded.** The four parts of the record are kept by the lemmas above, and the
content of the store enters into the last one only. -/
theorem Recorded.step (hw : w.Recorded r h) (hi : w.Invariant r n) (hr : r.Resolved)
    (hc : c.UsesTypesOf r) : (w.step c).Recorded r (h ++ [⟨c, w.answer c⟩]) where
  numbers _ he _ hk := hw.numbers_step he hk
  openings _ _ _ _ _ _ _ ht hu := hw.openings_step ht hu
  sinks _ _ hs := hw.sinks_step hc hs
  contents _ ht _ _ _ hcontent := hw.contents_step hi hr hc ht hcontent

end Step

end World

/-- The history of a run tells the contents of its state, by induction on the last call. -/
theorem recorded_run (hr : r.Resolved) {calls : List Call} (hcalls : ∀ c ∈ calls, c.UsesTypesOf r) :
    (run calls).Recorded r (history calls) := by
  induction calls using List.reverseRecOn with
  | nil => exact World.recorded_empty r
  | append_singleton calls c ih =>
    have hbefore : ∀ c ∈ calls, c.UsesTypesOf r := fun d hd =>
      hcalls d (List.mem_append_left _ hd)
    rw [run_concat, history_concat]
    exact (ih hbefore).step (invariant_run hr hbefore) hr (hcalls c (by simp))

end RecordService.Memory
