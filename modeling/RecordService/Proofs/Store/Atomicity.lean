import RecordService.Proofs.Store.Recording

/-!
# Binary content is replaced as a whole

However the calls of several clients are interleaved, binary content changes as a whole or not at
all (`RecordService.Memory.content_atomic`). What is stored is what was written to the sink that was
committed last. A sink that was not committed might as well never have been opened: without it, the
remaining calls are answered as before. A source yields the content of the moment when it was opened,
from its first byte to its last, whatever happens to the record meanwhile.

* `RecordService.Memory.Entry.without`: an entry as it is when a sink was never opened.
* `RecordService.Memory.World.Lacks`: a state without one of the sinks of another one.
-/

namespace RecordService.Memory

/-! ### Runs without a sink -/

/-- The number of a sink when the sink with number `k` was not opened. -/
def lowered (k j : Nat) : Nat := if k < j then j - 1 else j

/-- A call when the sink with number `k` was not opened, unless it is a call on this sink. -/
def Call.without (k : Nat) : Call → Option Call
  | write j chunk => if j = k then none else some (write (lowered k j) chunk)
  | commit j => if j = k then none else some (commit (lowered k j))
  | drop j => if j = k then none else some (drop (lowered k j))
  | c => some c

/-- An answer when the sink with number `k` was not opened. -/
def Answer.without (k : Nat) : Answer → Answer
  | sink result => sink (result.map (lowered k))
  | a => a

/-- An entry when the sink with number `k` was not opened, unless it is about this sink. -/
def Entry.without (k : Nat) (e : Entry) : Option Entry :=
  (e.call.without k).map fun c => ⟨c, e.answer.without k⟩

namespace World

variable {w v : World} {k : Nat}

/-- Whether `v` is the state `w` without the sink with number `k`. -/
structure Lacks (k : Nat) (w v : World) : Prop where
  lt : k < w.sinks.length
  memory : v.memory = w.memory
  sinks : v.sinks = w.sinks.eraseIdx k
  sources : v.sources = w.sources

theorem Lacks.sink? (h : w.Lacks k v) {j : Nat} (hj : j ≠ k) :
    v.sink? (lowered k j) = w.sink? j := by
  unfold World.sink? lowered
  rw [h.sinks, List.getElem?_eraseIdx]
  rcases Nat.lt_or_gt_of_ne hj with hlt | hgt
  · rw [if_neg (Nat.lt_asymm hlt), if_pos hlt]
  · rw [if_pos hgt, if_neg (by omega), Nat.sub_add_cancel (by omega)]

/-- Replacing another sink, under its number in each of the two states. -/
theorem Lacks.set (h : w.Lacks k v) {j : Nat} (hj : j ≠ k) (o : Option MemorySink) :
    Lacks k { w with sinks := w.sinks.set j o } { v with sinks := v.sinks.set (lowered k j) o } := by
  refine ⟨by simpa using h.lt, h.memory, ?_, h.sources⟩
  dsimp only
  rw [h.sinks]
  unfold lowered
  rcases Nat.lt_or_gt_of_ne hj with hlt | hgt
  · rw [if_neg (Nat.lt_asymm hlt), List.eraseIdx_set_gt hlt]
  · rw [if_pos hgt, List.eraseIdx_set_lt hgt]

/-- Using up or writing to the sink itself, which the other state does not have. -/
theorem Lacks.set_self (h : w.Lacks k v) (o : Option MemorySink) :
    Lacks k { w with sinks := w.sinks.set k o } v := by
  refine ⟨by simpa using h.lt, h.memory, ?_, h.sources⟩
  rw [h.sinks, List.eraseIdx_set_eq]

theorem Lacks.append (h : w.Lacks k v) (o : Option MemorySink) :
    Lacks k { w with sinks := w.sinks ++ [o] } { v with sinks := v.sinks ++ [o] } := by
  refine ⟨?_, h.memory, ?_, h.sources⟩
  · have hlt := h.lt
    simp only [List.length_append]
    omega
  · dsimp only
    rw [h.sinks, List.eraseIdx_append_of_lt_length h.lt]

theorem Lacks.lowered_length (h : w.Lacks k v) : lowered k w.sinks.length = v.sinks.length := by
  have hlt := h.lt
  rw [lowered, if_pos hlt, h.sinks, List.length_eraseIdx, if_pos hlt]

/-- A commit that does not succeed leaves the store as it is. It may have no sink, or its record may
be gone. -/
theorem memory_step_commit
    (hcommit : ∀ size, Entry.mk (.commit k) (w.answer (.commit k)) ≠ .commitment k size) :
    (w.step (.commit k)).memory = w.memory := by
  have heffect := w.effect_step (.commit k)
  generalize (w.step (.commit k)).memory = m at heffect
  cases heffect with
  | nothing => rfl
  | @commit _ size _ _ _ _ hanswer => exact absurd (by rw [hanswer]; rfl) (hcommit size)

/-- A call on the sink itself is not noticed without it, unless it is a commit that succeeds. The
other calls on it are writes, which the store does not see, and commits that fail. -/
theorem Lacks.skip (h : w.Lacks k v) {c : Call} (hc : c.without k = none)
    (hcommit : ∀ size, Entry.mk c (w.answer c) ≠ .commitment k size) : (w.step c).Lacks k v := by
  cases c with
  | write j chunk =>
    obtain rfl : j = k := by simpa [Call.without] using hc
    cases hs : w.sink? j with
    | none => rwa [step_write_of_closed w hs]
    | some s =>
      rw [step_write w hs]
      exact h.set_self _
  | commit j =>
    obtain rfl : j = k := by simpa [Call.without] using hc
    have hmemory : v.memory = (w.step (.commit j)).memory :=
      h.memory.trans (memory_step_commit hcommit).symm
    cases hs : w.sink? j with
    | none => rwa [step_commit_of_closed w hs]
    | some s =>
      rw [step_commit w hs] at hmemory ⊢
      have hused := h.set_self none
      exact ⟨hused.lt, hmemory, hused.sinks, hused.sources⟩
  | drop j =>
    obtain rfl : j = k := by simpa [Call.without] using hc
    exact h.set_self none
  | insert record => simp [Call.without] at hc
  | update record => simp [Call.without] at hc
  | delete t id => simp [Call.without] at hc
  | openSink t id name => simp [Call.without] at hc
  | openSource t id name => simp [Call.without] at hc
  | read j most => simp [Call.without] at hc

/-- The same change of the store in both states. -/
theorem Lacks.withMemory (h : w.Lacks k v) (m : Memory) :
    Lacks k { w with memory := m } { v with memory := m } :=
  ⟨h.lt, rfl, h.sinks, h.sources⟩

/-- The same operation in both states. -/
theorem Lacks.after (h : w.Lacks k v) {α : Type} (x : ExceptT StorageError (StateM Memory) α) :
    (w.after x).Lacks k (v.after x) := by
  have hafter := h.withMemory (w.after x).memory
  simpa only [World.after, h.memory] using hafter

theorem Lacks.withSources (h : w.Lacks k v) (sources : List Bytes) :
    Lacks k { w with sources := sources } { v with sources := sources } :=
  ⟨h.lt, h.memory, h.sinks, rfl⟩

/-- **A call that is not on the sink** does the same without it, and answers the same. Only the
numbers of later sinks are lower by one. -/
theorem Lacks.step (h : w.Lacks k v) {c d : Call} (hc : c.without k = some d) :
    (w.step c).Lacks k (v.step d) ∧ v.answer d = (w.answer c).without k := by
  cases c with
  | write j chunk =>
    obtain ⟨hj, rfl⟩ : j ≠ k ∧ Call.write (lowered k j) chunk = d := by
      simpa [Call.without] using hc
    have hsame := h.sink? hj
    cases hs : w.sink? j with
    | none =>
      rw [hs] at hsame
      rw [step_write_of_closed w hs, step_write_of_closed v hsame]
      exact ⟨h, by simp only [answer, hs, hsame, Answer.without]⟩
    | some s =>
      rw [hs] at hsame
      rw [step_write w hs, step_write v hsame, answer_write hs, answer_write hsame]
      exact ⟨h.set hj _, rfl⟩
  | commit j =>
    obtain ⟨hj, rfl⟩ : j ≠ k ∧ Call.commit (lowered k j) = d := by
      simpa [Call.without] using hc
    have hsame := h.sink? hj
    cases hs : w.sink? j with
    | none =>
      rw [hs] at hsame
      rw [step_commit_of_closed w hs, step_commit_of_closed v hsame]
      exact ⟨h, by simp only [answer, hs, hsame, Answer.without]⟩
    | some s =>
      rw [hs] at hsame
      rw [step_commit w hs, step_commit v hsame, answer_commit w hs, answer_commit v hsame, h.memory]
      exact ⟨(h.after _).set hj none, rfl⟩
  | drop j =>
    obtain ⟨hj, rfl⟩ : j ≠ k ∧ Call.drop (lowered k j) = d := by
      simpa [Call.without] using hc
    refine ⟨h.set hj none, ?_⟩
    simp only [answer, h.sink? hj]
    cases w.sink? j <;> rfl
  | insert record =>
    obtain rfl : Call.insert record = d := by simpa [Call.without] using hc
    exact ⟨h.after _, by simp only [answer, h.memory]; rfl⟩
  | update record =>
    obtain rfl : Call.update record = d := by simpa [Call.without] using hc
    exact ⟨h.after _, by simp only [answer, h.memory]; rfl⟩
  | delete t id =>
    obtain rfl : Call.delete t id = d := by simpa [Call.without] using hc
    exact ⟨h.after _, by simp only [answer, h.memory]; rfl⟩
  | openSink t id name =>
    obtain rfl : Call.openSink t id name = d := by simpa [Call.without] using hc
    rw [step_openSink, step_openSink, answer_openSink, answer_openSink, h.memory]
    cases w.memory.openSink t id name with
    | error e => exact ⟨h, rfl⟩
    | ok s =>
      refine ⟨by simpa only [h.memory] using h.append (some s), ?_⟩
      simp only [Except.map, Answer.without, h.lowered_length]
  | openSource t id name =>
    obtain rfl : Call.openSource t id name = d := by simpa [Call.without] using hc
    rw [step_openSource, step_openSource, answer_openSource, answer_openSource, h.memory, h.sources]
    cases w.memory.content t id name with
    | error e => exact ⟨h, rfl⟩
    | ok content =>
      have hafter := h.withSources (w.sources ++ content.toList)
      exact ⟨by simpa only [h.memory] using hafter, rfl⟩
  | read j most =>
    obtain rfl : Call.read j most = d := by simpa [Call.without] using hc
    simp only [World.step, answer, h.sources, h.memory]
    cases w.sources[j]? with
    | none => exact ⟨h, rfl⟩
    | some s => exact ⟨(h.withSources (w.sources.set j (s.drop most))).withMemory w.memory, rfl⟩

/-- **Calls without a sink** that is not committed are answered the same, by induction along the
calls: those on the sink are skipped, and the others are made in both states. -/
theorem Lacks.entries (h : w.Lacks k v) {calls : List Call}
    (hcommit : ∀ size, .commitment k size ∉ w.entries calls) :
    v.entries (calls.filterMap (Call.without k)) = (w.entries calls).filterMap (Entry.without k) ∧
      (calls.foldl World.step w).Lacks k ((calls.filterMap (Call.without k)).foldl World.step v) := by
  -- calls on the sink are left out, and all others are made in both states
  induction calls generalizing w v with
  | nil => exact ⟨rfl, h⟩
  | cons c calls ih =>
    rw [World.entries] at hcommit
    have hhead : ∀ size, Entry.mk c (w.answer c) ≠ .commitment k size := fun size heq =>
      hcommit size (by simp [heq])
    have htail : ∀ size, .commitment k size ∉ (w.step c).entries calls := fun size hmem =>
      hcommit size (List.mem_cons_of_mem _ hmem)
    cases hc : c.without k with
    | none =>
      obtain ⟨hentries, hlacks⟩ := ih (h.skip hc hhead) htail
      rw [List.filterMap_cons_none hc, World.entries,
        List.filterMap_cons_none (by simp [Entry.without, hc])]
      exact ⟨hentries, hlacks⟩
    | some d =>
      obtain ⟨hstep, hanswer⟩ := h.step hc
      obtain ⟨hentries, hlacks⟩ := ih hstep htail
      have hentry : (Entry.mk c (w.answer c)).without k = some ⟨d, v.answer d⟩ := by
        simp [Entry.without, hc, hanswer]
      rw [List.filterMap_cons_some hc, World.entries, World.entries,
        List.filterMap_cons_some hentry, hentries]
      exact ⟨rfl, hlacks⟩

end World

/-! ### Reading piecewise -/

namespace World

variable {w : World} {j : Nat} {rest : Bytes}

/-- A read takes its bytes from the front of what there is to read. Any other call leaves that,
commits of the same attribute included. -/
theorem sources_step (hj : w.sources[j]? = some rest) (c : Call) :
    ∃ left, (w.step c).sources[j]? = some left ∧
      rest = ((Entry.mk c (w.answer c)).bytes? j).getD [] ++ left ∧
      ∀ most, 0 < most → Entry.mk c (w.answer c) = ⟨.read j most, .bytes (.ok [])⟩ → rest = [] := by
  cases c with
  | insert record => exact ⟨rest, hj, rfl, by simp⟩
  | update record => exact ⟨rest, hj, rfl, by simp⟩
  | delete t id => exact ⟨rest, hj, rfl, by simp⟩
  | drop k => exact ⟨rest, hj, rfl, by simp⟩
  | openSink t id name =>
    refine ⟨rest, ?_, rfl, by simp⟩
    rw [step_openSink]
    split <;> exact hj
  | write k chunk =>
    refine ⟨rest, ?_, rfl, by simp⟩
    cases hs : w.sink? k with
    | none => rwa [step_write_of_closed w hs]
    | some s => rwa [step_write w hs]
  | commit k =>
    refine ⟨rest, ?_, rfl, by simp⟩
    cases hs : w.sink? k with
    | none => rwa [step_commit_of_closed w hs]
    | some s => rwa [step_commit w hs]
  | openSource t id name =>
    refine ⟨rest, ?_, rfl, by simp⟩
    rw [step_openSource]
    split
    · rwa [List.getElem?_append_left (List.getElem?_eq_some_iff.mp hj).1]
    · exact hj
  | read i most =>
    cases hi : w.sources[i]? with
    | none =>
      have hne : i ≠ j := by
        rintro rfl
        simp [hi] at hj
      rw [step_read_of_closed w hi]
      simp only [answer, hi]
      exact ⟨rest, hj, rfl, by simp⟩
    | some s =>
      have hanswer : w.answer (.read i most) = .bytes (.ok (s.take most)) := by
        simp only [answer, hi]
        rfl
      rw [step_read w hi, hanswer]
      -- only reads of this source take bytes from it
      by_cases hij : i = j
      · subst hij
        obtain rfl : s = rest := Option.some.inj (hi.symm.trans hj)
        refine ⟨s.drop most, ?_, ?_, ?_⟩
        · rw [List.getElem?_set_self (List.getElem?_eq_some_iff.mp hj).1]
        · simp [Entry.bytes?]
        · intro n hn heq
          obtain ⟨rfl, hempty⟩ : most = n ∧ s.take most = [] := by simpa using heq
          rcases List.take_eq_nil_iff.mp hempty with rfl | hs
          · exact absurd hn (Nat.lt_irrefl 0)
          · exact hs
      · refine ⟨rest, ?_, ?_, ?_⟩
        · rwa [List.getElem?_set_ne hij]
        · simp [Entry.bytes?, hij]
        · intro n _ heq
          simp [hij] at heq

/-- **A source yields what there is to read of it**, and nothing more once a read finds its end. A
read without room finds no end, so it is left out. -/
theorem yielded_entries (hj : w.sources[j]? = some rest) (calls : List Call) :
    ∃ left, rest = yielded j (w.entries calls) ++ left ∧
      ∀ most, 0 < most → ⟨.read j most, .bytes (.ok [])⟩ ∈ w.entries calls → left = [] := by
  induction calls generalizing w rest with
  | nil => exact ⟨rest, rfl, by simp [World.entries]⟩
  | cons c calls ih =>
    obtain ⟨middle, hmiddle, hrest, hend⟩ := sources_step hj c
    obtain ⟨left, hleft, hends⟩ := ih hmiddle
    refine ⟨left, ?_, ?_⟩
    · rw [World.entries, yielded_cons, List.append_assoc, ← hleft, ← hrest]
    · intro most hmost hmem
      rcases List.mem_cons.mp hmem with heq | hmem
      · have hempty := hend most hmost heq.symm
        rw [hrest, hleft] at hempty
        simp only [List.append_eq_nil_iff] at hempty
        exact hempty.2.2
      · exact hends most hmost hmem

end World

/-- Opening a sink adds it to the state, which is otherwise the one without it. -/
theorem World.lacks_of_opening {w : World} {t : RecordType} {id : Int} {name : String} {k : Nat}
    (h : w.answer (.openSink t id name) = .sink (.ok k)) :
    (w.step (.openSink t id name)).Lacks k w := by
  rw [World.answer_openSink] at h
  rw [World.step_openSink]
  cases hs : w.memory.openSink t id name with
  | error e => simp [hs, Except.map] at h
  | ok s =>
    obtain rfl : w.sinks.length = k := by simpa [hs, Except.map] using h
    refine ⟨by simp, rfl, ?_, rfl⟩
    simp [List.eraseIdx_append_of_length_le]

/-- Opening a source gives the content that is stored at this moment to read. Later commits put
other content in place and do not reach it. -/
theorem World.source_of_opening {w : World} {t : RecordType} {id : Int} {name : String} {j : Nat}
    (h : w.answer (.openSource t id name) = .source (.ok (some j))) :
    ∃ content, w.memory.content t id name = .ok (some content) ∧
      (w.step (.openSource t id name)).sources[j]? = some content := by
  rw [World.answer_openSource] at h
  rw [World.step_openSource]
  cases hc : w.memory.content t id name with
  | error e => simp [hc, Except.map] at h
  | ok c =>
    cases c with
    | none => simp [hc, Except.map] at h
    | some content =>
      obtain rfl : w.sources.length = j := by simpa [hc, Except.map] using h
      exact ⟨content, rfl, by simp⟩

theorem map_call_without (k : Nat) (h : List Entry) :
    (h.filterMap (Entry.without k)).map Entry.call =
      (h.map Entry.call).filterMap (Call.without k) := by
  rw [List.map_filterMap, List.filterMap_map]
  congr 1
  funext e
  simp [Entry.without, Option.map_map, Function.comp_def]

/-! ### Atomicity -/

/-- A run without a sink that was not committed: the rest of its history is a history, and leads to
the same store. So no reader can tell whether the upload was begun. -/
theorem history_without {calls : List Call} {before after : List Entry} {t : RecordType} {id : Int}
    {name : String} {k : Nat} (h : history calls = before ++ .opening t id name k :: after)
    (hcommit : ∀ size, .commitment k size ∉ after) :
    history ((before ++ after.filterMap (Entry.without k)).map Entry.call) =
        before ++ after.filterMap (Entry.without k) ∧
      (run ((before ++ after.filterMap (Entry.without k)).map Entry.call)).memory =
        (run calls).memory := by
  obtain ⟨hbefore, hanswer, hafter⟩ := World.entries_split h
  have hlacks := World.lacks_of_opening hanswer
  dsimp only [Entry.opening] at hafter
  rw [← hafter] at hcommit
  obtain ⟨hentries, hend⟩ := hlacks.entries hcommit
  rw [List.map_append, map_call_without]
  constructor
  · rw [history, World.entries_append, hbefore, hentries, hafter]
  · rw [World.calls_of_entries h, run, run, List.foldl_append, List.foldl_append, List.foldl_cons]
    exact hend.memory

/-- **Binary content is replaced as a whole**, however the calls of a run are interleaved.

* The content of an attribute of a stored record is what was written to the sink for it that was
  committed last, and there is none if none was committed since the record was inserted.
* Without a sink that is not committed, all other calls are answered the same, and lead to the same
  store.
* A source yields the content that was stored when it was opened: always a beginning of it, and all
  of it once a read with room for a byte finds the end. -/
theorem content_atomic {d : Schema.Document} {r : Registry} (hd : Registry.ofDocument d = .ok r)
    {calls : List Call} (hcalls : ∀ c ∈ calls, c.UsesTypesOf r) :
    (∀ t ∈ r.types, ∀ id name content,
      (run calls).memory.content t id name = .ok content →
        Shows (history calls) t id name content) ∧
    (∀ before after t id name k,
      history calls = before ++ .opening t id name k :: after →
      (∀ size, .commitment k size ∉ after) →
        history ((before ++ after.filterMap (Entry.without k)).map Entry.call) =
            before ++ after.filterMap (Entry.without k) ∧
          (run ((before ++ after.filterMap (Entry.without k)).map Entry.call)).memory =
            (run calls).memory) ∧
    ∀ before after t id name j,
      history calls = before ++ ⟨.openSource t id name, .source (.ok (some j))⟩ :: after →
        ∃ content, (run (before.map Entry.call)).memory.content t id name = .ok (some content) ∧
          yielded j after <+: content ∧
          ∀ most, 0 < most → ⟨.read j most, .bytes (.ok [])⟩ ∈ after →
            yielded j after = content := by
  refine ⟨?_, ?_, ?_⟩
  · exact (recorded_run (Registry.resolved_of_ofDocument hd) hcalls).contents
  · intro before after t id name k h hcommit
    exact history_without h hcommit
  · intro before after t id name j h
    obtain ⟨-, hanswer, hafter⟩ := World.entries_split h
    obtain ⟨content, hcontent, hsource⟩ := World.source_of_opening hanswer
    obtain ⟨left, hleft, hend⟩ := World.yielded_entries hsource (after.map Entry.call)
    rw [hafter] at hleft hend
    refine ⟨content, hcontent, ⟨left, hleft.symm⟩, ?_⟩
    intro most hmost hmem
    rw [hleft, hend most hmost hmem, List.append_nil]

/-- A photo whose picture is replaced while the old one is read, beside an upload that is left
unfinished. -/
def photo.replaced : List Call :=
  [.insert (claimed .null), .openSink photo 1 "Picture", .write 0 [1, 2], .commit 0,
    .openSource photo 1 "Picture", .read 0 1, .openSink photo 1 "Picture", .write 1 [7],
    .openSink photo 1 "Picture", .write 2 [9], .commit 2, .read 0 5, .read 0 5]

/-- The new picture is stored, the old one is read to its end, and nothing is lost without the upload
that is left unfinished. -/
theorem content_atomic_photo :
    Registry.ofDocument album = .ok ⟨[photo]⟩ ∧
      (∀ c ∈ photo.replaced, c.UsesTypesOf ⟨[photo]⟩) ∧
      Shows (history photo.replaced) photo 1 "Picture" (some [9]) ∧
      yielded 0 ((history photo.replaced).drop 5) = [1, 2] ∧
      ∃ calls, calls.length = 11 ∧ (run calls).memory = (run photo.replaced).memory := by
  have halbum : Registry.ofDocument album = .ok ⟨[photo]⟩ := rfl
  have hcalls : ∀ c ∈ photo.replaced, c.UsesTypesOf ⟨[photo]⟩ := by
    simp [photo.replaced, Call.UsesTypesOf, photo.claimed]
  obtain ⟨hshows, hwithout, hyields⟩ := content_atomic halbum hcalls
  refine ⟨halbum, hcalls, ?_, ?_, ?_⟩
  · exact hshows photo (by simp) 1 "Picture" (some [9]) rfl
  · obtain ⟨content, hcontent, -, hend⟩ :=
      hyields ((history photo.replaced).take 4) ((history photo.replaced).drop 5) photo 1 "Picture" 0
        rfl
    obtain rfl : content = [1, 2] := Option.some.inj (Except.ok.inj (hcontent.symm.trans rfl))
    exact hend 5 (by decide) (List.mem_of_mem_drop (i := 7) (List.mem_cons_self))
  · have hafter : (history photo.replaced).drop 7 =
        [⟨.write 1 [7], .done (.ok ())⟩, .opening photo 1 "Picture" 2,
          ⟨.write 2 [9], .done (.ok ())⟩, .commitment 2 1,
          ⟨.read 0 5, .bytes (.ok [2])⟩, ⟨.read 0 5, .bytes (.ok [])⟩] := rfl
    obtain ⟨-, hmemory⟩ :=
      hwithout ((history photo.replaced).take 6) ((history photo.replaced).drop 7) photo 1 "Picture"
        1 rfl (by simp [hafter, Entry.commitment, Entry.opening])
    exact ⟨_, rfl, hmemory⟩

end RecordService.Memory
