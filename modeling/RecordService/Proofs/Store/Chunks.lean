import Mathlib.Data.List.Infix
import RecordService.Proofs.Feed
import RecordService.Store.Content

/-!
# What a copy passes on

A copy of a feed is a loop with three ways out: the feed ends, the feed breaks, or the sink refuses a
chunk. Without the loop it can be said what it does. The deliveries of the feed, cut to the size of
the buffer, are written one after the other, and what happens at the end of the feed happens then
(`RecordService.Feed.copyFrom_eq_foldlM`). So a sink is given whole chunks from the front of the
content, and who fails first decides the outcome (`RecordService.Feed.copy_delivers_front`).

* `RecordService.Feed.content`, `RecordService.Feed.breaks?`: what a feed brings, and how it ends.
* `RecordService.Feed.chunks`: the content as it is passed on.
* `RecordService.Feed.Accepts`: sinks that accept some calls and refuse the next one.
-/

namespace RecordService.Feed

/-! ### What a feed brings -/

/-- The bytes of a feed, up to its end or to where it breaks. -/
def content : Feed → Bytes
  | [] => []
  | .bytes b :: f => b ++ content f
  | .interrupted :: f => content f
  | .broken _ :: _ => []

/-- What breaks a feed. -/
def breaks? : Feed → Option String
  | [] => none
  | .broken text :: _ => some text
  | _ :: f => breaks? f

/-- Some bytes, cut to the size of the buffer. -/
def cut (b : Bytes) : List Bytes :=
  if _h : b = [] then [] else b.take chunkSize :: cut (b.drop chunkSize)
termination_by b.length
decreasing_by
  have hpos : b.length ≠ 0 := by simpa using _h
  have hsize : chunkSize = 8192 := rfl
  simp only [List.length_drop]
  omega

/-- The content of a feed as it is passed on: every delivery by itself, cut to the size of the buffer. -/
def chunks : Feed → List Bytes
  | [] => []
  | .bytes b :: f => cut b ++ chunks f
  | .interrupted :: f => chunks f
  | .broken _ :: _ => []

/-- Cutting bytes into buffers loses none of them. -/
theorem flatten_cut (b : Bytes) : (cut b).flatten = b := by
  fun_induction cut b with
  | case1 => rfl
  | case2 b h ih => rw [List.flatten_cons, ih, List.take_append_drop]

/-- Every buffer has some bytes, and no more than it can hold. -/
theorem length_of_mem_cut {b chunk : Bytes} (h : chunk ∈ cut b) :
    1 ≤ chunk.length ∧ chunk.length ≤ chunkSize := by
  fun_induction cut b with
  | case1 => simp at h
  | case2 b hne ih =>
    rcases List.mem_cons.mp h with rfl | h
    · have hpos : b.length ≠ 0 := by simpa using hne
      have hsize : chunkSize = 8192 := rfl
      simp only [List.length_take]
      omega
    · exact ih h

/-- **The chunks of a feed are its content.** -/
theorem flatten_chunks (f : Feed) : f.chunks.flatten = f.content := by
  fun_induction chunks f with
  | case1 => rfl
  | case2 b f ih => rw [List.flatten_append, flatten_cut, ih, content]
  | case3 f ih => exact ih
  | case4 => rfl

theorem length_of_mem_chunks {f : Feed} {chunk : Bytes} (h : chunk ∈ f.chunks) :
    1 ≤ chunk.length ∧ chunk.length ≤ chunkSize := by
  fun_induction chunks f with
  | case1 => simp at h
  | case2 b f ih => exact (List.mem_append.mp h).elim length_of_mem_cut ih
  | case3 f ih => exact ih h
  | case4 => simp at h

/-! Interruptions bring nothing and end nothing. -/

theorem chunks_filter (f : Feed) : chunks (f.filter (· ≠ .interrupted)) = f.chunks := by
  fun_induction chunks f with
  | case1 => rfl
  | case2 b f ih => simpa [chunks] using ih
  | case3 f ih => simpa using ih
  | case4 text f => simp [chunks]

theorem breaks?_filter (f : Feed) : breaks? (f.filter (· ≠ .interrupted)) = f.breaks? := by
  fun_induction breaks? f with
  | case1 => rfl
  | case2 text f => simp [breaks?]
  | case3 item f hne ih =>
    cases item with
    | bytes b => simpa [breaks?] using ih
    | interrupted => simpa using ih
    | broken text => exact absurd rfl (hne text)

/-! ### Copies -/

section

variable {m : Type → Type} [Monad m] [LawfulMonad m] {σ ε : Type}
variable (failed : String → ε) (write : σ → Bytes → ExceptT ε m σ)

/-- What a copy makes of the end of a feed when `count` bytes were passed on. -/
def ending (f : Feed) (count : Nat) (sink : σ) : ExceptT ε m (σ × Nat) :=
  match f.breaks? with
  | some text => throw (failed text)
  | none => pure (sink, count)

/-- Bytes that are ready are written before all else. A delivery that is larger than the buffer is
written in several steps, and the copy goes on where it ends. -/
theorem copyFrom_bytes_eq (b : Bytes) (f : Feed) (sink : σ) (total : Nat) :
    copyFrom failed write sink total (.bytes b :: f) = (cut b).foldlM write sink >>= fun s =>
      copyFrom failed write s (total + b.length) f := by
  fun_induction cut b generalizing sink total with
  | case1 =>
    rw [copyFrom_empty, List.foldlM_nil, pure_bind]
    rfl
  | case2 b h ih =>
    rw [copyFrom_bytes failed write sink total h, List.foldlM_cons, bind_assoc]
    refine bind_congr fun s => ?_
    have hlength : total + (b.take chunkSize).length + (b.drop chunkSize).length =
        total + b.length := by
      simp only [List.length_take, List.length_drop]
      omega
    rw [ih, hlength]

/-- **What a copy does**: all chunks are written in order, and then the feed has ended or breaks. -/
theorem copyFrom_eq_foldlM (f : Feed) (sink : σ) (total : Nat) :
    copyFrom failed write sink total f =
      f.chunks.foldlM write sink >>= f.ending failed (total + f.content.length) := by
  induction f generalizing sink total with
  | nil =>
    rw [copyFrom_nil, chunks, List.foldlM_nil, pure_bind]
    rfl
  | cons item f ih =>
    cases item with
    | interrupted =>
      rw [copyFrom_interrupted, ih]
      rfl
    | broken text =>
      rw [copyFrom_broken, chunks, List.foldlM_nil, pure_bind]
      rfl
    | bytes b =>
      have hend : ending (m := m) (σ := σ) failed (.bytes b :: f) = ending failed f := rfl
      rw [copyFrom_bytes_eq, chunks, List.foldlM_append, bind_assoc]
      refine bind_congr fun s => ?_
      rw [ih, hend, content, List.length_append, Nat.add_assoc]

end

/-! ### Sinks that fail -/

section Sinks

variable {σ ε : Type} {write : σ → Bytes → Except ε σ} {k : Nat} {sink : σ}

/-- Whether a sink accepts `k` calls, whatever it is given, and refuses the next one. -/
def Accepts (write : σ → Bytes → Except ε σ) : Nat → σ → Prop
  | 0, s => ∀ chunk, ∃ e, write s chunk = .error e
  | k + 1, s => ∀ chunk, ∃ s', write s chunk = .ok s' ∧ Accepts write k s'

/-- A sink with room for some more chunks. -/
def limited : Nat → Bytes → Except RequestError Nat
  | 0, _ => .error (.badRequest "no room")
  | room + 1, _ => .ok room

theorem accepts_limited (room : Nat) : Accepts limited room room := by
  induction room with
  | zero => exact fun chunk => ⟨_, rfl⟩
  | succ room ih => exact fun chunk => ⟨room, rfl, ih⟩

/-- A sink whose calls are recorded, the last one included if it is refused. -/
def recording (write : σ → Bytes → Except ε σ) (s : σ) (chunk : Bytes) :
    ExceptT ε (StateM (List Bytes)) σ := do
  modify (· ++ [chunk])
  ExceptT.mk (pure (write s chunk))

theorem run_foldlM_recording_cons (chunk : Bytes) (chunks calls : List Bytes) :
    ((chunk :: chunks).foldlM (recording write) sink).run.run calls =
      match write sink chunk with
      | .ok s => (chunks.foldlM (recording write) s).run.run (calls ++ [chunk])
      | .error e => (.error e, calls ++ [chunk]) := by
  rw [List.foldlM_cons]
  cases hwrite : write sink chunk <;> simp only [recording, hwrite] <;> rfl

/-- **The calls of a sink that fails**: it is given the chunks up to the one that it refuses. -/
theorem run_foldlM_recording (h : Accepts write k sink) (chunks calls : List Bytes) :
    (chunks.foldlM (recording write) sink).run.run calls =
      ((chunks.take (k + 1)).foldlM write sink, calls ++ chunks.take (k + 1)) := by
  induction chunks generalizing k sink calls with
  | nil =>
    rw [List.take_nil, List.append_nil]
    rfl
  | cons chunk chunks ih =>
    rw [run_foldlM_recording_cons]
    cases k with
    | zero =>
      obtain ⟨e, he⟩ := h chunk
      simp [he]
    | succ k =>
      obtain ⟨s, hs, hrest⟩ := h chunk
      simp [hs, ih hrest]
      rfl

/-- A sink takes as many chunks as it accepts, and fails with one more. With this the sink's own
failure is told from that of the feed. -/
theorem foldlM_of_accepts (h : Accepts write k sink) (chunks : List Bytes) :
    (chunks.length ≤ k → ∃ s, chunks.foldlM write sink = .ok s) ∧
      (k < chunks.length → ∃ e, (chunks.take (k + 1)).foldlM write sink = .error e) := by
  induction chunks generalizing k sink with
  | nil => exact ⟨fun _ => ⟨sink, rfl⟩, fun hlt => absurd hlt (Nat.not_lt_zero k)⟩
  | cons chunk chunks ih =>
    cases k with
    | zero =>
      obtain ⟨e, he⟩ := h chunk
      refine ⟨fun hle => absurd hle (Nat.not_succ_le_zero _), fun _ => ⟨e, ?_⟩⟩
      rw [List.take_succ_cons, List.foldlM_cons, he]
      rfl
    | succ k =>
      obtain ⟨s, hs, hrest⟩ := h chunk
      rw [List.take_succ_cons, List.foldlM_cons, List.foldlM_cons, hs, List.length_cons]
      exact ⟨fun hle => (ih hrest).1 (Nat.le_of_succ_le_succ hle),
        fun hlt => (ih hrest).2 (Nat.lt_of_succ_lt_succ hlt)⟩

/-- **What a copy to a sink that fails does**: the sink is given the chunks up to the one that it
refuses, and if there is none, the outcome is that of the feed. -/
theorem run_copy_recording (failed : String → ε) (h : Accepts write k sink) (f : Feed) :
    (f.copy failed (recording write) sink).run.run [] =
      ((f.chunks.take (k + 1)).foldlM write sink >>= fun s =>
        match f.breaks? with
        | some text => .error (failed text)
        | none => .ok (s, f.content.length), f.chunks.take (k + 1)) := by
  have hcalls := run_foldlM_recording h f.chunks []
  have hbind : (f.copy failed (recording write) sink).run.run [] =
      match (f.chunks.foldlM (recording write) sink).run.run [] with
      | (.ok s, calls) => (f.ending (m := StateM (List Bytes)) failed (0 + f.content.length) s).run.run calls
      | (.error e, calls) => (.error e, calls) := by
    rw [copy, copyFrom_eq_foldlM]
    simp only [ExceptT.run_bind, StateT.run_bind]
    rcases (f.chunks.foldlM (recording write) sink).run.run [] with ⟨(e | s), calls⟩ <;> rfl
  rw [hbind, hcalls, List.nil_append, Nat.zero_add]
  cases (f.chunks.take (k + 1)).foldlM write sink with
  | error e => rfl
  | ok s =>
    unfold ending
    cases f.breaks? <;> rfl

/-- **A copy delivers the front of the content, whatever goes wrong.** A feed may come in deliveries of
any sizes, be interrupted and break, and a sink accepts its first `k` calls and refuses the next one.

* Every call of the sink is given some bytes, and at most a buffer of them; what it accepts is the
  front of the content.
* Interruptions make no difference, neither to the calls nor to the outcome.
* If the chunks of the feed are more than the sink accepts, it accepts `k` of them, and its own failure
  is the outcome.
* Otherwise the sink is given all of the content, up to where the feed breaks if it does. A break is a
  failure of the storage; without one, the copy succeeds with the length of the content. -/
theorem copy_delivers_front {write : σ → Bytes → Except RequestError σ} (h : Accepts write k sink)
    (f : Feed) :
    let run (f : Feed) : Except RequestError (σ × Nat) × List Bytes :=
      (f.copy Content.brokenSource (recording write) sink).run.run []
    let outcome := (run f).1
    let calls := (run f).2
    (∀ chunk ∈ calls, 1 ≤ chunk.length ∧ chunk.length ≤ chunkSize) ∧
      (calls.take k).flatten <+: f.content ∧
      (∀ g : Feed, g.filter (· ≠ .interrupted) = f.filter (· ≠ .interrupted) → run g = run f) ∧
      (k < f.chunks.length → calls.length = k + 1 ∧
        ∃ e, outcome = .error e ∧ calls.foldlM write sink = .error e) ∧
      (f.chunks.length ≤ k → calls.length ≤ k ∧ calls.flatten = f.content ∧
        ∃ s, calls.foldlM write sink = .ok s ∧
          outcome = match f.breaks? with
            | some text => .error (.storage (.io text))
            | none => .ok (s, f.content.length)) := by
  intro run outcome calls
  have hrun (f : Feed) : run f = _ := run_copy_recording Content.brokenSource h f
  have hcalls : calls = f.chunks.take (k + 1) := congrArg Prod.snd (hrun f)
  have houtcome : outcome = _ := congrArg Prod.fst (hrun f)
  refine ⟨?_, ?_, ?_, fun hlt => ?_, fun hle => ?_⟩
  · intro chunk hchunk
    rw [hcalls] at hchunk
    exact length_of_mem_chunks (List.mem_of_mem_take hchunk)
  · rw [hcalls, List.take_take, ← flatten_chunks]
    exact (List.take_prefix _ f.chunks).flatten
  · intro g hg
    have hchunks : g.chunks = f.chunks := by rw [← chunks_filter g, hg, chunks_filter f]
    have hbreaks : g.breaks? = f.breaks? := by rw [← breaks?_filter g, hg, breaks?_filter f]
    rw [hrun g, hrun f, ← flatten_chunks g, ← flatten_chunks f, hchunks, hbreaks]
  · obtain ⟨e, he⟩ := (foldlM_of_accepts h f.chunks).2 hlt
    refine ⟨?_, e, ?_, ?_⟩
    · rw [hcalls, List.length_take]
      omega
    · rw [houtcome, he]
      rfl
    · rw [hcalls, he]
  · have hall : calls = f.chunks := hcalls.trans (List.take_of_length_le (Nat.le_succ_of_le hle))
    obtain ⟨s, hs⟩ := (foldlM_of_accepts h f.chunks).1 hle
    refine ⟨?_, ?_, s, ?_, ?_⟩
    · rw [hall]
      exact hle
    · rw [hall, flatten_chunks]
    · rw [hall, hs]
    · rw [houtcome, List.take_of_length_le (Nat.le_succ_of_le hle), hs]
      cases f.breaks? <;> rfl

/-- A client that hesitates, delivers twice and goes away. -/
def dropped : Feed :=
  [.interrupted, .bytes [1, 2], .interrupted, .bytes [3], .broken "client went away"]

theorem chunks_dropped : dropped.chunks = [[1, 2], [3]] := by
  simp [dropped, chunks, cut, chunkSize]

theorem copy_delivers_front_dropped :
    let run (room : Nat) := (dropped.copy Content.brokenSource (recording limited) room).run.run []
    (1 < dropped.chunks.length ∧ ((run 1).2.take 1).flatten <+: [1, 2, 3] ∧ (run 1).2.length = 2 ∧
        ∃ e, (run 1).1 = .error e ∧ (run 1).2.foldlM limited 1 = .error e) ∧
      dropped.chunks.length ≤ 2 ∧ (run 2).2.flatten = [1, 2, 3] ∧
        (run 2).1 = .error (.storage (.io "client went away")) := by
  intro run
  have hcontent : dropped.content = [1, 2, 3] := rfl
  have hone : 1 < dropped.chunks.length := by simp [chunks_dropped]
  have htwo : dropped.chunks.length ≤ 2 := by simp [chunks_dropped]
  obtain ⟨-, hfront, -, hrefused, -⟩ := copy_delivers_front (accepts_limited 1) dropped
  obtain ⟨-, -, -, -, hall⟩ := copy_delivers_front (accepts_limited 2) dropped
  obtain ⟨-, hflatten, s, -, houtcome⟩ := hall htwo
  exact ⟨⟨hone, hcontent ▸ hfront, hrefused hone⟩, htwo, hcontent ▸ hflatten, houtcome⟩

end Sinks

end RecordService.Feed
