import Mathlib.Data.Nat.Find
import RecordService.Feed
import RecordService.Proofs.Reads

/-!
# Reading from a queue

A body arrives chunk by chunk, and the copy that stores it reads the chunks from a queue, with
buffers of any size. A chunk may be empty, which says nothing, whereas a read that gives no bytes
ends the copy, and what was read so far becomes the content. So a read takes chunks from the queue
until there is a byte in one (`RecordService.Http.Inlet.read`). The copy of a store is written for a
feed instead, and it makes no difference (`RecordService.Http.Inlet.read_eq`).

Both give the bytes of the chunks in their order, and an error or the end of the queue when all bytes
in front of it were given, neither earlier nor later (`RecordService.Http.Inlet.reads_in_order`).

* `RecordService.Feed.front`, `RecordService.Feed.stop`, `RecordService.Feed.behind`: a feed in front
  of its first error, the error, and the feed behind it.
* `RecordService.Http.Inlet`: the end of a queue that a copy reads from.
-/

namespace RecordService

/-- The bytes that a read gives. -/
def ReadResult.data : ReadResult → Bytes
  | bytes b => b
  | _ => []

namespace Feed

/-! ### Chunks and errors -/

/-- The bytes of all chunks. -/
def data : Feed → Bytes
  | [] => []
  | .bytes b :: f => b ++ data f
  | _ :: f => data f

/-- The bytes of the chunks up to the first error, or up to the end. -/
def front : Feed → Bytes
  | .bytes b :: f => b ++ front f
  | _ => []

/-- What stands behind these chunks: the first error, or the end. -/
def stop : Feed → ReadResult
  | [] => .ended
  | .bytes _ :: f => stop f
  | .interrupted :: _ => .interrupted
  | .broken text :: _ => .broken text

/-- What comes behind the first error. -/
def behind : Feed → Feed
  | [] => []
  | .bytes _ :: f => behind f
  | _ :: f => f

section

variable {room : Nat} {f : Feed}

/-- A read neither loses nor adds a byte. -/
theorem data_read (room : Nat) (f : Feed) :
    (f.read room).1.data ++ (f.read room).2.data = f.data := by
  fun_induction read room f with
  | case1 => rfl
  | case2 f ih => exact ih
  | case3 b bs f hd => rfl
  | case4 b bs f c cs hd =>
    simp only [ReadResult.data, data]
    rw [← hd, ← List.append_assoc, List.take_append_drop]
  | case5 f => rfl
  | case6 text f => rfl

/-- **A read in front of an error or of the end** gives it, however many empty chunks there are
before it. -/
theorem read_of_front_eq_nil (h : f.front = []) : f.read room = (f.stop, f.behind) := by
  fun_induction read room f with
  | case1 => rfl
  | case2 f ih => exact ih h
  | case3 b bs f hd => simp [front] at h
  | case4 b bs f c cs hd => simp [front] at h
  | case5 f => rfl
  | case6 text f => rfl

/-- **A read in front of bytes** gives some of them. It needs room for at least one byte, since a
read without room gives nothing and would look like the end. -/
theorem read_of_front_ne_nil (hroom : 0 < room) (h : f.front ≠ []) :
    ∃ b, (f.read room).1 = .bytes b ∧ 0 < b.length ∧ b.length ≤ room ∧
      f.front = b ++ (f.read room).2.front ∧ (f.read room).2.stop = f.stop ∧
      (f.read room).2.behind = f.behind := by
  fun_induction read room f with
  | case1 => simp [front] at h
  | case2 f ih => exact ih h
  | case3 b bs f hd =>
    exact ⟨b :: bs, rfl, Nat.succ_pos _, List.drop_eq_nil_iff.mp hd, rfl, rfl, rfl⟩
  | case4 b bs f c cs hd =>
    refine ⟨_, rfl, ?_, List.length_take_le _ _, ?_, rfl, rfl⟩
    · rw [List.length_take, List.length_cons]
      omega
    · simp only [front]
      rw [← hd, ← List.append_assoc, List.take_append_drop]
  | case5 f => simp [front] at h
  | case6 text f => simp [front] at h

/-- What says that there is nothing more leaves nothing, so a reader that stops there has not missed
anything. -/
theorem read_of_ended (h : (f.read room).1 = .ended) : (f.read room).2 = [] := by
  fun_induction read room f with
  | case1 => rfl
  | case2 f ih => exact ih h
  | case3 => simp at h
  | case4 => simp at h
  | case5 => simp at h
  | case6 => simp at h

/-- What stands behind the bytes is no bytes. -/
theorem stop_ne_bytes (f : Feed) (b : Bytes) : f.stop ≠ .bytes b := by
  fun_induction stop f with
  | case1 => simp
  | case2 c f ih => exact ih
  | case3 => simp
  | case4 => simp

end

/-! ### Reads one after the other -/

section

variable (items : Feed) (rooms : Nat → Nat)

/-- What the reads before read number `k` give. -/
def delivered (k : Nat) : Bytes := Reads.upTo (fun i => (Reads.result read rooms items i).data) k

/-- **Nothing is lost**: what was read and what is left are all chunks, after any number of reads.
-/
theorem delivered_append_data (k : Nat) :
    items.delivered rooms k ++ (Reads.after read rooms items k).data = items.data := by
  induction k with
  | zero => rfl
  | succ k ih =>
    rw [← ih, ← data_read (rooms k) (Reads.after read rooms items k), ← List.append_assoc, delivered,
      Reads.upTo_succ]
    rfl

/-- The end stays the end, as nothing is left behind it. -/
theorem result_of_ended {k m : Nat} (h : Reads.result read rooms items k = .ended) (hm : k ≤ m) :
    Reads.result read rooms items m = .ended := by
  rcases Nat.eq_or_lt_of_le hm with rfl | hlt
  · exact h
  · have hnone : Reads.after read rooms items (k + 1) = [] := read_of_ended h
    have hafter : Reads.after read rooms items m = [] := by
      refine Reads.stays (P := (· = [])) ?_ rooms hnone hlt
      rintro room _ rfl
      rfl
    rw [Reads.result, hafter]
    rfl

/-- At the end everything was given. This is the direction that a copy relies on: it commits when it
is told that there is nothing more. -/
theorem delivered_of_ended {k : Nat} (h : Reads.result read rooms items k = .ended) :
    items.delivered rooms k = items.data := by
  have hnone : Reads.after read rooms items (k + 1) = [] := read_of_ended h
  have hall := items.delivered_append_data rooms (k + 1)
  rw [hnone, delivered, Reads.upTo_succ, h] at hall
  change (items.delivered rooms k ++ []) ++ [] = items.data at hall
  rwa [List.append_nil, List.append_nil] at hall

variable {rooms} (hrooms : ∀ k, 0 < rooms k)

include hrooms

/-- **In front of an error or of the end** reads give the bytes there, and nothing but bytes. Every
one of them gives at least one, which bounds the number of such reads. -/
theorem delivered_append_front {k : Nat}
    (h : ∀ i < k, (Reads.after read rooms items i).front ≠ []) :
    items.delivered rooms k ++ (Reads.after read rooms items k).front = items.front ∧
      (Reads.after read rooms items k).stop = items.stop ∧
      (Reads.after read rooms items k).behind = items.behind ∧
      k ≤ (items.delivered rooms k).length := by
  induction k with
  | zero => exact ⟨rfl, rfl, rfl, Nat.zero_le _⟩
  | succ k ih =>
    obtain ⟨hfront, hstop, hbehind, hk⟩ := ih fun i hi => h i (Nat.lt_succ_of_lt hi)
    obtain ⟨b, hread, hb, -, hrest, hstop', hbehind'⟩ :=
      read_of_front_ne_nil (hrooms k) (h k (Nat.lt_succ_self k))
    have hdelivered : items.delivered rooms (k + 1) = items.delivered rooms k ++ b := by
      rw [delivered, Reads.upTo_succ, Reads.result, hread]
      rfl
    refine ⟨?_, hstop'.trans hstop, hbehind'.trans hbehind, ?_⟩
    · rw [hdelivered, List.append_assoc, ← hfront, hrest]
      rfl
    · rw [hdelivered, List.length_append]
      omega

/-- Some read stands in front of an error or of the end, since there are only so many bytes to give
before it. -/
theorem exists_front_eq_nil : ∃ n, (Reads.after read rooms items n).front = [] := by
  by_contra hnone
  have h := items.delivered_append_front hrooms (k := items.front.length + 1)
    fun i _ hi => hnone ⟨i, hi⟩
  have hlength := congrArg List.length h.1
  rw [List.length_append] at hlength
  omega

/-- **Reads of a feed give what it delivers**, up to its first error or its end, and this when all
bytes in front of it were given, and then what is behind it. -/
theorem exists_reads_front :
    ∃ n, (∀ k < n, ∃ b, Reads.result read rooms items k = .bytes b ∧ 0 < b.length ∧
        b.length ≤ rooms k) ∧
      items.delivered rooms n = items.front ∧ Reads.result read rooms items n = items.stop ∧
      (∀ k ≤ n, Reads.result read rooms items k = items.stop ↔
        items.delivered rooms k = items.front) ∧
      ∀ k, Reads.result read rooms items (n + 1 + k) =
        Reads.result read (fun i => rooms (n + 1 + i)) items.behind k := by
  -- the first read that does not stand in front of bytes
  let n := Nat.find (items.exists_front_eq_nil hrooms)
  have hend : (Reads.after read rooms items n).front = [] :=
    Nat.find_spec (items.exists_front_eq_nil hrooms)
  have hflows : ∀ i < n, (Reads.after read rooms items i).front ≠ [] :=
    fun i hi => Nat.find_min (items.exists_front_eq_nil hrooms) hi
  obtain ⟨hfront, hstop, hbehind, -⟩ := items.delivered_append_front hrooms hflows
  have hread : (Reads.after read rooms items n).read (rooms n) =
      ((Reads.after read rooms items n).stop, (Reads.after read rooms items n).behind) :=
    read_of_front_eq_nil hend
  have hbytes : ∀ k < n, ∃ b, Reads.result read rooms items k = .bytes b ∧ 0 < b.length ∧
      b.length ≤ rooms k := by
    intro k hk
    obtain ⟨b, hb, hpos, hle, -⟩ := read_of_front_ne_nil (hrooms k) (hflows k hk)
    exact ⟨b, hb, hpos, hle⟩
  have hdelivered : items.delivered rooms n = items.front := by
    rw [← hfront, hend, List.append_nil]
  have hresult : Reads.result read rooms items n = items.stop := by
    rw [Reads.result, hread, hstop]
  refine ⟨n, hbytes, hdelivered, hresult, fun k hk => ?_, fun k => ?_⟩
  · rcases Nat.eq_or_lt_of_le hk with rfl | hlt
    · exact iff_of_true hresult hdelivered
    · refine iff_of_false (fun hstops => ?_) fun hall => ?_
      · obtain ⟨b, hb, -⟩ := hbytes k hlt
        exact stop_ne_bytes items b (hstops.symm.trans hb)
      · obtain ⟨hrest, -⟩ := items.delivered_append_front hrooms
          fun i hi => hflows i (hi.trans hlt)
        rw [hall] at hrest
        exact hflows k hlt (List.append_right_eq_self.mp hrest)
  · rw [Reads.result_add, Reads.after, hread, hbehind]

end

end Feed

/-! ### The end of a queue -/

namespace Http

/-- The end of a queue that a copy reads from: what is still going to come, and what a read left of
the last chunk. -/
structure Inlet where
  queue : Feed
  current : Bytes := []

namespace Inlet

/-- Hands out at most `room` bytes of a chunk. When none are left, the next one is taken from the
queue. -/
def readFrom (room : Nat) (current : Bytes) (queue : Feed) : ReadResult × Inlet :=
  if current = [] then
    match queue with
    | [] => (.ended, ⟨[], []⟩)
    | .bytes chunk :: queue => readFrom room chunk queue
    | .interrupted :: queue => (.interrupted, ⟨queue, []⟩)
    | .broken text :: queue => (.broken text, ⟨queue, []⟩)
  else
    let n := min room current.length
    (.bytes (current.take n), ⟨queue, current.drop n⟩)

/-- Reads at most `room` bytes. -/
def read (room : Nat) (i : Inlet) : ReadResult × Inlet := readFrom room i.current i.queue

/-- The feed that is left. -/
def feed (i : Inlet) : Feed := if i.current = [] then i.queue else .bytes i.current :: i.queue

/-- What is handed out of a chunk is what a feed gives that has the chunk ready. The queue keeps the
rest of a chunk apart, the feed puts it back in front. -/
theorem readFrom_eq (room : Nat) (current : Bytes) (queue : Feed) :
    (readFrom room current queue).1 = (Feed.read room (.bytes current :: queue)).1 ∧
      (readFrom room current queue).2.feed = (Feed.read room (.bytes current :: queue)).2 := by
  fun_induction readFrom room current queue with
  | case1 => exact ⟨rfl, rfl⟩
  | case2 chunk queue ih => exact ih
  | case3 queue => exact ⟨rfl, rfl⟩
  | case4 text queue => exact ⟨rfl, rfl⟩
  | case5 queue current hcurrent n =>
    have htake : current.take n = current.take room := List.take_eq_take_min.symm
    have hdrop : current.drop n = current.drop room := List.drop_eq_drop_min.symm
    rw [htake, hdrop]
    obtain ⟨b, bs, rfl⟩ := List.exists_cons_of_ne_nil hcurrent
    rw [Feed.read, feed]
    split
    · next hnone => simp [hnone, List.take_of_length_le (List.drop_eq_nil_iff.mp hnone)]
    · next c cs hsome => simp [hsome]

/-- **A queue is read as the feed of its chunks.** An empty chunk is skipped on both sides. -/
theorem read_eq (room : Nat) (i : Inlet) :
    (i.read room).1 = (i.feed.read room).1 ∧ (i.read room).2.feed = (i.feed.read room).2 := by
  have h := readFrom_eq room i.current i.queue
  by_cases hcurrent : i.current = []
  · rw [feed, if_pos hcurrent, read, hcurrent]
    rwa [hcurrent] at h
  · rwa [feed, if_neg hcurrent]

/-- Reads of a queue give what reads of a feed give, by one step that both take alike. -/
theorem result_eq (items : Feed) (rooms : Nat → Nat) (k : Nat) :
    Reads.result read rooms ⟨items, []⟩ k = Reads.result Feed.read rooms items k :=
  (Reads.alike (R := fun i f => i.feed = f) (fun room i _ h => h ▸ read_eq room i) rooms rfl k).1

/-- **No empty chunk is the end of a queue.** Whatever comes from the queue and whatever the sizes of
the reads, every read gives what a read of the feed gives. A read says that there is nothing more
only when all chunks were given in full, and then all reads after it say so. The first reads give some
bytes each, together the chunks up to the first error, or up to the end if there is none. The read
behind them gives this error or this end. No read before it does, since something is left to give
before each of those. The reads after it are those of what comes behind the error. -/
theorem reads_in_order (items : Feed) {rooms : Nat → Nat} (hrooms : ∀ k, 0 < rooms k) :
    let result := Reads.result read rooms ⟨items, []⟩
    let delivered := Reads.upTo fun k => (result k).data
    (∀ k, result k = Reads.result Feed.read rooms items k) ∧
      (∀ k, result k = .ended → delivered k = items.data ∧ ∀ m, k ≤ m → result m = .ended) ∧
      ∃ n, (∀ k < n, ∃ b, result k = .bytes b ∧ 0 < b.length ∧ b.length ≤ rooms k) ∧
        delivered n = items.front ∧ result n = items.stop ∧
        (∀ k ≤ n, result k = items.stop ↔ delivered k = items.front) ∧
        ∀ k, result (n + 1 + k) =
          Reads.result read (fun i => rooms (n + 1 + i)) ⟨items.behind, []⟩ k := by
  intro result delivered
  have hresult : result = Reads.result Feed.read rooms items := funext (result_eq items rooms)
  have hdelivered : delivered = items.delivered rooms :=
    congrArg (fun results => Reads.upTo fun k => (results k).data) hresult
  refine ⟨result_eq items rooms, fun k hk => ?_, ?_⟩
  · rw [hresult] at hk ⊢
    rw [hdelivered]
    exact ⟨items.delivered_of_ended rooms hk, fun m hm => items.result_of_ended rooms hk hm⟩
  · obtain ⟨n, hbytes, hfront, hstop, hiff, hbehind⟩ := items.exists_reads_front hrooms
    rw [hresult, hdelivered]
    exact ⟨n, hbytes, hfront, hstop, hiff, fun k => (hbehind k).trans (result_eq _ _ k).symm⟩

/-- A queue with an empty chunk between two others, and with an error at its end. -/
theorem reads_in_order_of_broken :
    let items : Feed := [.bytes [1, 2], .bytes [], .bytes [3], .broken "cut"]
    let rooms : Nat → Nat := fun _ => 2
    let result := Reads.result read rooms ⟨items, []⟩
    let delivered := Reads.upTo fun k => (result k).data
    (∀ k, 0 < rooms k) ∧
      ∃ n, delivered n = [1, 2, 3] ∧ result n = .broken "cut" ∧ result (n + 1) = .ended ∧
        ∀ k ≤ n, result k = .broken "cut" ↔ delivered k = [1, 2, 3] := by
  intro items rooms result delivered
  have hrooms : ∀ k, 0 < rooms k := fun _ => Nat.zero_lt_two
  obtain ⟨-, -, n, -, hfront, hstop, hiff, hbehind⟩ := reads_in_order items hrooms
  exact ⟨hrooms, n, hfront, hstop, hbehind 0, hiff⟩

end Inlet

end Http

end RecordService
