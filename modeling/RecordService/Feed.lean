import RecordService.Bytes

/-!
# Feeds

Binary content arrives in pieces of any size. In between, a read may be interrupted, which means
nothing, or the source may break, which ends it.

* `RecordService.Feed`: what a source is going to deliver.
* `RecordService.Feed.read`: one read into a buffer.
* `RecordService.Feed.copy`: all of a feed, passed on one buffer at a time.
-/

namespace RecordService

/-- What a source does next. -/
inductive Delivery where
  /-- It has bytes ready. -/
  | bytes (b : Bytes)
  /-- The read has to be tried again. -/
  | interrupted
  /-- It breaks. -/
  | broken (text : String)
deriving DecidableEq

/-- What a source is going to do, up to its end. -/
abbrev Feed : Type := List Delivery

/-- What one read gives. -/
inductive ReadResult where
  /-- Some bytes, at least one. -/
  | bytes (b : Bytes)
  | interrupted
  | broken (text : String)
  /-- There is nothing more. -/
  | ended
deriving DecidableEq

namespace Feed

/-- One read of at most `room` bytes. Bytes that are ready and do not fit stay for the next read,
and an empty delivery is no end. -/
def read (room : Nat) : Feed → ReadResult × Feed
  | [] => (.ended, [])
  | .bytes [] :: f => read room f
  | .bytes (b :: bs) :: f =>
    match (b :: bs).drop room with
    | [] => (.bytes (b :: bs), f)
    | c :: cs => (.bytes ((b :: bs).take room), .bytes (c :: cs) :: f)
  | .interrupted :: f => (.interrupted, f)
  | .broken text :: f => (.broken text, f)

/-- A bound on the number of reads that a feed has left. -/
def weight : Feed → Nat
  | [] => 0
  | .bytes b :: f => b.length + 1 + weight f
  | _ :: f => 1 + weight f

/-- A read that does not find the end makes a feed lighter, which is why copies come to an end. -/
theorem weight_read {room : Nat} (hroom : 0 < room) (f : Feed) (h : (f.read room).1 ≠ .ended) :
    weight (f.read room).2 < weight f := by
  fun_induction read room f with
  | case1 => simp at h
  | case2 f ih =>
    have := ih h
    simp only [weight, List.length_nil]
    omega
  | case3 b bs f hd => simp only [weight, List.length_cons]; omega
  | case4 b bs f c cs hd =>
    have := congrArg List.length hd
    simp only [weight, List.length_drop, List.length_cons] at this ⊢
    omega
  | case5 f => simp [weight]
  | case6 text f => simp [weight]

/-- The size of the buffer of every copy. -/
def chunkSize : Nat := 8192

/-- Passes a feed on to a sink, one buffer at a time, and counts the bytes from `total` on. An
interrupted read is tried again. A broken source fails with `failed`, and a sink that refuses a
chunk with its own error. -/
def copyFrom {m : Type → Type} [Monad m] {σ ε : Type} (failed : String → ε)
    (write : σ → Bytes → ExceptT ε m σ) (sink : σ) (total : Nat) (f : Feed) :
    ExceptT ε m (σ × Nat) :=
  match _h : f.read chunkSize with
  | (.ended, _) => return (sink, total)
  | (.broken text, _) => throw (failed text)
  | (.interrupted, rest) => copyFrom failed write sink total rest
  | (.bytes b, rest) => do copyFrom failed write (← write sink b) (total + b.length) rest
termination_by weight f
decreasing_by
  all_goals
    have := weight_read (show 0 < chunkSize by decide) f (by simp [_h])
    simpa [_h] using this

/-- Passes a whole feed on to a sink, and gives the sink and the number of bytes. -/
def copy {m : Type → Type} [Monad m] {σ ε : Type} (failed : String → ε)
    (write : σ → Bytes → ExceptT ε m σ) (sink : σ) (f : Feed) : ExceptT ε m (σ × Nat) :=
  copyFrom failed write sink 0 f

/-- The feed that delivers `content` in pieces of `size` bytes. -/
def pieces (size : Nat) (content : Bytes) : Feed :=
  if _h : content = [] ∨ size = 0 then []
  else .bytes (content.take size) :: pieces size (content.drop size)
termination_by content.length
decreasing_by
  have : content.length ≠ 0 := by simpa using (not_or.mp _h).1
  simp only [List.length_drop]
  omega

end Feed

end RecordService
