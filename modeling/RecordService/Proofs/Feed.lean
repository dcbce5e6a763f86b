import RecordService.Feed

/-!
# What a copy does next

A copy of a feed looks at its deliveries one by one. What it does with the first one, and that it goes
on with the others, can be said without the reads that it makes.

* `RecordService.Feed.copyFrom_bytes`: bytes that are ready are written one buffer at a time.
* `RecordService.Feed.weight_append`: how long a copy can go on.
-/

namespace RecordService.Feed

/-! ### Copies -/

section

variable {m : Type → Type} [Monad m] {σ ε : Type}
variable (failed : String → ε) (write : σ → Bytes → ExceptT ε m σ) (sink : σ) (total : Nat)

/-- What a copy does depends on the next read only, so two feeds with the same read may be exchanged
in front of a copy. -/
theorem copyFrom_congr {f g : Feed} (h : f.read chunkSize = g.read chunkSize) :
    copyFrom failed write sink total f = copyFrom failed write sink total g := by
  rw [copyFrom, copyFrom]
  split <;> split <;> simp_all

/-- An empty delivery is passed over, and does not end the copy. -/
theorem copyFrom_empty (f : Feed) :
    copyFrom failed write sink total (.bytes [] :: f) = copyFrom failed write sink total f :=
  copyFrom_congr failed write sink total rfl

/-- At the end of a feed, a copy gives its sink and how much it has written. -/
theorem copyFrom_nil : copyFrom failed write sink total [] = pure (sink, total) := by
  rw [copyFrom]
  rfl

/-- An interruption is no failure: the copy reads again. -/
theorem copyFrom_interrupted (f : Feed) :
    copyFrom failed write sink total (.interrupted :: f) = copyFrom failed write sink total f := by
  rw [copyFrom]
  rfl

/-- A feed that breaks ends the copy with a failure, and nothing is committed. -/
theorem copyFrom_broken (text : String) (f : Feed) :
    copyFrom failed write sink total (.broken text :: f) = throw (failed text) := by
  rw [copyFrom]
  rfl

/-- Bytes that are ready are written one buffer at a time. -/
theorem copyFrom_bytes {current : Bytes} (h : current ≠ []) (f : Feed) :
    copyFrom failed write sink total (.bytes current :: f) =
      write sink (current.take chunkSize) >>= fun s =>
        copyFrom failed write s (total + (current.take chunkSize).length)
          (.bytes (current.drop chunkSize) :: f) := by
  obtain ⟨b, bs, rfl⟩ := List.exists_cons_of_ne_nil h
  cases hdrop : (b :: bs).drop chunkSize with
  | nil =>
    have htake : (b :: bs).take chunkSize = b :: bs :=
      List.take_of_length_le (List.drop_eq_nil_iff.mp hdrop)
    have hread : read chunkSize (.bytes (b :: bs) :: f) = (.bytes (b :: bs), f) := by
      simp only [read, hdrop]
    rw [copyFrom, hread, htake]
    simp only [copyFrom_empty]
  | cons c cs =>
    have hread : read chunkSize (.bytes (b :: bs) :: f) =
        (.bytes ((b :: bs).take chunkSize), .bytes (c :: cs) :: f) := by
      simp only [read, hdrop]
    rw [copyFrom, hread]

end

/-! ### Weights -/

/-- Feeds weigh what their parts weigh together. -/
theorem weight_append (f g : Feed) : (f ++ g).weight = f.weight + g.weight := by
  induction f with
  | nil => simp [weight]
  | cons item f ih =>
    cases item with
    | bytes b => simp [weight, ih, Nat.add_assoc]
    | _ => simp [weight, ih, Nat.add_assoc]

/-- What is left of a feed does not weigh more. -/
theorem weight_le_of_suffix {f g : Feed} (h : f <:+ g) : f.weight ≤ g.weight := by
  obtain ⟨front, rfl⟩ := h
  rw [weight_append]
  exact Nat.le_add_left _ _

end RecordService.Feed
