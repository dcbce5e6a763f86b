import Mathlib.Data.List.Infix

/-!
# Reads one after the other

A source is read again and again, every time with room for some bytes. A read gives a result and
leaves a source, so that the sizes of the reads decide all results.

* `RecordService.Reads.after`: the source that some reads leave.
* `RecordService.Reads.result`: what a read gives.
* `RecordService.Reads.upTo`: what the reads before a read bring.
* `RecordService.Reads.alike`: sources that go on alike.
* `RecordService.Reads.stays`, `RecordService.Reads.result_add`: what comes behind some reads.
-/

namespace RecordService.Reads

variable {σ τ α β γ : Type}

section

variable (read : Nat → σ → α × σ) (rooms : Nat → Nat) (s : σ)

/-- The source that the first reads leave, where read number `k` has room for `rooms k` bytes. -/
def after : Nat → σ
  | 0 => s
  | k + 1 => (read (rooms k) (after k)).2

/-- What read number `k` gives. -/
def result (k : Nat) : α := (read (rooms k) (after read rooms s k)).1

end

/-- What all reads before read number `k` bring. -/
def upTo (brings : Nat → List γ) (k : Nat) : List γ := (List.range k).flatMap brings

@[simp] theorem upTo_zero (brings : Nat → List γ) : upTo brings 0 = [] := rfl

/-- One more read brings what it brings behind all before it. -/
theorem upTo_succ (brings : Nat → List γ) (k : Nat) :
    upTo brings (k + 1) = upTo brings k ++ brings k := by
  simp [upTo, List.range_succ]

/-- **Sources that are read alike go on alike.** The relation holds of the sources from read to
read, and of the results at each of them, so that one step is all that has to be compared. -/
theorem alike {read : Nat → σ → α × σ} {other : Nat → τ → β × τ} {R : σ → τ → Prop}
    {Q : α → β → Prop}
    (h : ∀ room s t, R s t → Q (read room s).1 (other room t).1 ∧ R (read room s).2 (other room t).2)
    (rooms : Nat → Nat) {s : σ} {t : τ} (hst : R s t) (k : Nat) :
    Q (result read rooms s k) (result other rooms t k) ∧
      R (after read rooms s k) (after other rooms t k) := by
  have hafter : R (after read rooms s k) (after other rooms t k) := by
    induction k with
    | zero => exact hst
    | succ k ih => exact (h _ _ _ ih).2
  exact ⟨(h _ _ _ hafter).1, hafter⟩

/-- What every read keeps holds from then on. -/
theorem stays {read : Nat → σ → α × σ} {P : σ → Prop} (h : ∀ room s, P s → P (read room s).2)
    (rooms : Nat → Nat) {s : σ} {k m : Nat} (hk : P (after read rooms s k)) (hm : k ≤ m) :
    P (after read rooms s m) := by
  induction m, hm using Nat.le_induction with
  | base => exact hk
  | succ m _ ih => exact h _ _ ih

/-- Later reads are the first ones of the source that is left, with the rooms that are still to
come. -/
theorem result_add (read : Nat → σ → α × σ) (rooms : Nat → Nat) (s : σ) (n k : Nat) :
    result read rooms s (n + k) =
      result read (fun i => rooms (n + i)) (after read rooms s n) k := by
  have hafter : after read rooms s (n + k) =
      after read (fun i => rooms (n + i)) (after read rooms s n) k := by
    induction k with
    | zero => rfl
    | succ k ih => rw [← Nat.add_assoc, after, after, ih]
  rw [result, result, hafter]

end RecordService.Reads
