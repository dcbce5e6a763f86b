import Mathlib.Data.List.Forall2

/-!
# Outcomes of what may fail

When a computation that is made of others succeeds: if all of its parts do.

* `RecordService.Outcome.bind_eq_ok_iff`, `RecordService.Outcome.map_eq_ok_iff`: two parts.
* `RecordService.Outcome.mapError_eq_ok_iff`: the same with errors of another type.
* `RecordService.Outcome.forM_eq_ok_iff`, `RecordService.Outcome.exists_mapM`,
  `RecordService.Outcome.mapM_eq_ok_iff`: the elements of a list.
* `RecordService.Outcome.exists_foldlM`, `RecordService.Outcome.foldlM_of_first_fault`: steps along a
  list, where some elements are good and the others have a fault.
-/

namespace RecordService.Outcome

variable {ε α β : Type}

/-- Two steps succeed exactly if the first does, and the second does on its result. -/
theorem bind_eq_ok_iff {x : Except ε α} {f : α → Except ε β} {b : β} :
    x.bind f = .ok b ↔ ∃ a, x = .ok a ∧ f a = .ok b := by
  cases x with
  | error e => simp [Except.bind]
  | ok a => simp [Except.bind]

/-- Mapping a result changes no failure into a success, or the other way round. -/
theorem map_eq_ok_iff {x : Except ε α} {f : α → β} {b : β} :
    x.map f = .ok b ↔ ∃ a, x = .ok a ∧ f a = b := by
  cases x with
  | error e => simp [Except.map]
  | ok a => simp [Except.map]

theorem map_eq_error_iff {x : Except ε α} {f : α → β} {e : ε} : x.map f = .error e ↔ x = .error e := by
  cases x with
  | error e => simp [Except.map]
  | ok a => simp [Except.map]

theorem mapError_eq_ok_iff {δ : Type} {x : Except ε α} {f : ε → δ} {a : α} :
    x.mapError f = .ok a ↔ x = .ok a := by
  cases x with
  | error e => simp [Except.mapError]
  | ok a => simp [Except.mapError]

theorem forM_eq_ok_iff {f : α → Except ε Unit} {l : List α} :
    forM l f = .ok () ↔ ∀ a ∈ l, f a = .ok () := by
  induction l with
  | nil => simp [pure, Except.pure]
  | cons a l ih =>
    rw [List.forM_cons, List.forall_mem_cons, ← ih]
    constructor
    · intro h
      obtain ⟨u, ha, hl⟩ := bind_eq_ok_iff.mp h
      exact ⟨ha, hl⟩
    · rintro ⟨ha, hl⟩
      exact bind_eq_ok_iff.mpr ⟨(), ha, hl⟩

theorem exists_bind {x : Except ε α} {f : α → Except ε β} (hx : ∃ a, x = .ok a)
    (hf : ∀ a, ∃ b, f a = .ok b) : ∃ b, x >>= f = .ok b := by
  obtain ⟨a, rfl⟩ := hx
  exact hf a

theorem exists_mapM {f : α → Except ε β} {l : List α} (h : ∀ a ∈ l, ∃ b, f a = .ok b) :
    ∃ bs, l.mapM f = .ok bs := by
  induction l with
  | nil => exact ⟨[], rfl⟩
  | cons a l ih =>
    obtain ⟨ha, hl⟩ := List.forall_mem_cons.mp h
    rw [List.mapM_cons]
    exact exists_bind ha fun b => exists_bind (ih hl) fun bs => ⟨b :: bs, rfl⟩

theorem forall₂_of_mapM {f : α → Except ε β} {l : List α} {bs : List β} (h : l.mapM f = .ok bs) :
    List.Forall₂ (fun a b => f a = .ok b) l bs := by
  induction l generalizing bs with
  | nil =>
    obtain rfl : [] = bs := Except.ok.inj h
    exact .nil
  | cons a l ih =>
    rw [List.mapM_cons] at h
    obtain ⟨b, ha, h⟩ := bind_eq_ok_iff.mp h
    obtain ⟨cs, hl, h⟩ := bind_eq_ok_iff.mp h
    obtain rfl := Except.ok.inj h
    exact .cons ha (ih hl)

theorem mapM_eq_ok_iff {f : α → Except ε β} {l : List α} {bs : List β} :
    l.mapM f = .ok bs ↔ List.Forall₂ (fun a b => f a = .ok b) l bs := by
  refine ⟨forall₂_of_mapM, fun h => ?_⟩
  induction h with
  | nil => rfl
  | cons ha _ ih =>
    rw [List.mapM_cons, ha, ih]
    rfl

/-! ### Steps along a list -/

section Steps

variable {σ : Type} {step : σ → α → Except ε σ} {Inv : σ → Prop} {Good : α → Prop}
  {Fault : α → ε → Prop} {l before after : List α} {s : σ} {a : α} {e : ε}

/-- Along good elements every step goes on. -/
theorem exists_foldlM (hgood : ∀ s a, Inv s → Good a → ∃ s', step s a = .ok s' ∧ Inv s')
    (hs : Inv s) (hl : ∀ a ∈ l, Good a) : ∃ s', l.foldlM step s = .ok s' ∧ Inv s' := by
  induction l generalizing s with
  | nil => exact ⟨s, rfl, hs⟩
  | cons a l ih =>
    obtain ⟨ha, hl⟩ := List.forall_mem_cons.mp hl
    obtain ⟨next, hnext, hinv⟩ := hgood s a hs ha
    rw [List.foldlM_cons, hnext]
    exact ih hinv hl

/-- **The first element with a fault decides**, whatever comes after it. -/
theorem foldlM_of_first_fault (hgood : ∀ s a, Inv s → Good a → ∃ s', step s a = .ok s' ∧ Inv s')
    (hfault : ∀ s a e, Inv s → Fault a e → step s a = .error e) (hs : Inv s)
    (hbefore : ∀ b ∈ before, Good b) (ha : Fault a e) :
    (before ++ a :: after).foldlM step s = .error e := by
  obtain ⟨s', hrun, hs'⟩ := exists_foldlM hgood hs hbefore
  rw [List.foldlM_append, hrun]
  change (a :: after).foldlM step s' = _
  rw [List.foldlM_cons, hfault s' a e hs' ha]
  rfl

/-- All elements are good, or one is the first with a fault. -/
theorem good_or_first_fault (h : ∀ a, Good a ∨ ∃ e, Fault a e) (l : List α) :
    (∀ a ∈ l, Good a) ∨ ∃ before a after e, l = before ++ a :: after ∧
      (∀ b ∈ before, Good b) ∧ Fault a e := by
  induction l with
  | nil => exact .inl (by simp)
  | cons a l ih =>
    rcases h a with hgood | ⟨e, hfault⟩
    · rcases ih with hall | ⟨before, b, after, e, rfl, hbefore, hb⟩
      · exact .inl (List.forall_mem_cons.mpr ⟨hgood, hall⟩)
      · exact .inr ⟨a :: before, b, after, e, rfl, List.forall_mem_cons.mpr ⟨hgood, hbefore⟩, hb⟩
    · exact .inr ⟨[], a, l, e, rfl, by simp, hfault⟩

end Steps

end RecordService.Outcome
