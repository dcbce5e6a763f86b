import Mathlib.Data.List.Forall2
import Mathlib.Data.List.Infix
import Mathlib.Data.List.Nodup
import Mathlib.Data.List.Perm.Basic
import Mathlib.Data.List.TakeWhile

/-!
# Facts about lists

What the store, the parser and the service need to know of lists, whatever they are lists of. None
of it mentions a record, a token or a request.

* `RecordService.Lists.takeWhile_dropWhile_append`: where a run of elements ends.
* `RecordService.Lists.exists_infix_of_forall₂`: parts of lists that match element by element.
* `RecordService.Lists.pairwise_mergeSort`: sorting is stable, so an order that a list has already
  decides between elements that compare as equal.
* `RecordService.Lists.lookup_eq_some_iff_of_nodup`: what is told apart by its name is found by it.
* `RecordService.Lists.eq_of_ordered`: entries in the order of their names.
-/

namespace RecordService.Lists

variable {α β : Type}

/-! ### Runs -/

section

variable {s r : List α} {p : α → Bool}

/-- A run of elements of a class ends with the elements that follow it, the first of which is not of
the class. This is what makes it safe to cut a text that was put together back into its parts. -/
theorem takeWhile_dropWhile_append (hs : ∀ c ∈ s, p c) (hr : ∀ c ∈ r.head?, p c = false) :
    (s ++ r).takeWhile p = s ∧ (s ++ r).dropWhile p = r := by
  rw [List.takeWhile_append_of_pos hs, List.dropWhile_append_of_pos hs]
  cases r with
  | nil => simp
  | cons c r => simp [hr c rfl]

/-- What a run leaves begins with no element of its class. -/
theorem head?_dropWhile : ∀ c ∈ (s.dropWhile p).head?, p c = false := by
  intro c hc
  have hnot := List.head?_dropWhile_not p s
  rwa [Option.mem_def.mp hc] at hnot

end

/-! ### Lists that match -/

section

variable {R : α → β → Prop} {as : List α} {bs cs : List β}

/-- To a part of the one list belongs the part of the other at the same place. -/
theorem exists_infix_of_forall₂ (h : List.Forall₂ R as bs) (hcs : cs <:+: bs) :
    ∃ ds, ds <:+: as ∧ List.Forall₂ R ds cs := by
  obtain ⟨before, after, rfl⟩ := hcs
  have htaken := List.forall₂_take_append as (before ++ cs) after h
  have hdropped := List.forall₂_drop_append _ before cs htaken
  exact ⟨_, (List.drop_suffix _ _).isInfix.trans (List.take_prefix _ as).isInfix, hdropped⟩

/-- A single element is such a part. -/
theorem exists_mem_of_forall₂ (h : List.Forall₂ R as bs) {b : β} (hb : b ∈ bs) :
    ∃ a ∈ as, R a b := by
  obtain ⟨ds, hds, h⟩ := exists_infix_of_forall₂ h ((List.singleton_infix_iff b bs).mpr hb)
  cases h with
  | cons hr hrest =>
    cases hrest
    exact ⟨_, (List.singleton_infix_iff _ as).mp hds, hr⟩

end

/-! ### Sorting -/

section

variable {l : List α}

/-- **Sorting is stable**: what compares as equal stays in its order. The elements that compare as
equal to a given one are the same list before and after, so two of them that were in the relation
`R`, the one in front of the other, still are. -/
theorem pairwise_mergeSort {cmp : α → α → Ordering} [Std.TransCmp cmp] {R : α → α → Prop}
    (hl : l.Pairwise R) :
    (l.mergeSort fun a b => (cmp a b).isLE).Pairwise fun a b =>
      cmp a b = .lt ∨ cmp a b = .eq ∧ R a b := by
  have htrans : ∀ a b c, (cmp a b).isLE → (cmp b c).isLE → (cmp a c).isLE := fun _ _ _ =>
    Std.TransCmp.isLE_trans
  have htotal : ∀ a b, ((cmp a b).isLE || (cmp b a).isLE) = true := by
    intro a b
    have hswap : cmp a b = (cmp b a).swap := Std.OrientedCmp.eq_swap
    rw [hswap]
    cases cmp b a <;> rfl
  -- the elements that compare as equal to one of them are the same before and after
  have hclass : ∀ a, (l.mergeSort fun a b => (cmp a b).isLE).filter (cmp a · == .eq) =
      l.filter (cmp a · == .eq) := by
    intro a
    have hpairwise : (l.filter (cmp a · == .eq)).Pairwise fun b c => (cmp b c).isLE := by
      refine List.pairwise_of_forall_mem_list fun b hb c hc => ?_
      have hb : cmp a b = .eq := by simpa using (List.mem_filter.mp hb).2
      have hc : cmp a c = .eq := by simpa using (List.mem_filter.mp hc).2
      rw [Std.TransCmp.eq_trans (Std.OrientedCmp.eq_symm hb) hc]
      rfl
    have hsublist := List.sublist_mergeSort htrans htotal hpairwise List.filter_sublist
    have hfiltered := hsublist.filter (cmp a · == .eq)
    rw [List.filter_filter] at hfiltered
    simp only [Bool.and_self] at hfiltered
    refine (hfiltered.eq_of_length ?_).symm
    exact ((List.mergeSort_perm l _).filter _).length_eq.symm
  rw [List.pairwise_iff_forall_sublist]
  intro a b hab
  have hle := List.pairwise_iff_forall_sublist.mp (List.pairwise_mergeSort htrans htotal l) hab
  rcases hcmp : cmp a b with _ | _ | _
  · exact .inl rfl
  · have hself : cmp a a = .eq := Std.ReflCmp.compare_self
    have hfiltered := hab.filter (cmp a · == .eq)
    rw [hclass] at hfiltered
    have hab : [a, b].Sublist l := by
      simpa [hself, hcmp] using hfiltered.trans List.filter_sublist
    exact .inr ⟨rfl, List.pairwise_iff_forall_sublist.mp hl hab⟩
  · simp [hcmp] at hle

/-- Sorting depends on the comparison of the elements alone, so a comparison may be exchanged for
one that agrees with it on them and has better laws elsewhere. -/
theorem mergeSort_congr {le le' : α → α → Bool} (h : ∀ a ∈ l, ∀ b ∈ l, le a b = le' a b) :
    l.mergeSort le = l.mergeSort le' := by
  simpa using List.map_mergeSort (f := id) h

end

/-! ### Looking up -/

/-- Among pairs with different first parts one is found by its first part. The first pair that
matches is the only one, so it does not matter that the search stops there. -/
theorem lookup_eq_some_iff_of_nodup [BEq α] [LawfulBEq α] {l : List (α × β)}
    (hnodup : (l.map Prod.fst).Nodup) {a : α} {b : β} : l.lookup a = some b ↔ (a, b) ∈ l := by
  induction l with
  | nil => simp
  | cons p l ih =>
    obtain ⟨k, other⟩ := p
    rw [List.map_cons, List.nodup_cons] at hnodup
    rw [List.lookup_cons, List.mem_cons]
    by_cases hk : a = k
    · subst hk
      have hnone : (a, b) ∉ l := fun hmem => hnodup.1 (List.mem_map.mpr ⟨_, hmem, rfl⟩)
      simp [hnone, eq_comm]
    · simp [hk, beq_false_of_ne hk, ih hnodup.2]

/-- Among things with different names one is found by its name. -/
theorem find?_eq_some_iff_of_nodup {nameOf : α → String} {l : List α}
    (hnodup : (l.map nameOf).Nodup) {name : String} {a : α} :
    l.find? (nameOf · == name) = some a ↔ a ∈ l ∧ nameOf a = name := by
  have hnamed {b : α} (hb : l.find? (nameOf · == name) = some b) : b ∈ l ∧ nameOf b = name :=
    ⟨List.mem_of_find?_eq_some hb, eq_of_beq (List.find?_some hb :)⟩
  refine ⟨hnamed, ?_⟩
  rintro ⟨ha, rfl⟩
  cases hfound : l.find? (nameOf · == nameOf a) with
  | none =>
    have hnone := List.find?_eq_none.mp hfound a ha
    simp at hnone
  | some b =>
    obtain ⟨hb, hname⟩ := hnamed hfound
    rw [List.inj_on_of_nodup_map hnodup hb ha hname]

/-! ### Entries by name -/

section

variable {l k : List (String × α)}

/-- Entries in the order of their names are told by what they are. -/
theorem eq_of_ordered (hl : l.Pairwise fun a b => a.1 < b.1) (hk : k.Pairwise fun a b => a.1 < b.1)
    (h : ∀ e, e ∈ l ↔ e ∈ k) : l = k := by
  have hirrefl (a : String × α) : ¬a.1 < a.1 := String.lt_irrefl _
  have hnodup {l : List (String × α)} (hl : l.Pairwise fun a b => a.1 < b.1) : l.Nodup := by
    refine hl.imp ?_
    rintro a _ hlt rfl
    exact hirrefl a hlt
  have hperm : l.Perm k := (List.perm_ext_iff_of_nodup (hnodup hl) (hnodup hk)).mpr h
  exact hperm.eq_of_pairwise
    (fun a b _ _ hab hba => absurd (String.lt_trans hab hba) (hirrefl a)) hl hk

end

end RecordService.Lists
