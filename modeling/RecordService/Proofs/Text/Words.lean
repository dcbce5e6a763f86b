import RecordService.Proofs.Lists
import RecordService.Text.Blank

/-!
# Words and the blanks around them

The words of a text are told from the text without a reader: a word is a run of characters that are
not blank, and blanks stand in front of the words, behind them, and between any two of them
(`RecordService.Text.splits_iff`). A text without words consists of blanks
(`RecordService.Text.trimBlank_eq_nil_iff`).

* `RecordService.Text.Blank`, `RecordService.Text.IsWord`: what a text is made of.
* `RecordService.Text.Splits`: the words of a text.
* `RecordService.Text.not_mem_of_mem_splitOn`: what a text is split on is in none of its parts.
-/

namespace RecordService.Text

variable {s gap r w : List Char}

/-! ### Parts of texts -/

/-- What a text is split on is in none of its parts. -/
theorem not_mem_of_mem_splitOn {x : Char} {part : List Char} (h : part ∈ s.splitOn x) :
    x ∉ part := by
  rw [List.splitOn_eq_splitOnP] at h
  induction s generalizing part with
  | nil =>
    obtain rfl : part = [] := by simpa [List.splitOnP_nil] using h
    simp
  | cons c s ih =>
    rw [List.splitOnP_cons_eq_if_modifyHead] at h
    split at h
    · rcases List.mem_cons.mp h with rfl | h
      · simp
      · exact ih h
    · next hc =>
      -- the character goes to the first part of the rest
      obtain ⟨first, others, hparts⟩ := List.exists_cons_of_ne_nil (List.splitOnP_ne_nil (· == x) s)
      rw [hparts, List.modifyHead_cons] at h
      rcases List.mem_cons.mp h with rfl | h
      · have hfirst : x ∉ first := ih (hparts ▸ List.mem_cons_self)
        have hne : x ≠ c := fun hx => hc (by simp [hx])
        simp [hfirst, hne]
      · exact ih (hparts ▸ List.mem_cons_of_mem _ h)

/-! ### Characters that are not blank -/

theorem toNat_of_isAlpha {c : Char} (h : c.isAlpha) :
    65 ≤ c.toNat ∧ c.toNat ≤ 90 ∨ 97 ≤ c.toNat ∧ c.toNat ≤ 122 := by
  have hranges : (decide (c.val ≥ 65 ∧ c.val ≤ 90) ||
      decide (c.val ≥ 97) && decide (c.val ≤ 122)) = true := h
  simp only [Bool.or_eq_true, Bool.and_eq_true, decide_eq_true_eq, ge_iff_le,
    UInt32.le_iff_toNat_le] at hranges
  exact hranges

theorem toNat_of_isDigit {c : Char} (h : c.isDigit) : 48 ≤ c.toNat ∧ c.toNat ≤ 57 := by
  simp only [Char.isDigit, Bool.and_eq_true, decide_eq_true_eq, ge_iff_le,
    UInt32.le_iff_toNat_le] at h
  exact h

theorem isBlank_of_isAlpha {c : Char} (h : c.isAlpha) : isBlank c = false := by
  have hc := toNat_of_isAlpha h
  simp [isBlank]
  omega

theorem isBlank_of_isDigit {c : Char} (h : c.isDigit) : isBlank c = false := by
  have hc := toNat_of_isDigit h
  simp [isBlank]
  omega

/-! ### Blanks -/

/-- Whether a text consists of blanks. -/
def Blank (s : List Char) : Prop := ∀ c ∈ s, isBlank c

instance (s : List Char) : Decidable (Blank s) := List.decidableBAll _ s

@[simp] theorem blank_nil : Blank [] := by simp [Blank]

@[simp] theorem blank_append : Blank (s ++ r) ↔ Blank s ∧ Blank r := List.forall_mem_append

theorem skipBlank_of_isBlank {c : Char} (h : isBlank c = false) : skipBlank (c :: r) = c :: r := by
  simp [skipBlank, h]

theorem skipBlank_append (h : Blank gap) : skipBlank (gap ++ s) = skipBlank s :=
  List.dropWhile_append_of_pos h

theorem skipBlank_eq_nil_iff : skipBlank s = [] ↔ Blank s := List.dropWhile_eq_nil_iff

/-- A text is its leading blanks and what follows them. -/
theorem exists_blank_append (s : List Char) : ∃ gap, Blank gap ∧ s = gap ++ skipBlank s :=
  ⟨s.takeWhile isBlank, fun _ => List.mem_takeWhile_imp, List.takeWhile_append_dropWhile.symm⟩

/-- Trimming leaves nothing of blanks only. -/
theorem trimBlank_eq_nil_iff : trimBlank s = [] ↔ Blank s := by
  rw [trimBlank, List.reverse_eq_nil_iff, skipBlank_eq_nil_iff, ← skipBlank_eq_nil_iff (s := s)]
  constructor
  · intro h
    cases hs : skipBlank s with
    | nil => rfl
    | cons c r =>
      -- what is left begins with a character that is not blank
      have hblank := h c (by simp [hs])
      rw [isBlank_of_skipBlank hs] at hblank
      exact absurd hblank (by decide)
  · intro h
    simp [h]

/-- Nothing is trimmed of a text without blanks. -/
theorem trimBlank_of_forall (h : ∀ c ∈ s, isBlank c = false) : trimBlank s = s := by
  have hskip {r : List Char} (hr : ∀ c ∈ r, isBlank c = false) : skipBlank r = r := by
    cases r with
    | nil => rfl
    | cons c r => exact skipBlank_of_isBlank (hr c List.mem_cons_self)
  rw [trimBlank, hskip h, hskip (by simpa using h), List.reverse_reverse]

/-! ### Words -/

/-- Whether a text is one word. -/
structure IsWord (w : List Char) : Prop where
  ne_nil : w ≠ []
  isBlank : ∀ c ∈ w, isBlank c = false

/-- **The words of a text**, in order. Blanks may stand in front of each word and at the end, and
behind a word there is either a blank or nothing. -/
inductive Splits : List Char → List (List Char) → Prop
  | nil {gap : List Char} (blank : Blank gap) : Splits gap []
  | cons {gap w rest : List Char} {ws : List (List Char)} (blank : Blank gap) (word : IsWord w)
      (ends : ∀ c ∈ rest.head?, isBlank c) (others : Splits rest ws) :
      Splits (gap ++ w ++ rest) (w :: ws)

theorem words_eq (s : List Char) :
    words s = match skipBlank s with
      | [] => []
      | c :: r => (c :: r).takeWhile (!isBlank ·) :: words (r.dropWhile (!isBlank ·)) := by
  rw [words]
  split
  · next h => rw [h]
  · next h => rw [h]

/-- The words of a text are its words: they stand in it in this order, with blanks between them. -/
theorem splits_words (s : List Char) : Splits s (words s) := by
  fun_induction words s with
  | case1 s h => exact .nil (skipBlank_eq_nil_iff.mp h)
  | case2 s c r h ih =>
    obtain ⟨gap, hgap, hs⟩ := exists_blank_append s
    have hc : (!isBlank c) = true := by simp [isBlank_of_skipBlank h]
    have htake : (c :: r).takeWhile (!isBlank ·) = c :: r.takeWhile (!isBlank ·) :=
      List.takeWhile_cons_of_pos hc
    have hword : IsWord ((c :: r).takeWhile (!isBlank ·)) := by
      refine ⟨by simp [htake], fun d hd => ?_⟩
      simpa using List.mem_takeWhile_imp hd
    have hends : ∀ d ∈ (r.dropWhile (!isBlank ·)).head?, isBlank d := fun d hd => by
      simpa using Lists.head?_dropWhile d hd
    have hrest : s = gap ++ (c :: r).takeWhile (!isBlank ·) ++ r.dropWhile (!isBlank ·) := by
      rw [List.append_assoc, htake, List.cons_append, List.takeWhile_append_dropWhile, ← h]
      exact hs
    have hsplits := Splits.cons hgap hword hends ih
    rwa [← hrest] at hsplits

/-- A text has no other words, since a word ends where a blank or the text does. -/
theorem Splits.words_eq {ws : List (List Char)} (h : Splits s ws) : words s = ws := by
  induction h with
  | nil hgap => rw [Text.words_eq, skipBlank_eq_nil_iff.mpr hgap]
  | @cons gap w rest ws hgap hw hends _ ih =>
    obtain ⟨c, v, rfl⟩ := List.exists_cons_of_ne_nil hw.ne_nil
    have hskip : skipBlank (gap ++ (c :: v) ++ rest) = c :: (v ++ rest) := by
      rw [List.append_assoc, skipBlank_append hgap]
      exact skipBlank_of_isBlank (hw.isBlank c List.mem_cons_self)
    have hruns := Lists.takeWhile_dropWhile_append (p := (!isBlank ·)) (s := v) (r := rest)
      (fun d hd => by simp [hw.isBlank d (List.mem_cons_of_mem c hd)])
      (fun d hd => by simp [hends d hd])
    rw [Text.words_eq, hskip]
    dsimp only
    have hc : (!isBlank c) = true := by simp [hw.isBlank c List.mem_cons_self]
    rw [List.takeWhile_cons_of_pos (p := (!isBlank ·)) hc, hruns.1, hruns.2, ih]

/-- **The words of a text are read**, and the relation says of what form the text is. -/
theorem splits_iff {ws : List (List Char)} : Splits s ws ↔ words s = ws :=
  ⟨Splits.words_eq, fun h => h ▸ splits_words s⟩

/-- A word between blanks and further words is part of the text. -/
theorem Splits.mem {ws : List (List Char)} (h : Splits s ws) (hw : w ∈ ws) :
    IsWord w ∧ ∀ c ∈ w, c ∈ s := by
  induction h with
  | nil => simp at hw
  | cons _ hword _ _ ih =>
    rcases List.mem_cons.mp hw with rfl | hw
    · exact ⟨hword, fun c hc => by simp [hc]⟩
    · obtain ⟨hword, hmem⟩ := ih hw
      exact ⟨hword, fun c hc => by simp [hmem c hc]⟩

/-- Two words with blanks around them. The blanks between them are needed, and those around them are
not. -/
theorem splits_pair {gap between w v : List Char} (hgap : Blank gap) (hw : IsWord w)
    (hbetween : Blank between) (hne : between ≠ []) (hv : IsWord v) :
    Splits (gap ++ w ++ (between ++ v)) [w, v] := by
  obtain ⟨c, between, rfl⟩ := List.exists_cons_of_ne_nil hne
  have hlast : Splits ((c :: between) ++ v ++ []) [v] :=
    .cons hbetween hv (by simp) (.nil blank_nil)
  rw [List.append_nil] at hlast
  refine .cons hgap hw ?_ hlast
  simpa using hbetween c List.mem_cons_self

end RecordService.Text
