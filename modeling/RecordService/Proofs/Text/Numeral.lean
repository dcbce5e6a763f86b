import Mathlib.Data.Nat.Digits.Defs
import RecordService.Text.Numeral

/-!
# Numerals that are written can be read

A whole number of 64 bits is read back from its digits
(`RecordService.Text.readInteger?_integer`), and nothing but numerals in range is read
(`RecordService.Text.readInteger?_eq_some_iff`). A number at the head of a longer text is read up to
where its digits end (`RecordService.Text.number_append`), so one in a field of fixed width needs no
end.

* `RecordService.Text.Numeral`: the texts that stand for integers.
-/

namespace RecordService.Text

theorem mem_digits {c : Char} (h : c.isDigit) :
    c ∈ ['0', '1', '2', '3', '4', '5', '6', '7', '8', '9'] := by
  simp only [Char.isDigit, Bool.and_eq_true, decide_eq_true_eq, ge_iff_le,
    UInt32.le_iff_toNat_le] at h
  have hrange : 48 ≤ c.toNat ∧ c.toNat ≤ 57 := h
  have hall : ∀ k < 10, Char.ofNat (48 + k) ∈ ['0', '1', '2', '3', '4', '5', '6', '7', '8', '9'] := by
    decide
  have hc := hall (c.toNat - 48) (by omega)
  rwa [Nat.add_sub_cancel' hrange.1, Char.ofNat_toNat] at hc

theorem isDigit_of_mem_toDigits {n : Nat} {c : Char} (h : c ∈ Nat.toDigits 10 n) : c.isDigit :=
  Nat.isDigit_of_mem_toDigits (by decide) (by decide) h

theorem digits?_toDigits (n : Nat) : digits? (Nat.toDigits 10 n) = some n := by
  have hdigits : (Nat.toDigits 10 n).all Char.isDigit :=
    List.all_eq_true.mpr fun c => isDigit_of_mem_toDigits
  simp [digits?, Nat.toDigits_ne_nil, hdigits]

/-- Digits bring no sign, so there is none to take off. -/
theorem splitSign_of_isDigit {c : Char} {r : List Char} (hc : c.isDigit) :
    splitSign (c :: r) = (false, c :: r) := by
  unfold splitSign
  split
  · next heq =>
    cases heq
    exact absurd hc (by decide)
  · next heq =>
    cases heq
    exact absurd hc (by decide)
  · rfl

theorem splitSign_toDigits (n : Nat) : splitSign (Nat.toDigits 10 n) = (false, Nat.toDigits 10 n) := by
  cases hds : Nat.toDigits 10 n with
  | nil => rfl
  | cons c ds =>
    have hc : c.isDigit := isDigit_of_mem_toDigits (n := n) (by simp [hds])
    exact splitSign_of_isDigit hc

theorem readInteger?_natural {n : Nat} (hmax : (n : Int) ≤ maxInteger) :
    readInteger? (natural n) = some (n : Int) := by
  have hmin : minInteger ≤ (n : Int) := by
    unfold minInteger
    omega
  unfold readInteger?
  simp only [natural, String.toList_ofList, splitSign_toDigits, digits?_toDigits]
  simp only [bind, Option.bind, Bool.false_eq_true, if_false]
  rw [if_pos ⟨hmin, hmax⟩]

theorem readInteger?_minus_natural {n : Nat} (hmin : minInteger ≤ -(n : Int)) :
    readInteger? ("-" ++ natural n) = some (-(n : Int)) := by
  have hmax : -(n : Int) ≤ maxInteger := by
    unfold maxInteger
    omega
  have htext : ("-" ++ natural n).toList = '-' :: Nat.toDigits 10 n := by simp [natural]
  unfold readInteger?
  simp only [htext, splitSign, digits?_toDigits]
  simp only [bind, Option.bind, if_true]
  rw [if_pos ⟨hmin, hmax⟩]

/-- **Numerals read back**, within 64 bits. Beyond them an integer has a numeral, which is not read.
-/
theorem readInteger?_integer {z : Int} (hmin : minInteger ≤ z) (hmax : z ≤ maxInteger) :
    readInteger? (integer z) = some z := by
  cases z with
  | ofNat n => exact readInteger?_natural hmax
  | negSucc n => exact readInteger?_minus_natural hmin

/-! ### The integers that numerals stand for -/

/-- Whether a text stands for an integer of any size: an optional sign, and one or more digits. -/
inductive Numeral : List Char → Int → Prop
  | plain {ds : List Char} : ds ≠ [] → (∀ c ∈ ds, c.isDigit) →
      Numeral ds (Nat.ofDigitChars 10 ds 0)
  | plus {ds : List Char} : ds ≠ [] → (∀ c ∈ ds, c.isDigit) →
      Numeral ('+' :: ds) (Nat.ofDigitChars 10 ds 0)
  | minus {ds : List Char} : ds ≠ [] → (∀ c ∈ ds, c.isDigit) →
      Numeral ('-' :: ds) (-(Nat.ofDigitChars 10 ds 0 : Int))

theorem digits?_eq_some_iff {s : List Char} {n : Nat} :
    digits? s = some n ↔ s ≠ [] ∧ (∀ c ∈ s, c.isDigit) ∧ Nat.ofDigitChars 10 s 0 = n := by
  simp [digits?, and_assoc]

/-- A numeral is what is left when the sign is taken off, with the sign. The reader goes the one
way, and the description of numerals the other. -/
theorem numeral_iff {s : List Char} {z : Int} :
    Numeral s z ↔ ∃ n : Nat, digits? (splitSign s).2 = some n ∧
      (if (splitSign s).1 then -(n : Int) else n) = z := by
  simp only [digits?_eq_some_iff]
  constructor
  · intro h
    cases h with
    | plain hne hdigits =>
      obtain ⟨c, r, rfl⟩ := List.exists_cons_of_ne_nil hne
      rw [splitSign_of_isDigit (hdigits c List.mem_cons_self)]
      exact ⟨_, ⟨hne, hdigits, rfl⟩, rfl⟩
    | plus hne hdigits => exact ⟨_, ⟨hne, hdigits, rfl⟩, rfl⟩
    | minus hne hdigits => exact ⟨_, ⟨hne, hdigits, rfl⟩, rfl⟩
  · rintro ⟨n, ⟨hne, hdigits, rfl⟩, rfl⟩
    generalize hsplit : splitSign s = p at hne hdigits ⊢
    unfold splitSign at hsplit
    split at hsplit <;> cases hsplit
    · exact .minus hne hdigits
    · exact .plus hne hdigits
    · exact .plain hne hdigits

/-- A text stands for one integer at most. -/
theorem Numeral.unique {s : List Char} {z w : Int} (hz : Numeral s z) (hw : Numeral s w) : z = w := by
  obtain ⟨n, hn, rfl⟩ := numeral_iff.mp hz
  obtain ⟨m, hm, rfl⟩ := numeral_iff.mp hw
  obtain rfl : n = m := Option.some.inj (hn.symm.trans hm)
  rfl

/-- **What is read** is what a numeral stands for. Nothing is read of one that is out of range, and
nothing of what is no numeral. -/
theorem readInteger?_eq_some_iff {s : String} {z : Int} :
    readInteger? s = some z ↔ Numeral s.toList z ∧ minInteger ≤ z ∧ z ≤ maxInteger := by
  rw [numeral_iff]
  simp only [readInteger?, bind, Option.bind_eq_some_iff, Option.ite_none_right_eq_some,
    Option.some.injEq]
  constructor
  · rintro ⟨n, hn, hrange, rfl⟩
    exact ⟨⟨n, hn, rfl⟩, hrange⟩
  · rintro ⟨⟨n, hn, rfl⟩, hrange⟩
    exact ⟨n, hn, hrange, rfl⟩

/-! ### Numbers at the head of a text -/

section

variable {least most width n : Nat} {ds r : List Char}

/-- Digits in front of what is no digit are read as a number, if there are neither too few nor too
many. -/
theorem number_append (hds : ∀ c ∈ ds, c.isDigit) (hleast : least ≤ ds.length)
    (hmost : ds.length ≤ most) (hend : ds.length = most ∨ ∀ c ∈ r.head?, ¬c.isDigit) :
    number least most (ds ++ r) = some (Nat.ofDigitChars 10 ds 0, r) := by
  have htail : (r.take (most - ds.length)).takeWhile Char.isDigit = [] := by
    rcases hend with rfl | hend
    · simp
    · cases r with
      | nil => simp
      | cons c r =>
        have hc : ¬c.isDigit := hend c rfl
        cases most - ds.length with
        | zero => simp
        | succ k => simp [hc]
  have htaken : ((ds ++ r).take most).takeWhile Char.isDigit = ds := by
    rw [List.take_append, List.take_of_length_le hmost, List.takeWhile_append_of_pos hds, htail,
      List.append_nil]
  simp only [number, htaken, if_neg (Nat.not_lt.mpr hleast), List.drop_left]

theorem isDigit_of_mem_padded {c : Char} (h : c ∈ padded width n) : c.isDigit := by
  rcases List.mem_append.mp h with h | h
  · rw [List.eq_of_mem_replicate h]
    rfl
  · exact isDigit_of_mem_toDigits h

/-- Leading zeros do not count, so a padded number stands for the number. -/
theorem ofDigitChars_padded : Nat.ofDigitChars 10 (padded width n) 0 = n := by
  simp [padded, Nat.ofDigitChars_append, Nat.ofDigitChars_ten_toDigits]

theorem le_length_padded : width ≤ (padded width n).length := by
  simp only [padded, List.length_append, List.length_replicate]
  omega

theorem length_padded (hwidth : 0 < width) (hn : n < 10 ^ width) :
    (padded width n).length = width := by
  have hdigits : (Nat.toDigits 10 n).length ≤ width :=
    (Nat.length_toDigits_le_iff (by decide) hwidth).mpr hn
  simp only [padded, List.length_append, List.length_replicate]
  omega

/-- A number in a field of fixed width is read to the end of the field, even if digits follow. -/
theorem number_padded (hleast : least ≤ width) (hwidth : 0 < width) (hn : n < 10 ^ width) :
    number least width (padded width n ++ r) = some (n, r) := by
  have hlength := length_padded hwidth hn
  rw [number_append (fun c => isDigit_of_mem_padded) (by omega) (by omega) (.inl hlength),
    ofDigitChars_padded]

end

end RecordService.Text
