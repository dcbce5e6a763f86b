import RecordService.Calendar.Text
import RecordService.Proofs.Text.Numeral
import RecordService.Proofs.Text.Words

/-!
# Moments that are written can be read

A moment is written in the loose form, with as many digits as its year and its fraction need, and a
leap second as the second 60. Reading tries the strict form first, which the written form never has
for want of a zone offset; then the loose form gives the moment back, for every moment of the
calendar (`RecordService.DateTime.read?_render`).

* `RecordService.DateTime.looseYear_yearText`, `RecordService.DateTime.readFraction_fractionText`: the
  fields of variable width.
* `RecordService.DateTime.ofClock?_clock`: the moment that the written time of day stands for.
-/

namespace RecordService

/-! ### Fields behind blanks -/

namespace Text

variable {width n : Nat} {r : List Char}

/-- A field begins with a digit. -/
theorem exists_padded_append (hwidth : 0 < width) :
    ∃ c s, c.isDigit ∧ padded width n ++ r = c :: s := by
  have hle : width ≤ (padded width n).length := le_length_padded
  obtain ⟨c, ds, hds⟩ := List.exists_cons_of_length_pos (Nat.lt_of_lt_of_le hwidth hle)
  have hc : c ∈ padded width n := by simp [hds]
  exact ⟨c, ds ++ r, isDigit_of_mem_padded hc, by simp [hds]⟩

theorem skipBlank_padded (hwidth : 0 < width) :
    skipBlank (padded width n ++ r) = padded width n ++ r := by
  obtain ⟨c, s, hc, heq⟩ := exists_padded_append (n := n) (r := r) hwidth
  rw [heq, skipBlank_of_isBlank (isBlank_of_isDigit hc)]

theorem padded_append_ne {c : Char} {s : List Char} (hwidth : 0 < width) (hc : ¬c.isDigit) :
    padded width n ++ r ≠ c :: s := by
  obtain ⟨d, u, hd, heq⟩ := exists_padded_append (n := n) (r := r) hwidth
  rw [heq]
  rintro ⟨⟩
  exact hc hd

@[simp] theorem literal_cons_self {c : Char} : literal c (c :: r) = some r := by
  simp [literal]

end Text

namespace DateTime

open Text

variable {r : List Char} {n : Nat}

/-! ### Fields -/

theorem looseNumber_padded (hn : n < 100) : looseNumber 2 (padded 2 n ++ r) = some (n, r) := by
  rw [looseNumber, skipBlank_padded (by decide), number_padded (by decide) (by decide) hn]

/-- Years from 0 to 9999 have four digits, and all others a sign, after which every digit counts. -/
theorem looseYear_yearText (year : Int) :
    looseYear (yearText year ++ '-' :: r) = some (year, '-' :: r) := by
  have hsigned : number 1 (padded 4 year.natAbs ++ '-' :: r).length
      (padded 4 year.natAbs ++ '-' :: r) = some (year.natAbs, '-' :: r) := by
    have hlength : 4 ≤ (padded 4 year.natAbs).length := le_length_padded
    have hend : ∀ c ∈ ('-' :: r).head?, ¬c.isDigit := by simp
    rw [number_append (fun c => isDigit_of_mem_padded) (by omega) (by simp) (.inr hend),
      ofDigitChars_padded]
  unfold yearText
  split
  · next hyear =>
    have hn : year.toNat < 10 ^ 4 := by omega
    have hback : (year.toNat : Int) = year := Int.toNat_of_nonneg hyear.1
    have hnumber : number 1 4 (padded 4 year.toNat ++ '-' :: r) = some (year.toNat, '-' :: r) :=
      number_padded (by decide) (by decide) hn
    unfold looseYear
    rw [skipBlank_padded (by decide)]
    split
    · next heq => exact absurd heq (padded_append_ne (by decide) (by decide))
    · next heq => exact absurd heq (padded_append_ne (by decide) (by decide))
    · rw [hnumber]
      exact congrArg (fun y => some (y, '-' :: r)) hback
  · next hyear =>
    by_cases hneg : year < 0
    · have hback : -(year.natAbs : Int) = year := by omega
      rw [if_pos hneg, List.cons_append, looseYear, skipBlank_of_isBlank (by decide)]
      simp only [hsigned, bind, Option.bind, hback]
    · have hback : (year.natAbs : Int) = year := by omega
      rw [if_neg hneg, List.cons_append, looseYear, skipBlank_of_isBlank (by decide)]
      simp only [hsigned, bind, Option.bind, hback]

/-- A fraction that is written in three, six or nine digits is read as what it stands for in nine.
-/
theorem readNanos_padded {width : Nat} (hwidth : 0 < width ∧ width ≤ 9) (hn : n < 10 ^ width) :
    readNanos (padded width n) = some (n * 10 ^ (9 - width), []) := by
  have hlength := length_padded hwidth.1 hn
  have hnumber : number 1 9 (padded width n ++ []) =
      some (Nat.ofDigitChars 10 (padded width n) 0, []) :=
    number_append (fun c => isDigit_of_mem_padded) (by omega) (by omega) (.inr (by simp))
  rw [List.append_nil, ofDigitChars_padded] at hnumber
  simp [readNanos, hnumber, hlength]

theorem readFraction_fractionText (hn : n < secondNanos) :
    readFraction (fractionText n) = some (n, []) := by
  unfold secondNanos at hn
  unfold fractionText
  split
  · next hzero =>
    rw [hzero]
    rfl
  · split
    · next hmillis =>
      have hback : n / 1000000 * 10 ^ (9 - 3) = n := by omega
      rw [readFraction, readNanos_padded (by decide) (by omega), hback]
    · split
      · next hmicros =>
        have hback : n / 1000 * 10 ^ (9 - 6) = n := by omega
        rw [readFraction, readNanos_padded (by decide) (by omega), hback]
      · have hback : n * 10 ^ (9 - 9) = n := by omega
        rw [readFraction, readNanos_padded (by decide) (by omega), hback]

/-! ### The time of day -/

/-- The second that is shown on a clock: a leap second is the second 60. -/
def shownSecond (t : DateTime) : Nat := t.second % 60 + if secondNanos ≤ t.nano then 1 else 0

/-- **The written time of day** stands for the moment that it is written for. A leap second is
written as the sixtieth, and read so. -/
theorem ofClock?_clock (t : DateTime) :
    ofClock? t.date (t.second / 3600) (t.second / 60 % 60) t.shownSecond (t.nano % secondNanos) =
      some t := by
  have hsecond := t.second_lt
  have hnano := t.nano_lt
  unfold daySeconds at hsecond
  unfold secondNanos at hnano
  have hclock : t.second / 3600 < 24 ∧ t.second / 60 % 60 < 60 ∧ t.shownSecond ≤ 60 ∧
      t.nano % secondNanos < secondNanos := by
    unfold shownSecond secondNanos
    split <;> omega
  have hparts (s n : Nat) (hs : s = t.second) (hn : n = t.nano) : ofParts? t.date s n = some t := by
    subst hs hn
    exact dif_pos ⟨t.second_lt, t.nano_lt, t.leap⟩
  unfold ofClock?
  dsimp only
  rw [if_pos hclock]
  by_cases hleap : secondNanos ≤ t.nano
  · have hlast := t.leap hleap
    have hshown : t.shownSecond = 60 := by rw [shownSecond, if_pos hleap, hlast]
    unfold secondNanos at hleap
    rw [if_pos hshown]
    exact hparts _ _ (by omega) (by unfold secondNanos; omega)
  · have hshown : t.shownSecond = t.second % 60 := by rw [shownSecond, if_neg hleap, Nat.add_zero]
    unfold secondNanos at hleap
    rw [if_neg (by omega), hshown]
    exact hparts _ _ (by omega) (by unfold secondNanos; omega)

/-! ### Whole moments -/

theorem render_eq (t : DateTime) :
    t.render.toList = yearText t.date.year ++ '-' :: (padded 2 t.date.month ++ '-' ::
      (padded 2 t.date.day ++ 'T' :: (padded 2 (t.second / 3600) ++ ':' ::
        (padded 2 (t.second / 60 % 60) ++ ':' :: (padded 2 t.shownSecond ++
          fractionText (t.nano % secondNanos)))))) := by
  simp [render, shownSecond]

/-- The fields of a date and of a clock have two digits, so each is read to its end and no further.
-/
theorem fields_lt (t : DateTime) : t.date.month < 10 ^ 2 ∧ t.date.day < 10 ^ 2 ∧
    t.second / 3600 < 10 ^ 2 ∧ t.second / 60 % 60 < 10 ^ 2 ∧ t.shownSecond < 10 ^ 2 := by
  have hday : t.date.day ≤ 31 := by
    refine t.date.valid.2.2.2.trans ?_
    unfold Date.daysIn
    repeat' split
    all_goals omega
  have hmonth := t.date.valid.2.1.2
  have hsecond := t.second_lt
  unfold daySeconds at hsecond
  have hshown : t.shownSecond ≤ 60 := by
    unfold shownSecond
    split <;> omega
  omega

/-- Without a zone offset the strict form is not met, and the looser ones are tried. -/
theorem readStrict?_render (t : DateTime) : readStrict? t.render.toList = none := by
  obtain ⟨hmonth, hday, hhour, hminute, hsecond⟩ := t.fields_lt
  have htwo {n : Nat} {r : List Char} (hn : n < 10 ^ 2) :
      number 2 2 (padded 2 n ++ r) = some (n, r) := number_padded (by decide) (by decide) hn
  rw [render_eq]
  unfold yearText
  split
  · next hyear =>
    have hn : t.date.year.toNat < 10 ^ 4 := by omega
    have hfour {r : List Char} : number 4 4 (padded 4 t.date.year.toNat ++ r) =
        some (t.date.year.toNat, r) := number_padded (by decide) (by decide) hn
    have hfraction : t.nano % secondNanos < secondNanos := Nat.mod_lt _ (by decide)
    simp only [readStrict?, hfour, htwo hmonth, htwo hday, htwo hhour, htwo hminute,
      htwo hsecond, readFraction_fractionText hfraction, literal_cons_self, Option.some_or, bind,
      Option.bind, readOffset]
  · -- the strict form has no signs
    have hsign (c : Char) (r : List Char) (hc : ¬c.isDigit) : number 4 4 (c :: r) = none := by
      simp [number, hc]
    have hno : ¬(if t.date.year < 0 then '-' else '+').isDigit := by
      split <;> decide
    simp only [readStrict?, List.cons_append, hsign _ _ hno, bind, Option.bind]

theorem readLoose?_render (t : DateTime) : readLoose? t.render.toList = some t := by
  obtain ⟨hmonth, hday, hhour, hminute, hsecond⟩ := t.fields_lt
  have hfraction : t.nano % secondNanos < secondNanos := Nat.mod_lt _ (by decide)
  have hdate : Date.ofParts? t.date.year t.date.month t.date.day = some t.date :=
    dif_pos t.date.valid
  rw [render_eq]
  simp only [readLoose?, looseDate, looseYear_yearText, looseSeparator, looseNumber_padded hmonth,
    looseNumber_padded hday, looseNumber_padded hhour, looseNumber_padded hminute,
    looseNumber_padded hsecond, readFraction_fractionText hfraction, literal_cons_self,
    Option.getD_some, hdate, bind, Option.bind, ofClock?_clock]
  simp

/-- **Moments read back**, whatever their year, their fraction and their second: every part is
written with a width that its reader takes exactly. -/
theorem read?_render (t : DateTime) : read? t.render = some t := by
  rw [read?, readStrict?_render, readLoose?_render]
  rfl

end DateTime

end RecordService
