import RecordService.Decimal.Shortest
import RecordService.Proofs.Decimal.Rounding

/-!
# The shortest digits stay near

The numbers that round to a decimal are wider apart than the steps of the decimal grid with seventeen
digits, so one of the two numerals beside the decimal rounds to it on this grid at the latest. The
search stops at the first grid with such a numeral, and zeros at its end do not change the number
(`RecordService.Decimal.near_shortest`).

* `RecordService.Decimal.Scientific.value`: the number that digits stand for.
* `RecordService.Decimal.holds_interval_iff`: the interval that is searched has the numbers that round
  to the decimal.
* `RecordService.Decimal.isSome_seventeen`: seventeen digits are enough for one that rounds to it.
-/

namespace RecordService.Decimal

/-! ### Numerals -/

/-- A power with any whole exponent is a quotient of powers, one of which is one. So exact
arithmetic needs natural numbers only. -/
theorem pow_toNat_div {b : ℚ} (e : ℤ) : b ^ e.toNat / b ^ (-e).toNat = b ^ e := by
  rcases le_total 0 e with he | he
  · have hnone : (-e).toNat = 0 := by omega
    rw [hnone, pow_zero, div_one, ← zpow_natCast, Int.toNat_of_nonneg he]
  · have hnone : e.toNat = 0 := by omega
    rw [hnone, pow_zero, one_div, ← zpow_natCast, Int.toNat_of_nonneg (by omega), zpow_neg, inv_inv]

/-- The number that digits times a power of ten stand for. -/
def Scientific.value (s : Scientific) : ℚ := s.digits * 10 ^ s.exponent

/-- Taking zeros off the end of the digits does not change what a numeral stands for. -/
theorem Scientific.value_normalize (s : Scientific) : s.normalize.value = s.value := by
  fun_induction normalize s with
  | case1 s h ih =>
    have hdigits : (s.digits : ℚ) = (s.digits / 10 : Nat) * 10 := by
      exact_mod_cast (Nat.div_mul_cancel (Nat.dvd_of_mod_eq_zero h.2)).symm
    rw [ih, value, value, zpow_add_one₀ (by norm_num), hdigits]
    ring
  | case2 => rfl

theorem Scientific.le_exponent_normalize (s : Scientific) : s.exponent ≤ s.normalize.exponent := by
  fun_induction normalize s with
  | case1 s h ih => exact (Int.le_add_of_nonneg_right (by decide)).trans ih
  | case2 => exact le_rfl

/-- A numeral as the quotient of a point on its grid. -/
theorem Scientific.value_eq_div (s : Scientific) :
    s.value = (s.digits * 10 ^ s.exponent.toNat : Nat) / (10 ^ (-s.exponent).toNat : Nat) := by
  push_cast
  rw [value, ← pow_toNat_div, mul_div_assoc]

theorem digitCount_pos (n : Nat) : 0 < digitCount n :=
  List.length_pos_of_ne_nil Nat.toDigits_ne_nil

theorem pow_digitCount_le {n : Nat} (hn : 0 < n) : 10 ^ (digitCount n - 1) ≤ n := by
  cases hcount : digitCount n - 1 with
  | zero => exact hn
  | succ k =>
    by_contra hlt
    have hle := (Nat.length_toDigits_le_iff (b := 10) (by decide) (Nat.succ_pos k)).mpr (not_le.mp hlt)
    rw [← digitCount] at hle
    omega

/-- The first digit of a quotient stands at its leading place, as long as the quotient is not below
the grids that are searched. -/
theorem zpow_leadingPlace_le {num den : Nat} (hden : 0 < den) (h : den ≤ num * Nat.pow 10 330) :
    (10 : ℚ) ^ (leadingPlace num den - 1) ≤ num / den := by
  have hcast : (330 : ℤ) = (330 : Nat) := rfl
  unfold leadingPlace
  rw [hcast]
  generalize 330 = places at h ⊢
  obtain ⟨n, hn⟩ : ∃ n, num * Nat.pow 10 places / den = n := ⟨_, rfl⟩
  rw [hn]
  have hcount := digitCount_pos n
  have hdigits : (10 : ℚ) ^ (digitCount n - 1) ≤ n := by
    exact_mod_cast pow_digitCount_le (hn ▸ Nat.div_pos h hden)
  have hfloor : n * den ≤ num * 10 ^ places := hn ▸ Nat.div_mul_le_self _ _
  have hfloor : (n * den : ℚ) ≤ num * 10 ^ places := by exact_mod_cast hfloor
  have hden : (0 : ℚ) < den := by exact_mod_cast hden
  have hexp : (digitCount n : ℤ) - places - 1 = ((digitCount n - 1 : Nat) : ℤ) - places := by
    rw [Nat.cast_sub hcount]
    ring
  rw [hexp, zpow_sub₀ (by norm_num), zpow_natCast, zpow_natCast, div_le_div_iff₀ (by positivity) hden]
  calc (10 : ℚ) ^ (digitCount n - 1) * den
    _ ≤ n * den := by gcongr
    _ ≤ num * 10 ^ places := hfloor

/-! ### The interval -/

section

variable {d : Decimal}

/-- The exact value of a finite decimal, without its sign. -/
def absolute (d : Decimal) : ℚ := d.significand * 2 ^ d.exponent

theorem absolute_eq_div (d : Decimal) : d.absolute = d.numerator / d.denominator := by
  rw [absolute, ← pow_toNat_div, numerator, denominator, Nat.pow_eq, Nat.pow_eq, ← mul_div_assoc]
  push_cast
  rfl

theorem significand_pos (hd : d.magnitude ≠ 0) : 0 < d.significand := by
  unfold significand leadingBit
  split <;> omega

/-- The distance from a decimal to the lower end of its interval. At a power of two it is half of
that to the upper end. -/
theorem below_interval (d : Decimal) :
    (d.interval.below : ℚ) = 4 * d.gap * (2 ^ d.exponent.toNat : Nat) := by
  have hlowest : (d.significand == leadingBit && 2 * leadingBit ≤ d.magnitude) = true ↔
      d.significand = leadingBit ∧ 0 < d.binade := by
    have hmagnitude := d.magnitude_eq
    simp only [Bool.and_eq_true, beq_iff_eq, decide_eq_true_eq]
    refine and_congr_right fun hsignificand => ?_
    rw [hsignificand] at hmagnitude
    unfold leadingBit at hmagnitude ⊢
    omega
  simp only [interval, gap, hlowest]
  split
  · rw [Nat.pow_eq]
    push_cast
    ring
  · rw [Nat.pow_eq]
    push_cast
    ring

theorem below_le_num (hd : d.magnitude ≠ 0) : d.interval.below ≤ d.interval.num := by
  have hbelow : d.interval.below ≤ 2 * 2 ^ d.exponent.toNat := by
    simp only [interval, Nat.pow_eq]
    split <;> omega
  calc d.interval.below
    _ ≤ 2 * 2 ^ d.exponent.toNat := hbelow
    _ ≤ 4 * (d.significand * 2 ^ d.exponent.toNat) := by
      have := Nat.mul_le_mul_right (2 ^ d.exponent.toNat) (d.significand_pos hd)
      omega

/-- **The interval that is searched** has the numbers that round to the decimal. The search compares
natural numbers, and being near is said with rational ones. -/
theorem holds_interval_iff (hd : d.magnitude ≠ 0) {a b : Nat} (hb : 0 < b) :
    d.interval.holds a b ↔ d.Near (a / b * 2 ^ (-d.exponent)) := by
  obtain ⟨half, hhalf⟩ : ∃ half : Nat, 2 ^ d.exponent.toNat = half := ⟨_, rfl⟩
  have hpos : (0 : ℚ) < half := by
    rw [← hhalf]
    positivity
  have hb : (0 : ℚ) < b := by exact_mod_cast hb
  have hunit : (0 : ℚ) < 4 * half * b := by positivity
  have hnum : d.interval.num = 4 * (d.significand * half) := by rw [← hhalf]; rfl
  -- both ends and the number itself, over the unit of the interval
  have hleft : (((d.interval.num - d.interval.below) * b : Nat) : ℚ) =
      (d.significand - d.gap) * (4 * half * b) := by
    rw [Nat.cast_mul, Nat.cast_sub (below_le_num hd), below_interval, hhalf, hnum]
    push_cast
    ring
  have hright : (((d.interval.num + d.interval.above) * b : Nat) : ℚ) =
      (d.significand + 1 / 2) * (4 * half * b) := by
    have habove : d.interval.above = 2 * half := by rw [← hhalf]; rfl
    rw [hnum, habove]
    push_cast
    ring
  have hvalue : ((a * d.interval.den : Nat) : ℚ) =
      a / b * 2 ^ (-d.exponent) * (4 * half * b) := by
    have hden : d.interval.den = 4 * 2 ^ (-d.exponent).toNat := rfl
    have hscale : (2 : ℚ) ^ (-d.exponent) = 2 ^ (-d.exponent).toNat / half := by
      rw [← pow_toNat_div, neg_neg, ← hhalf]
      push_cast
      rfl
    rw [hden, hscale]
    push_cast
    field_simp
  unfold Interval.holds Near
  dsimp only
  by_cases heven : d.significand % 2 = 0
  · have hclosed : d.interval.closed = true := by simp [interval, heven]
    rw [if_pos hclosed, if_pos heven, Bool.and_eq_true, decide_eq_true_eq, decide_eq_true_eq,
      ← Nat.cast_le (α := ℚ), ← Nat.cast_le (α := ℚ), hleft, hright, hvalue,
      mul_le_mul_iff_left₀ hunit, mul_le_mul_iff_left₀ hunit]
  · have hopen : d.interval.closed = false := by simp [interval, heven]
    rw [hopen, if_neg Bool.false_ne_true, if_neg heven, Bool.and_eq_true, decide_eq_true_eq,
      decide_eq_true_eq, ← Nat.cast_lt (α := ℚ), ← Nat.cast_lt (α := ℚ), hleft, hright, hvalue,
      mul_lt_mul_iff_left₀ hunit, mul_lt_mul_iff_left₀ hunit]

/-! ### The search -/

/-- The numeral that is taken on a grid lies in the interval, be it below the value or above. -/
theorem holds_of_onGrid? {i : Interval} {tie : Tie} {place : Int} {s : Scientific}
    (h : i.onGrid? tie place = some s) :
    s.exponent = place ∧ i.holds (s.digits * 10 ^ place.toNat) (10 ^ (-place).toNat) := by
  unfold Interval.onGrid? at h
  simp only [Nat.pow_eq] at h
  generalize i.num * 10 ^ (-place).toNat / (i.den * 10 ^ place.toNat) = low at h
  split at h
  · next hfound =>
    cases h
    refine ⟨rfl, ?_⟩
    dsimp only
    cases hlow : i.holds (low * 10 ^ place.toNat) (10 ^ (-place).toNat)
    all_goals cases hhigh : i.holds ((low + 1) * 10 ^ place.toNat) (10 ^ (-place).toNat)
    · simp [hlow, hhigh] at hfound
    · simp [hhigh]
    · simp [hlow]
    · -- both neighbours lie in the interval
      have hboth (higher : Bool) : i.holds ((if higher then low + 1 else low) * 10 ^ place.toNat)
          (10 ^ (-place).toNat) := by
        cases higher <;> assumption
      exact hboth _
  · cases h

/-- A grid with a neighbour of the value in the interval has a numeral, so the search ends there at
the latest. -/
theorem isSome_onGrid? {i : Interval} {tie : Tie} {place : Int} {low : Nat}
    (hlow : i.num * 10 ^ (-place).toNat / (i.den * 10 ^ place.toNat) = low)
    (h : i.holds (low * 10 ^ place.toNat) (10 ^ (-place).toNat) ∨
      i.holds ((low + 1) * 10 ^ place.toNat) (10 ^ (-place).toNat)) :
    (i.onGrid? tie place).isSome := by
  unfold Interval.onGrid?
  simp only [Nat.pow_eq, hlow]
  rw [if_pos (Bool.or_eq_true_iff.mpr h)]
  rfl

/-- In units of the last place, the numbers that round to a decimal are further apart than seventeen
digits are. So one of the two neighbours on such a grid is near. -/
theorem near_or_near {t step : ℚ} (hlow : t ≤ d.significand) (hhigh : d.significand < t + step)
    (hstep : step < 1 / 2 + d.gap) : d.Near t ∨ d.Near (t + step) := by
  have hgap : 0 < d.gap := by
    unfold gap
    split <;> norm_num
  -- the upper neighbour, if it is not too far up; otherwise the lower one is not too far down
  by_cases hnext : t + step < d.significand + 1 / 2
  · right
    unfold Near
    split
    · constructor <;> linarith
    · constructor <;> linarith
  · left
    unfold Near
    split
    · constructor <;> linarith
    · constructor <;> linarith

theorem holds_iff_near (hd : d.magnitude ≠ 0) {digits : Nat} {place : Int} :
    d.interval.holds (digits * 10 ^ place.toNat) (10 ^ (-place).toNat) ↔
      d.Near (Scientific.value ⟨digits, place⟩ * 2 ^ (-d.exponent)) := by
  rw [holds_interval_iff hd (by positivity), Scientific.value_eq_div]

/-- The neighbours of a quotient on a grid, found by a division with remainder. -/
theorem value_floor {num den : Nat} (hden : 0 < den) {place : Int} {low : Nat}
    (hlow : num * 10 ^ (-place).toNat / (den * 10 ^ place.toNat) = low) :
    Scientific.value ⟨low, place⟩ ≤ num / den ∧
      (num / den : ℚ) < Scientific.value ⟨low + 1, place⟩ := by
  have hle := Nat.div_mul_le_self (num * 10 ^ (-place).toNat) (den * 10 ^ place.toNat)
  have hlt := Nat.lt_mul_div_succ (num * 10 ^ (-place).toNat) (b := den * 10 ^ place.toNat)
    (by positivity)
  rw [hlow] at hle hlt
  have hden : (0 : ℚ) < den := by exact_mod_cast hden
  have hunit : (0 : ℚ) < (10 ^ (-place).toNat : Nat) := by positivity
  rw [Scientific.value_eq_div, Scientific.value_eq_div]
  constructor
  · rw [div_le_div_iff₀ hunit hden]
    dsimp only
    exact_mod_cast (by linarith : low * 10 ^ place.toNat * den ≤ num * 10 ^ (-place).toNat)
  · rw [div_lt_div_iff₀ hden hunit]
    dsimp only
    exact_mod_cast
      (by linarith : num * 10 ^ (-place).toNat < (low + 1) * 10 ^ place.toNat * den)

theorem exponent_ge (d : Decimal) : -1074 ≤ d.exponent := by
  rw [exponent_eq]
  omega

theorem two_pow_le {e n k : Nat} (he : e ≤ 33 * n) (hk : 10 * n ≤ k) : 2 ^ e ≤ Nat.pow 10 k := by
  calc 2 ^ e
    _ ≤ 2 ^ (33 * n) := Nat.pow_le_pow_right (by decide) he
    _ = (2 ^ 33) ^ n := pow_mul 2 33 n
    _ ≤ (10 ^ 10) ^ n := Nat.pow_le_pow_left (by norm_num) n
    _ = 10 ^ (10 * n) := (pow_mul 10 10 n).symm
    _ ≤ 10 ^ k := Nat.pow_le_pow_right (by decide) hk

/-- No finite decimal but zero is as small as the grids that are searched begin. The bounds are
powers, so they are compared by their exponents. -/
theorem den_le_num (hd : d.magnitude ≠ 0) {places : Nat} (hplaces : 330 ≤ places) :
    d.interval.den ≤ d.interval.num * Nat.pow 10 places := by
  have hexp : (-d.exponent).toNat ≤ 33 * 33 := by
    have := d.exponent_ge
    omega
  have hnum : 0 < d.numerator := Nat.mul_pos (d.significand_pos hd) (Nat.pow_pos (by decide))
  calc d.interval.den
    _ = 4 * 2 ^ (-d.exponent).toNat := rfl
    _ ≤ 4 * Nat.pow 10 places := Nat.mul_le_mul_left 4 (two_pow_le hexp hplaces)
    _ ≤ 4 * d.numerator * Nat.pow 10 places :=
      Nat.mul_le_mul_right _ (Nat.le_mul_of_pos_right 4 hnum)

theorem interval_value : (d.interval.num / d.interval.den : ℚ) = d.absolute := by
  have hnum : d.interval.num = 4 * d.numerator := rfl
  have hden : d.interval.den = 4 * d.denominator := rfl
  rw [absolute_eq_div, hnum, hden]
  push_cast
  exact mul_div_mul_left _ _ (by norm_num)

theorem absolute_mul (d : Decimal) : d.absolute * 2 ^ (-d.exponent) = d.significand := by
  rw [absolute, mul_assoc, ← zpow_add₀ two_ne_zero, add_neg_cancel, zpow_zero, mul_one]

/-- Seventeen digits are finer than the decimals. -/
theorem significand_div_lt (d : Decimal) : (d.significand / 10 ^ 16 : ℚ) < 1 / 2 + d.gap := by
  have hlt : (d.significand : ℚ) < 2 * leadingBit := by exact_mod_cast d.significand_lt
  unfold gap
  split
  · next h =>
    rw [h.1]
    norm_num [leadingBit]
  · rw [div_lt_iff₀ (by norm_num)]
    norm_num [leadingBit] at hlt ⊢
    linarith

/-- With seventeen digits, the step of a grid is below the distance of the neighbours. -/
theorem step_lt {top : Int} (h : (10 : ℚ) ^ (top - 1) ≤ d.absolute) :
    (10 : ℚ) ^ (top - (16 + 1 : Nat)) * 2 ^ (-d.exponent) < 1 / 2 + d.gap := by
  have hsplit : (10 : ℚ) ^ (top - (16 + 1 : Nat)) = 10 ^ (top - 1) / 10 ^ 16 := by
    rw [← zpow_natCast, ← zpow_sub₀ (by norm_num)]
    congr 1
    push_cast
    ring
  calc (10 : ℚ) ^ (top - (16 + 1 : Nat)) * 2 ^ (-d.exponent)
    _ = 10 ^ (top - 1) / 10 ^ 16 * 2 ^ (-d.exponent) := by rw [hsplit]
    _ ≤ d.absolute / 10 ^ 16 * 2 ^ (-d.exponent) := by gcongr
    _ = d.significand / 10 ^ 16 := by rw [div_mul_eq_mul_div, absolute_mul]
    _ < 1 / 2 + d.gap := d.significand_div_lt

/-- **Seventeen digits suffice**, so the search does not fall through to its default. -/
theorem isSome_seventeen (hd : d.magnitude ≠ 0) (tie : Tie) :
    (d.interval.onGrid? tie (leadingPlace d.interval.num d.interval.den - (16 + 1 : Nat))).isSome := by
  have hden : 0 < d.interval.den := Nat.mul_pos (by decide) (Nat.pow_pos (by decide))
  have hfirst := zpow_leadingPlace_le hden (den_le_num hd le_rfl)
  rw [interval_value] at hfirst
  have hstep := step_lt hfirst
  generalize leadingPlace d.interval.num d.interval.den - (16 + 1 : Nat) = place at hstep ⊢
  obtain ⟨low, hlow⟩ : ∃ low, d.interval.num * 10 ^ (-place).toNat /
      (d.interval.den * 10 ^ place.toNat) = low := ⟨_, rfl⟩
  obtain ⟨hfloor, hceil⟩ := value_floor hden hlow
  rw [interval_value] at hfloor hceil
  have hunit : (0 : ℚ) < 2 ^ (-d.exponent) := by positivity
  have hnext : Scientific.value ⟨low + 1, place⟩ * 2 ^ (-d.exponent) =
      Scientific.value ⟨low, place⟩ * 2 ^ (-d.exponent) + 10 ^ place * 2 ^ (-d.exponent) := by
    simp only [Scientific.value]
    push_cast
    ring
  refine isSome_onGrid? hlow ?_
  rw [holds_iff_near hd, holds_iff_near hd, hnext]
  refine near_or_near ?_ ?_ hstep
  · rw [← absolute_mul]
    exact mul_le_mul_of_nonneg_right hfloor hunit.le
  · rw [← hnext, ← absolute_mul]
    exact mul_lt_mul_of_pos_right hceil hunit

/-- **The shortest digits stay near** the decimal, and their exponent is not far below that of the
smallest decimals. Nothing is said of how short they are: for reading back, near is enough. -/
theorem near_shortest (hd : d.magnitude ≠ 0) (tie : Tie) :
    d.Near ((d.shortest tie).value * 2 ^ (-d.exponent)) ∧ -400 ≤ (d.shortest tie).exponent := by
  obtain ⟨top, htop⟩ : ∃ top, leadingPlace d.interval.num d.interval.den = top := ⟨_, rfl⟩
  have hlast := isSome_seventeen hd tie
  rw [htop] at hlast
  -- so the search does not come back empty, and what it finds on any grid is in the interval
  have hfound : ((List.range 17).findSome? fun (count : Nat) =>
      d.interval.onGrid? tie (top - (count + 1 : Nat))).isSome :=
    List.findSome?_isSome_iff.mpr ⟨16, by decide, hlast⟩
  obtain ⟨s, hs⟩ := Option.isSome_iff_exists.mp hfound
  have hshortest : d.shortest tie = s.normalize := by
    unfold shortest
    rw [if_neg hd]
    dsimp only
    rw [htop, hs, Option.getD_some]
  obtain ⟨count, hcount, hgrid⟩ := List.exists_of_findSome?_eq_some hs
  obtain ⟨hexp, hholds⟩ := holds_of_onGrid? hgrid
  rw [← hexp, holds_iff_near hd] at hholds
  have hplace : -330 ≤ top := by
    rw [← htop, leadingPlace]
    omega
  have hcount := List.mem_range.mp hcount
  have hle := s.le_exponent_normalize
  rw [hshortest, Scientific.value_normalize]
  exact ⟨hholds, by omega⟩

end

end RecordService.Decimal
