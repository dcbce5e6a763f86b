import Mathlib.Algebra.Order.Field.Power
import Mathlib.Algebra.Order.Field.Rat
import Mathlib.Tactic.FieldSimp
import Mathlib.Tactic.Linarith
import Mathlib.Tactic.NormNum
import Mathlib.Tactic.Positivity
import Mathlib.Tactic.Ring
import RecordService.Decimal.Basic

/-!
# The numbers that round to a decimal

The decimals of one binade are at equal distances, and a number is rounded on the grid of the binade
that it lies in. A number that lies nearer to a decimal than half way to its neighbours is rounded to
this decimal, also where the number lies in the binade below, whose grid is finer; and half way an
even significand wins (`RecordService.Decimal.ofRatio_of_near`).

* `RecordService.Decimal.binade`: the binade of a decimal, from the smallest one upwards.
* `RecordService.Decimal.Near`: the numbers that round to a decimal, in units of its last place.
* `RecordService.Decimal.roundDiv_eq`: rounding to whole numbers.
* `RecordService.Decimal.exists_nearestBits`: the grid on which a number is rounded.
-/

namespace RecordService.Decimal

/-! ### Binades -/

/-- The binade of a decimal. The decimals below the leading bit are in the one with number zero. -/
def binade (d : Decimal) : Nat :=
  if d.magnitude < leadingBit then 0 else d.magnitude / leadingBit - 1

section

variable (d : Decimal)

theorem magnitude_eq : d.magnitude = d.binade * leadingBit + d.significand := by
  unfold binade significand leadingBit
  split <;> omega

theorem exponent_eq : d.exponent = (d.binade : Int) - 1074 := by
  unfold binade exponent leadingBit
  split <;> omega

theorem significand_lt : d.significand < 2 * leadingBit := by
  unfold significand leadingBit
  split <;> omega

theorem le_significand (h : 0 < d.binade) : leadingBit ≤ d.significand := by
  unfold binade at h
  unfold significand
  split
  · next hlow => simp [hlow] at h
  · exact Nat.le_add_right _ _

end

/-- How far below a decimal the numbers begin that round to it, in units of its last place. Below a
power of two the neighbour is only half as far away. -/
def gap (d : Decimal) : ℚ := if d.significand = leadingBit ∧ 0 < d.binade then 1 / 4 else 1 / 2

/-- Whether a number, in units of the last place of a decimal, rounds to the decimal. -/
def Near (d : Decimal) (t : ℚ) : Prop :=
  if d.significand % 2 = 0 then d.significand - d.gap ≤ t ∧ t ≤ d.significand + 1 / 2
  else d.significand - d.gap < t ∧ t < d.significand + 1 / 2

theorem gap_le (d : Decimal) : d.gap ≤ 1 / 2 := by
  unfold gap
  split <;> norm_num

/-! ### Rounding to whole numbers -/

/-- The nearest whole number, and the even one of two. In whole numbers only, as the division
computes it. -/
theorem roundDiv_eq_of_le {num den k : Nat} (hlow : 2 * (k * den) ≤ 2 * num + den)
    (hhigh : 2 * num ≤ 2 * (k * den) + den)
    (htie : k % 2 = 1 → 2 * (k * den) ≠ 2 * num + den ∧ 2 * num ≠ 2 * (k * den) + den)
    (hden : 0 < den) : roundDiv num den = k := by
  have hsplit : num / den * den + num % den = num := Nat.div_add_mod' num den
  have hrest : num % den < den := Nat.mod_lt num hden
  unfold roundDiv
  dsimp only
  generalize num / den = q at hsplit ⊢
  generalize num % den = r at hsplit hrest ⊢
  have hle : q ≤ k := by
    by_contra hlt
    have hmul : (k + 1) * den ≤ q * den := Nat.mul_le_mul_right den (by omega)
    rw [Nat.add_mul] at hmul
    omega
  have hge : k ≤ q + 1 := by
    by_contra hlt
    have hmul : (q + 2) * den ≤ k * den := Nat.mul_le_mul_right den (by omega)
    rw [Nat.add_mul] at hmul
    omega
  obtain rfl | rfl : k = q ∨ k = q + 1 := by omega
  · by_cases hodd : k % 2 = 1
    · have := htie hodd
      rw [if_pos (by omega)]
    · split
      · rfl
      · rw [if_neg (by omega)]
        omega
  · rw [Nat.add_mul] at hlow hhigh htie
    by_cases hodd : q % 2 = 1
    · rw [if_neg (by omega)]
      split
      · rfl
      · omega
    · have := htie (by omega)
      rw [if_neg (by omega), if_pos (by omega)]

theorem roundDiv_eq {num den k : Nat} (hden : 0 < den)
    (h : (k : ℚ) - 1 / 2 ≤ num / den ∧ (num : ℚ) / den ≤ k + 1 / 2)
    (htie : k % 2 = 1 → (k : ℚ) - 1 / 2 ≠ num / den ∧ (num : ℚ) / den ≠ k + 1 / 2) :
    roundDiv num den = k := by
  have hpos : (0 : ℚ) < den := by exact_mod_cast hden
  have hlow : (2 * (k * den) : ℚ) ≤ 2 * num + den := by
    have := (le_div_iff₀ hpos).mp h.1
    linarith
  have hhigh : (2 * num : ℚ) ≤ 2 * (k * den) + den := by
    have := (div_le_iff₀ hpos).mp h.2
    linarith
  refine roundDiv_eq_of_le (by exact_mod_cast hlow) (by exact_mod_cast hhigh) (fun hk => ?_) hden
  obtain ⟨hlow, hhigh⟩ := htie hk
  constructor
  · intro heq
    have heq : (2 * (k * den) : ℚ) = 2 * num + den := by exact_mod_cast heq
    exact hlow ((eq_div_iff hpos.ne').mpr (by linarith))
  · intro heq
    have heq : (2 * num : ℚ) = 2 * (k * den) + den := by exact_mod_cast heq
    exact hhigh ((div_eq_iff hpos.ne').mpr (by linarith))

/-! ### The grid of a number -/

/-- A quotient in units of the last place of a binade, as a quotient. -/
def scaled (num den e : Nat) : Nat × Nat :=
  if e ≤ 1074 then (num * 2 ^ (1074 - e), den) else (num, den * 2 ^ (e - 1074))

theorem scaled_pos (num : Nat) {den : Nat} (hden : 0 < den) (e : Nat) : 0 < (scaled num den e).2 := by
  unfold scaled
  split
  · exact hden
  · exact Nat.mul_pos hden (by positivity)

theorem scaled_eq (num den e : Nat) :
    ((scaled num den e).1 : ℚ) / (scaled num den e).2 = num / den * 2 ^ (1074 - (e : ℤ)) := by
  unfold scaled
  split
  · next he =>
    have hexp : 1074 - (e : ℤ) = ((1074 - e : Nat) : ℤ) := by omega
    rw [hexp, zpow_natCast]
    push_cast
    ring
  · next he =>
    have hexp : 1074 - (e : ℤ) = -((e - 1074 : Nat) : ℤ) := by omega
    rw [hexp, zpow_neg, zpow_natCast]
    push_cast
    rw [div_mul_eq_div_div, div_eq_mul_inv (num / den : ℚ)]

/-- The binary logarithms of the parts of a quotient tell its size up to a factor of two. So the
binade that is tried first is the right one or the one beside it. -/
theorem lt_div_of_log2 {num den : Nat} (hnum : 0 < num) (hden : 0 < den) :
    (2 : ℚ) ^ ((num.log2 : ℤ) - den.log2 - 1) < num / den := by
  have hpos : (0 : ℚ) < den := by exact_mod_cast hden
  have hlow : (2 : ℚ) ^ num.log2 ≤ num := by exact_mod_cast Nat.log2_self_le hnum.ne'
  have hhigh : (den : ℚ) < 2 ^ (den.log2 + 1) := by exact_mod_cast Nat.lt_log2_self
  rw [lt_div_iff₀ hpos]
  calc (2 : ℚ) ^ ((num.log2 : ℤ) - den.log2 - 1) * den
    _ < 2 ^ ((num.log2 : ℤ) - den.log2 - 1) * 2 ^ (den.log2 + 1) := by gcongr
    _ = 2 ^ num.log2 := by
      rw [← zpow_natCast, ← zpow_natCast, ← zpow_add₀ two_ne_zero]
      congr 1
      push_cast
      ring
    _ ≤ num := hlow

theorem div_lt_of_log2 (num : Nat) {den : Nat} (hden : 0 < den) :
    (num / den : ℚ) < 2 ^ ((num.log2 : ℤ) - den.log2 + 1) := by
  have hpos : (0 : ℚ) < den := by exact_mod_cast hden
  have hlow : (2 : ℚ) ^ den.log2 ≤ den := by exact_mod_cast Nat.log2_self_le hden.ne'
  have hhigh : (num : ℚ) < 2 ^ (num.log2 + 1) := by exact_mod_cast Nat.lt_log2_self
  rw [div_lt_iff₀ hpos]
  calc (num : ℚ)
    _ < 2 ^ (num.log2 + 1) := hhigh
    _ = 2 ^ ((num.log2 : ℤ) - den.log2 + 1) * 2 ^ den.log2 := by
      rw [← zpow_natCast, ← zpow_natCast, ← zpow_add₀ two_ne_zero]
      congr 1
      push_cast
      ring
    _ ≤ 2 ^ ((num.log2 : ℤ) - den.log2 + 1) * den := by gcongr

theorem floor_scaled_lt_iff {num den : Nat} (hden : 0 < den) (e : Nat) :
    (scaled num den e).1 / (scaled num den e).2 < 2 * leadingBit ↔
      (num / den * 2 ^ (1074 - (e : ℤ)) : ℚ) < 2 * leadingBit := by
  have hpos := scaled_pos num hden e
  have hpos' : (0 : ℚ) < (scaled num den e).2 := by exact_mod_cast hpos
  rw [← scaled_eq, Nat.div_lt_iff_lt_mul hpos, div_lt_iff₀ hpos']
  exact_mod_cast Iff.rfl

theorem leadingBit_eq : (leadingBit : ℚ) = 2 ^ (52 : ℤ) := by norm_num [leadingBit]

section

variable {q : ℚ} {top : ℤ} {e : Nat}

theorem leadingBit_le_mul (he : (e : ℤ) = top + 1021) (h : 2 ^ (top - 1) < q) :
    (leadingBit : ℚ) ≤ q * 2 ^ (1074 - (e : ℤ)) := by
  calc (leadingBit : ℚ)
    _ = 2 ^ (top - 1) * 2 ^ (1074 - (e : ℤ)) := by
      rw [leadingBit_eq, ← zpow_add₀ two_ne_zero, he]
      congr 1
      ring
    _ ≤ q * 2 ^ (1074 - (e : ℤ)) := by gcongr

theorem mul_lt_leadingBit (he : 1074 - (e : ℤ) ≤ 52 - top) (hq : 0 ≤ q) (h : q < 2 ^ (top + 1)) :
    q * 2 ^ (1074 - (e : ℤ)) < 2 * leadingBit := by
  calc q * 2 ^ (1074 - (e : ℤ))
    _ ≤ q * 2 ^ (52 - top) := by
      gcongr
      norm_num
    _ < 2 ^ (top + 1) * 2 ^ (52 - top) := by gcongr
    _ = 2 * leadingBit := by
      rw [leadingBit_eq, ← zpow_add₀ two_ne_zero, ← zpow_one_add₀ two_ne_zero]
      congr 1
      ring

/-- On the next grid a number is half as large, since its steps are twice as wide. -/
theorem mul_succ : q * 2 ^ (1074 - ((e + 1 : Nat) : ℤ)) = q * 2 ^ (1074 - (e : ℤ)) / 2 := by
  have hexp : 1074 - ((e + 1 : Nat) : ℤ) = 1074 - (e : ℤ) - 1 := by push_cast; ring
  rw [hexp, zpow_sub_one₀ two_ne_zero]
  ring

end

/-- **The grid on which a number is rounded**: that of the binade it lies in, or the finest one for
the numbers below all binades. -/
theorem exists_nearestBits {num den : Nat} (hnum : 0 < num) (hden : 0 < den) :
    ∃ e, nearestBits num den = e * leadingBit + roundDiv (scaled num den e).1 (scaled num den e).2 ∧
      (num / den * 2 ^ (1074 - (e : ℤ)) : ℚ) < 2 * leadingBit ∧
      (e = 0 ∨ (leadingBit : ℚ) ≤ num / den * 2 ^ (1074 - (e : ℤ))) := by
  have hlow := lt_div_of_log2 hnum hden
  have hhigh := div_lt_of_log2 num hden
  obtain ⟨top, htop⟩ : ∃ top : ℤ, (num.log2 : ℤ) - den.log2 = top := ⟨_, rfl⟩
  obtain ⟨e, he⟩ : ∃ e, (top + 1021).toNat = e := ⟨_, rfl⟩
  have hbits : nearestBits num den =
      let e := if (scaled num den e).1 / (scaled num den e).2 < 2 * leadingBit then e else e + 1
      e * leadingBit + roundDiv (scaled num den e).1 (scaled num den e).2 := by
    rw [← he, ← htop]
    rfl
  dsimp only at hbits
  rw [htop] at hlow hhigh
  by_cases hfits : (scaled num den e).1 / (scaled num den e).2 < 2 * leadingBit
  · rw [if_pos hfits] at hbits
    refine ⟨e, hbits, (floor_scaled_lt_iff hden e).mp hfits, ?_⟩
    by_cases hzero : e = 0
    · exact .inl hzero
    · exact .inr (leadingBit_le_mul (by omega) hlow)
  · -- the logarithms put the number one binade too low
    rw [if_neg hfits] at hbits
    have hlarge := not_lt.mp ((floor_scaled_lt_iff hden e).not.mp hfits)
    refine ⟨e + 1, hbits, mul_lt_leadingBit (by omega) (by positivity) hhigh, .inr ?_⟩
    rw [mul_succ]
    linarith

section

variable {d : Decimal} {t : ℚ}

theorem Near.le (h : d.Near t) : d.significand - d.gap ≤ t ∧ t ≤ d.significand + 1 / 2 := by
  unfold Near at h
  split at h
  · exact h
  · exact ⟨h.1.le, h.2.le⟩

/-- On the grid of the decimal itself, the nearest number is its significand. At a tie it is even,
which is what being near asks for. -/
theorem Near.roundDiv_eq {num den : Nat} (hden : 0 < den) (h : d.Near (num / den)) :
    roundDiv num den = d.significand := by
  have hgap := d.gap_le
  refine Decimal.roundDiv_eq hden ⟨by linarith [h.le.1], h.le.2⟩ fun hodd => ?_
  unfold Near at h
  rw [if_neg (by omega)] at h
  exact ⟨(by linarith [h.1] : (d.significand - 1 / 2 : ℚ) < num / den).ne, h.2.ne⟩

/-- Only below a power of two do numbers round up to a decimal from the binade below, on the finer
grid there. So this is the one case in which the two grids differ. -/
theorem Near.eq_leadingBit (h : d.Near t) (hd : 0 < d.binade) (ht : t < leadingBit) :
    d.significand = leadingBit ∧ leadingBit - 1 / 4 ≤ t := by
  have hle : (leadingBit : ℚ) ≤ d.significand := by exact_mod_cast d.le_significand hd
  have hsignificand : d.significand = leadingBit := by
    by_contra hne
    have hgap := d.gap_le
    have hlt : leadingBit + 1 ≤ d.significand := by
      have := d.le_significand hd
      omega
    have hlt : (leadingBit + 1 : ℚ) ≤ d.significand := by exact_mod_cast hlt
    linarith [h.le.1]
  have hgap : d.gap = 1 / 4 := if_pos ⟨hsignificand, hd⟩
  have hlow := h.le.1
  rw [hgap, hsignificand] at hlow
  exact ⟨hsignificand, hlow⟩

/-- The binade below a decimal is the next one, and the decimal is a power of two. -/
theorem Near.below {e : Nat} (h : d.Near t) (he : e < d.binade)
    (ht : t * 2 ^ ((d.binade : ℤ) - e) < 2 * leadingBit) :
    d.binade = e + 1 ∧ d.significand = leadingBit ∧ leadingBit - 1 / 4 ≤ t := by
  have hbit : (1 : ℚ) ≤ leadingBit := by norm_num [leadingBit]
  have hpos : 0 < t := by
    have hle : (leadingBit : ℚ) ≤ d.significand := by
      exact_mod_cast d.le_significand (Nat.zero_lt_of_lt he)
    linarith [h.le.1, d.gap_le]
  have hdouble : (2 : ℚ) ≤ 2 ^ ((d.binade : ℤ) - e) := by
    calc (2 : ℚ)
      _ = 2 ^ (1 : ℤ) := (zpow_one 2).symm
      _ ≤ 2 ^ ((d.binade : ℤ) - e) := zpow_le_zpow_right₀ one_le_two (by omega)
  obtain ⟨hsignificand, hlower⟩ := h.eq_leadingBit (by omega) (by nlinarith)
  refine ⟨?_, hsignificand, hlower⟩
  by_contra hne
  have hfour : (4 : ℚ) ≤ 2 ^ ((d.binade : ℤ) - e) := by
    calc (4 : ℚ)
      _ = 2 ^ (2 : ℤ) := by norm_num
      _ ≤ 2 ^ ((d.binade : ℤ) - e) := zpow_le_zpow_right₀ one_le_two (by omega)
  nlinarith

/-- No number near a decimal lies in a binade above, since the next binade begins behind all that
rounds to the decimal. -/
theorem Near.le_binade {e : Nat} (h : d.Near t)
    (ht : e = 0 ∨ (leadingBit : ℚ) ≤ t * 2 ^ ((d.binade : ℤ) - e)) : e ≤ d.binade := by
  by_contra hlt
  have hhalf : (2 : ℚ) ^ ((d.binade : ℤ) - e) ≤ 1 / 2 := by
    calc (2 : ℚ) ^ ((d.binade : ℤ) - e)
      _ ≤ 2 ^ (-1 : ℤ) := zpow_le_zpow_right₀ one_le_two (by omega)
      _ = 1 / 2 := by norm_num
  have hpos : (0 : ℚ) < 2 ^ ((d.binade : ℤ) - e) := by positivity
  have hbit : (leadingBit : ℚ) ≤ t * 2 ^ ((d.binade : ℤ) - e) := ht.resolve_left (by omega)
  have hle : t ≤ d.significand + 1 / 2 := h.le.2
  have hlast : (d.significand + 1 : ℚ) ≤ 2 * leadingBit := by exact_mod_cast d.significand_lt
  nlinarith

end

/-- **A number near a decimal is rounded to it.** Either it lies in the binade of the decimal, or
just below a power of two, where it is rounded up to the first number of the binade. -/
theorem nearestBits_of_near {d : Decimal} {num den : Nat} (hnum : 0 < num) (hden : 0 < den)
    (h : d.Near (num / den * 2 ^ (-d.exponent))) : nearestBits num den = d.magnitude := by
  obtain ⟨e, hbits, hhigh, hlow⟩ := exists_nearestBits hnum hden
  have hunit : (num / den * 2 ^ (1074 - (e : ℤ)) : ℚ) =
      num / den * 2 ^ (-d.exponent) * 2 ^ ((d.binade : ℤ) - e) := by
    rw [mul_assoc, ← zpow_add₀ two_ne_zero, exponent_eq]
    congr 2
    ring
  have hscaled := scaled_eq num den e
  rw [hunit] at hhigh hlow hscaled
  have hscale := scaled_pos num hden e
  rw [hbits, magnitude_eq]
  rcases (h.le_binade hlow).lt_or_eq with hlt | rfl
  · -- on the finer grid below, the number is rounded up to the power of two
    obtain ⟨hnext, hsignificand, hlower⟩ := h.below hlt hhigh
    have hdouble : (2 : ℚ) ^ ((d.binade : ℤ) - e) = 2 := by
      rw [hnext]
      norm_num
    rw [hdouble] at hhigh hscaled
    have hround : roundDiv (scaled num den e).1 (scaled num den e).2 = 2 * leadingBit := by
      refine roundDiv_eq hscale ?_ (by omega)
      rw [hscaled]
      push_cast
      constructor <;> linarith
    rw [hround, hsignificand, hnext]
    ring
  · rw [sub_self, zpow_zero, mul_one] at hscaled
    rw [Near.roundDiv_eq hscale (hscaled ▸ h)]

/-- **A quotient near a finite decimal gives this decimal**, with its sign. -/
theorem ofRatio_of_near {d : Decimal} {num den : Nat} (hd : d.isFinite) (hnum : 0 < num)
    (hden : 0 < den) (h : d.Near (num / den * 2 ^ (-d.exponent))) :
    ofRatio d.negative num den = d := by
  have hbits := nearestBits_of_near hnum hden h
  have hfinite : d.magnitude < infinityBits := by simpa [isFinite] using hd
  unfold ofRatio
  rw [if_neg hnum.ne']
  dsimp only
  rw [dif_pos (hbits.symm ▸ hfinite)]
  cases d
  simp only [hbits]

end RecordService.Decimal
