import RecordService.Decimal.Text
import RecordService.Proofs.Decimal.Shortest
import RecordService.Proofs.Lists
import RecordService.Proofs.Text.Numeral

/-!
# Decimals that are written can be read

Both layouts write the digits that stay near the decimal, with a point or an exponent. Reading takes
the digits of a numeral as one whole number and the places after the point into its exponent, which
may change the digits and the exponent, but not the number. So it rounds to the decimal again
(`RecordService.Decimal.read?_render`).

* `RecordService.Decimal.ofScientific_of_near`: a numeral near a decimal gives the decimal.
* `RecordService.Decimal.Scientific.Written`: the texts from which the number of a numeral is read.
* `RecordService.Decimal.written_positionalText`, `RecordService.Decimal.written_exponentText`: the
  two ways of writing.
-/

namespace RecordService.Decimal

open Text

/-! ### Numerals near a decimal -/

section

variable {d : Decimal} {s : Scientific}

theorem exponent_le (hd : d.isFinite) : d.exponent ≤ 971 := by
  have hfinite : d.magnitude < infinityBits := by simpa [isFinite] using hd
  unfold infinityBits leadingBit at hfinite
  unfold exponent leadingBit
  split <;> omega

theorem two_zpow_le (n : Nat) : (2 : ℚ) ^ (3 * (n : ℤ)) ≤ 10 ^ (n : ℤ) := by
  rw [zpow_mul, zpow_natCast, zpow_natCast]
  exact pow_le_pow_left₀ (by norm_num) (by norm_num) n

/-- A numeral near a decimal that is not zero has a digit that is not zero. -/
theorem Near.digits_pos (hzero : d.magnitude ≠ 0) (h : d.Near (s.value * 2 ^ (-d.exponent))) :
    0 < s.digits := by
  refine Nat.pos_of_ne_zero fun hdigits => ?_
  have hlow := h.le.1
  have hgap := d.gap_le
  have hsignificand : (1 : ℚ) ≤ d.significand := by exact_mod_cast d.significand_pos hzero
  rw [Scientific.value, hdigits, Nat.cast_zero, zero_mul, zero_mul] at hlow
  linarith

/-- A numeral near a finite decimal is within the powers of ten that are computed. Beyond them the
reader answers without computing. -/
theorem Near.exponent_le (hd : d.isFinite) (hzero : d.magnitude ≠ 0)
    (h : d.Near (s.value * 2 ^ (-d.exponent))) : s.exponent ≤ 400 := by
  by_contra hlarge
  obtain ⟨n, hn⟩ := Int.eq_ofNat_of_zero_le (by omega : 0 ≤ s.exponent)
  have hdigits : (1 : ℚ) ≤ s.digits := by exact_mod_cast h.digits_pos hzero
  have hexp := d.exponent_le hd
  have hlast : (d.significand + 1 : ℚ) ≤ 2 * leadingBit := by exact_mod_cast d.significand_lt
  have hle : (2 : ℚ) ^ (53 : ℤ) ≤ s.value * 2 ^ (-d.exponent) := by
    calc (2 : ℚ) ^ (53 : ℤ)
      _ ≤ 2 ^ (3 * (n : ℤ) + -d.exponent) := zpow_le_zpow_right₀ one_le_two (by omega)
      _ = 2 ^ (3 * (n : ℤ)) * 2 ^ (-d.exponent) := zpow_add₀ two_ne_zero _ _
      _ ≤ 1 * 10 ^ (n : ℤ) * 2 ^ (-d.exponent) := by
        rw [one_mul]
        have := two_zpow_le n
        gcongr
      _ ≤ s.digits * 10 ^ (n : ℤ) * 2 ^ (-d.exponent) := by gcongr
      _ = s.value * 2 ^ (-d.exponent) := by rw [Scientific.value, hn]
  have hbit : (2 * leadingBit : ℚ) = 2 ^ (53 : ℤ) := by norm_num [leadingBit]
  linarith [h.le.2]

/-- **A numeral near a decimal gives the decimal**, as it lies between the bounds and is rounded to
it. -/
theorem ofScientific_of_near (hd : d.isFinite) (hzero : d.magnitude ≠ 0) (hlow : -400 ≤ s.exponent)
    (h : d.Near (s.value * 2 ^ (-d.exponent))) :
    ofScientific d.negative s.digits s.exponent = d := by
  have hdigits := h.digits_pos hzero
  have hhigh := h.exponent_le hd hzero
  unfold ofScientific
  rw [if_neg hdigits.ne', if_neg (by omega), if_neg (by omega)]
  refine ofRatio_of_near hd (Nat.mul_pos hdigits (Nat.pow_pos (by decide)))
    (Nat.pow_pos (by decide)) ?_
  rwa [Scientific.value_eq_div] at h

/-- Every numeral with the value of the shortest digits gives the decimal, in whatever way it is
spelled. -/
theorem ofScientific_of_value_eq (hd : d.isFinite) {tie : Tie} (hlow : -400 ≤ s.exponent)
    (hvalue : s.value = (d.shortest tie).value) :
    ofScientific d.negative s.digits s.exponent = d := by
  by_cases hzero : d.magnitude = 0
  · have hdigits : s.digits = 0 := by
      have hpow : (10 : ℚ) ^ s.exponent ≠ 0 := zpow_ne_zero _ (by norm_num)
      simpa [shortest, hzero, Scientific.value, Scientific.normalize, hpow] using hvalue
    unfold ofScientific
    rw [if_pos hdigits]
    cases d
    subst hzero
    rfl
  · exact ofScientific_of_near hd hzero hlow (hvalue ▸ (near_shortest hzero tie).1)

end

/-! ### Reading numerals -/

section

variable {ds fs r : List Char} {e : Int} {negative : Bool}

/-- Digits without a point are read as they stand. -/
theorem readUnsigned?_whole (hds : ∀ c ∈ ds, c.isDigit) (hne : ds ≠ [])
    (hr : ∀ c ∈ r.head?, ¬c.isDigit ∧ c ≠ '.') (he : readExponent? r = some e) :
    readUnsigned? negative (ds ++ r) =
      some (ofScientific negative (Nat.ofDigitChars 10 ds 0) e) := by
  obtain ⟨htake, hdrop⟩ :=
    Lists.takeWhile_dropWhile_append hds fun c hc => eq_false_of_ne_true (hr c hc).1
  unfold readUnsigned?
  simp only [htake, hdrop]
  split
  · exact absurd rfl (hr '.' rfl).2
  · simp [hne, he]

/-- Digits with a point are read as one number, with an exponent for those behind the point. -/
theorem readUnsigned?_point (hds : ∀ c ∈ ds, c.isDigit) (hfs : ∀ c ∈ fs, c.isDigit) (hne : ds ≠ [])
    (hr : ∀ c ∈ r.head?, ¬c.isDigit) (he : readExponent? r = some e) :
    readUnsigned? negative (ds ++ '.' :: (fs ++ r)) =
      some (ofScientific negative (Nat.ofDigitChars 10 (ds ++ fs) 0) (e - fs.length)) := by
  have hpoint : ∀ c ∈ ('.' :: (fs ++ r)).head?, c.isDigit = false := by simp
  obtain ⟨htake, hdrop⟩ := Lists.takeWhile_dropWhile_append hds hpoint
  obtain ⟨hfraction, hrest⟩ :=
    Lists.takeWhile_dropWhile_append hfs fun c hc => eq_false_of_ne_true (hr c hc)
  have hboth : ds ++ fs ≠ [] := by simp [hne]
  unfold readUnsigned?
  simp only [htake, hdrop, hfraction, hrest, List.isEmpty_iff, if_neg hboth, he, bind, Option.bind]

/-- A signed exponent, which has a sign in any case. -/
theorem splitSign_exponent (e : Int) :
    splitSign (if e < 0 then integer e else "+" ++ integer e).toList =
      (decide (e < 0), Nat.toDigits 10 e.natAbs) := by
  cases e with
  | ofNat n =>
    have hsign : ¬Int.ofNat n < 0 := by simp
    rw [if_neg hsign, decide_eq_false hsign]
    simp [integer, natural, splitSign]
  | negSucc n =>
    have hsign : Int.negSucc n < 0 := Int.negSucc_lt_zero n
    rw [if_pos hsign, decide_eq_true hsign]
    simp [integer, natural, splitSign]

theorem readExponent?_exponent (e : Int) :
    readExponent? ('e' :: (if e < 0 then integer e else "+" ++ integer e).toList) = some e := by
  have hmagnitude : (if decide (e < 0) = true then -(e.natAbs : Int) else e.natAbs) = e := by
    simp only [decide_eq_true_eq]
    split <;> omega
  unfold readExponent?
  simp only [splitSign_exponent, digits?_toDigits, true_or, if_true, bind, Option.bind, hmagnitude]

/-- The words begin with a letter, so a numeral is not taken for one. -/
theorem readWord?_digit {c : Char} (hc : c.isDigit) : readWord? negative (c :: r) = none := by
  have hlower : ['0', '1', '2', '3', '4', '5', '6', '7', '8', '9'].all fun d =>
      d.toLower ≠ 'n' ∧ d.toLower ≠ 'i' := by decide
  obtain ⟨hn, hi⟩ := of_decide_eq_true (List.all_eq_true.mp hlower c (mem_digits hc))
  have hword {d : Char} {u : List Char} (hd : c.toLower ≠ d) :
      String.ofList ((c :: r).map Char.toLower) ≠ String.ofList (d :: u) := by
    intro heq
    rw [String.ofList_inj] at heq
    exact hd (List.cons.inj heq).1
  unfold readWord?
  split
  · next heq => exact absurd heq (hword hn)
  · next heq => exact absurd heq (hword hi)
  · next heq => exact absurd heq (hword hi)
  · rfl

end

/-! ### Writing numerals -/

/-- Whether the number of a numeral is read from a text, which may be read as other digits. -/
structure Scientific.Written (s : Scientific) (text : List Char) : Prop where
  digit : ∃ c r, text = c :: r ∧ c.isDigit
  read : ∃ u : Scientific, u.value = s.value ∧ min s.exponent (-1) ≤ u.exponent ∧
    ∀ negative, readUnsigned? negative text = some (ofScientific negative u.digits u.exponent)

section

variable {s : Scientific} {ds fs r : List Char} {e : Int}

theorem written_whole (hds : ∀ c ∈ ds, c.isDigit) (hne : ds ≠ [])
    (hr : ∀ c ∈ r.head?, ¬c.isDigit ∧ c ≠ '.') (he : readExponent? r = some e)
    (hvalue : Scientific.value ⟨Nat.ofDigitChars 10 ds 0, e⟩ = s.value)
    (hexp : min s.exponent (-1) ≤ e) : s.Written (ds ++ r) where
  digit := by
    obtain ⟨c, ds, rfl⟩ := List.exists_cons_of_ne_nil hne
    exact ⟨c, ds ++ r, rfl, hds c (by simp)⟩
  read := ⟨⟨_, e⟩, hvalue, hexp, fun _ => readUnsigned?_whole hds hne hr he⟩

theorem written_point (hds : ∀ c ∈ ds, c.isDigit) (hfs : ∀ c ∈ fs, c.isDigit) (hne : ds ≠ [])
    (hr : ∀ c ∈ r.head?, ¬c.isDigit) (he : readExponent? r = some e)
    (hvalue : Scientific.value ⟨Nat.ofDigitChars 10 (ds ++ fs) 0, e - fs.length⟩ = s.value)
    (hexp : min s.exponent (-1) ≤ e - fs.length) : s.Written (ds ++ '.' :: (fs ++ r)) where
  digit := by
    obtain ⟨c, ds, rfl⟩ := List.exists_cons_of_ne_nil hne
    exact ⟨c, _, rfl, hds c (by simp)⟩
  read := ⟨⟨_, e - fs.length⟩, hvalue, hexp, fun _ => readUnsigned?_point hds hfs hne hr he⟩

/-- Zeros at the end stand for a power of ten, so a numeral may be written without an exponent. -/
theorem value_zeros (s : Scientific) (hexp : 0 ≤ s.exponent) (k : Nat) :
    Scientific.value ⟨Nat.ofDigitChars 10
      (Nat.toDigits 10 s.digits ++ List.replicate (s.exponent.toNat + k) '0') 0, -(k : Int)⟩ =
        s.value := by
  obtain ⟨n, hn⟩ := Int.eq_ofNat_of_zero_le hexp
  rw [Nat.ofDigitChars_append, Nat.ofDigitChars_replicate_zero, Nat.ofDigitChars_ten_toDigits,
    Scientific.value, Scientific.value, hn, Int.toNat_natCast, zpow_neg, zpow_natCast, zpow_natCast]
  push_cast
  field_simp
  ring

/-- A whole number, with zeros at its end. -/
theorem written_positionalText_of_nonneg {whole : String} (hwhole : whole = "" ∨ whole = ".0")
    (hexp : 0 ≤ s.exponent) : s.Written (positionalText whole s).toList := by
  have hzeros (n : Nat) : ∀ c ∈ List.replicate n '0', c.isDigit := by
    intro c hc
    obtain rfl := List.eq_of_mem_replicate hc
    decide
  have hds : ∀ c ∈ Nat.toDigits 10 s.digits ++ List.replicate s.exponent.toNat '0', c.isDigit :=
    List.forall_mem_append.mpr ⟨fun c => isDigit_of_mem_toDigits, hzeros _⟩
  have hne : Nat.toDigits 10 s.digits ++ List.replicate s.exponent.toNat '0' ≠ [] := by
    simp [Nat.toDigits_ne_nil]
  unfold positionalText
  rw [if_pos hexp]
  rcases hwhole with rfl | rfl
  · have hvalue := value_zeros s hexp 0
    have h := written_whole (r := []) (e := 0) hds hne (by simp) rfl hvalue (by omega)
    simpa using h
  · have hvalue := value_zeros s hexp 1
    rw [List.replicate_add, ← List.append_assoc] at hvalue
    have hzero : ∀ c ∈ ['0'], c.isDigit := hzeros 1
    have h := written_point (r := []) (e := 0) hds hzero hne (by simp) rfl hvalue (by simp)
    simpa using h

/-- Digits before and after a point, with zeros in front that leave one digit before it. -/
theorem written_positionalText_of_neg (whole : String) (hexp : s.exponent < 0) :
    s.Written (positionalText whole s).toList := by
  obtain ⟨places, hplaces⟩ : ∃ places, (-s.exponent).toNat = places := ⟨_, rfl⟩
  obtain ⟨ds, hpadded⟩ : ∃ ds, padded (places + 1) s.digits = ds := ⟨_, rfl⟩
  have hds : ∀ c ∈ ds, c.isDigit := fun c hc => isDigit_of_mem_padded (hpadded ▸ hc)
  have hlength : places + 1 ≤ ds.length := hpadded ▸ le_length_padded
  -- the zeros in front do not count
  have hnumber : Nat.ofDigitChars 10 ds 0 = s.digits := hpadded ▸ ofDigitChars_padded
  have hne : ds.take (ds.length - places) ≠ [] := by
    rw [← List.length_pos_iff, List.length_take]
    omega
  have hplace : 0 - ((ds.drop (ds.length - places)).length : Int) = s.exponent := by
    rw [List.length_drop]
    omega
  have htext : (positionalText whole s).toList =
      ds.take (ds.length - places) ++ '.' :: ds.drop (ds.length - places) := by
    rw [positionalText, if_neg (by omega), hplaces]
    rw [padded] at hpadded
    simp [hpadded]
  have h := written_point (s := s) (r := []) (e := 0) (fun c hc => hds c (List.mem_of_mem_take hc))
    (fun c hc => hds c (List.mem_of_mem_drop hc)) hne (by simp) rfl
    (by rw [List.take_append_drop, hnumber, hplace]) (by omega)
  rwa [htext, ← List.append_nil (ds.drop _)]

/-- **Digits with a point** are read. -/
theorem written_positionalText {whole : String} (hwhole : whole = "" ∨ whole = ".0")
    (s : Scientific) : s.Written (positionalText whole s).toList := by
  rcases lt_or_ge s.exponent 0 with hexp | hexp
  · exact written_positionalText_of_neg whole hexp
  · exact written_positionalText_of_nonneg hwhole hexp

/-- **Digits with an exponent** are read. -/
theorem written_exponentText (s : Scientific) : s.Written (exponentText s).toList := by
  have hdigits : ∀ c ∈ Nat.toDigits 10 s.digits, c.isDigit := fun c => isDigit_of_mem_toDigits
  have hnumber : Nat.ofDigitChars 10 (Nat.toDigits 10 s.digits) 0 = s.digits :=
    Nat.ofDigitChars_ten_toDigits
  have hmark (e : Int) : ∀ c ∈ ('e' :: (if e < 0 then integer e else "+" ++ integer e).toList).head?,
      ¬c.isDigit ∧ c ≠ '.' := by
    simp
  unfold exponentText
  dsimp only
  generalize hexp : s.exponent + ((Nat.toDigits 10 s.digits).length - 1 : Nat) = e
  cases hds : Nat.toDigits 10 s.digits with
  | nil => exact absurd hds Nat.toDigits_ne_nil
  | cons c ds =>
    rw [hds] at hdigits hnumber hexp
    have hc : ∀ b ∈ [c], b.isDigit := by simpa using hdigits c (by simp)
    cases ds with
    | nil =>
      have hplace : e = s.exponent := by simpa using hexp.symm
      have h := written_whole (s := s) hc (by simp) (hmark e) (readExponent?_exponent e)
        (by rw [hnumber, hplace]) (by omega)
      simpa using h
    | cons b ds =>
      have hplace : e - (b :: ds).length = s.exponent := by
        simp only [List.length_cons] at hexp ⊢
        omega
      have hrest : ∀ c ∈ b :: ds, c.isDigit := fun c hc => hdigits c (List.mem_cons_of_mem _ hc)
      have h := written_point (s := s) hc hrest (by simp) (fun c hc => (hmark e c hc).1)
        (readExponent?_exponent e)
        (by rw [List.singleton_append, hnumber, hplace]) (by omega)
      simpa using h

end

/-- **Decimals read back** in both layouts. -/
theorem read?_render {layout : Layout} (hwhole : layout.whole = "" ∨ layout.whole = ".0")
    {d : Decimal} (hd : d.isFinite) : read? (d.render layout) = some d := by
  have hwritten : ∃ text, d.render layout = (if d.negative then "-" else "") ++ text ∧
      (d.shortest layout.tie).Written text.toList := by
    unfold render
    rw [if_pos hd]
    refine ⟨_, rfl, ?_⟩
    split
    · exact written_positionalText hwhole _
    · exact written_exponentText _
  obtain ⟨text, htext, ⟨c, r, hcr, hc⟩, u, hvalue, hexp, hread⟩ := hwritten
  -- reading gives up on powers of ten below this one
  have hlow : -400 ≤ (d.shortest layout.tie).exponent := by
    by_cases hzero : d.magnitude = 0
    · simp [shortest, hzero]
    · exact (near_shortest hzero layout.tie).2
  have hsplit : splitSign (d.render layout).toList = (d.negative, c :: r) := by
    rw [htext, String.toList_append, hcr]
    cases d.negative with
    | true => rfl
    | false => exact splitSign_of_isDigit hc
  unfold read?
  rw [hsplit]
  dsimp only
  rw [readWord?_digit hc, Option.none_or, ← hcr, hread,
    ofScientific_of_value_eq hd (by omega) hvalue]

end RecordService.Decimal
