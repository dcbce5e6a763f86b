import RecordService.Proofs.Query.Typing
import RecordService.Proofs.Text.Numeral

/-!
# Literals of canonical filters

The literals of canonical texts are tokens that the scanner reads back, and they are literals for the
properties that they are compared with. For decimals and moments this says that a text can be read
again, which is left as a condition (`RecordService.Value.ReadsBack`).

* `RecordService.Filter.Numeral`: the texts that are numbers.
* `RecordService.Filter.literalKind`: what a literal is as a token.
* `RecordService.Filter.text_literalKind`: the text of this token is the text of the literal.
* `RecordService.Filter.writes_literalKind`: this token is a literal again.
-/

namespace RecordService

/-! ### Numbers -/

/-- Another sign in front of what has none makes no difference to whether it is a number. -/
theorem Token.isNumber_minus {c : Char} (hc : c ≠ '-') (s : List Char) :
    isNumber ('-' :: c :: s) = isNumber (c :: s) := by
  conv_rhs => unfold isNumber
  split
  · rename_i heq
    exact absurd (List.cons.inj heq).1 hc
  · rfl

/-- Digits, perhaps with a point and further digits, are a number, also after a minus sign. -/
theorem Token.isNumber_of_isDigit {ds r : List Char} (hne : ds ≠ []) (hds : ∀ c ∈ ds, c.isDigit)
    (hr : r = [] ∨ ∃ fs, r = '.' :: fs ∧ fs ≠ [] ∧ ∀ c ∈ fs, c.isDigit) :
    isNumber (ds ++ r) ∧ isNumber ('-' :: (ds ++ r)) := by
  have hpoint : ∀ c ∈ ds, (c != '.') = true := by
    intro c hc
    have hne : c ≠ '.' := by
      rintro rfl
      exact absurd (hds '.' hc) (by decide)
    simpa using hne
  have hhead : ∀ c ∈ r.head?, (c != '.') = false := by
    rcases hr with rfl | ⟨fs, rfl, -⟩
    · simp
    · simp
  obtain ⟨htake, hdrop⟩ := Lists.takeWhile_dropWhile_append hpoint hhead
  have hwhole : isDigits ds = true := by
    simpa [isDigits, hne] using hds
  have hminus : isNumber ('-' :: (ds ++ r)) = true := by
    simp only [isNumber, htake, hdrop, hwhole, Bool.true_and]
    rcases hr with rfl | ⟨fs, rfl, hfs, hdigits⟩
    · rfl
    · simpa [isDigits, hfs] using hdigits
  refine ⟨?_, hminus⟩
  -- digits bring no sign
  obtain ⟨c, cs, rfl⟩ := List.exists_cons_of_ne_nil hne
  have hc : c ≠ '-' := by
    rintro rfl
    exact absurd (hds '-' (by simp)) (by decide)
  rw [List.cons_append] at hminus ⊢
  rwa [← isNumber_minus hc]

/-- One or more digits. -/
def Filter.Digits (s : List Char) : Prop := s ≠ [] ∧ ∀ c ∈ s, c.isDigit

/-- Digits behind an optional minus sign, and perhaps a point with further digits. -/
def Filter.Numeral (s : List Char) : Prop :=
  ∃ sign whole fraction, s = sign ++ whole ++ fraction ∧ (sign = [] ∨ sign = ['-']) ∧ Digits whole ∧
    (fraction = [] ∨ ∃ digits, fraction = '.' :: digits ∧ Digits digits)

theorem Filter.digits_of_isDigits {s : List Char} (h : Token.isDigits s) : Digits s := by
  simpa [Token.isDigits, Digits] using h

/-- **The numbers of filters** are the numerals. The one is a test of the tokens, and the other says
what a numeral looks like. -/
theorem Filter.isNumber_iff_numeral {s : List Char} : Token.isNumber s ↔ Numeral s := by
  constructor
  · intro h
    -- what is left when a sign is taken off
    obtain ⟨sign, r, rfl, hsign, hr⟩ : ∃ sign r, s = sign ++ r ∧ (sign = [] ∨ sign = ['-']) ∧
        Token.isNumber ('-' :: r) := by
      cases s with
      | nil => exact absurd h (by decide)
      | cons c s =>
        by_cases hc : c = '-'
        · exact ⟨['-'], s, by rw [hc]; rfl, .inr rfl, hc ▸ h⟩
        · exact ⟨[], c :: s, rfl, .inl rfl, by rwa [Token.isNumber_minus hc]⟩
    simp only [Token.isNumber, Bool.and_eq_true] at hr
    refine ⟨sign, r.takeWhile (· != '.'), r.dropWhile (· != '.'), ?_, hsign,
      digits_of_isDigits hr.1, ?_⟩
    · rw [List.append_assoc, List.takeWhile_append_dropWhile]
    · cases hdrop : r.dropWhile (· != '.') with
      | nil => exact .inl rfl
      | cons p fraction =>
        have hp : p = '.' := by simpa [hdrop] using List.head?_dropWhile_not (· != '.') r
        rw [hdrop] at hr
        exact .inr ⟨fraction, by rw [hp], digits_of_isDigits hr.2⟩
  · rintro ⟨sign, whole, fraction, rfl, hsign, hwhole, hfraction⟩
    have hnumber := Token.isNumber_of_isDigit hwhole.1 hwhole.2 hfraction
    rcases hsign with rfl | rfl
    · exact hnumber.1
    · exact hnumber.2

/-- The text of an integer is a number, the sign included. -/
theorem Token.isNumber_integer (z : Int) : isNumber (Text.integer z).toList := by
  cases z with
  | ofNat n =>
    have h := (isNumber_of_isDigit (Nat.toDigits_ne_nil (n := n) (b := 10))
      (fun c => Text.isDigit_of_mem_toDigits) (.inl rfl)).1
    simpa [Text.integer, Text.natural] using h
  | negSucc n =>
    have h := (isNumber_of_isDigit (Nat.toDigits_ne_nil (n := n + 1) (b := 10))
      (fun c => Text.isDigit_of_mem_toDigits) (.inl rfl)).2
    simpa [Text.integer, Text.natural] using h

/-- The digits of a decimal, with the point at its place: there are digits in front of it, and
behind it if there is a point at all. -/
theorem Decimal.positionalText_eq (s : Decimal.Scientific) :
    ∃ ds r, (Decimal.positionalText "" s).toList = ds ++ r ∧ ds ≠ [] ∧ (∀ c ∈ ds, c.isDigit) ∧
      (r = [] ∨ ∃ fs, r = '.' :: fs ∧ fs ≠ [] ∧ ∀ c ∈ fs, c.isDigit) := by
  have hpadded : ∀ n, ∀ c ∈ List.replicate n '0' ++ Nat.toDigits 10 s.digits, c.isDigit := by
    intro n c hc
    rcases List.mem_append.mp hc with hc | hc
    · obtain rfl := List.eq_of_mem_replicate hc
      decide
    · exact Text.isDigit_of_mem_toDigits hc
  unfold Decimal.positionalText
  dsimp only
  split
  · refine ⟨Nat.toDigits 10 s.digits ++ List.replicate s.exponent.toNat '0', [], by simp,
      by simp [Nat.toDigits_ne_nil], fun c hc => ?_, .inl rfl⟩
    rcases List.mem_append.mp hc with hc | hc
    · exact Text.isDigit_of_mem_toDigits hc
    · obtain rfl := List.eq_of_mem_replicate hc
      decide
  · rename_i hexp
    have hplaces : 0 < (-s.exponent).toNat := by omega
    -- zeros in front leave at least one digit before the point
    generalize (-s.exponent).toNat = places at hplaces ⊢
    generalize hds : List.replicate (places + 1 - (Nat.toDigits 10 s.digits).length) '0' ++
      Nat.toDigits 10 s.digits = ds
    have hdigits : ∀ c ∈ ds, c.isDigit := hds ▸ hpadded _
    have hlength : places + 1 ≤ ds.length := by
      rw [← hds, List.length_append, List.length_replicate]
      omega
    refine ⟨ds.take (ds.length - places), '.' :: ds.drop (ds.length - places), by simp,
      ?_, fun c hc => hdigits c (List.mem_of_mem_take hc),
      .inr ⟨_, rfl, ?_, fun c hc => hdigits c (List.mem_of_mem_drop hc)⟩⟩
    · rw [← List.length_pos_iff, List.length_take]
      omega
    · rw [← List.length_pos_iff, List.length_drop]
      omega

/-- The text of a finite decimal is a number, since it is written without an exponent. -/
theorem Token.isNumber_decimal {d : Decimal} (hd : d.isFinite) :
    isNumber (d.render Decimal.plain).toList := by
  obtain ⟨ds, r, htext, hne, hds, hr⟩ := Decimal.positionalText_eq (d.shortest .up)
  have h := isNumber_of_isDigit hne hds hr
  unfold Decimal.render
  simp only [hd, if_true, Decimal.plain, Bool.or_true, String.toList_append, htext]
  cases d.negative with
  | true => simpa using h.2
  | false => simpa using h.1

/-! ### Moments -/

/-- A moment is written without quotes, so its literal needs no doubling. -/
theorem DateTime.quote_notMem_render (t : DateTime) : '\'' ∉ t.render.toList := by
  have hpadded : ∀ width n, '\'' ∉ Text.padded width n := by
    intro width n h
    simp only [Text.padded, List.mem_append] at h
    rcases h with h | h
    · exact absurd (List.eq_of_mem_replicate h) (by decide)
    · exact absurd (Text.isDigit_of_mem_toDigits h) (by decide)
  have hyear : '\'' ∉ DateTime.yearText t.date.year := by
    unfold DateTime.yearText
    split
    · exact hpadded _ _
    · split <;> simp [hpadded]
  have hfraction : ∀ nano, '\'' ∉ DateTime.fractionText nano := by
    intro nano
    unfold DateTime.fractionText
    split
    · simp
    · split
      · simp [hpadded]
      · split <;> simp [hpadded]
  simp [DateTime.render, hpadded, hyear, hfraction]

/-- Where there are no quotes, none are doubled. -/
theorem Filter.quoteText_eq {s : String} (h : '\'' ∉ s.toList) :
    (Filter.quoteText s).toList = '\'' :: s.toList ++ ['\''] := by
  have hflat : s.toList.flatMap (fun c => if c = '\'' then [c, c] else [c]) = s.toList := by
    generalize s.toList = cs at h
    induction cs with
    | nil => rfl
    | cons c cs ih =>
      rw [List.mem_cons, not_or] at h
      obtain ⟨hc, hcs⟩ := h
      simp [Ne.symm hc, ih hcs]
  simp [Filter.quoteText, hflat]

/-! ### Literals -/

namespace Filter

/-- What a literal is as a token. -/
def literalKind : Value → TokenKind
  | .text s => .quoted s
  | .dateTime t => .quoted t.render
  | .boolean b => .word (if b then "true" else "false")
  | v => .number v.display

/-- The token of a literal has the text that the literal is printed as. -/
theorem text_literalKind {k : Kind} {v : Value} (h : v.Readable k) :
    (literalKind v).text = (renderLiteral v).toList := by
  cases v with
  | null => cases k <;> exact h.elim
  | blob n => cases k <;> exact h.elim
  | dateTime t =>
    simp [literalKind, TokenKind.text, renderLiteral, quoteText_eq t.quote_notMem_render]
  | boolean b => rfl
  | integer n => rfl
  | decimal d => rfl
  | text s => rfl
  | reference n => rfl

theorem lexical_literalKind {k : Kind} {v : Value} (h : v.Readable k) :
    (literalKind v).Lexical := by
  cases v with
  | null => cases k <;> exact h.elim
  | blob n => cases k <;> exact h.elim
  | dateTime t => trivial
  | boolean b =>
    cases b with
    | true => exact TokenKind.lexical_word (by decide)
    | false => exact TokenKind.lexical_word (by decide)
  | integer n => exact Token.isNumber_integer n
  | decimal d =>
    cases k with
    | decimal => exact Token.isNumber_decimal h
    | _ => exact h.elim
  | text s => trivial
  | reference n => exact Token.isNumber_integer n

end Filter

/-- Whether the text of a value stands for this value under a kind. -/
def Value.ReadsBack (k : Kind) (v : Value) : Prop := ∃ w, Value.coerce k v.display = some w ∧ w.same v

@[simp] theorem Value.same_self {v : Value} (h : ∀ d, v = .decimal d → d.isNaN = false) : v.same v := by
  cases v with
  | decimal d => simp [Value.same, Decimal.same, Decimal.compare, h d rfl]
  | _ => simp [Value.same]

namespace Filter

/-- **The token of a literal is a literal**, with the same value. For decimals and moments this
needs that their texts read back, which is proved where these are read and printed. -/
theorem writes_literalKind {p : Path} {v : Value} (h : v.Readable p.kind)
    (hback : p.kind = .decimal ∨ p.kind = .dateTime → v.ReadsBack p.kind) :
    ∃ w, Writes p (literalKind v) w ∧ w.same v := by
  cases hk : p.kind with
  | integer =>
    rw [hk] at h
    cases v with
    | integer n =>
      have hn : Value.coerce p.kind (Text.integer n) = some (.integer n) := by
        simp [hk, Value.coerce, Text.readInteger?_integer h.1 h.2]
      exact ⟨.integer n, .number (.inl hk) hn, by simp⟩
    | _ => exact h.elim
  | reference =>
    rw [hk] at h
    cases v with
    | reference n =>
      have hn : Value.coerce p.kind (Text.integer n) = some (.reference n) := by
        simp [hk, Value.coerce, Text.readInteger?_integer h.1 h.2]
      exact ⟨.reference n, .number (.inr (.inr hk)) hn, by simp⟩
    | _ => exact h.elim
  | decimal =>
    obtain ⟨w, hw, hsame⟩ := hback (.inl hk)
    rw [hk] at h
    cases v with
    | decimal d => exact ⟨w, .number (.inr (.inl hk)) hw, hsame⟩
    | _ => exact h.elim
  | text =>
    rw [hk] at h
    cases v with
    | text s => exact ⟨.text s, .quoted (.inl hk) (by rw [hk]; rfl), by simp⟩
    | _ => exact h.elim
  | boolean =>
    rw [hk] at h
    cases v with
    | boolean b =>
      cases b with
      | true => exact ⟨.boolean true, .true hk, by simp⟩
      | false => exact ⟨.boolean false, .false hk, by simp⟩
    | _ => exact h.elim
  | dateTime =>
    obtain ⟨w, hw, hsame⟩ := hback (.inr hk)
    rw [hk] at h
    cases v with
    | dateTime t => exact ⟨w, .quoted (.inr hk) hw, hsame⟩
    | _ => exact h.elim
  | blob =>
    rw [hk] at h
    cases v <;> exact h.elim

end Filter

end RecordService
