import RecordService.Http.Address
import RecordService.Proofs.Text.Numeral
import RecordService.Proofs.Text.Words

/-!
# What addresses stand for

A segment addresses a record if it is a name and, in parentheses behind it, the numeral of an
identity, with blanks around the numeral where a client likes. It addresses a set if nothing stands
in parentheses behind a name. Every record has an address, and no segment addresses two records, or
one that its text does not name (`RecordService.Http.Address.read_unambiguous`).

* `RecordService.Http.Address.IsName`: the names that addresses can have.
* `RecordService.Http.Address.split?_eq_some_iff`: a name and what is in parentheses behind it.
* `RecordService.Http.Address.read_record_iff`: the segments that address records.
-/

namespace RecordService

/-! ### The digits of integers -/

namespace Text

/-- An integer is written without blanks: it has digits, and a sign if it is negative. -/
theorem isBlank_of_mem_integer {z : Int} {c : Char} (h : c ∈ (integer z).toList) :
    isBlank c = false := by
  cases z with
  | ofNat n =>
    have hdigits : (integer (.ofNat n)).toList = Nat.toDigits 10 n := by simp [integer, natural]
    rw [hdigits] at h
    exact isBlank_of_isDigit (isDigit_of_mem_toDigits h)
  | negSucc n =>
    have hdigits : (integer (.negSucc n)).toList = '-' :: Nat.toDigits 10 (n + 1) := by
      simp [integer, natural]
    rw [hdigits] at h
    rcases List.mem_cons.mp h with rfl | h
    · decide
    · exact isBlank_of_isDigit (isDigit_of_mem_toDigits h)

/-- Trimming leaves a written integer as it is, since nothing in it is blank. -/
theorem trim_integer (z : Int) : trim (integer z) = integer z := by
  rw [trim, trimBlank_of_forall fun _ => isBlank_of_mem_integer, String.ofList_toList]

end Text

namespace Http.Address

/-- Whether a text is a name that an address can have. -/
structure IsName (s : String) : Prop where
  ne_empty : s ≠ ""
  opening : '(' ∉ s.toList
  closing : ')' ∉ s.toList
  dollar : s.toList.head? ≠ some '$'

/-! ### Parentheses -/

/-- **A name with something in parentheses.** The first parenthesis ends the name, and the last
character closes what stands in parentheses, which can have parentheses of its own. -/
theorem split?_eq_some_iff {s name inner : List Char} :
    split? s = some (name, inner) ↔
      s = name ++ '(' :: (inner ++ [')']) ∧ name ≠ [] ∧ '(' ∉ name ∧ ')' ∉ name ∧ '\n' ∉ inner := by
  have hsplit := List.takeWhile_append_dropWhile (p := fun c => c != '(' && c != ')') (l := s)
  have hdrop {before after : List Char} (h : before ++ after = s) :
      s.drop before.length = after := by
    rw [← h, List.drop_left]
  unfold split?
  dsimp only
  rw [hdrop hsplit]
  constructor
  · intro h
    split at h
    · next rest hrest =>
      obtain ⟨⟨⟨hne, hlast⟩, hline⟩, rfl, rfl⟩ := by
        simpa only [Option.ite_none_right_eq_some, Option.some.injEq, Prod.mk.injEq,
          Bool.and_eq_true, Bool.not_eq_true', beq_iff_eq] using h
      obtain ⟨inner, rfl⟩ := List.getLast?_eq_some_iff.mp hlast
      rw [List.dropLast_concat] at hline ⊢
      have hname : ∀ c ∈ s.takeWhile fun c => c != '(' && c != ')', c ≠ '(' ∧ c ≠ ')' :=
        fun c hc => by simpa using List.mem_takeWhile_imp hc
      refine ⟨?_, by simpa using hne, fun h => (hname _ h).1 rfl, fun h => (hname _ h).2 rfl,
        by simpa using hline⟩
      rw [← hrest, hsplit]
    · simp at h
  · rintro ⟨rfl, hne, hopening, hclosing, hline⟩
    have hname : ∀ c ∈ name, c != '(' && c != ')' := by
      intro c hc
      simp [ne_of_mem_of_not_mem hc hopening, ne_of_mem_of_not_mem hc hclosing]
    obtain ⟨htake, hrest⟩ := Lists.takeWhile_dropWhile_append (r := '(' :: (inner ++ [')'])) hname
      (by simp)
    rw [htake, hrest]
    simp [hne, hline]

/-! ### Segments -/

variable {segment entity inner : String} {id : Int}

/-- The segment for a record, as the characters that it is split into. -/
theorem toList_record (entity inner : String) :
    (entity ++ "(" ++ inner ++ ")").toList = entity.toList ++ '(' :: (inner.toList ++ [')']) := by
  simp

/-- A keyword is what begins with a dollar sign. -/
theorem isKeyword_eq_false_iff : isKeyword segment = false ↔ segment.toList.head? ≠ some '$' := by
  simp [isKeyword]

/-- A keyword is no address, and it is refused before anything else is looked at. So a set whose
name begins with a dollar sign could not be reached. -/
theorem read_keyword (h : segment.toList.head? = some '$') :
    read segment = .error (.malformedRequest s!"Unknown keyword {segment}.") := by
  have hkeyword : isKeyword segment := by simp [isKeyword, h]
  rw [read, if_pos hkeyword]
  rfl

/-- **What is read of a name with something in parentheses**: the integer that is there, if there is
one. -/
theorem read_record (h : IsName entity) (hline : '\n' ∉ inner.toList) :
    read (entity ++ "(" ++ inner ++ ")") =
      match Text.readInteger? (Text.trim inner) with
      | some id => .ok ⟨entity, some id⟩
      | none => .error (.badRequest s!"invalid Id '{inner}'") := by
  have hne : entity.toList ≠ [] := by simpa using h.ne_empty
  have hkeyword : isKeyword (entity ++ "(" ++ inner ++ ")") = false := by
    rw [isKeyword_eq_false_iff, toList_record, List.head?_append,
      Option.or_of_isSome (List.isSome_head?.mpr hne)]
    exact h.dollar
  have hsplit : split? (entity ++ "(" ++ inner ++ ")").toList = some (entity.toList, inner.toList) :=
    split?_eq_some_iff.mpr ⟨toList_record entity inner, hne, h.opening, h.closing, hline⟩
  rw [read, if_neg (by simp [hkeyword]), hsplit]
  cases hread : Text.readInteger? (Text.trim inner) <;> simp only [String.ofList_toList, hread]

/-- A segment is a keyword, a name with something in parentheses, or the name of a set. So reading
fails only where `RecordService.Http.Address.read_keyword` or
`RecordService.Http.Address.read_record` says so. -/
theorem read_cases (segment : String) :
    segment.toList.head? = some '$' ∨
      (∃ entity inner, IsName entity ∧ '\n' ∉ inner.toList ∧
        segment = entity ++ "(" ++ inner ++ ")") ∨
      read segment = .ok ⟨segment, none⟩ := by
  by_cases hkeyword : segment.toList.head? = some '$'
  · exact .inl hkeyword
  refine .inr ?_
  cases hsplit : split? segment.toList with
  | none =>
    rw [read, if_neg (by simp [isKeyword_eq_false_iff.mpr hkeyword]), hsplit]
    exact .inr rfl
  | some parts =>
    obtain ⟨hsegment, hne, hopening, hclosing, hline⟩ := split?_eq_some_iff.mp hsplit
    refine .inl ⟨String.ofList parts.1, String.ofList parts.2, ⟨?_, ?_, ?_, ?_⟩, ?_, ?_⟩
    · simpa using hne
    · simpa using hopening
    · simpa using hclosing
    · rwa [hsegment, List.head?_append, Option.or_of_isSome (List.isSome_head?.mpr hne),
        ← String.toList_ofList (l := parts.1)] at hkeyword
    · simpa using hline
    · rw [← String.toList_inj, toList_record, String.toList_ofList, String.toList_ofList, hsegment]

/-- **The segments that address a record.** The numeral is described without a reader, as a sign and
digits, so that this does not say the same as the definition. -/
theorem read_record_iff :
    read segment = .ok ⟨entity, some id⟩ ↔
      IsName entity ∧ Text.minInteger ≤ id ∧ id ≤ Text.maxInteger ∧
        ∃ inner, segment = entity ++ "(" ++ inner ++ ")" ∧ '\n' ∉ inner.toList ∧
          Text.Numeral (Text.trim inner).toList id := by
  constructor
  · intro h
    rcases read_cases segment with hkeyword | ⟨name, inner, hname, hline, rfl⟩ | hset
    · rw [read_keyword hkeyword] at h
      simp at h
    · rw [read_record hname hline] at h
      split at h
      · next k hk =>
        obtain ⟨rfl, hid⟩ := Address.mk.inj (Except.ok.inj h)
        obtain ⟨hnumeral, hmin, hmax⟩ := Text.readInteger?_eq_some_iff.mp hk
        obtain rfl := Option.some.inj hid
        exact ⟨hname, hmin, hmax, inner, rfl, hline, hnumeral⟩
      · simp at h
    · rw [hset] at h
      simp at h
  · rintro ⟨hname, hmin, hmax, inner, rfl, hline, hnumeral⟩
    rw [read_record hname hline, Text.readInteger?_eq_some_iff.mpr ⟨hnumeral, hmin, hmax⟩]

/-- **Addresses of records are unambiguous.** The name of a set addresses the set, and with the
numeral of an identity in parentheses it addresses this record. The other way round, a segment
addresses a record only if it is a name, and behind it in parentheses a text that is, once it is
trimmed, a numeral of just this identity. What is in parentheses and is no numeral, or one that is
out of range, is refused, and so are keywords. -/
theorem read_unambiguous :
    (∀ entity id, IsName entity → Text.minInteger ≤ id → id ≤ Text.maxInteger →
      read (entity ++ "(" ++ Text.integer id ++ ")") = .ok ⟨entity, some id⟩ ∧
        read entity = .ok ⟨entity, none⟩) ∧
      (∀ segment entity id, read segment = .ok ⟨entity, some id⟩ ↔
        IsName entity ∧ Text.minInteger ≤ id ∧ id ≤ Text.maxInteger ∧
          ∃ inner, segment = entity ++ "(" ++ inner ++ ")" ∧ '\n' ∉ inner.toList ∧
            Text.Numeral (Text.trim inner).toList id) ∧
      (∀ entity inner, IsName entity → '\n' ∉ inner.toList →
        (∀ z, Text.Numeral (Text.trim inner).toList z → z < Text.minInteger ∨ Text.maxInteger < z) →
        read (entity ++ "(" ++ inner ++ ")") = .error (.badRequest s!"invalid Id '{inner}'")) ∧
      ∀ segment, segment.toList.head? = some '$' →
        read segment = .error (.malformedRequest s!"Unknown keyword {segment}.") := by
  refine ⟨fun entity id hname hmin hmax => ⟨?_, ?_⟩, fun _ _ _ => read_record_iff,
    fun entity inner hname hline hrange => ?_, fun _ => read_keyword⟩
  · have hread := Text.readInteger?_integer hmin hmax
    have hline : '\n' ∉ (Text.integer id).toList := fun h =>
      absurd (Text.isBlank_of_mem_integer h) (by decide)
    rw [read_record hname hline, Text.trim_integer, hread]
  · rcases read_cases entity with hkeyword | ⟨name, inner, -, -, rfl⟩ | hset
    · exact absurd hkeyword hname.dollar
    · exact absurd (by simp) hname.opening
    · exact hset
  · rw [read_record hname hline]
    cases hread : Text.readInteger? (Text.trim inner) with
    | none => rfl
    | some z =>
      obtain ⟨hnumeral, hmin, hmax⟩ := Text.readInteger?_eq_some_iff.mp hread
      rcases hrange z hnumeral with h | h
      · exact absurd hmin (Int.not_le.mpr h)
      · exact absurd hmax (Int.not_le.mpr h)

/-- The least identity, one with a sign and blanks, one that is out of range, and a keyword. -/
theorem read_unambiguous_album :
    IsName "Album" ∧
      read "Album(-9223372036854775808)" = .ok ⟨"Album", some Text.minInteger⟩ ∧
      read "Album( +07\t)" = .ok ⟨"Album", some 7⟩ ∧
      read "Album(9223372036854775808)" =
        .error (.badRequest "invalid Id '9223372036854775808'") ∧
      read "$count(1)" = .error (.malformedRequest "Unknown keyword $count(1).") := by
  have hname : IsName "Album" := ⟨by decide, by decide, by decide, by decide⟩
  obtain ⟨hwritten, hrecord, hrange, hkeyword⟩ := read_unambiguous
  refine ⟨hname, ?_, ?_, ?_, hkeyword "$count(1)" (by decide)⟩
  · exact (hwritten "Album" Text.minInteger hname (by decide) (by decide)).1
  · have hnumeral : Text.Numeral ('+' :: ['0', '7']) 7 :=
      .plus (by decide) (List.all_eq_true.mp (by decide))
    exact (hrecord _ _ _).mpr ⟨hname, by decide, by decide, " +07\t", rfl, by decide, hnumeral⟩
  · refine hrange "Album" "9223372036854775808" hname (by decide) fun z hz => .inr ?_
    have hnumeral : Text.Numeral (Text.trim "9223372036854775808").toList 9223372036854775808 :=
      .plain (by decide) (List.all_eq_true.mp (by decide))
    rw [hz.unique hnumeral]
    decide

end Http.Address

end RecordService
