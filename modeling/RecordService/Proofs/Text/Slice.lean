import RecordService.Proofs.Text.Words

/-!
# Parts of texts by their offsets

A part of a text is given by where its bytes begin and end. Not every pair of offsets does: an offset
may lie within the bytes of a character or behind the end, and the end may come before the beginning
(`RecordService.Text.slice?_eq_some_iff`). What is found by reading characters one after the other
has offsets that do (`RecordService.Text.slice?_of_toList`).

* `RecordService.Text.size`: the number of bytes of some characters.
* `RecordService.Text.slice?`: the part of a text between two offsets.
-/

namespace RecordService.Text

/-! ### Sizes -/

/-- The number of bytes of some characters. -/
def size : List Char → Nat
  | [] => 0
  | c :: s => c.utf8Size + size s

@[simp] theorem size_nil : size [] = 0 := rfl

@[simp] theorem size_cons (c : Char) (s : List Char) : size (c :: s) = c.utf8Size + size s := rfl

@[simp] theorem size_append (a b : List Char) : size (a ++ b) = size a + size b := by
  induction a with
  | nil => simp
  | cons c a ih => simp [ih, Nat.add_assoc]

theorem utf8ByteSize_ofList (s : List Char) : (String.ofList s).utf8ByteSize = size s := by
  induction s with
  | nil => rfl
  | cons c s ih =>
    rw [String.ofList_cons, String.utf8ByteSize_append, String.utf8ByteSize_singleton, ih, size_cons]

theorem utf8ByteSize_eq (s : String) : s.utf8ByteSize = size s.toList := by
  rw [← utf8ByteSize_ofList, String.ofList_toList]

/-! ### Slices -/

/-- The part of a text between two byte offsets, which have to be in order and between characters. -/
def slice? (s : String) (start stop : Nat) : Option String := do
  let first ← s.pos? ⟨start⟩
  let last ← s.pos? ⟨stop⟩
  (s.slice? first last).map String.Slice.copy

theorem pos?_eq_some_iff {s : String} {p : s.Pos} {i : String.Pos.Raw} :
    s.pos? i = some p ↔ p.offset = i := by
  unfold String.pos? String.Slice.pos?
  split
  · next h =>
    simp only [Option.map_some, Option.some.injEq]
    constructor
    · rintro rfl
      rfl
    · rintro rfl
      rfl
  · next h =>
    simp only [Option.map_none, reduceCtorEq, false_iff]
    rintro rfl
    exact h (String.Pos.Raw.isValidForSlice_eq_true_iff.mpr p.toSlice.isValidForSlice)

theorem copy_slice?_eq_some_iff {s part : String} {p q : s.Pos} :
    (s.slice? p q).map String.Slice.copy = some part ↔
      ∃ before after, p.Splits before (part ++ after) ∧ q.Splits (before ++ part) after := by
  rw [← String.copy_slice_eq_iff_splits, String.slice?]
  split
  · next h => simp [h]
  · next h => simp [h]

/-- **A part of a text** is what stands between two others, which its offsets are the sizes of. So
there is none where an offset falls inside of a character. -/
theorem slice?_eq_some_iff {s part : String} {start stop : Nat} :
    slice? s start stop = some part ↔
      ∃ before after : String, s = before ++ part ++ after ∧ start = before.utf8ByteSize ∧
        stop = (before ++ part).utf8ByteSize := by
  simp only [slice?, bind, Option.bind_eq_some_iff, pos?_eq_some_iff, copy_slice?_eq_some_iff]
  constructor
  · rintro ⟨first, hfirst, last, hlast, before, after, h, h'⟩
    refine ⟨before, after, h'.eq_append, ?_, ?_⟩
    · exact congrArg String.Pos.Raw.byteIdx (hfirst.symm.trans h.offset_eq_rawEndPos)
    · exact congrArg String.Pos.Raw.byteIdx (hlast.symm.trans h'.offset_eq_rawEndPos)
  · rintro ⟨before, after, hs, rfl, rfl⟩
    have hs' : s = before ++ (part ++ after) := by rw [hs, String.append_assoc]
    refine ⟨.ofEqAppend hs', ?_, .ofEqAppend hs, ?_, before, after, ?_, ?_⟩
    · exact (String.Pos.splits_ofEqAppend hs').offset_eq_rawEndPos
    · exact (String.Pos.splits_ofEqAppend hs).offset_eq_rawEndPos
    · exact String.Pos.splits_ofEqAppend hs'
    · exact String.Pos.splits_ofEqAppend hs

/-- What stands between characters that were read and characters that follow has their offsets. In
this form a reader of characters tells where it is in the text. -/
theorem slice?_of_toList {s : String} {before part after : List Char}
    (h : s.toList = before ++ part ++ after) :
    slice? s (size before) (size before + size part) = some (String.ofList part) := by
  refine slice?_eq_some_iff.mpr ⟨String.ofList before, String.ofList after, ?_, ?_, ?_⟩
  · rw [← String.ofList_append, ← String.ofList_append, ← h, String.ofList_toList]
  · rw [utf8ByteSize_ofList]
  · rw [String.utf8ByteSize_append, utf8ByteSize_ofList, utf8ByteSize_ofList]

/-- From some characters on to the end of a text. -/
theorem slice?_onward {s : String} {before part : List Char} (h : s.toList = before ++ part) :
    slice? s (size before) s.utf8ByteSize = some (String.ofList part) := by
  rw [utf8ByteSize_eq, h, size_append]
  exact slice?_of_toList (by rw [h, List.append_nil])

/-- What is trimmed is what stands between the blanks, so it is a part of the text as well. -/
theorem exists_slice?_trim (s : String) : ∃ start stop, slice? s start stop = some (trim s) := by
  obtain ⟨gap, -, hs⟩ := exists_blank_append s.toList
  obtain ⟨gap', -, hs'⟩ := exists_blank_append (skipBlank s.toList).reverse
  have hparts : s.toList = gap ++ trimBlank s.toList ++ gap'.reverse := by
    rw [trimBlank, List.append_assoc, ← List.reverse_append, ← hs', List.reverse_reverse, ← hs]
  exact ⟨_, _, slice?_of_toList hparts⟩

/-- Offsets within a character and offsets that are out of order are no part of a text. -/
example : slice? "aéb" 1 3 = some "é" ∧ slice? "aéb" 1 2 = none ∧ slice? "aéb" 3 1 = none := by
  decide +kernel

end RecordService.Text
