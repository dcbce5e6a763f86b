/-!
# Blank characters

The characters that separate words: those with the Unicode property `White_Space`. Trimming,
skipping and splitting are all stated over lists of characters, with `trim` as the version on
strings.

* `RecordService.Text.isBlank`: the property itself.
* `RecordService.Text.trim`: a text without its leading and trailing blanks.
* `RecordService.Text.words`: the maximal runs of characters that are not blank.
-/

namespace RecordService.Text

/-- The code points with the Unicode property `White_Space`. -/
def isBlank (c : Char) : Bool :=
  let n := c.toNat
  (0x09 ≤ n && n ≤ 0x0D) || n == 0x20 || n == 0x85 || n == 0xA0 || n == 0x1680 ||
    (0x2000 ≤ n && n ≤ 0x200A) || n == 0x2028 || n == 0x2029 || n == 0x202F || n == 0x205F ||
    n == 0x3000

/-- A text without its leading blanks. -/
def skipBlank (s : List Char) : List Char := s.dropWhile isBlank

/-- A text without its leading and its trailing blanks. -/
def trimBlank (s : List Char) : List Char := (skipBlank (skipBlank s).reverse).reverse

/-- `trimBlank` on strings. -/
def trim (s : String) : String := String.ofList (trimBlank s.toList)

theorem length_skipBlank_le (s : List Char) : (skipBlank s).length ≤ s.length :=
  (List.dropWhile_suffix isBlank).length_le

/-- What follows the leading blanks does not begin with one. -/
theorem isBlank_of_skipBlank {s r : List Char} {c : Char} (h : skipBlank s = c :: r) :
    isBlank c = false := by
  induction s with
  | nil => simp [skipBlank] at h
  | cons d s ih =>
    by_cases hd : isBlank d
    · exact ih (by simpa [skipBlank, List.dropWhile_cons, hd] using h)
    · obtain ⟨rfl, -⟩ : d = c ∧ s = r := by simpa [skipBlank, List.dropWhile_cons, hd] using h
      simpa using hd

/-- The words of a text: its maximal runs of characters that are not blank, in order. -/
def words (s : List Char) : List (List Char) :=
  match _h : skipBlank s with
  | [] => []
  | c :: r => (c :: r).takeWhile (!isBlank ·) :: words (r.dropWhile (!isBlank ·))
termination_by s.length
decreasing_by
  have h₁ := length_skipBlank_le s
  have h₂ := (List.dropWhile_suffix (!isBlank ·) (l := r)).length_le
  simp only [_h, List.length_cons] at h₁
  omega

end RecordService.Text
