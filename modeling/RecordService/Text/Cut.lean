/-!
# Cutting texts

A text is cut in two at the first occurrence of a character.

* `RecordService.Text.cut`: what is before the character, and what is after it.
-/

namespace RecordService.Text

/-- What is before the first `c`, and what is after it, if there is one. -/
def cut (c : Char) (s : List Char) : List Char × Option (List Char) :=
  match s.dropWhile (· != c) with
  | [] => (s, none)
  | _ :: rest => (s.takeWhile (· != c), some rest)

end RecordService.Text
