import RecordService.Bytes

/-!
# Text as bytes

Texts travel in UTF-8. Bytes that are no text are read in two ways: strictly, or with one
replacement character for each longest run of bytes that begins a character without finishing it.

* `RecordService.Encoding.decode`: the characters of some bytes, and the places of the faults.
* `RecordService.Bytes.text?`: strict reading.
* `RecordService.Bytes.textLossy`: reading with replacements.
* `RecordService.Bytes.textPart`: the text up to the first fault.
-/

namespace RecordService

namespace Encoding

/-- What the first byte of a character says: its share of the code point, and for each of the bytes
that have to follow the least and the greatest value that it may have. -/
def lead? (b : Nat) : Option (Nat × List (Nat × Nat)) :=
  let tail := (0x80, 0xBF)
  if b < 0x80 then some (b, [])
  else if b < 0xC2 then none
  else if b < 0xE0 then some (b - 0xC0, [tail])
  else if b = 0xE0 then some (0, [(0xA0, 0xBF), tail])
  else if b = 0xED then some (0xD, [(0x80, 0x9F), tail])
  else if b < 0xF0 then some (b - 0xE0, [tail, tail])
  else if b = 0xF0 then some (0, [(0x90, 0xBF), tail, tail])
  else if b < 0xF4 then some (b - 0xF0, [tail, tail, tail])
  else if b = 0xF4 then some (4, [(0x80, 0x8F), tail, tail])
  else none

/-- The code point begun by `code`, when bytes in the given ranges follow, and the bytes that come
after those in range. -/
def follow (code : Nat) : List (Nat × Nat) → Bytes → Option Nat × Bytes
  | [], s => (some code, s)
  | _ :: _, [] => (none, [])
  | (least, greatest) :: ranges, b :: s =>
    if least ≤ b.toNat ∧ b.toNat ≤ greatest then follow (code * 64 + (b.toNat - 0x80)) ranges s
    else (none, b :: s)

theorem length_follow_le (code : Nat) (ranges : List (Nat × Nat)) (s : Bytes) :
    (follow code ranges s).2.length ≤ s.length := by
  fun_induction follow code ranges s with
  | case1 => exact Nat.le_refl _
  | case2 => exact Nat.le_refl _
  | case3 code least greatest ranges b s _ ih => exact Nat.le_succ_of_le ih
  | case4 => exact Nat.le_refl _

/-- The characters that some bytes encode, with `none` for each run of bytes that begins a character
and does not finish it. -/
def decode : Bytes → List (Option Char)
  | [] => []
  | b :: s =>
    match lead? b.toNat with
    | none => none :: decode s
    | some (code, ranges) =>
      (follow code ranges s).1.map Char.ofNat :: decode (follow code ranges s).2
termination_by s => s.length
decreasing_by
  · exact Nat.lt_succ_self _
  · exact Nat.lt_succ_of_le (length_follow_le _ _ _)

/-- What stands for bytes that are no character. -/
def replacement : Char := '\uFFFD'

end Encoding

namespace Bytes

/-- The text that some bytes encode. -/
def text? (s : Bytes) : Option String := String.ofList <$> (Encoding.decode s).mapM id

/-- The text that some bytes encode, with replacements where they are no text. -/
def textLossy (s : Bytes) : String :=
  String.ofList ((Encoding.decode s).map (·.getD Encoding.replacement))

/-- The text that some bytes encode up to the first place where they are no text. -/
def textPart (s : Bytes) : String :=
  String.ofList (((Encoding.decode s).takeWhile Option.isSome).filterMap id)

end Bytes

end RecordService
