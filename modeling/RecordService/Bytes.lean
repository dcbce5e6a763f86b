/-!
# Bytes

Binary content, as a list of bytes.

* `RecordService.Bytes`: the type.
* `RecordService.Bytes.bigEndian`: a number in a fixed number of bytes.
-/

namespace RecordService

/-- Binary content. -/
abbrev Bytes : Type := List UInt8

namespace Bytes

/-- The last `8 * width` bits of a number, the most significant byte first. -/
def bigEndian : (width : Nat) → Nat → Bytes
  | 0, _ => []
  | width + 1, n => bigEndian width (n / 256) ++ [UInt8.ofNat n]

/-- An integer of 64 bits in two's complement. -/
def ofInteger (n : Int) : Bytes := bigEndian 8 (n % 0x10000000000000000).toNat

/-- The UTF-8 encoding of a text. -/
def ofText (s : String) : Bytes := s.toUTF8.toList

end Bytes

end RecordService
