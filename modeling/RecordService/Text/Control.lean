/-!
# Control characters

The characters of the Unicode category `Cc`: those below the blank, and the ones from delete to the
last of the second set of controls.

* `RecordService.Text.isControl`: the category itself.
-/

namespace RecordService.Text

/-- The characters of the category `Cc`. -/
def isControl (c : Char) : Bool := c.toNat < 0x20 || (0x7F ≤ c.toNat && c.toNat < 0xA0)

end RecordService.Text
