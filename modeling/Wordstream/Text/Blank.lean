/-!
# Blank characters

The characters that separate tokens: the twenty-five code points with the White_Space property.
-/

namespace Wordstream.Text

/-- The ranges of code points, both ends included, that count as blank. -/
def blankRanges : List (Nat × Nat) :=
  [(0x09, 0x0D), (0x20, 0x20), (0x85, 0x85), (0xA0, 0xA0), (0x1680, 0x1680), (0x2000, 0x200A),
    (0x2028, 0x2029), (0x202F, 0x202F), (0x205F, 0x205F), (0x3000, 0x3000)]

/-- A character is blank when its code point lies in one of the blank ranges. -/
def isBlank (c : Char) : Bool :=
  blankRanges.any fun range => range.1 ≤ c.toNat && c.toNat ≤ range.2

example : isBlank '\n' ∧ isBlank '\r' ∧ isBlank '\t' ∧ isBlank ' ' ∧ !isBlank ';' := by decide

/-- The blank ranges hold twenty-five code points. -/
example : (blankRanges.map fun range => range.2 + 1 - range.1).sum = 25 := by decide

end Wordstream.Text
