/-
# White space

The characters with the Unicode property White_Space: what may surround a
tag, an argument or a comma.

Key definitions: `isBlank`.
-/
import TagScope.Text.Ranges

namespace TagScope

/-- The code points with the property White_Space. -/
def blankRanges : Ranges :=
   [(0x9, 0xd), (0x20, 0x20), (0x85, 0x85), (0xa0, 0xa0), (0x1680, 0x1680), (0x2000, 0x200a),
    (0x2028, 0x2029), (0x202f, 0x202f), (0x205f, 0x205f), (0x3000, 0x3000)]

/-- Whether a character is white space. -/
def isBlank (c : Char) : Bool := Ranges.holds c.toNat blankRanges

example : blankRanges.increasing := by decide +kernel
example : isBlank ' ' ∧ isBlank '\n' ∧ isBlank '\u00a0' ∧ isBlank '\u3000' := by decide
example : ¬ isBlank ',' ∧ ¬ isBlank '.' ∧ ¬ isBlank '\u200b' := by decide

end TagScope
