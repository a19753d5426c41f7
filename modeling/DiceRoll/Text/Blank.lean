/-
Blanks: the characters of the property White_Space.

Trimming, the words of a roll, the forbidden characters of an expression and the
shape of macro names all ask about the same set, so the set has one name. The
arithmetic reader skips a smaller set of its own, four characters, and refuses
the other blanks.
-/

import DiceRoll.Text.Range
import DiceRoll.Text.Basic

set_option autoImplicit false

namespace DiceRoll.Text

/-- The twenty-five blank code points. -/
def blankRanges : Ranges :=
  [(0x9, 0xD), (0x20, 0x20), (0x85, 0x85), (0xA0, 0xA0), (0x1680, 0x1680), (0x2000, 0x200A),
    (0x2028, 0x2029), (0x202F, 0x202F), (0x205F, 0x205F), (0x3000, 0x3000)]

/-- Whether a character is a blank. -/
def isBlank (c : Char) : Bool := blankRanges.contains c.toNat

/-- Drops the blanks in front. -/
def trimLeft (s : Text) : Text := s.dropWhile isBlank

/-- Drops the blanks in front and at the end. Blanks inside stay. -/
def trim (s : Text) : Text := (trimLeft (trimLeft s).reverse).reverse

/-- The longest pieces that hold no blank, in order. -/
def words (s : Text) : List Text := (pieces isBlank s).filter fun w => !w.isEmpty

end DiceRoll.Text
