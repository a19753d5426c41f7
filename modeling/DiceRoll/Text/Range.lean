/-
Sets of characters given by ranges of code points.

The properties of characters that the readers ask for (blank, part of a word,
cased, ignored by case) come from the Unicode standard, version 16.0, as lists
of closed ranges. This file fixes the shape of such a list and what it means;
each property has a file of its own that holds its ranges.
-/

set_option autoImplicit false

namespace DiceRoll.Text

/-- Closed ranges of code points: first and last. -/
abbrev Ranges := List (Nat × Nat)

/-- A code point is in a list of ranges when one of them spans it. -/
def Ranges.contains (rs : Ranges) (n : Nat) : Bool :=
  rs.any fun r => Nat.ble r.1 n && Nat.ble n r.2

/-- The ranges ascend and leave a gap between neighbours, so that none could be
merged with the next and each code point is spanned at most once. -/
def Ranges.ascending : Ranges → Bool
  | [] => true
  | [r] => r.1 ≤ r.2
  | r :: s :: rs => r.1 ≤ r.2 && r.2 + 1 < s.1 && Ranges.ascending (s :: rs)

end DiceRoll.Text
