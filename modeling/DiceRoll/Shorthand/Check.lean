/-
Checks.

A check is a twenty-sided die and a bonus, and it is written as `c` and the
bonus. The letter for advantage or disadvantage may stand behind the bonus and
goes to the die. Checks with a malus are written out first, wherever they stand,
and then those with a bonus.
-/

import DiceRoll.Text.Basic

set_option autoImplicit false

namespace DiceRoll.Check

/-- The letter for advantage or disadvantage at the front of a text, if it is
there, and what follows. -/
def flag : Text → Text × Text
  | 'a' :: s => (['a'], s)
  | 'd' :: s => (['d'], s)
  | s => ([], s)

/-- Reads what follows the mark of a check, and writes the check out with the
given sign. -/
def written? (sign : Char) (s : Text) : Option (Text × Text) :=
  let digits := s.takeWhile Char.isDigit
  if digits.isEmpty then none
  else
    let (letter, rest) := flag (s.dropWhile Char.isDigit)
    some (['1', 'd', '2', '0'] ++ letter ++ [' ', sign, ' '] ++ digits, rest)

/-- Reads a check with a malus. -/
def malus? (s : Text) : Option (Text × Text) := (Text.after? ['c', '-'] s).bind (written? '-')

/-- Reads a check with a bonus. -/
def bonus? (s : Text) : Option (Text × Text) := (Text.after? ['c'] s).bind (written? '+')

/-- The text with its checks written out. -/
def expand (s : Text) : Text := Text.substitute bonus? (Text.substitute malus? s)

end DiceRoll.Check
