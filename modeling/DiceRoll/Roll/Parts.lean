/-
The parts of a roll.

A text with a separator is a list of rolls. Whichever separator comes first cuts
the whole text, and the other one is left to the entries. A text without one is
a single roll: a body and, behind the first `#`, a title. The body is cut into
words at blanks, and the operators are words of their own even without blanks
around them.
-/

import DiceRoll.Text.Blank

set_option autoImplicit false

namespace DiceRoll

/-! ## Lists -/

/-- What separates the entries of a list. -/
inductive Separator where
  | semicolon
  | comma
deriving DecidableEq, Repr

namespace Separator

/-- How a separator is written. -/
def char : Separator → Char
  | .semicolon => ';'
  | .comma => ','

/-- The separator that a character is. -/
def ofChar? (c : Char) : Option Separator :=
  if c = ';' then some .semicolon else if c = ',' then some .comma else none

/-- What stands between the texts of the entries. -/
def joiner : Separator → Text
  | .semicolon => ['\n']
  | .comma => [',', ' ']

/-- The entries of a text that is cut at a separator, without blanks around them
and without the blank ones. -/
def entries (sep : Separator) (s : Text) : List Text :=
  ((Text.pieces (· == sep.char) s).map Text.trim).filter fun e => !e.isEmpty

end Separator

/-- The separator that comes first in a text. -/
def firstSeparator? (s : Text) : Option Separator := s.findSome? Separator.ofChar?

/-! ## Titles -/

/-- The body of a roll, up to the first `#`. -/
def bodyOf (s : Text) : Text := s.takeWhile (· != '#')

/-- The title of a roll: what follows the first `#`, without blanks around it. A
blank title is none. -/
def titleOf (s : Text) : Option Text :=
  let title := Text.trim ((s.dropWhile (· != '#')).drop 1)
  if title.isEmpty then none else some title

/-! ## Words -/

/-- A character with blanks around it if it is an operator. The letter `x` is the
sign for times. -/
def spaced (c : Char) : Text :=
  if c == '+' || c == '-' || c == '(' || c == ')' then [' ', c, ' ']
  else if c == '*' || c == 'x' then [' ', '*', ' ']
  else [c]

/-- Whether a word is a command, which is not part of the roll: it begins with
the escape and has more to it. -/
def isCommand (escape word : Text) : Bool :=
  !escape.isEmpty && (Text.after? escape word).isSome && word != escape

/-- The words of a body, without commands. -/
def wordsOf (escape body : Text) : List Text :=
  (Text.words (body.flatMap spaced)).filter fun w => !isCommand escape w

end DiceRoll
