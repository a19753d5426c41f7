/-
The markup of a trace.

A trace shows dice with the markup of chat messages: underlined bold for a die
that stands out, bold for a success, struck out for a die that does not count.
The same text is also what gets evaluated, so one kind of markup has to come off
again: underlined bold around a number, and only around a number.
-/

import DiceRoll.Text.Basic

set_option autoImplicit false

namespace DiceRoll.Markup

/-- What opens an emphasis. -/
def emphasisOpen : Text := ['_', '_', '*', '*']

/-- What closes an emphasis. -/
def emphasisClose : Text := ['*', '*', '_', '_']

/-- Underlined bold, for natural maximums and dice that explode. -/
def emphasis (s : Text) : Text := emphasisOpen ++ s ++ emphasisClose

/-- Bold, for successes. -/
def bold (s : Text) : Text := ['*', '*'] ++ s ++ ['*', '*']

/-- Struck out, for dice that are shown and not counted. -/
def strike (s : Text) : Text := ['~', '~'] ++ s ++ ['~', '~']

/-- Items joined by a separator, in parentheses when there is more than one. -/
def group (separator : Text) (items : List Text) : Text :=
  let joined := separator.intercalate items
  if 1 < items.length then '(' :: joined ++ [')'] else joined

/-! ## Taking emphasis off numbers -/

/-- Whether a character may stand in an emphasized number, after the sign. -/
def isNumberChar (c : Char) : Bool := c.isDigit || c == '.'

/-- The minus sign in front of a number, if there is one, and what follows. -/
def sign : Text → Text × Text
  | '-' :: s => (['-'], s)
  | s => ([], s)

/-- Reads an emphasized number at the front of a text: the number, and what
follows the emphasis. -/
def emphasized? (s : Text) : Option (Text × Text) :=
  match Text.after? emphasisOpen s with
  | none => none
  | some inside =>
    let (minus, digits) := sign inside
    let number := digits.takeWhile isNumberChar
    if number.isEmpty then none
    else
      (Text.after? emphasisClose (digits.dropWhile isNumberChar)).map fun rest =>
        (minus ++ number, rest)

/-- The text with the emphasis taken off every number. -/
def plain : Text → Text := Text.substitute emphasized?

end DiceRoll.Markup
