/-
The sides of a die.

A die has numbered faces, or it is a Fate die: three faces that show minus one,
zero and plus one. A face is a number from one up to the number of faces; what
the die shows on a face is its value.
-/

import DiceRoll.Text.Numeral

set_option autoImplicit false

namespace DiceRoll

/-- The sides of a die. -/
inductive Sides where
  | numbered (faces : Nat)
  | fate
deriving DecidableEq, Repr

namespace Sides

/-- The sides of a die of which nothing is said. -/
def twenty : Sides := .numbered 20

/-- How many faces the die has. -/
def faces : Sides → Nat
  | .numbered n => n
  | .fate => 3

/-- What the die shows on a face. -/
def valueOf : Sides → Nat → Int
  | .numbered _, face => face
  | .fate, face => (face : Int) - 2

/-- The highest value that the die can show. -/
def maxValue (s : Sides) : Int := s.valueOf s.faces

/-- Whether this is the die whose highest face stands out in a trace. -/
def isTwenty (s : Sides) : Bool := s == twenty

/-- How the sides are written. -/
def text : Sides → Text
  | .numbered n => Text.ofNat n
  | .fate => ['F']

/-- Whether a text is the letter of the Fate die. -/
def isFateLetter (s : Text) : Bool := s == ['f'] || s == ['F']

/-- Reads sides: the letter of the Fate die, or a positive number of faces. -/
def ofText? (s : Text) : Except NumeralError Sides :=
  if isFateLetter s then .ok .fate
  else
    match Text.positiveWithin maxCount s with
    | .error e => .error e
    | .ok n => .ok (.numbered n)

end Sides

end DiceRoll
