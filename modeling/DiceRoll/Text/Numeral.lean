/-
Numerals with a bound.

A numeral can be refused for four reasons, and which one is reported when two
apply is settled by reading from the left: the first character at which
something is wrong decides, and there a character that is no digit counts before
a value that has grown too large. Only a numeral that was read to its end can
turn out to be zero.
-/

import DiceRoll.Text.Basic

set_option autoImplicit false

namespace DiceRoll

/-- Why a text is not a positive number within its bound. -/
inductive NumeralError where
  | empty
  | invalidDigit
  | tooLarge
  | zero
deriving DecidableEq, Repr

/-- The wording of the reason. -/
def NumeralError.message : NumeralError → String
  | .empty => "cannot parse integer from empty string"
  | .invalidDigit => "invalid digit found in string"
  | .tooLarge => "number too large to fit in target type"
  | .zero => "number would be zero for non-zero type"

/-- The greatest count and the greatest number of faces: thirty-two bits. -/
def maxCount : Nat := 0xffff_ffff

namespace Text

/-- Reads digits on behind a value already read. -/
def digitsWithin (bound read : Nat) : Text → Except NumeralError Nat
  | [] => .ok read
  | c :: s =>
    if !c.isDigit then .error .invalidDigit
    else
      let grown := 10 * read + (c.toNat - '0'.toNat)
      if bound < grown then .error .tooLarge else digitsWithin bound grown s

/-- A number within a bound. One plus sign may stand in front of the digits. -/
def numberWithin (bound : Nat) : Text → Except NumeralError Nat
  | [] => .error .empty
  | ['+'] => .error .invalidDigit
  | '+' :: s => digitsWithin bound 0 s
  | s => digitsWithin bound 0 s

/-- A positive number within a bound. -/
def positiveWithin (bound : Nat) (s : Text) : Except NumeralError Nat :=
  match numberWithin bound s with
  | .error e => .error e
  | .ok 0 => .error .zero
  | .ok n => .ok n

/-- The integer that a text denotes, if it is an optional sign and digits, and in
the given range; zero otherwise. -/
def intWithin (low high : Int) (s : Text) : Int :=
  let (negative, digits) : Bool × Text :=
    match s with
    | '-' :: ds => (true, ds)
    | '+' :: ds => (false, ds)
    | ds => (false, ds)
  let n : Int := if negative then -(digits.value : Int) else digits.value
  if digits.isEmpty || !digits.allDigits || n < low || high < n then 0 else n

end Text

end DiceRoll
