/-
Thresholds.

A threshold says when a die triggers an effect: when it shows a value or more,
or when a comparison written behind its value holds. A comparison is kept as
text. It is asked by writing the value in front of it and finalizing the whole,
so a text that does not become arithmetic is never met.
-/

import DiceRoll.Arithmetic.Finalize
import DiceRoll.Dice.Error

set_option autoImplicit false

namespace DiceRoll

/-- When a die triggers an effect. -/
inductive Threshold where
  | atLeast (value : Int)
  | comparison (suffix : Text)
deriving DecidableEq, Repr

namespace Threshold

/-- Whether a value triggers the effect. -/
def isMet : Threshold → Int → Bool
  | .atLeast n, v => n ≤ v
  | .comparison suffix, v => (Arithmetic.finalizeOrZero (Text.ofInt v ++ suffix)).isTrue

/-- Reads a threshold: a value if the text holds nothing but digits, and a
comparison otherwise. The empty text is no value. -/
def ofText? (s : Text) : Except DiceError Threshold :=
  if s.allDigits then
    if s.isEmpty || Number.maxInt < s.value then .error .tooLarge else .ok (.atLeast s.value)
  else .ok (.comparison s)

/-- How a threshold is written. -/
def text : Threshold → Text
  | .atLeast n => Text.ofInt n
  | .comparison suffix => suffix

end Threshold

end DiceRoll
