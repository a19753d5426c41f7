/-
From a word of a roll to what it comes to.

A word is dice, or arithmetic that is passed on as it stands, or neither. Only
the characters decide whether a word that is no dice token counts as arithmetic,
and whether it makes sense there is found out when the whole roll is finalized.
-/

import DiceRoll.Dice.Modify
import DiceRoll.Dice.Reader
import DiceRoll.Dice.Success

set_option autoImplicit false

namespace DiceRoll

/-- What a word of a roll is. -/
inductive Part where
  | dice (token : DiceToken)
  | math
deriving DecidableEq, Repr

namespace Part

/-- Whether a character makes a word count as arithmetic. -/
def isMathMark (c : Char) : Bool := c.isDigit || ['+', '-', '*', '/', '(', ')'].elem c

/-- Tells what a word is. -/
def ofWord? (word : Text) : Except Problem Part :=
  match DiceToken.ofText? word with
  | .ok token => .ok (.dice token)
  | .error .notDice =>
    if word.any isMathMark then .ok .math else .error (.unrecognized word)
  | .error .zero => .error .weirdRoll
  | .error .tooLarge => .error .upperLimits
  | .error .invalidModifier => .error (.unsupportedModifier word)

end Part

/-! ## Limits -/

/-- Whether a pool stays within the limits. -/
def PoolSpec.isWithin (p : PoolSpec) (limits : Limits) : Bool :=
  p.count ≤ limits.maxDice && p.sides.faces ≤ limits.maxSides

/-- Whether a success pool stays within the limits. -/
def SuccessSpec.isWithin (p : SuccessSpec) (limits : Limits) : Bool := p.count ≤ limits.maxDice

/-! ## Rolling -/

variable {σ : Type} [Source σ]

/-- Rolls a dice token that stays within the limits. -/
def DiceToken.roll (token : DiceToken) (limits : Limits) (s : σ) : Except Problem Resolved × σ :=
  match token with
  | .pool p =>
    if p.isWithin limits then
      let (rolled, s) := Pool.roll p.count p.sides s
      p.modifier.apply limits rolled s
    else (.error .upperLimits, s)
  | .successes p => if p.isWithin limits then p.roll limits s else (.error .upperLimits, s)

/-- What a word of a roll comes to. -/
def resolve (limits : Limits) (word : Text) (s : σ) : Except Problem Resolved × σ :=
  match Part.ofWord? word with
  | .error problem => (.error problem, s)
  | .ok .math => (.ok (Resolved.literal word), s)
  | .ok (.dice token) => token.roll limits s

end DiceRoll
