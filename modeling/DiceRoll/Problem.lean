/-
Problems.

A roll never fails as a whole. Whatever goes wrong is a problem that stands in
the roll beside the parts that went right, and its wording is what the user sees
in place of a result.
-/

import DiceRoll.Text.Basic

set_option autoImplicit false

namespace DiceRoll

/-- What can go wrong in a roll. -/
inductive Problem where
  /-- more iterations than allowed; as many as allowed were used -/
  | tooManyIterations (used : Nat)
  /-- a macro whose name could never be invoked -/
  | unusableMacro (name : Text)
  /-- a word that is neither dice nor arithmetic -/
  | unrecognized (word : Text)
  /-- a dice token with a modifier that does not exist -/
  | unsupportedModifier (word : Text)
  /-- no dice, or dice without sides -/
  | weirdRoll
  /-- more dice or sides than allowed -/
  | upperLimits
  | keepExceedsCount (keep count : Nat)
  | loseExceedsCount (lose count : Nat)
  | explodeAboveSides
  | explodeOnOneSide
  /-- dice still exploded after the last round allowed -/
  | explosionLimit (rounds : Nat)
  /-- nothing to roll -/
  | empty
  | tooDeep
  | tooManyRolls (limit : Nat)
deriving DecidableEq, Repr

/-- The wording for the user. -/
def Problem.message : Problem → Text
  | .tooManyIterations used =>
    "Too many iterations: used ".toList ++ Text.ofNat used ++ " instead.".toList
  | .unusableMacro name =>
    "Macro `".toList ++ name ++ ("` could not be applied: ".toList
      ++ "macro names cannot contain spaces, `#`, `;` or `,`".toList)
  | .unrecognized word => "Unrecognized roll expression: ".toList ++ word
  | .unsupportedModifier word => "Unsupported dice modifier: ".toList ++ word
  | .weirdRoll => "Weird roll.".toList
  | .upperLimits => "Congrats, you found my upper limits!".toList
  | .keepExceedsCount keep count =>
    "Keep value is more than die count (".toList ++ Text.ofNat keep ++ " > ".toList
      ++ Text.ofNat count ++ [')']
  | .loseExceedsCount lose count =>
    "Keep lower value is more than die count (".toList ++ Text.ofNat lose ++ " > ".toList
      ++ Text.ofNat count ++ [')']
  | .explodeAboveSides => "Your explode cannot be greater than the die value.".toList
  | .explodeOnOneSide =>
    "exploding on a d1 creates a black hole, and your character dies.".toList
  | .explosionLimit rounds =>
    "Too many explosions: stopped after ".toList ++ Text.ofNat rounds ++ ['.']
  | .empty => "Empty roll expression.".toList
  | .tooDeep => "Roll expression is nested too deeply.".toList
  | .tooManyRolls limit => "Too many rolls: stopped after ".toList ++ Text.ofNat limit ++ ['.']

end DiceRoll
