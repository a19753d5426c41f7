/-
Why a word is not a dice token.

The four reasons are kept apart because a roll treats them differently: a word
that is no dice token at all may still be arithmetic, and the others are told to
the user.
-/

set_option autoImplicit false

namespace DiceRoll

/-- Why a word is not a dice token. -/
inductive DiceError where
  | notDice
  | zero
  | tooLarge
  | invalidModifier
deriving DecidableEq, Repr

/-- The wording of the reason. -/
def DiceError.message : DiceError → String
  | .notDice => "not a dice expression"
  | .zero => "dice count and sides must be positive"
  | .tooLarge => "dice count or sides too large"
  | .invalidModifier => "unsupported dice modifier"

end DiceRoll
