/-
Dice tokens.

A dice token asks for one of two things. A pool is a number of equal dice and at
most one modifier, which says what becomes of them once they are rolled. A
success pool is a number of ten-sided dice, each of which scores by itself.
Every token has one canonical text, and reading that text gives the token back.
-/

import DiceRoll.Dice.Sides
import DiceRoll.Dice.Threshold

set_option autoImplicit false

namespace DiceRoll

/-- What becomes of a pool once it is rolled. -/
inductive Modifier where
  /-- the sum of the dice -/
  | plain
  /-- the higher of two sums, of this pool and of another like it -/
  | advantage
  /-- the lower of two sums -/
  | disadvantage
  /-- the sum of the highest dice, as many as told -/
  | keep (count : Nat)
  /-- the sum of the lowest dice, as many as told -/
  | lose (count : Nat)
  /-- one more die for each die that meets the threshold, and so on -/
  | explode (threshold : Threshold)
  /-- the sum of the dice and a fixed amount -/
  | flat (amount : Nat)
deriving DecidableEq, Repr

/-- How a modifier is written behind the sides. -/
def Modifier.text : Modifier → Text
  | .plain => []
  | .advantage => ['a']
  | .disadvantage => ['d']
  | .keep n => 'k' :: Text.ofNat n
  | .lose n => 'l' :: Text.ofNat n
  | .explode t => 'e' :: t.text
  | .flat n => '+' :: Text.ofNat n

/-- A number of equal dice and what becomes of them. -/
structure PoolSpec where
  count : Nat
  sides : Sides
  modifier : Modifier
deriving DecidableEq, Repr

/-- A number of ten-sided dice that score one by one: each at the success value
or above, more where the double or triple threshold is met, and again with
another die where the explode threshold is met. -/
structure SuccessSpec where
  count : Nat
  success : Nat
  double : Option Threshold
  triple : Option Threshold
  explode : Option Threshold
deriving DecidableEq, Repr

/-- A success pool of which nothing but the number of dice is said. -/
def SuccessSpec.ofCount (count : Nat) : SuccessSpec := ⟨count, 5, none, none, none⟩

/-- A dice token. -/
inductive DiceToken where
  | pool (spec : PoolSpec)
  | successes (spec : SuccessSpec)
deriving DecidableEq, Repr

/-! ## Text -/

/-- The canonical text of a pool. The count and the sides are always written. -/
def PoolSpec.text (p : PoolSpec) : Text :=
  Text.ofNat p.count ++ 'd' :: (p.sides.text ++ p.modifier.text)

/-- A flag with its threshold, if it is set. -/
def flagText (flag : Char) : Option Threshold → Text
  | none => []
  | some t => flag :: t.text

/-- The canonical text of a success pool: the flags in the order triple, double,
explode. -/
def SuccessSpec.text (p : SuccessSpec) : Text :=
  Text.ofNat p.count ++ 'w' :: (Text.ofNat p.success
    ++ (flagText 't' p.triple ++ (flagText 'd' p.double ++ flagText 'e' p.explode)))

/-- The canonical text of a dice token. -/
def DiceToken.text : DiceToken → Text
  | .pool p => p.text
  | .successes p => p.text

end DiceRoll
