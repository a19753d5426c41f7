/-
Writing out shorthand.

A text is written out before it is cut into rolls. The passes run in a fixed
order, each on what the one before it has left: the abilities of a new
character, an iteration, the user's macros, checks, attacks, and another
iteration for what the passes in between have brought in.
-/

import DiceRoll.Macro.Invoke
import DiceRoll.Shorthand.Attack
import DiceRoll.Shorthand.Check
import DiceRoll.Shorthand.Iteration

set_option autoImplicit false

namespace DiceRoll

namespace Abilities

/-- The word that asks for the abilities of a new character. -/
def word : Text := ['a', 'b', 'i', 'l', 'i', 't', 'i', 'e', 's']

/-- The rolls for the six abilities, each the best three of four dice. -/
def rolls : Text := [';'].intercalate (List.replicate 6 ['4', 'd', '6', 'k', '3'])

/-- A text that mentions the abilities stands for their rolls as a whole. -/
def expand (s : Text) : Text := if Text.contains word s then rolls else s

end Abilities

/-- The text with all its shorthand written out, and the problems found on the
way. -/
def MacroBook.writeOut (b : MacroBook) (maxIterations : Nat) (s : Text) : Text × List Problem :=
  let (iterated, first) := Iteration.expand maxIterations (Abilities.expand s)
  let (invoked, second) := b.expand iterated
  let (done, third) := Iteration.expand maxIterations (Attack.expand (Check.expand invoked))
  (done, first ++ second ++ third)

end DiceRoll
