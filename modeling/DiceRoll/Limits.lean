/-
Limits.

Every loop that a user can start has a cap, and the caps are the user's own to
set. What happens at a cap differs: too many iterations are cut down, a token
with too many dice or sides is refused, and a roll that nests too deeply or
makes too many rolls keeps what it has and refuses the rest.
-/

set_option autoImplicit false

namespace DiceRoll

/-- The caps of a session. -/
structure Limits where
  /-- how many copies an iteration may ask for -/
  maxIterations : Nat
  /-- how many dice a token may ask for -/
  maxDice : Nat
  /-- how many sides a die may have -/
  maxSides : Nat
  /-- how many rounds of explosions a pool may go through; a success pool has
  as many for each of its dice -/
  maxExplosions : Nat
  /-- how many lists may stand inside each other -/
  maxDepth : Nat
  /-- how many rolls one input may make, lists included -/
  maxRolls : Nat
deriving DecidableEq, Repr

/-- The caps of a session that sets none. -/
def Limits.usual : Limits := ⟨20, 100, 1000, 50, 4, 200⟩

end DiceRoll
