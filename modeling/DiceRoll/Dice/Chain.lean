/-
Chains of explosions.

Some of the dice just rolled call for another die each, some of those again, and
so on. The dice rolled together are a round, and the number of rounds after the
first is capped. When the cap is reached and a die still calls for another, the
chain has failed; the faces drawn by then stay drawn.

Pools and success pools chain in the same way. They differ in what they roll and
in which dice call for another, and those are the parameters.
-/

import DiceRoll.Source.Basic

set_option autoImplicit false

namespace DiceRoll

/-- All the dice of a chain in the order in which they were rolled, from its
first round on, or nothing when more than `rounds` further rounds are called
for. -/
def chain {σ α : Type} (draw : σ → α × σ) (again : α → Bool) (rounds : Nat) (first : List α)
    (s : σ) : Option (List α) × σ :=
  if first.countP again = 0 then (some first, s)
  else
    match rounds with
    | 0 => (none, s)
    | n + 1 =>
      let (next, s) := drawMany draw (first.countP again) s
      let (rest, s) := chain draw again n next s
      (rest.map (first ++ ·), s)

end DiceRoll
