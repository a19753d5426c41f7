/-
Modifiers at work.

A modifier turns a pool that was rolled into the text that is evaluated and the
text that is shown. Both come from the same dice, so what is shown always adds
up to what is evaluated: dice that do not count are struck out in the one and
absent from the other.
-/

import DiceRoll.Dice.Chain
import DiceRoll.Dice.Pool
import DiceRoll.Dice.Token
import DiceRoll.Limits
import DiceRoll.Problem

set_option autoImplicit false

namespace DiceRoll

variable {σ : Type} [Source σ]

namespace Pool

/-! ## Two pools -/

/-- The better of two totals, where better is higher or lower, shown in front of
the other. One twenty-sided die that wins with a twenty stands out. -/
def better (higher : Bool) (p q : Pool) : Resolved :=
  let kept := if higher then max p.total q.total else min p.total q.total
  let other := if higher then min p.total q.total else max p.total q.total
  -- Only a single die can be said to have shown the kept total.
  let natural := p.dice.length == 1 && p.sides.isTwenty && kept == p.sides.maxValue
  let number := Text.ofInt kept
  let shown := if natural then Markup.emphasis number else number
  let sign := if higher then '>' else '<'
  ⟨number, '(' :: shown ++ [' ', sign, ' '] ++ Text.ofInt other ++ [')']⟩

/-- Rolls the pool once more and takes the better of the two. -/
def withSecond (higher : Bool) (p : Pool) (s : σ) : Resolved × σ :=
  let (q, s) := p.reroll s
  (better higher p q, s)

/-! ## Some of the dice -/

/-- The dice from the highest to the lowest. Equal ones stay in their order. -/
def descending (p : Pool) : List Die := p.dice.mergeSort fun a b => decide (b.value ≤ a.value)

/-- The dice from the lowest to the highest. Equal ones stay in their order. -/
def ascending (p : Pool) : List Die := p.dice.mergeSort fun a b => decide (a.value ≤ b.value)

/-- The first `n` dice count, and the others are struck out. Where no die counts
the sum is zero. -/
def select (dice : List Die) (n : Nat) : Resolved :=
  let kept := dice.take n
  let struck := (dice.drop n).map fun d => Markup.strike d.text
  ⟨if kept.isEmpty then ['0'] else Resolved.sumText kept,
    Markup.group ['+'] (kept.map Die.text ++ struck)⟩

/-- The number of dice in a word of thirty-two bits. Dice beyond the last that it can
count are counted from zero again. -/
def count (p : Pool) : Nat := p.dice.length % (maxCount + 1)

/-- The `n` highest dice. -/
def keep (p : Pool) (n : Nat) : Except Problem Resolved :=
  if p.count < n then .error (.keepExceedsCount n p.count)
  else .ok (select p.descending n)

/-- The `n` lowest dice. -/
def lose (p : Pool) (n : Nat) : Except Problem Resolved :=
  if p.count < n then .error (.loseExceedsCount n p.count)
  else .ok (select p.ascending n)

/-! ## More dice -/

/-- Whether a threshold is a value above all that the die can show. -/
def isAbove (t : Threshold) (sides : Sides) : Bool :=
  match t with
  | .atLeast n => sides.maxValue < n
  | .comparison _ => false

/-- A die as it is shown in a pool that explodes: it stands out if it calls for
another. -/
def markExploding (t : Threshold) (d : Die) : Die := if t.isMet d.value then d.emphasize else d

/-- Rolls another die for each one that meets the threshold, within so many
rounds. A threshold that no die meets is refused, and so is a die with a single
side. -/
def explode (t : Threshold) (rounds : Nat) (p : Pool) (s : σ) : Except Problem Resolved × σ :=
  if isAbove t p.sides then (.error .explodeAboveSides, s)
  else if p.sides.faces = 1 then (.error .explodeOnOneSide, s)
  else
    match chain (Die.roll p.sides) (fun d => t.isMet d.value) rounds p.dice s with
    | (none, s) => (.error (.explosionLimit rounds), s)
    | (some dice, s) => (.ok (Resolved.sum (dice.map (markExploding t))), s)

end Pool

/-- What a pool comes to under a modifier. -/
def Modifier.apply (m : Modifier) (limits : Limits) (p : Pool) (s : σ) :
    Except Problem Resolved × σ :=
  match m with
  | .plain => (.ok (Resolved.sum p.dice), s)
  | .advantage =>
    let (r, s) := p.withSecond true s
    (.ok r, s)
  | .disadvantage =>
    let (r, s) := p.withSecond false s
    (.ok r, s)
  | .keep n => (p.keep n, s)
  | .lose n => (p.lose n, s)
  | .explode t => p.explode t limits.maxExplosions s
  | .flat n => (.ok (Resolved.sum (p.push (.ofValue n)).dice), s)

end DiceRoll
