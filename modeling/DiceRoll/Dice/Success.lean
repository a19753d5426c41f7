/-
Success pools at work.

Each of the ten-sided dice scores by itself, and the scores are added up. A one
always costs a success, whatever the thresholds say. A die may call for another
whether it scores or not.
-/

import DiceRoll.Dice.Chain
import DiceRoll.Dice.Pool
import DiceRoll.Dice.Token
import DiceRoll.Limits
import DiceRoll.Problem

set_option autoImplicit false

namespace DiceRoll.SuccessSpec

/-- How many faces the dice of a success pool have. -/
def faces : Nat := 10

/-- Whether a threshold is set and met. -/
def meets (t : Option Threshold) (face : Nat) : Bool := t.any fun t => t.isMet face

/-- The successes that a face scores. -/
def points (p : SuccessSpec) (face : Nat) : Int :=
  if face = 1 then -1
  else if face < p.success then 0
  else if meets p.triple face then 3
  else if meets p.double face then 2
  else 1

/-- How a face is shown: struck out, plain, or bold with a mark for each further
success. -/
def shown (p : SuccessSpec) (face : Nat) : Text :=
  let number := Text.ofNat face
  if face = 1 then Markup.strike number
  else if face < p.success then number
  else if meets p.triple face then Markup.bold number ++ ['^', '^']
  else if meets p.double face then Markup.bold number ++ ['^']
  else Markup.bold number

/-- The sum of the scores, in a word of sixty-four bits. -/
def total (p : SuccessSpec) (rolled : List Nat) : Int := wordSum (rolled.map p.points)

/-- The sum of the scores, and the dice in the order in which they were rolled. -/
def resolved (p : SuccessSpec) (rolled : List Nat) : Resolved :=
  ⟨Text.ofInt (p.total rolled), Markup.group [',', ' '] (rolled.map p.shown)⟩

/-- How many rounds of explosions the pool may go through: as many for each die,
within a word of sixty-four bits. -/
def rounds (p : SuccessSpec) (limits : Limits) : Nat :=
  min (limits.maxExplosions * p.count) (wordSize - 1)

/-- Rolls a success pool. -/
def roll {σ : Type} [Source σ] (p : SuccessSpec) (limits : Limits) (s : σ) :
    Except Problem Resolved × σ :=
  let draw := Source.draw faces
  -- The dice of the first round are those of the token; only later rounds are capped.
  let (first, s) := drawMany draw p.count s
  match chain draw (meets p.explode) (p.rounds limits) first s with
  | (none, s) => (.error (.explosionLimit (p.rounds limits)), s)
  | (some rolled, s) => (.ok (p.resolved rolled), s)

end DiceRoll.SuccessSpec
