/-
Pools of dice.

A die that was rolled is the value it shows and whether it stands out in the
trace. A twenty on a twenty-sided die stands out by itself; other dice are made
to stand out when they explode.
-/

import DiceRoll.Dice.Sides
import DiceRoll.Markup
import DiceRoll.Source.Basic

set_option autoImplicit false

namespace DiceRoll

/-- A die that was rolled. -/
structure Die where
  value : Int
  emphasized : Bool
deriving DecidableEq, Repr

namespace Die

/-- A die that does not stand out. -/
def ofValue (v : Int) : Die := ⟨v, false⟩

/-- The same die, standing out. -/
def emphasize (d : Die) : Die := { d with emphasized := true }

/-- How a die is shown. -/
def text (d : Die) : Text :=
  if d.emphasized then Markup.emphasis (Text.ofInt d.value) else Text.ofInt d.value

/-- The die that lies on a face. -/
def ofFace (sides : Sides) (face : Nat) : Die :=
  let value := sides.valueOf face
  ⟨value, sides.isTwenty && value == sides.maxValue⟩

/-- Rolls a die. -/
def roll {σ : Type} [Source σ] (sides : Sides) (s : σ) : Die × σ :=
  let (face, s) := Source.draw sides.faces s
  (ofFace sides face, s)

end Die

/-- The dice of one token, all with the same sides. -/
structure Pool where
  sides : Sides
  dice : List Die
deriving DecidableEq, Repr

/-! ## Sums in a machine word -/

/-- How many values a word of sixty-four bits has. -/
def wordSize : Nat := 0x1_0000_0000_0000_0000

/-- A sum in a word of sixty-four bits. -/
def wordSum (values : List Int) : Int := Int.bmod (values.foldr (· + ·) 0) wordSize

namespace Pool

variable {σ : Type} [Source σ]

/-- Rolls a number of dice. -/
def roll (count : Nat) (sides : Sides) (s : σ) : Pool × σ :=
  let (dice, s) := drawMany (Die.roll sides) count s
  (⟨sides, dice⟩, s)

/-- Rolls as many dice with the same sides. -/
def reroll (p : Pool) (s : σ) : Pool × σ := roll p.dice.length p.sides s

/-- The sum of the dice, in a word of sixty-four bits. -/
def total (p : Pool) : Int := wordSum (p.dice.map Die.value)

/-- The pool with another die at its end. -/
def push (p : Pool) (d : Die) : Pool := { p with dice := p.dice ++ [d] }

end Pool

/-! ## What a token comes to -/

/-- A part of a roll after its dice are rolled: what it adds to the arithmetic,
and how it is shown. -/
structure Resolved where
  expression : Text
  pretty : Text
deriving DecidableEq, Repr

namespace Resolved

/-- A word that stands for itself. -/
def literal (word : Text) : Resolved := ⟨word, word⟩

/-- Dice joined by plus signs. -/
def sumText (dice : List Die) : Text := Markup.group ['+'] (dice.map Die.text)

/-- All the dice added up, shown as they lie. -/
def sum (dice : List Die) : Resolved := literal (sumText dice)

end Resolved

end DiceRoll
