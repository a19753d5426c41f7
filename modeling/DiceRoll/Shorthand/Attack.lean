/-
Attacks.

An attack is two rolls, one to hit and one for the damage. It is written as the
bonus to hit, a letter for advantage, disadvantage or explosion, a colon, the
dice of the damage, and a bonus to the damage behind another colon. The letter,
the second bonus and its colon may be missing.

The dice of the damage are written with a point in place of the letter, and a
number alone is the size of a single die. A bonus that cannot be read counts as
zero, and one that is zero is not written.
-/

import DiceRoll.Number.Basic
import DiceRoll.Text.Numeral

set_option autoImplicit false

namespace DiceRoll

/-- The parts of an attack as they are written. -/
structure Attack where
  hit : Text
  flag : Text
  dice : Text
  damage : Text
deriving DecidableEq, Repr

namespace Attack

/-! ## Reading -/

/-- The characters of a bonus. -/
def isBonusChar (c : Char) : Bool := c == '-' || c.isDigit

/-- The characters of the dice of the damage. -/
def isDiceChar (c : Char) : Bool := c == '.' || c.isDigit

/-- The letter of an attack, if it is there, and what follows. -/
def letter : Text → Text × Text
  | 'a' :: s => (['a'], s)
  | 'd' :: s => (['d'], s)
  | 'e' :: s => (['e'], s)
  | s => ([], s)

/-- What follows a colon, or the text itself if it begins with none. -/
def skipColon : Text → Text
  | ':' :: s => s
  | s => s

/-- Reads an attack. -/
def ofText? (s : Text) : Option (Attack × Text) :=
  let hit := s.takeWhile isBonusChar
  let (flag, rest) := letter (s.dropWhile isBonusChar)
  match hit, rest with
  | _ :: _, ':' :: rest =>
    let dice := rest.takeWhile isDiceChar
    let behind := skipColon (rest.dropWhile isDiceChar)
    if dice.isEmpty then none
    else some (⟨hit, flag, dice, behind.takeWhile isBonusChar⟩, behind.dropWhile isBonusChar)
  | _, _ => none

/-! ## Writing out -/

/-- The value of a bonus as it is written. -/
def bonus (s : Text) : Int := Text.intWithin Number.minInt Number.maxInt s

/-- A bonus as it is added to a roll. -/
def bonusText (n : Int) : Text :=
  if 0 < n then [' ', '+', ' '] ++ Text.ofInt n
  else if n < 0 then [' ', '-', ' '] ++ Text.ofNat n.natAbs
  else []

/-- The dice of the damage as a dice token: the first point becomes the letter. -/
def diceText (dice : Text) : Text :=
  -- Further points stay as they are, and the word then is no dice token.
  match dice.dropWhile (· != '.') with
  | [] => ['1', 'd'] ++ dice
  | _ :: size => dice.takeWhile (· != '.') ++ 'd' :: size

/-- The two rolls of an attack, each with its title. -/
def text (a : Attack) : Text :=
  ['1', 'd', '2', '0'] ++ a.flag ++ bonusText (bonus a.hit) ++ " # hit; ".toList
    ++ diceText a.dice ++ bonusText (bonus a.damage) ++ " # dmg".toList

/-- The text with its attacks written out. -/
def expand : Text → Text :=
  Text.substitute fun s => (ofText? s).map fun (a, rest) => (a.text, rest)

end Attack

end DiceRoll
