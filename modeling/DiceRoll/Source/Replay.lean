/-
Replayed sources.

A replayed source draws from a list that is fixed beforehand and begins again
when the list is used up. The list holds either faces, which wrap around the die
that asks for them, or samples of the unit interval, which are scaled to it.

A sample is scaled by a floating-point product that is cut down to a whole
number. The product is the exact one, rounded to a mantissa of fifty-three bits,
so it is worked out here on the mantissa itself. The face is counted in words of
thirty-two bits, like the faces of the die, and a count that leaves them stops the
run: there is no face then, and the run has no answer.
-/

import DiceRoll.Source.Basic
import DiceRoll.Number.Binary

set_option autoImplicit false

namespace DiceRoll

/-! ## One face -/

/-- The face that a recorded draw selects. Zero stands for the highest face, and
a draw above it wraps around. -/
def faceOfDraw (draw faces : Nat) : Nat :=
  if draw = 0 then faces else (draw - 1) % faces + 1

/-- How many whole faces of a die a sample of the unit interval passes over. A
sample above the interval counts as its upper end, one below it as its lower
end, and so does one that is no finite number. -/
def facesPassed (faces : Nat) : Binary → Nat
  | .finite false mantissa exponent =>
    -- At one and above every face is passed, whatever the size of the sample.
    let step := Nat.pow 2 exponent.toNat
    let whole := Nat.pow 2 (-exponent).toNat
    if whole ≤ mantissa * step then faces
    else Binary.nearest (mantissa * faces) * step / whole
  | _ => 0

/-- The face that a sample selects: the next one behind the faces that it passes over,
or the last one where that is none. It is counted before it is cut down, and there is
no face if the count leaves a word. -/
def faceOfSample (sample : Float) (faces : Nat) : Option Nat :=
  let face := 1 + facesPassed faces (Binary.ofFloat sample)
  if face < Nat.pow 2 32 then some (min face faces) else none

/-! ## The source -/

/-- What a replayed source draws from. -/
inductive Script where
  | draws (faces : List Nat)
  | samples (values : List Float)
  /-- a face could not be counted: the run was stopped, and whatever it gives is no answer -/
  | stopped

/-- The face that a script gives as its `i`-th, counted from zero, if it gives one. An
empty list of draws gives the highest face. -/
def Script.face? (i faces : Nat) : Script → Option Nat
  | .draws xs => some (faceOfDraw (xs.getD (i % xs.length) 0) faces)
  | .samples xs => faceOfSample (xs.getD (i % xs.length) 0) faces
  | .stopped => none

/-- A script and how many faces were drawn from it. -/
structure Replay where
  script : Script
  drawn : Nat

/-- Whether a replay was stopped, so that nothing it gave counts. -/
def Replay.isStopped (r : Replay) : Bool :=
  match r.script with
  | .stopped => true
  | _ => false

instance : Source Replay where
  draw faces r :=
    match r.script.face? r.drawn faces with
    | some face => (face, { r with drawn := r.drawn + 1 })
    -- A stopped run goes on with highest faces to its end, where it is thrown away.
    | none => (faces, ⟨.stopped, r.drawn + 1⟩)

end DiceRoll
