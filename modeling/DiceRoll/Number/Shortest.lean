/-
The shortest text of a floating-point value.

Many decimals round to one floating-point value; they form an interval around
it, and the value's text is the decimal in that interval with the fewest digits.
The search goes from coarse decimal grids to fine ones and asks on each about
the two grid points next to the value. All of it is exact arithmetic on natural
numbers.

The digits are laid out positionally whatever the size of the value: no
exponent is ever written, and a whole value has no point. Where two decimals of
the same length are equally close, the larger one is taken.
-/

import DiceRoll.Text.Basic
import DiceRoll.Number.Binary

set_option autoImplicit false

namespace DiceRoll

/-- A decimal: `digits * 10 ^ exponent`. -/
structure Decimal where
  digits : Nat
  exponent : Int
deriving DecidableEq, Repr

namespace Decimal

/-! ## Layout -/

/-- The positional text of a decimal. Zeros fill the places between the digits
and the point, on either side. -/
def text (d : Decimal) : Text :=
  let ds := Text.ofNat d.digits
  let places := (-d.exponent).toNat
  if 0 ≤ d.exponent then ds ++ List.replicate d.exponent.toNat '0'
  else if places < ds.length then
    ds.take (ds.length - places) ++ '.' :: ds.drop (ds.length - places)
  else '0' :: '.' :: (List.replicate (places - ds.length) '0' ++ ds)

/-! ## Which decimals round to a value -/

/-- Compares `a * 10 ^ i` with `n * 2 ^ j` by moving every power to the side
where its exponent is not negative. -/
def compareScaled (a : Nat) (i : Int) (n : Nat) (j : Int) : Ordering :=
  compare (a * Nat.pow 10 i.toNat * Nat.pow 2 (-j).toNat)
    (n * Nat.pow 2 j.toNat * Nat.pow 10 (-i).toNat)

/-- Whether a decimal rounds to the value `m * 2 ^ q`. The interval reaches
halfway to each neighbour and includes its ends exactly when `m` is even, since
a half goes to the even neighbour. Below a power of two the neighbours stand
twice as close as above it. -/
def roundsTo (m : Nat) (q : Int) (d : Decimal) : Bool :=
  -- The ends are counted in quarters of the last place, which makes them whole numbers.
  let low := if m = Nat.pow 2 52 ∧ -1074 < q then 4 * m - 1 else 4 * m - 2
  let high := 4 * m + 2
  let even := m % 2 = 0
  let atLow := compareScaled d.digits d.exponent low (q - 2)
  let atHigh := compareScaled d.digits d.exponent high (q - 2)
  (atLow = .gt ∨ (even ∧ atLow = .eq)) ∧ (atHigh = .lt ∨ (even ∧ atHigh = .eq))

/-! ## The search -/

/-- The grid point at or below `m * 2 ^ q` on the grid of step `10 ^ e`, counted
in steps. -/
def stepsBelow (m : Nat) (q e : Int) : Nat :=
  m * Nat.pow 2 q.toNat * Nat.pow 10 (-e).toNat / (Nat.pow 2 (-q).toNat * Nat.pow 10 e.toNat)

/-- The better of the two neighbours of `m * 2 ^ q` on the grid of step
`10 ^ e`, among those that round to the value: the closer one, and the upper one
if they are equally close. -/
def onGrid (m : Nat) (q e : Int) : Option Decimal :=
  let below : Decimal := ⟨stepsBelow m q e, e⟩
  let above : Decimal := ⟨below.digits + 1, e⟩
  match roundsTo m q below, roundsTo m q above with
  | true, true =>
    -- The middle of the two neighbours against the value, both doubled.
    if compareScaled (2 * below.digits + 1) e (2 * m) q = .gt then some below else some above
  | true, false => some below
  | false, true => some above
  | false, false => none

/-- An exponent at which the grid is at least as coarse as the value is large.
The fraction is a little above the decimal logarithm of two. -/
def coarsest (m : Nat) (q : Int) : Int :=
  Int.fdiv (((m.log2 : Int) + q + 1) * 30103) 100000 + 1

/-- The shortest decimal that rounds to `m * 2 ^ q`, for positive `m`: the first
hit on ever finer grids. Seventeen digits always suffice; were there no hit, the
exact value would stand. -/
def shortest (m : Nat) (q : Int) : Decimal :=
  ((List.range 22).findSome? fun (i : Nat) => onGrid m q (coarsest m q - i)).getD
    ⟨m * Nat.pow 2 q.toNat * Nat.pow 5 (-q).toNat, min q 0⟩

end Decimal

/-- The text of a floating-point value. Zero keeps its sign, and the values that
are no numbers have names. -/
def Binary.text : Binary → Text
  | .nan => ['N', 'a', 'N']
  | .infinite negative => (if negative then ['-'] else []) ++ ['i', 'n', 'f']
  | .finite negative mantissa exponent =>
    (if negative then ['-'] else []) ++
      if mantissa = 0 then ['0'] else (Decimal.shortest mantissa exponent).text

end DiceRoll
