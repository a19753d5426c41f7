/-
What a floating-point value is, exactly.

A finite value is a whole number of times a power of two. Three rules of this
library have to be exact to the last bit: the shortest text of a value, the
comparison of two integers, which goes through the nearest values that a
floating-point number can hold, and the face that a sample of the unit interval
selects. All three are integer arithmetic on the parts that this file takes out
of the bits, so none of them rests on what a floating-point operation does.
-/

set_option autoImplicit false

namespace DiceRoll

/-- A floating-point value taken apart. A finite value is
`mantissa * 2 ^ exponent`, with the sign kept apart so that zero has two forms. -/
inductive Binary where
  | nan
  | infinite (negative : Bool)
  | finite (negative : Bool) (mantissa : Nat) (exponent : Int)
deriving DecidableEq, Repr

namespace Binary

/-- Takes a value apart: one bit of sign, eleven of exponent, fifty-two of
fraction. The least exponent field drops the leading one of the mantissa, the
greatest holds the infinities and the undefined values. -/
def ofFloat (x : Float) : Binary :=
  let bits := x.toBits.toNat
  let negative : Bool := Nat.pow 2 63 ≤ bits
  let field : Nat := bits / Nat.pow 2 52 % Nat.pow 2 11
  let fraction : Nat := bits % Nat.pow 2 52
  -- The exponent counts the last bit of the fraction, so its bias is larger by fifty-two.
  if field = 2047 then
    if fraction = 0 then .infinite negative else .nan
  else if field = 0 then .finite negative fraction (-1074)
  else .finite negative (Nat.pow 2 52 + fraction) ((field : Int) - 1075)

/-! ## Rounding to a mantissa -/

/-- The quotient rounded to the nearest whole number, a half to the even one. -/
def roundQuotient (n d : Nat) : Nat :=
  if 2 * (n % d) < d ∨ (2 * (n % d) = d ∧ n / d % 2 = 0) then n / d else n / d + 1

/-- The nearest number that a mantissa of fifty-three bits can hold, a half to
the even neighbour. -/
def nearest (n : Nat) : Nat :=
  let unit := Nat.pow 2 (n.log2 + 1 - 53)
  roundQuotient n unit * unit

/-- **Small numbers are held exactly.** Below `2 ^ 53` no bit is lost. -/
theorem nearest_of_lt (n : Nat) (hn : n < Nat.pow 2 53) : nearest n = n := by
  have hlog : n.log2 + 1 - 53 = 0 := by
    rcases Nat.eq_zero_or_pos n with h | h
    · subst h; decide
    · have := (Nat.log2_lt (by omega : n ≠ 0)).2 hn
      omega
  simp [nearest, roundQuotient, hlog, Nat.mod_one]

/-- The integer that the nearest floating-point value to an integer holds. -/
def nearestInt : Int → Int
  | .ofNat n => nearest n
  | .negSucc n => -(nearest (n + 1) : Int)

end Binary

end DiceRoll
