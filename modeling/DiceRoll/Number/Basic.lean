/-
The values of arithmetic.

A value is an exact integer of sixty-four bits until a division leaves a
remainder; from there on it is a floating-point number, and it never turns back.
Whatever would leave either range is an overflow, reported and never rounded or
wrapped away.

Comparison is the exception to exactness. Two values are compared as
floating-point numbers even when both are integers, so integers that differ only
beyond the fifty-third bit compare as equal. The comparison of two integers is
stated on the integers that their floating-point values hold.
-/

import DiceRoll.Number.Shortest

set_option autoImplicit false

namespace DiceRoll

/-- Why an arithmetic expression has no value. -/
inductive EvalError where
  | zeroDivision
  | overflow
deriving DecidableEq, Repr

/-- The wording of the reason. -/
def EvalError.message : EvalError → String
  | .zeroDivision => "cannot divide by zero"
  | .overflow => "arithmetic overflow"

/-- An arithmetic value. -/
inductive Number where
  | int (value : Int)
  | float (value : Float)
deriving DecidableEq

namespace Number

/-! ## The range of integers -/

/-- The least integer value. -/
def minInt : Int := -0x8000_0000_0000_0000

/-- The greatest integer value. -/
def maxInt : Int := 0x7fff_ffff_ffff_ffff

/-- Whether an integer is in the range of integer values. -/
def inRange (n : Int) : Bool := minInt ≤ n && n ≤ maxInt

/-- An integer value, if it is in range. -/
def ofInt? (n : Int) : Except EvalError Number :=
  if inRange n then .ok (.int n) else .error .overflow

/-- A floating-point value, if it is finite. -/
def ofFloat? (x : Float) : Except EvalError Number :=
  if x.isFinite then .ok (.float x) else .error .overflow

/-! ## Reading a value as a floating-point number -/

/-- The nearest floating-point number. -/
def toFloat : Number → Float
  | .int n => Float.ofInt n
  | .float x => x

/-- Whether a value counts as true: it is neither zero nor undefined. -/
def isTrue : Number → Bool
  | .int n => n != 0
  | .float x => x != 0 && !x.isNaN

/-- Truth as a value: one or zero. -/
def ofBool (b : Bool) : Number := .int (if b then 1 else 0)

/-! ## Arithmetic -/

/-- The sum, exact on integers. -/
def add : Number → Number → Except EvalError Number
  | .int a, .int b => ofInt? (a + b)
  | a, b => ofFloat? (a.toFloat + b.toFloat)

/-- The difference, exact on integers. -/
def sub : Number → Number → Except EvalError Number
  | .int a, .int b => ofInt? (a - b)
  | a, b => ofFloat? (a.toFloat - b.toFloat)

/-- The product, exact on integers. -/
def mul : Number → Number → Except EvalError Number
  | .int a, .int b => ofInt? (a * b)
  | a, b => ofFloat? (a.toFloat * b.toFloat)

/-- The quotient of two values as floating-point numbers. -/
def floatQuotient (a b : Number) : Except EvalError Number :=
  ofFloat? (a.toFloat / b.toFloat)

/-- The quotient. Of two integers it stays an integer when it is whole and in
range; the one whole quotient out of range, of the least integer by minus one,
becomes a floating-point number. -/
def div (a b : Number) : Except EvalError Number :=
  if b.isTrue then
    match a, b with
    | .int m, .int n =>
      if m % n = 0 && inRange (m / n) then .ok (.int (m / n))
      else floatQuotient (.int m) (.int n)
    | a, b => floatQuotient a b
  else .error .zeroDivision

/-- The opposite value. Only the least integer has none. -/
def neg : Number → Except EvalError Number
  | .int n => ofInt? (-n)
  | .float x => .ok (.float (-x))

/-! ## Comparison -/

/-- The order of two floating-point numbers; an undefined one is in no order. -/
def compareFloats (x y : Float) : Option Ordering :=
  if x < y then some .lt
  else if y < x then some .gt
  else if x == y then some .eq
  else none

/-- The order of two values as floating-point numbers. -/
def compare? : Number → Number → Option Ordering
  | .int a, .int b => some (compare (Binary.nearestInt a) (Binary.nearestInt b))
  | a, b => compareFloats a.toFloat b.toFloat

/-! ## Text -/

/-- The text of a value. A whole value has no point, and zero no sign. -/
def text : Number → Text
  | .int n => Text.ofInt n
  | .float x => if x == 0 then ['0'] else (Binary.ofFloat x).text

end Number

end DiceRoll
