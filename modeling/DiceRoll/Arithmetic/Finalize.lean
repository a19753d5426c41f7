/-
Finalizing: from the text that is left once every die is rolled to its value.

The text passes three gates. It may hold only the characters of arithmetic, once
the emphasis is off its numbers; it has to be an expression of the grammar; and
the expression has to have a value. The user is told the same words whichever
gate refuses, and the error keeps which one it was.
-/

import DiceRoll.Arithmetic.Parser
import DiceRoll.Markup
import DiceRoll.Text.Blank

set_option autoImplicit false

namespace DiceRoll

/-- Why a text has no value. The expression kept is the one without emphasis. -/
inductive MathError where
  | nonMath (expression : Text) (found : Char)
  | parse (expression : Text) (cause : ParseError)
  | eval (expression : Text) (cause : EvalError)
deriving DecidableEq

/-- The expression that was refused. -/
def MathError.expression : MathError → Text
  | .nonMath e _ => e
  | .parse e _ => e
  | .eval e _ => e

/-- The wording for the user, the same for every cause. -/
def MathError.message (e : MathError) : Text :=
  "Error: non-math `".toList ++ e.expression ++ ['`']

namespace Arithmetic

/-- The operators, parentheses and points of arithmetic. -/
def symbols : List Char := ['+', '-', '*', '/', '(', ')', '?', ':', '>', '<', '=', '.']

/-- The characters of arithmetic: digits, blanks and the symbols. -/
def isMathChar (c : Char) : Bool := c.isDigit || Text.isBlank c || symbols.contains c

/-- The value of a text that holds no emphasis. -/
def finalizePlain (s : Text) : Except MathError Number :=
  match s.find? fun c => !isMathChar c with
  | some c => .error (.nonMath s c)
  | none =>
    match Expr.ofTokens? (Token.ofText s) with
    | .error cause => .error (.parse s cause)
    | .ok e =>
      match e.eval with
      | .error cause => .error (.eval s cause)
      | .ok x => .ok x

/-- The value of a text, after the emphasis is taken off its numbers. -/
def finalize (s : Text) : Except MathError Number := finalizePlain (Markup.plain s)

/-- The value of a text, and zero for a text that has none. -/
def finalizeOrZero (s : Text) : Number :=
  match finalize s with
  | .ok x => x
  | .error _ => .int 0

end Arithmetic

end DiceRoll
