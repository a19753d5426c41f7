/-
Arithmetic expressions and their values.

An expression keeps its parentheses as nodes of their own. They do not change
its value, but they count towards how deeply it is nested, and the reader bounds
that depth.

Operands are evaluated from left to right, and the first failure is the answer.
Of a conditional only the branch that is taken is evaluated, so a division by
zero in the other one does no harm.
-/

import DiceRoll.Number.Basic

set_option autoImplicit false

namespace DiceRoll

/-- The signs that may stand in front of an operand. -/
inductive Sign where
  | plus
  | minus
deriving DecidableEq, Repr

/-- The operations between two operands. -/
inductive Operation where
  | add
  | sub
  | mul
  | div
  | less
  | greater
  | atMost
  | atLeast
  | equal
deriving DecidableEq, Repr

/-- How a sign is written. -/
def Sign.symbol : Sign → String
  | .plus => "+"
  | .minus => "-"

/-- How an operation is written. -/
def Operation.symbol : Operation → String
  | .add => "+"
  | .sub => "-"
  | .mul => "*"
  | .div => "/"
  | .less => "<"
  | .greater => ">"
  | .atMost => "<="
  | .atLeast => ">="
  | .equal => "=="

/-- An arithmetic expression. -/
inductive Expr where
  | literal (value : Number)
  | group (inner : Expr)
  | signed (sign : Sign) (operand : Expr)
  | binary (left : Expr) (operation : Operation) (right : Expr)
  | choice (condition consequent alternative : Expr)
deriving DecidableEq

/-! ## Applying an operation -/

/-- The value of a signed operand. A plus sign changes nothing. -/
def Sign.apply : Sign → Number → Except EvalError Number
  | .plus, x => .ok x
  | .minus, x => x.neg

/-- The value of an operation on two values. A comparison gives one or zero. -/
def Operation.apply : Operation → Number → Number → Except EvalError Number
  | .add, a, b => a.add b
  | .sub, a, b => a.sub b
  | .mul, a, b => a.mul b
  | .div, a, b => a.div b
  | .less, a, b => .ok (.ofBool (a.compare? b == some .lt))
  | .greater, a, b => .ok (.ofBool (a.compare? b == some .gt))
  | .atMost, a, b => .ok (.ofBool (a.compare? b == some .lt || a.compare? b == some .eq))
  | .atLeast, a, b => .ok (.ofBool (a.compare? b == some .gt || a.compare? b == some .eq))
  | .equal, a, b => .ok (.ofBool (a.compare? b == some .eq))

namespace Expr

/-- The value of an expression. -/
def eval : Expr → Except EvalError Number
  | .literal x => .ok x
  | .group e => e.eval
  | .signed sign e => do
    let x ← e.eval
    sign.apply x
  | .binary l op r => do
    let a ← l.eval
    let b ← r.eval
    op.apply a b
  | .choice c t f => do
    let x ← c.eval
    if x.isTrue then t.eval else f.eval

/-- How deeply the literals of an expression are nested: the greatest number of
parentheses, signs and branches of conditionals above one of them. The condition
of a conditional is not a branch. -/
def nesting : Expr → Nat
  | .literal _ => 0
  | .group e => e.nesting + 1
  | .signed _ e => e.nesting + 1
  | .binary l _ r => max l.nesting r.nesting
  | .choice c t f => max c.nesting (max t.nesting f.nesting + 1)

/-- The number of nodes on the longest way from the root to a literal. -/
def height : Expr → Nat
  | .literal _ => 1
  | .group e => e.height + 1
  | .signed _ e => e.height + 1
  | .binary l _ r => max l.height r.height + 1
  | .choice c t f => max c.height (max t.height f.height) + 1

end Expr

end DiceRoll
