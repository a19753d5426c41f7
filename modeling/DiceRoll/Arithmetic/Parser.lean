/-
Reading tokens as an expression.

The grammar has one rule per strength of binding. From the weakest:

    conditional     one comparison, or a comparison `?` conditional `:` conditional
    comparison      sums joined by `<` `>` `<=` `>=` `==`
    sum             products joined by `+` `-`
    product         operands joined by `*` `/`
    operand         a sign and an operand, or an atom
    atom            an integer, a decimal, or a conditional in parentheses

Chains fold to the left and conditionals nest to the right. Parentheses, signs
and the branches of a conditional go one level down, and a hundred levels are
allowed. The level is what the recursion is on: the rules of one level are plain
functions of the two readers one level below, and level zero refuses.
-/

import DiceRoll.Arithmetic.Token
import DiceRoll.Arithmetic.Expr

set_option autoImplicit false

namespace DiceRoll

/-- What the grammar allows at a place where something else was found. -/
inductive Expected where
  | atom
  | endOfInput
  | colon
  | rightParen
deriving DecidableEq, Repr

/-- Why tokens are no expression. -/
inductive ParseError where
  | unexpected (found : Option Token) (expected : Expected)
  | tooDeep
deriving DecidableEq

/-- How many levels an expression may be nested. -/
def maxNesting : Nat := 100

/-- The wording of what was expected. -/
def Expected.wording : Expected → String
  | .atom => "<integer>, <float>, or '('"
  | .endOfInput => "end of input"
  | .colon => "':'"
  | .rightParen => "')'"

/-- The wording of the reason. -/
def ParseError.message : ParseError → String
  | .unexpected found expected =>
    let foundName := (found.map Token.name).getD "end of input"
    "unexpected token; found " ++ foundName ++ ", expected " ++ expected.wording
  | .tooDeep => "expression nested deeper than " ++ toString maxNesting ++ " levels"

/-! ## Which tokens join operands -/

/-- The comparison that a token stands for. -/
def Token.comparison? : Token → Option Operation
  | .less => some .less
  | .greater => some .greater
  | .atMost => some .atMost
  | .atLeast => some .atLeast
  | .equal => some .equal
  | _ => none

/-- The operation of a sum that a token stands for. -/
def Token.additive? : Token → Option Operation
  | .plus => some .add
  | .minus => some .sub
  | _ => none

/-- The operation of a product that a token stands for. -/
def Token.multiplicative? : Token → Option Operation
  | .star => some .mul
  | .slash => some .div
  | _ => none

/-- The sign that a token stands for. -/
def Token.sign? : Token → Option Sign
  | .plus => some .plus
  | .minus => some .minus
  | _ => none

namespace Expr

/-- A reader takes an expression off the front of the tokens and leaves the rest. -/
abbrev Reader := List Token → Except ParseError (Expr × List Token)

/-! ## The rules of one level -/

/-- Reads on behind the left operand of a chain, folding to the left, as long as
a joining token follows. -/
def chainRest (join? : Token → Option Operation) (operand : Reader) (left : Expr)
    (ts : List Token) : Except ParseError (Expr × List Token) :=
  match ts with
  | [] => .ok (left, [])
  | t :: rest =>
    match join? t with
    | none => .ok (left, t :: rest)
    | some op =>
      match operand rest with
      | .error e => .error e
      | .ok (right, rest') =>
        -- A reader gives back no more tokens than it was given, so the chain goes on.
        -- It is asked here because the reader is a parameter and could be any function.
        if rest'.length ≤ rest.length then chainRest join? operand (.binary left op right) rest'
        else .ok (.binary left op right, rest')
termination_by ts.length

/-- A chain of operands joined by one class of operations. -/
def chain (join? : Token → Option Operation) (operand : Reader) : Reader := fun ts =>
  match operand ts with
  | .error e => .error e
  | .ok (left, rest) => chainRest join? operand left rest

/-- An atom. The reader given is the one for what stands in parentheses. -/
def atom (inner : Reader) : Reader
  | .integer n :: ts => .ok (.literal (.int n), ts)
  | .decimal x :: ts => .ok (.literal (.float x), ts)
  | .leftParen :: ts =>
    match inner ts with
    | .error e => .error e
    | .ok (e, .rightParen :: rest) => .ok (.group e, rest)
    | .ok (_, rest) => .error (.unexpected rest.head? .rightParen)
  | ts => .error (.unexpected ts.head? .atom)

/-- An operand: a sign with the operand one level down, or an atom. -/
def operand (inner innerOperand : Reader) : Reader
  | [] => atom inner []
  | t :: ts =>
    match t.sign? with
    | none => atom inner (t :: ts)
    | some sign =>
      match innerOperand ts with
      | .error e => .error e
      | .ok (e, rest) => .ok (.signed sign e, rest)

/-- A chain of chains of chains: comparisons of sums of products. -/
def comparisons (inner innerOperand : Reader) : Reader :=
  chain Token.comparison?
    (chain Token.additive? (chain Token.multiplicative? (operand inner innerOperand)))

/-- A conditional, whose branches are one level down. -/
def conditional (inner innerOperand : Reader) : Reader := fun ts =>
  match comparisons inner innerOperand ts with
  | .error e => .error e
  | .ok (c, .question :: ts₁) =>
    match inner ts₁ with
    | .error e => .error e
    | .ok (t, .colon :: ts₂) =>
      match inner ts₂ with
      | .error e => .error e
      | .ok (f, rest) => .ok (.choice c t f, rest)
    | .ok (_, ts₂) => .error (.unexpected ts₂.head? .colon)
  | .ok (c, rest) => .ok (c, rest)

/-! ## Going down the levels -/

mutual

/-- A conditional for which `levels` levels are left, the one it stands on included. -/
def conditionalWithin (levels : Nat) (ts : List Token) : Except ParseError (Expr × List Token) :=
  match levels with
  | 0 => .error .tooDeep
  | n + 1 => conditional (conditionalWithin n) (operandWithin n) ts

/-- An operand for which `levels` levels are left, the one it stands on included. -/
def operandWithin (levels : Nat) (ts : List Token) : Except ParseError (Expr × List Token) :=
  match levels with
  | 0 => .error .tooDeep
  | n + 1 => operand (conditionalWithin n) (operandWithin n) ts

end

/-- Reads all the tokens as one expression. -/
def ofTokens? (ts : List Token) : Except ParseError Expr :=
  match conditionalWithin (maxNesting + 1) ts with
  | .error e => .error e
  | .ok (e, []) => .ok e
  | .ok (_, rest) => .error (.unexpected rest.head? .endOfInput)

end Expr

end DiceRoll
