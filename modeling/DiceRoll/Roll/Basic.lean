/-
Rolls.

A roll is a single expression that was evaluated, or a list of rolls. Either way
it keeps the text it was read from, with all shorthand written out, and the
problems found on the way. A roll with problems still shows what was rolled, but
its text is the wording of the problems.
-/

import DiceRoll.Dice.Pool
import DiceRoll.Arithmetic.Finalize
import DiceRoll.Problem
import DiceRoll.Roll.Parts

set_option autoImplicit false

namespace DiceRoll

/-- A single expression that was evaluated: its words, what each came to, its
title and its value. -/
structure Leaf where
  parts : List Text
  expressions : List Text
  pretty : List Text
  title : Option Text
  result : Except MathError Number

/-- The outcome of reading and rolling a text. -/
inductive Roll where
  | leaf (raw : Text) (problems : List Problem) (leaf : Leaf)
  | list (raw : Text) (problems : List Problem) (separator : Separator) (rolls : List Roll)

/-! ## Building -/

/-- The leaf of words that came to these parts. -/
def Leaf.ofResolved (parts : List Text) (title : Option Text) (resolved : List Resolved) : Leaf :=
  let expressions := resolved.map Resolved.expression
  ⟨parts, expressions, resolved.map Resolved.pretty, title,
    Arithmetic.finalize ([' '].intercalate expressions)⟩

/-- A roll that failed before any word was looked at. -/
def Roll.failed (raw : Text) (problems : List Problem) : Roll :=
  .leaf raw problems (Leaf.ofResolved [] none [])

/-! ## Looking at a roll -/

/-- The text a roll was read from, with all shorthand written out. -/
def Roll.raw : Roll → Text
  | .leaf raw _ _ => raw
  | .list raw _ _ _ => raw

/-- The problems of a roll itself; those of its entries are their own. -/
def Roll.problems : Roll → List Problem
  | .leaf _ problems _ => problems
  | .list _ problems _ _ => problems

/-- How the value of a leaf is shown. -/
def Leaf.resultText (l : Leaf) : Text :=
  match l.result with
  | .ok x => x.text
  | .error e => e.message

/-- A leaf without problems: its words, its trace, its value and its title. -/
def Leaf.text (l : Leaf) : Text :=
  [' '].intercalate l.parts ++ [' ', '=', ' '] ++ [' '].intercalate l.pretty ++ [' ', '=', ' ']
    ++ Markup.bold l.resultText
    ++ match l.title with
      | none => []
      | some title => ' ' :: Markup.bold title

/-- Problems in the order in which they were found. -/
def problemsText (problems : List Problem) : Text :=
  [';', ' '].intercalate (problems.map Problem.message)

mutual

/-- The text of a roll for the user. -/
def Roll.text : Roll → Text
  | .leaf _ problems leaf => if problems.isEmpty then leaf.text else problemsText problems
  | .list _ problems separator rolls =>
    separator.joiner.intercalate
      ((if problems.isEmpty then [] else [problemsText problems]) ++ textsOf rolls)

/-- The texts of rolls. -/
def textsOf : List Roll → List Text
  | [] => []
  | r :: rs => r.text :: textsOf rs

end

mutual

/-- Whether neither the roll nor any of its entries has a problem or lacks a value. -/
def Roll.isSuccess : Roll → Bool
  | .leaf _ problems leaf => problems.isEmpty && leaf.result.isOk
  | .list _ problems _ rolls => problems.isEmpty && allSuccess rolls

/-- Whether all of some rolls are successes. -/
def allSuccess : List Roll → Bool
  | [] => true
  | r :: rs => r.isSuccess && allSuccess rs

end

end DiceRoll
