/-
Invoking macros.

An invocation is replaced by the text of the macro, letter by letter, and what
follows the name stays. The macros of a book take their turns in order, each on
what the ones before it have left, so a macro can invoke a later one.
-/

import DiceRoll.Macro.Book
import DiceRoll.Problem

set_option autoImplicit false

namespace DiceRoll

/-- Whether the name of a macro occurs in a text at all, in lower case. Only then
is the macro tried. -/
def Macro.isMentioned (m : Macro) (s : Text) : Bool := Text.contains m.key (Text.lowercase s)

/-- One macro's turn on a text and the problems found so far. Macros without a
name or a text are passed over. -/
def Entry.expand (found : Text × List Problem) (e : Entry) : Text × List Problem :=
  let (s, problems) := found
  if e.name.isEmpty || e.text.isEmpty || !e.isMentioned s then (s, problems)
  else
    match e.pattern with
    | some pattern =>
      match pattern.after? s with
      | some rest => (e.text ++ rest, problems)
      | none => (s, problems)
    | none => (s, problems ++ [.unusableMacro e.name])

/-- The text with the macros of a book invoked, and the problems with them. -/
def MacroBook.expand (b : MacroBook) (s : Text) : Text × List Problem :=
  b.entries.foldl Entry.expand (s, [])

end DiceRoll
