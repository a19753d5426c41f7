/-
The macro book.

A macro is a name for a text that a user wants to roll again. A book holds
macros in the order in which they were saved, and names are told apart without
regard to case: saving a macro under a name that is taken replaces the old one,
and the new one stands at the end.

A book also knows the escape under which its macros can be invoked, and beside
each macro it keeps the pattern of its invocation, put together when the macro is
saved. It is told about a new escape when a roll is read: then all patterns are
put together anew, and until then the book keeps the old ones.

Whoever saves or removes a macro is handed the one that goes (`save`, `remove`).
Most callers do not ask for it, and take the book alone (`insert`, `erase`).
-/

import DiceRoll.Macro.Pattern
import DiceRoll.Text.Lowercase

set_option autoImplicit false

namespace DiceRoll

/-- A name for a text. -/
structure Macro where
  name : Text
  text : Text
deriving DecidableEq, Repr

/-- What tells macros apart: the name in lower case. -/
def Macro.key (m : Macro) : Text := Text.lowercase m.name

/-- A macro with the pattern of its invocation, if it can be invoked. -/
structure Entry extends Macro where
  pattern : Option Pattern
deriving DecidableEq, Repr

/-- The entry of a macro that is saved under an escape. -/
def Entry.ofMacro (escape : Text) (m : Macro) : Entry := ⟨m, Pattern.ofName? escape m.name⟩

/-- Takes the entry of a key out of some entries: that entry, if there is one, and
the others in their order. -/
def Entry.takeOut (key : Text) : List Entry → Option Entry × List Entry
  | [] => (none, [])
  | e :: entries =>
    if e.key = key then (some e, entries)
    else
      let (found, others) := takeOut key entries
      (found, e :: others)

/-- The escape of a session that sets none. -/
def usualEscape : Text := ['/']

/-- The macros of a user, in order, and the escape that invokes them. -/
structure MacroBook where
  escape : Text
  entries : List Entry
deriving DecidableEq, Repr

namespace MacroBook

/-- A book without macros. -/
def empty : MacroBook := ⟨usualEscape, []⟩

/-- The macros of a book, in order. -/
def macros (b : MacroBook) : List Macro := b.entries.map Entry.toMacro

/-- The macro of a name. -/
def get? (b : MacroBook) (name : Text) : Option Macro :=
  b.macros.find? fun m => m.key == Text.lowercase name

/-- Saves a macro at the end of a book, in place of the one of the same name: that one,
if there is one, and the book. The macro is saved under the escape that the book knows. -/
def save (b : MacroBook) (name text : Text) : Option Macro × MacroBook :=
  let (previous, others) := Entry.takeOut (Text.lowercase name) b.entries
  (previous.map Entry.toMacro,
    { b with entries := others ++ [Entry.ofMacro b.escape ⟨name, text⟩] })

/-- Removes the macro of a name: that macro, if there is one, and the book. -/
def remove (b : MacroBook) (name : Text) : Option Macro × MacroBook :=
  let (previous, others) := Entry.takeOut (Text.lowercase name) b.entries
  (previous.map Entry.toMacro, { b with entries := others })

/-- The book with a macro at its end, in place of the one of the same name. -/
def insert (b : MacroBook) (name text : Text) : MacroBook := (b.save name text).2

/-- The book without the macro of a name. -/
def erase (b : MacroBook) (name : Text) : MacroBook := (b.remove name).2

/-- The book under another escape. Under the one it knows it is left as it is. -/
def withEscape (b : MacroBook) (escape : Text) : MacroBook :=
  if b.escape = escape then b
  else ⟨escape, b.entries.map fun e => Entry.ofMacro escape e.toMacro⟩

/-- Telling a book the escape changes no macro. -/
@[simp] theorem macros_withEscape (b : MacroBook) (escape : Text) :
    (b.withEscape escape).macros = b.macros := by
  unfold withEscape
  split
  · rfl
  · simp only [macros, List.map_map]
    exact List.map_congr_left fun e _ => rfl

/-- A book of macros saved one after the other. -/
def ofList (macros : List (Text × Text)) : MacroBook :=
  macros.foldl (fun b m => b.insert m.1 m.2) empty

end MacroBook

end DiceRoll
