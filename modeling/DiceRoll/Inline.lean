/-
Rolls inside a message.

A roll inside a message is a command in parentheses. All the rolls of a message
are read together as one list, and the message is shown without them. A roll
needs the command, `r` or `roll`, and a blank behind it, while any parentheses
that open with the escape are left out of the message.
-/

import DiceRoll.Session

set_option autoImplicit false

namespace DiceRoll

namespace Inline

/-- The text up to a closing parenthesis on the same line, and what follows the
parenthesis. -/
def closed? (s : Text) : Option (Text × Text) :=
  let inside := s.takeWhile (· != ')')
  match s.dropWhile (· != ')') with
  | [] => none
  | _ :: rest => if inside.any (· == '\n') then none else some (inside, rest)

/-- Reads a roll inside a message, given the word of its command: what stands in
the parentheses, and what follows them. -/
def rollWith? (escape word s : Text) : Option (Text × Text) :=
  match Text.after? ('(' :: (escape ++ word)) s with
  | some (c :: rest) =>
    if Text.isBlank c then
      (closed? rest).map fun (inside, behind) => (escape ++ word ++ c :: inside, behind)
    else none
  | _ => none

/-- Reads a roll inside a message, with the long command or the short one. -/
def roll? (escape s : Text) : Option (Text × Text) :=
  -- Behind either command a blank has to follow, so at most one of the two is there.
  (rollWith? escape ['r', 'o', 'l', 'l'] s).or (rollWith? escape ['r'] s)

/-- The rolls of a message, in order. -/
def bodies (escape message : Text) : List Text := Text.collect (roll? escape) message

/-- Reads parentheses that open with the escape, and puts nothing in their place. -/
def parenthesized? (escape s : Text) : Option (Text × Text) :=
  match Text.after? ('(' :: escape) s with
  | none => none
  | some rest => (closed? rest).map fun (_, behind) => ([], behind)

/-- Reads parentheses that open with the escape, with a space before them or
without. -/
def cut? (escape : Text) : Text → Option (Text × Text)
  | ' ' :: s => parenthesized? escape s
  | s => parenthesized? escape s

/-- The message without the parentheses that open with the escape. -/
def remainder (escape message : Text) : Text := Text.substitute (cut? escape) message

end Inline

/-- The rolls of a message as one list, and the message without them, if it has
any. -/
def Session.inline {σ : Type} [Source σ] (t : Session σ) (message : Text) :
    Option (Roll × Text) × Session σ :=
  let escape := t.setup.escape
  match Inline.bodies escape message with
  | [] => (none, t)
  | bodies =>
    let (roll, t) := t.parse ([';', ' '].intercalate bodies)
    (some (roll, Inline.remainder escape message), t)

end DiceRoll
