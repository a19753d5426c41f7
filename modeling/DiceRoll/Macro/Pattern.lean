/-
Patterns: how the invocation of a macro is found.

A macro is invoked at the front of a text by its name as a whole word, in any
case. A command may stand before it, which is the escape and `r` or `roll`, and
one blank may stand between them.

What to look for is settled by the escape and the name, whatever the text. So it
is put together once, as a pattern, and the pattern is kept. A name that a roll
would be cut at can never be invoked, and there is no pattern for it.
-/

import DiceRoll.Text.Blank
import DiceRoll.Text.Folding
import DiceRoll.Text.Word

set_option autoImplicit false

namespace DiceRoll

/-- What the invocation of a name looks like: the commands that may stand in
front of it, the longer one first, and the name itself. -/
structure Pattern where
  commands : List Text
  name : Text
deriving DecidableEq, Repr

namespace Pattern

/-! ## Names -/

/-- The characters besides blanks that a name cannot hold, since a roll is cut
at them. -/
def isCutter (c : Char) : Bool := c == '#' || c == ';' || c == ','

/-- Whether a name can be invoked. -/
def isUsable (name : Text) : Bool := !name.any fun c => Text.isBlank c || isCutter c

/-- The pattern of a name under an escape, if the name can be invoked. -/
def ofName? (escape name : Text) : Option Pattern :=
  if isUsable name then
    some ⟨[escape ++ ['r', 'o', 'l', 'l'], escape ++ ['r']], name⟩
  else none

/-! ## Finding an invocation -/

/-- The places at the front of a text where the name may begin: behind each of
the commands, and at the very front; each time behind one blank first, if there
is one. -/
def places (p : Pattern) (s : Text) : List Text :=
  let behind := p.commands.filterMap fun command => Text.afterFolded? command s
  -- The first place at which the name fits is taken, so the longer readings come first.
  (behind ++ [s]).flatMap fun t =>
    match t with
    | [] => [[]]
    | c :: r => if Text.isBlank c then [r, c :: r] else [c :: r]

/-- What follows the name at the front of a text, if it is a whole word there. -/
def afterName? (p : Pattern) (s : Text) : Option Text :=
  match Text.afterFolded? p.name s with
  | none => none
  | some rest =>
    if Text.wordBoundary (s.take p.name.length).getLast? rest.head? then some rest else none

/-- What follows the invocation at the front of a text. -/
def after? (p : Pattern) (s : Text) : Option Text := (p.places s).findSome? p.afterName?

end Pattern

end DiceRoll
