/-
Sessions.

A session is what a user has set up, and a source of faces. Reading an input
writes out its shorthand and cuts it into rolls, and the entries of a list are
read in the same way, shorthand and all, since a macro may bring in a list of
its own.

Two caps bound that recursion. Lists stand inside each other only so deep, which
is what the recursion is on. And an input makes only so many rolls, lists
included, counted over the whole input: once they are used up, every further
text fails as it stands, without being written out.
-/

import DiceRoll.Dice.Resolve
import DiceRoll.Roll.Basic
import DiceRoll.Shorthand.Expand

set_option autoImplicit false

namespace DiceRoll

/-- What a user has set up. -/
structure Setup where
  escape : Text
  macros : MacroBook
  limits : Limits
deriving DecidableEq, Repr

/-- The setup of a user who has set nothing. -/
def Setup.usual : Setup := ⟨usualEscape, MacroBook.empty, Limits.usual⟩

/-- How far the reading of an input has come: the rolls made so far, and the
source as it stands. -/
structure Progress (σ : Type) where
  rolls : Nat
  source : σ

variable {σ : Type} [Source σ]

namespace Setup

/-- Rolls the words of a text that is no list. A word that cannot be resolved is
a problem and is left out of the arithmetic. -/
def rollLeaf (u : Setup) (raw : Text) (problems : List Problem) (s : σ) : Roll × σ :=
  let parts := wordsOf u.escape (bodyOf raw)
  let (results, s) := drawEach (resolve u.limits) parts s
  let resolved := results.filterMap Except.toOption
  let unresolved := results.filterMap fun
    | .ok _ => none
    | .error p => some p
  let blank := if parts.isEmpty then [Problem.empty] else []
  (.leaf raw (problems ++ blank ++ unresolved) (Leaf.ofResolved parts (titleOf raw) resolved), s)

/-- Reads and rolls a text that stands where so many more lists may be opened. -/
def roll (u : Setup) (depth : Nat) (input : Text) (p : Progress σ) : Roll × Progress σ :=
  if p.rolls = u.limits.maxRolls then (.failed input [.tooManyRolls p.rolls], p)
  else
    -- A list counts as a roll too, before any of its entries.
    let p := { p with rolls := p.rolls + 1 }
    let (raw, problems) := u.macros.writeOut u.limits.maxIterations input
    match firstSeparator? raw with
    | none =>
      let (roll, s) := u.rollLeaf raw problems p.source
      (roll, { p with source := s })
    | some separator =>
      match depth with
      | 0 => (.failed raw (problems ++ [.tooDeep]), p)
      | n + 1 =>
        -- The entries share one count of rolls and one source, from left to right.
        let (rolls, p) := drawEach (u.roll n) (separator.entries raw) p
        if rolls.isEmpty then (.failed raw (problems ++ [.empty]), p)
        else (.list raw problems separator rolls, p)

end Setup

/-- A setup and a source of faces. -/
structure Session (σ : Type) where
  setup : Setup
  source : σ

namespace Session

/-- The session of a user who has set nothing. -/
def ofSource (source : σ) : Session σ := ⟨Setup.usual, source⟩

/-- Reads and rolls an input. The macro book is told the escape first. -/
def parse (t : Session σ) (input : Text) : Roll × Session σ :=
  let setup := { t.setup with macros := t.setup.macros.withEscape t.setup.escape }
  let (roll, p) := setup.roll setup.limits.maxDepth input ⟨0, t.source⟩
  (roll, ⟨setup, p.source⟩)

/-- What a single word comes to. -/
def resolve (t : Session σ) (word : Text) : Except Problem Resolved × Session σ :=
  let (result, source) := DiceRoll.resolve t.setup.limits word t.source
  (result, { t with source })

/-- A text with its shorthand written out, by the macro book as it stands. -/
def writeOut (t : Session σ) (input : Text) : Text × List Problem :=
  t.setup.macros.writeOut t.setup.limits.maxIterations input

/-- The session with a macro saved. -/
def insert (t : Session σ) (name text : Text) : Session σ :=
  { t with setup := { t.setup with macros := t.setup.macros.insert name text } }

/-- The session without the macro of a name. -/
def erase (t : Session σ) (name : Text) : Session σ :=
  { t with setup := { t.setup with macros := t.setup.macros.erase name } }

/-- The session under another escape. The macro book learns of it when the next
input is read. -/
def withEscape (t : Session σ) (escape : Text) : Session σ :=
  { t with setup := { t.setup with escape } }

/-- The session with another macro book. -/
def withMacros (t : Session σ) (macros : MacroBook) : Session σ :=
  { t with setup := { t.setup with macros } }

/-- The session under other limits. -/
def withLimits (t : Session σ) (limits : Limits) : Session σ :=
  { t with setup := { t.setup with limits } }

end Session

end DiceRoll
