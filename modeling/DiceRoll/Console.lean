/-
The console.

The console reads lines. A line rolls, or it saves a macro, or it lists the
macros that were saved. What a line does is a reply, and the reply decides what
is printed and where.
-/

import DiceRoll.Session

set_option autoImplicit false

namespace DiceRoll

namespace Console

/-- The command that saves a macro. -/
def saveCommand : Text := [':', 'm', 'a', 'c', 'r', 'o']

/-- The command that lists the macros. -/
def listCommand : Text := [':', 'm', 'a', 'c', 'r', 'o', 's']

/-- What the user is asked for a line with. -/
def prompt : Text := ['>', ' ']

/-- What a line asks for. -/
inductive Request where
  | nothing
  | list
  | save (name text : Text)
  | incomplete
  | roll (input : Text)
deriving DecidableEq, Repr

/-- Reads what follows the command that saves a macro: a name up to the first
blank, and a text behind it. -/
def saveRequest (arguments : Text) : Request :=
  let arguments := Text.trim arguments
  let name := arguments.takeWhile fun c => !Text.isBlank c
  match arguments.dropWhile fun c => !Text.isBlank c with
  | [] => .incomplete
  | _ :: text => .save name (Text.trim text)

/-- Reads a line. -/
def request (line : Text) : Request :=
  let line := Text.trim line
  -- The command that lists begins with the one that saves, so it is asked about first.
  if line = listCommand then .list
  else
    match Text.after? saveCommand line with
    | some arguments => saveRequest arguments
    | none => if line.isEmpty then .nothing else .roll line

/-- What the console prints: to the user, and beside it to whoever watches for
mistakes. -/
structure Reply where
  output : Text
  complaint : Option Text
deriving DecidableEq, Repr

/-- A line of output. -/
def Reply.line (s : Text) : Reply := ⟨s ++ ['\n'], none⟩

/-- A macro as it is listed. -/
def listing (m : Macro) : Text := m.name ++ [' ', '=', ' '] ++ m.text ++ ['\n']

/-- How the command that saves a macro is used. -/
def usage : Text := "usage: ".toList ++ saveCommand ++ " <name> <roll>".toList

variable {σ : Type} [Source σ]

/-- Answers a request. -/
def answer (t : Session σ) : Request → Reply × Session σ
  | .nothing => (⟨[], none⟩, t)
  | .list => (⟨t.setup.macros.macros.flatMap listing, none⟩, t)
  | .save name text => (Reply.line ("saved `".toList ++ name ++ ['`']), t.insert name text)
  | .incomplete => (⟨[], some usage⟩, t)
  | .roll input =>
    let (roll, t) := t.parse input
    (Reply.line roll.text, t)

/-- Answers a line. -/
def step (t : Session σ) (line : Text) : Reply × Session σ := answer t (request line)

/-- Answers lines in order. -/
def run (t : Session σ) (lines : List Text) : List Reply × Session σ :=
  drawEach (fun line t => step t line) lines t

/-- What the user sees of a run: a prompt at the start, and another behind each reply. -/
def transcript (replies : List Reply) : Text :=
  prompt ++ replies.flatMap fun r => r.output ++ prompt

end Console

end DiceRoll
