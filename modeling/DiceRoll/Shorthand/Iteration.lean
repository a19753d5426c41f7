/-
Iterations.

A number in square brackets asks for copies of what follows it, up to the next
semicolon or the end. The copies become a list, and in each the placeholder is
replaced by its number, counted from one. Only the first such bracket is read,
and only if the text behind it is a single line.
-/

import DiceRoll.Problem
import DiceRoll.Text.Blank

set_option autoImplicit false

namespace DiceRoll.Iteration

/-- What stands for the number of a copy. -/
def placeholder : Text := ['\x7b', 'i', '\x7d']

/-- The digits of a bracket at the front of a text, and what follows it. -/
def bracket? : Text → Option (Text × Text)
  | '[' :: s =>
    let digits := s.takeWhile Char.isDigit
    match digits, s.dropWhile Char.isDigit with
    | _ :: _, ']' :: rest => some (digits, rest)
    | _, _ => none
  | _ => none

/-- The first bracket with a single line behind it: what stands before it, its
digits, and what follows. -/
def find? : Text → Option (Text × Text × Text)
  | [] => none
  | c :: s =>
    let later := (find? s).map fun (before, found) => (c :: before, found)
    match bracket? (c :: s) with
    -- A bracket with more than one line behind it leaves its turn to a later one.
    | some (digits, rest) => if rest.any (· == '\n') then later else some ([], digits, rest)
    | none => later

/-- The copies of a body, numbered from one, as the entries of a list. -/
def copies (count : Nat) (body : Text) : Text :=
  [';'].intercalate <| (List.range count).map fun i =>
    Text.replace placeholder (Text.ofNat (i + 1)) body

/-- The text with its first iteration written out. More copies than allowed are
cut down, and that is a problem. -/
def expand (limit : Nat) (s : Text) : Text × List Problem :=
  match find? s with
  | none => (s, [])
  | some (before, digits, rest) =>
    let body := Text.trim (rest.takeWhile (· != ';'))
    let others := rest.dropWhile (· != ';')
    let count := min digits.value limit
    (before ++ copies count body ++ others,
      if limit < digits.value then [.tooManyIterations limit] else [])

end DiceRoll.Iteration
