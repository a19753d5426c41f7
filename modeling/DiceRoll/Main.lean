/-
The program: a console on standard input and output.
-/

import DiceRoll.Console

set_option autoImplicit false

namespace DiceRoll.Console

/-- Prints the answer to each line of the input until it ends. The end of a line is
a blank like any other, so the line is handed on as it was read. -/
partial def loop (t : Session StdGen) : IO Unit := do
  (← IO.getStdout).putStr (String.ofList prompt)
  (← IO.getStdout).flush
  -- Input that is no text ends the session, as the end of the input does.
  let line ← try (← IO.getStdin).getLine catch _ => pure ""
  if line.isEmpty then
    return
  let (reply, t) := step t line.toList
  (← IO.getStdout).putStr (String.ofList reply.output)
  match reply.complaint with
  | some complaint => (← IO.getStderr).putStrLn (String.ofList complaint)
  | none => pure ()
  loop t

end DiceRoll.Console

/-- Starts a session with a source seeded from the clock. -/
def main : IO Unit := do
  let seed ← IO.monoNanosNow
  DiceRoll.Console.loop (DiceRoll.Session.ofSource (mkStdGen seed))
