import DiceRoll.Main
import DiceRoll.Inline
import DiceRoll.Source.Replay
import DiceRoll.Proofs.Arithmetic.Comparison
import DiceRoll.Proofs.Arithmetic.Exact
import DiceRoll.Proofs.Arithmetic.Finite
import DiceRoll.Proofs.Arithmetic.Height
import DiceRoll.Proofs.Arithmetic.Repetition
import DiceRoll.Proofs.Dice.Explosion
import DiceRoll.Proofs.Dice.Monotone
import DiceRoll.Proofs.Inline.Apart
import DiceRoll.Proofs.Dice.Reading
import DiceRoll.Proofs.Dice.RoundTrip
import DiceRoll.Proofs.Dice.Threshold
import DiceRoll.Proofs.Roll.Budget
import DiceRoll.Proofs.Roll.Plain
import DiceRoll.Proofs.Roll.Skeleton
import DiceRoll.Proofs.Roll.Luck
import DiceRoll.Proofs.Session.History
import DiceRoll.Proofs.Shorthand.Seam
import DiceRoll.Proofs.Shorthand.Label
import DiceRoll.Proofs.Roll.Title
import DiceRoll.Proofs.Roll.Splitting
import DiceRoll.Proofs.Roll.Entries
import DiceRoll.Proofs.Roll.Iteration
import DiceRoll.Proofs.Roll.Command
import DiceRoll.Proofs.Roll.Attack
import DiceRoll.Proofs.Macro.Expansion
import DiceRoll.Proofs.Arithmetic.Gate
import DiceRoll.Proofs.Source.Sample
import DiceRoll.Proofs.Session.Console
import DiceRoll.Proofs.Dice.Complement
import DiceRoll.Proofs.Roll.NormalForm
import DiceRoll.Proofs.Macro.Dictionary
import DiceRoll.Proofs.Shorthand.Copies
