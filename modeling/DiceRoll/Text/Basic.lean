/-
Text, and the few operations on it that every other file leans on.

A text is the list of its characters and nothing more. Every rule of this
library reads text from the left, one character at a time, so the list is the
shape on which those rules are short recursions; a `String` appears only where
the program meets the outside world.

The one operation here that is more than a line is `substitute`: it walks a
text from the left and replaces each place a reader recognises. The markup of
numbers, the numbered copies of an iteration, the shorthand for checks and
attacks and the commands inside a message are all instances of it.
-/

set_option autoImplicit false

namespace DiceRoll

/-- A text is the list of its characters. -/
abbrev Text := List Char

namespace Text

/-! ## Numerals

Numbers are written in decimal with the digits `0` to `9` only; other scripts'
digits are ordinary characters to this library. -/

/-- The number that a run of digits denotes, the most significant digit first.
The empty run denotes zero. -/
def value (s : Text) : Nat := Nat.ofDigitChars 10 s 0

/-- The decimal numeral of a natural number, without leading zeros. -/
def ofNat (n : Nat) : Text := Nat.toDigits 10 n

/-- The decimal numeral of an integer, with a minus sign in front of a negative one. -/
def ofInt : Int → Text
  | .ofNat n => ofNat n
  | .negSucc n => '-' :: ofNat (n + 1)

/-- **Numerals read back.** The value of a written natural number is the number. -/
theorem value_ofNat (n : Nat) : value (ofNat n) = n :=
  Nat.ofDigitChars_toDigits (by decide) (by decide)

/-- A text that consists of digits only; the empty one counts. -/
def allDigits (s : Text) : Bool := s.all Char.isDigit

/-! ## Cutting from the left -/

/-- What follows `lead` in a text that begins with it. -/
def after? : Text → Text → Option Text
  | [], s => some s
  | _ :: _, [] => none
  | a :: lead, b :: s => if a = b then after? lead s else none

/-- What follows `lead` is what is left once `lead` is taken off the front. -/
theorem after?_eq_some_iff {lead s r : Text} : after? lead s = some r ↔ s = lead ++ r := by
  induction lead generalizing s with
  | nil => simp [after?, eq_comm]
  | cons a lead ih =>
    cases s with
    | nil => simp [after?]
    | cons b s =>
      by_cases hab : a = b
      · simp [after?, hab, ih]
      · have hba : ¬ b = a := fun h => hab h.symm
        simp [after?, hab, hba]

/-- Whether `needle` occurs somewhere in the text. The empty needle occurs everywhere. -/
def contains (needle : Text) : Text → Bool
  | [] => needle.isEmpty
  | c :: s => (after? needle (c :: s)).isSome || contains needle s

/-- The pieces between the separators. There is always one more piece than there
are separators, and a piece may be empty. -/
def pieces (isSeparator : Char → Bool) : Text → List Text
  | [] => [[]]
  | c :: s =>
    match pieces isSeparator s with
    | [] => [[c]]
    | p :: ps => if isSeparator c then [] :: p :: ps else (c :: p) :: ps

/-! ## Finding and replacing what a reader recognises -/

/-- Walks a text from the left. Where `read` recognises something, its output
takes the place of what it read and the walk goes on behind it; elsewhere the
character stays. A reader that consumes nothing recognises nothing. -/
def substitute (read : Text → Option (Text × Text)) : Text → Text
  | [] => []
  | c :: s =>
    match read (c :: s) with
    | some (out, rest) =>
      -- A find of no characters would be found again at the same place for ever.
      if rest.length < s.length + 1 then out ++ substitute read rest
      else c :: substitute read s
    | none => c :: substitute read s
termination_by s => s.length

/-- What a reader recognises in a text, walking it from the left and going on
behind each find. -/
def collect {α : Type} (read : Text → Option (α × Text)) : Text → List α
  | [] => []
  | c :: s =>
    match read (c :: s) with
    | some (found, rest) =>
      if rest.length < s.length + 1 then found :: collect read rest else collect read s
    | none => collect read s
termination_by s => s.length

/-- Replaces every occurrence of `old`, found from the left, by `new`. -/
def replace (old new : Text) : Text → Text :=
  substitute fun s => (after? old s).map fun rest => (new, rest)

end Text

end DiceRoll
