/-
The tokens of arithmetic.

The text is cut from the left, and each token is as long as it can be: three
equals signs are one token, and so is a greater-than sign with an equals sign
behind it. Four blanks are skipped. Whatever begins no token is an error token
of its own, and so is an integer beyond the range of integer values; no rule of
the grammar accepts one, so the reader stops there.
-/

import DiceRoll.Text.Basic
import DiceRoll.Number.Basic

set_option autoImplicit false

namespace DiceRoll

/-- A token of arithmetic. -/
inductive Token where
  | integer (value : Int)
  | decimal (value : Float)
  | leftParen
  | rightParen
  | plus
  | minus
  | star
  | slash
  | question
  | colon
  | equal
  | atLeast
  | atMost
  | less
  | greater
  | error
deriving DecidableEq

namespace Token

/-- How a token is called in a message. -/
def name : Token → String
  | .integer _ => "<integer>"
  | .decimal _ => "<float>"
  | .leftParen => "'('"
  | .rightParen => "')'"
  | .plus => "'+'"
  | .minus => "'-'"
  | .star => "'*'"
  | .slash => "'/'"
  | .question => "'?'"
  | .colon => "':'"
  | .equal => "'=='"
  | .atLeast => "'>='"
  | .atMost => "'<='"
  | .less => "'<'"
  | .greater => "'>'"
  | .error => "<error>"

/-! ## Numbers -/

/-- The integer token of a run of digits. -/
def ofDigits (digits : Text) : Token :=
  if digits.value ≤ Number.maxInt then .integer digits.value else .error

/-- The token of the digits before and after a point: the floating-point number
nearest to the decimal, or the infinity when the decimal is beyond them all. -/
def ofDecimal (whole fraction : Text) : Token :=
  .decimal (Float.ofScientific (whole ++ fraction).value true fraction.length)

/-- Reads the fraction behind a point, if a digit follows the point. -/
def fraction? : Text → Option (Text × Text)
  | '.' :: d :: s =>
    if d.isDigit then some ((d :: s).takeWhile Char.isDigit, s.dropWhile Char.isDigit) else none
  | _ => none

/-- Reads a number that begins with digits: with a fraction if one follows, as
an integer otherwise. -/
def number (digits rest : Text) : Token × Text :=
  match fraction? rest with
  | some (fraction, rest) => (ofDecimal digits fraction, rest)
  | none => (ofDigits digits, rest)

/-! ## Symbols -/

/-- The symbols of one character that begin no longer one. -/
def symbol? : Char → Option Token
  | '(' => some .leftParen
  | ')' => some .rightParen
  | '+' => some .plus
  | '-' => some .minus
  | '*' => some .star
  | '/' => some .slash
  | '?' => some .question
  | ':' => some .colon
  | _ => none

/-- Reads a comparison that begins with `c`, as long as it can be. -/
def comparison (c : Char) (s : Text) : Token × Text :=
  match c, s with
  | '=', '=' :: '=' :: s => (.equal, s)
  | '=', '=' :: s => (.equal, s)
  | '>', '=' :: s => (.atLeast, s)
  | '>', s => (.greater, s)
  | '<', '=' :: s => (.atMost, s)
  | '<', s => (.less, s)
  | _, s => (.error, s)

/-! ## The tokens of a text -/

/-- The blanks between tokens. Other blanks are error tokens. -/
def isGap (c : Char) : Bool := c == ' ' || c == '\t' || c == '\r' || c == '\n'

/-- Reads the token that begins with `c`, where `s` follows. -/
def scan (c : Char) (s : Text) : Token × Text :=
  if c.isDigit then number (c :: s.takeWhile Char.isDigit) (s.dropWhile Char.isDigit)
  else
    match symbol? c with
    | some t => (t, s)
    | none =>
      -- A point begins a number only if a digit follows it.
      match fraction? (c :: s) with
      | some (fraction, rest) => (ofDecimal [] fraction, rest)
      | none => comparison c s

/-- Dropping characters from the front never lengthens a text. -/
theorem length_dropWhile_le (p : Char → Bool) (s : Text) : (s.dropWhile p).length ≤ s.length :=
  (List.dropWhile_sublist p).length_le

theorem fraction?_length {s f r : Text} (h : fraction? s = some (f, r)) :
    r.length < s.length := by
  unfold fraction? at h
  split at h
  · rename_i d s
    split at h
    · simp only [Option.some.injEq, Prod.mk.injEq] at h
      have := length_dropWhile_le Char.isDigit s
      simp only [← h.2, List.length_cons]
      omega
    · simp at h
  · simp at h

/-- **Scanning makes progress.** Behind a token the text is no longer than it was
behind the token's first character. -/
theorem scan_length (c : Char) (s : Text) : (scan c s).2.length ≤ s.length := by
  unfold scan
  split
  · have hdrop := length_dropWhile_le Char.isDigit s
    unfold number
    split
    · rename_i h
      have := fraction?_length h
      simp only
      omega
    · exact hdrop
  · split
    · exact Nat.le_refl _
    · split
      · rename_i h
        have := fraction?_length h
        simp only [List.length_cons] at this
        exact Nat.le_of_lt_succ this
      · unfold comparison
        split <;> simp only [List.length_cons] <;> omega

/-- The tokens of a text, in order. -/
def ofText : Text → List Token
  | [] => []
  | c :: s =>
    if isGap c then ofText s
    else (scan c s).1 :: ofText (scan c s).2
termination_by s => s.length
decreasing_by
  · simp
  · have := scan_length c s
    simp only [List.length_cons]
    omega

end Token

end DiceRoll
