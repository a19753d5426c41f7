/-
Reading dice tokens.

A token is cut into four parts first: a count, a letter for the kind of dice,
the sides, and the modifiers. The letters are read in either case, and only the
letter has to be there. Then each part is read on its own, from the left, and
the first part that cannot be read names the reason.

One rule looks at the whole. A letter with neither a count before it nor sides
behind it may be the beginning of any word, so what follows it is not called a
bad modifier: the word is no dice token.
-/

import DiceRoll.Dice.Token

set_option autoImplicit false

namespace DiceRoll.DiceToken

/-! ## Cutting a token into parts -/

/-- The kinds of dice, each with its letter. -/
inductive Kind where
  | die
  | fate
  | successes
deriving DecidableEq, Repr

/-- The kind that a letter stands for. -/
def kind? (c : Char) : Option Kind :=
  match c.toLower with
  | 'd' => some .die
  | 'f' => some .fate
  | 'w' => some .successes
  | _ => none

/-- The parts of a token. -/
structure Parts where
  count : Option Text
  kind : Kind
  sides : Option Text
  modifiers : Text
deriving DecidableEq, Repr

/-- A run of digits at the front of a text, if there is one, and what follows. -/
def digits (s : Text) : Option Text × Text :=
  let ds := s.takeWhile Char.isDigit
  if ds.isEmpty then (none, s) else (some ds, s.dropWhile Char.isDigit)

/-- The sides at the front of a text, if there are any, and what follows: the
letter of the Fate die, or a run of digits. -/
def sides : Text → Option Text × Text
  | [] => (none, [])
  | c :: s => if c.toLower = 'f' then (some [c], s) else digits (c :: s)

/-- Cuts a token into its parts. A token stands on one line. -/
def parts? (s : Text) : Option Parts :=
  let (count, rest) := digits s
  match rest with
  | [] => none
  | letter :: rest =>
    match kind? letter with
    | none => none
    | some kind =>
      let (sides, modifiers) := sides rest
      if modifiers.any (· == '\n') then none else some ⟨count, kind, sides, modifiers⟩

/-! ## Numbers and arguments -/

/-- The positive number that a run of digits denotes. -/
def positive (ds : Text) : Except DiceError Nat :=
  if maxCount < ds.value then .error .tooLarge
  else if ds.value = 0 then .error .zero
  else .ok ds.value

/-- The characters of comparisons. -/
def isComparisonChar (c : Char) : Bool := c == '<' || c == '>' || c == '='

/-- The argument at the front of a text, if there is one, and what follows:
digits, with a run of comparison characters before them or without. -/
def argument (s : Text) : Option Text × Text :=
  let comparison := s.takeWhile isComparisonChar
  let rest := s.dropWhile isComparisonChar
  let ds := rest.takeWhile Char.isDigit
  if ds.isEmpty then (none, s) else (some (comparison ++ ds), rest.dropWhile Char.isDigit)

/-- The number that an argument stands for. Without an argument it is one, and a
comparison is no number. -/
def countOf : Option Text → Except DiceError Nat
  | none => .ok 1
  | some arg => if arg.allDigits then positive arg else .error .invalidModifier

/-- The threshold that an argument stands for, or the one given without an argument. -/
def thresholdOf (usual : Threshold) : Option Text → Except DiceError Threshold
  | none => .ok usual
  | some arg => Threshold.ofText? arg

/-! ## Pools -/

/-- Reads the modifier of a pool of such dice. It is one flag and its argument,
with nothing behind. -/
def modifier (s : Sides) : Text → Except DiceError Modifier
  | [] => .ok .plain
  | flag :: rest =>
    match argument rest with
    | (arg, []) =>
      match flag.toLower with
      | 'a' => if arg.isSome then .error .invalidModifier else .ok .advantage
      | 'd' => if arg.isSome then .error .invalidModifier else .ok .disadvantage
      | 'k' => (countOf arg).map Modifier.keep
      | 'l' => (countOf arg).map Modifier.lose
      | 'e' => (thresholdOf (.atLeast s.maxValue) arg).map Modifier.explode
      | '+' => (countOf arg).map Modifier.flat
      | _ => .error .invalidModifier
    | _ => .error .invalidModifier

/-- Reads the sides of a pool. The Fate letter as the kind takes no sides, and a
die of which no sides are given has twenty. -/
def poolSides : Kind → Option Text → Except DiceError Sides
  | .fate, none => .ok .fate
  | .fate, some _ => .error .invalidModifier
  | _, none => .ok .twenty
  | _, some s => if Sides.isFateLetter s then .ok .fate else (positive s).map Sides.numbered

/-- Reads a pool. -/
def pool? (count : Nat) (kind : Kind) (sides : Option Text) (modifiers : Text) :
    Except DiceError PoolSpec :=
  match poolSides kind sides with
  | .error e => .error e
  | .ok s => (modifier s modifiers).map fun m => ⟨count, s, m⟩

/-! ## Success pools -/

/-- The flags of a success pool. -/
inductive Flag where
  | triple
  | double
  | explode
deriving DecidableEq, Repr

/-- The flag that a letter stands for. -/
def flag? (c : Char) : Option Flag :=
  match c.toLower with
  | 't' => some .triple
  | 'd' => some .double
  | 'e' => some .explode
  | _ => none

/-- Behind an argument the text is no longer than before it. -/
theorem argument_length (s : Text) : (argument s).2.length ≤ s.length := by
  unfold argument
  have h₁ := (List.dropWhile_sublist (l := s) isComparisonChar).length_le
  have h₂ := (List.dropWhile_sublist
    (l := s.dropWhile isComparisonChar) Char.isDigit).length_le
  simp only
  split <;> simp only <;> omega

/-- Reads a text that is nothing but flags with their arguments. -/
def flags? : Text → Option (List (Flag × Option Text))
  | [] => some []
  | c :: s =>
    match flag? c with
    | none => none
    | some f => (flags? (argument s).2).map fun fs => (f, (argument s).1) :: fs
termination_by s => s.length
decreasing_by
  have := argument_length s
  simp only [List.length_cons]
  omega

/-- Sets the threshold of a flag, over one that was set before. -/
def setFlag (p : SuccessSpec) (f : Flag) (t : Threshold) : SuccessSpec :=
  match f with
  | .triple => { p with triple := some t }
  | .double => { p with double := some t }
  | .explode => { p with explode := some t }

/-- Sets the flags in order. Without an argument the threshold is ten. -/
def setFlags (p : SuccessSpec) : List (Flag × Option Text) → Except DiceError SuccessSpec
  | [] => .ok p
  | (f, arg) :: fs =>
    match thresholdOf (.atLeast 10) arg with
    | .error e => .error e
    | .ok t => setFlags (setFlag p f t) fs

/-- Reads the success value. Without one it is five, and the Fate letter is none. -/
def successValue : Option Text → Except DiceError Nat
  | none => .ok 5
  | some s => if Sides.isFateLetter s then .error .invalidModifier else positive s

/-- Reads a success pool. -/
def successes? (count : Nat) (sides : Option Text) (modifiers : Text) :
    Except DiceError SuccessSpec :=
  match successValue sides with
  | .error e => .error e
  | .ok success =>
    match flags? modifiers with
    | none => .error .invalidModifier
    | some fs => setFlags { SuccessSpec.ofCount count with success } fs

/-! ## Tokens -/

/-- Reads the parts of a token. -/
def ofParts? (p : Parts) : Except DiceError DiceToken :=
  match (p.count.map positive).getD (.ok 1) with
  | .error e => .error e
  | .ok count =>
    match p.kind with
    | .successes => (successes? count p.sides p.modifiers).map DiceToken.successes
    | kind => (pool? count kind p.sides p.modifiers).map DiceToken.pool

/-- Reads a dice token. -/
def ofText? (s : Text) : Except DiceError DiceToken :=
  match parts? s with
  | none => .error .notDice
  | some p =>
    match ofParts? p with
    | .error .invalidModifier =>
      if p.count.isNone && p.sides.isNone then .error .notDice else .error .invalidModifier
    | result => result

end DiceRoll.DiceToken
