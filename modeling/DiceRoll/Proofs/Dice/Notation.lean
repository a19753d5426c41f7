/-
The notation of dice tokens.

The reader of dice tokens cuts a word into parts from the left, each as long as it can be,
and then asks each part what it says. Here is what it reads, said without it: which parts a
token has, which letters and numbers stand in them, and what is meant where one is left out.
In these relations nothing is greedy and nothing is tried before anything else.

The notation comes with a range of numbers. Within `Range.held` it is the notation of
tokens. With `Range.all` it is the form alone, which a text can have although no token holds
its numbers.

What the reader needs of the notation is at the end of each section: a part begins with a
character that the part before it cannot hold (`WritesModifier.boundary`,
`WritesFlags.boundary`), so that taking as much as possible takes what is meant.
-/

import DiceRoll.Proofs.Dice.Threshold
import DiceRoll.Proofs.Text.Boundary
import DiceRoll.Proofs.Text.Case

set_option autoImplicit false

namespace DiceRoll

namespace Notation

open DiceToken

/-! ## The notation -/

/-- Which numbers are admitted, as a count and as the value of a threshold. -/
structure Range where
  isCount : Nat → Prop
  isValue : Nat → Prop

/-- The numbers that a token can hold. -/
def Range.held : Range := ⟨IsCount, fun n => (n : Int) ≤ Number.maxInt⟩

/-- All numbers. What is written with them has the form of a token. -/
def Range.all : Range := ⟨fun _ => True, fun _ => True⟩

/-- Digits, at least one, and the number that they denote. -/
structure IsNumeral (ds : Text) (n : Nat) : Prop where
  ne_nil : ds ≠ []
  isDigit : ∀ c ∈ ds, c.isDigit = true
  value_eq : ds.value = n

/-- Comparison characters, at least one, with digits behind them. -/
def IsComparison (arg : Text) : Prop :=
  ∃ run ds, arg = run ++ ds ∧ Threshold.IsSuffix run ds

/-- A count, or nothing for the usual one. -/
inductive WritesCount (r : Range) (usual : Nat) : Text → Nat → Prop
  | absent : WritesCount r usual [] usual
  | written {ds : Text} {n : Nat} (hds : IsNumeral ds n) (hn : r.isCount n) :
      WritesCount r usual ds n

/-- A threshold: digits, comparison characters with digits behind them, or nothing for the
usual value. -/
inductive WritesThreshold (r : Range) (usual : Int) : Text → Threshold → Prop
  | absent : WritesThreshold r usual [] (.atLeast usual)
  | number {ds : Text} {n : Nat} (hds : IsNumeral ds n) (hn : r.isValue n) :
      WritesThreshold r usual ds (.atLeast n)
  | comparison {arg : Text} (h : IsComparison arg) : WritesThreshold r usual arg (.comparison arg)

/-- The modifier of a pool of such dice. -/
inductive WritesModifier (r : Range) (s : Sides) : Text → Modifier → Prop
  | plain : WritesModifier r s [] .plain
  | advantage {c : Char} (hc : c.toLower = 'a') : WritesModifier r s [c] .advantage
  | disadvantage {c : Char} (hc : c.toLower = 'd') : WritesModifier r s [c] .disadvantage
  | keep {c : Char} {arg : Text} {n : Nat} (hc : c.toLower = 'k')
      (harg : WritesCount r 1 arg n) : WritesModifier r s (c :: arg) (.keep n)
  | lose {c : Char} {arg : Text} {n : Nat} (hc : c.toLower = 'l')
      (harg : WritesCount r 1 arg n) : WritesModifier r s (c :: arg) (.lose n)
  | flat {arg : Text} {n : Nat} (harg : WritesCount r 1 arg n) :
      WritesModifier r s ('+' :: arg) (.flat n)
  | explode {c : Char} {arg : Text} {t : Threshold} (hc : c.toLower = 'e')
      (harg : WritesThreshold r s.maxValue arg t) : WritesModifier r s (c :: arg) (.explode t)

/-- The sides of a die: a number of faces, the letter of the Fate die, or nothing for the
die with twenty faces. -/
inductive WritesSides (r : Range) : Text → Sides → Prop
  | absent : WritesSides r [] (.numbered 20)
  | fate {c : Char} (hc : c.toLower = 'f') : WritesSides r [c] .fate
  | numbered {ds : Text} {n : Nat} (hds : IsNumeral ds n) (hn : r.isCount n) :
      WritesSides r ds (.numbered n)

/-- The letter of a flag. -/
def letter : Flag → Char
  | .triple => 't'
  | .double => 'd'
  | .explode => 'e'

/-- Flags in a row, each with its threshold. -/
inductive WritesFlags (r : Range) : Text → List (Flag × Threshold) → Prop
  | none : WritesFlags r [] []
  | next {c : Char} {f : Flag} {arg rest : Text} {t : Threshold} {fs : List (Flag × Threshold)}
      (hc : c.toLower = letter f) (harg : WritesThreshold r 10 arg t)
      (hrest : WritesFlags r rest fs) : WritesFlags r (c :: (arg ++ rest)) ((f, t) :: fs)

/-- The last threshold that is given for a flag. -/
def lastOf (f : Flag) : List (Flag × Threshold) → Option Threshold
  | [] => none
  | (g, t) :: fs => (lastOf f fs).or (if g = f then some t else none)

/-- What count, letter, sides and modifiers say together. -/
inductive WritesParts (r : Range) : Text → Char → Text → Text → DiceToken → Prop
  | die {count sides modifiers : Text} {c : Char} {n : Nat} {s : Sides} {m : Modifier}
      (hcount : WritesCount r 1 count n) (hc : c.toLower = 'd') (hsides : WritesSides r sides s)
      (hmodifier : WritesModifier r s modifiers m) :
      WritesParts r count c sides modifiers (.pool ⟨n, s, m⟩)
  | fate {count modifiers : Text} {c : Char} {n : Nat} {m : Modifier}
      (hcount : WritesCount r 1 count n) (hc : c.toLower = 'f')
      (hmodifier : WritesModifier r .fate modifiers m) :
      WritesParts r count c [] modifiers (.pool ⟨n, .fate, m⟩)
  | successes {count success flags : Text} {c : Char} {n k : Nat} {fs : List (Flag × Threshold)}
      (hcount : WritesCount r 1 count n) (hc : c.toLower = 'w')
      (hsuccess : WritesCount r 5 success k) (hflags : WritesFlags r flags fs) :
      WritesParts r count c success flags
        (.successes ⟨n, k, lastOf .double fs, lastOf .triple fs, lastOf .explode fs⟩)

/-- A text that writes a token: count, letter, sides and modifiers in this order. -/
def WritesToken (r : Range) (s : Text) (token : DiceToken) : Prop :=
  ∃ count c sides modifiers, s = count ++ c :: (sides ++ modifiers)
    ∧ WritesParts r count c sides modifiers token

/-- A text that begins with the letter of a kind, with neither digits nor the letter of the
Fate die behind it. -/
def IsBare (s : Text) : Prop :=
  ∃ c rest, s = c :: rest ∧ (kind? c).isSome = true
    ∧ ∀ d ∈ rest.head?, d.isDigit = false ∧ d.toLower ≠ 'f'

/-! ## Letters and digits -/

theorem toNat_of_isDigit {c : Char} (hc : c.isDigit = true) : 48 ≤ c.toNat ∧ c.toNat ≤ 57 := by
  simp only [Char.isDigit, Bool.and_eq_true, decide_eq_true_eq] at hc
  exact hc

theorem toLower_of_isDigit {c : Char} (hc : c.isDigit = true) : c.toLower = c := by
  rcases Text.toLower_cases c with h | h
  · exact h
  · have := toNat_of_isDigit hc
    omega

theorem toLower_eq_plus {c : Char} (hc : c.toLower = '+') : c = '+' := by
  rcases Text.toLower_cases c with h | h
  · rw [← h, hc]
  · rw [hc] at h
    have : '+'.toNat = 43 := rfl
    omega

theorem toLower_eq_f {c : Char} (hc : c.toLower = 'f') : c = 'f' ∨ c = 'F' := by
  rcases Text.toLower_cases c with h | h
  · exact .inl (by rw [← h, hc])
  · rw [hc] at h
    have hf : 'f'.toNat = 102 := rfl
    have hF : c.toNat = 'F'.toNat := by change c.toNat = 70; omega
    exact .inr (Char.toNat_inj.1 hF)

/-- A letter is no digit, in either case. -/
theorem toLower_ne_of_isDigit {c l : Char} (hc : c.isDigit = true) (hl : l.isDigit = false) :
    c.toLower ≠ l := by
  rw [toLower_of_isDigit hc]
  rintro rfl
  rw [hc] at hl
  cases hl

theorem isDigit_eq_false_of_toLower {c l : Char} (hc : c.toLower = l) (hl : l.isDigit = false) :
    c.isDigit = false :=
  Bool.eq_false_iff.2 fun h => toLower_ne_of_isDigit h hl hc

theorem isComparisonChar_eq_false_of_isDigit {c : Char} (hc : c.isDigit = true) :
    isComparisonChar c = false := by
  by_contra h
  rw [Bool.not_eq_false] at h
  rcases Token.eq_of_isComparisonChar h with rfl | rfl | rfl <;> exact absurd hc (by decide)

theorem flag?_eq_some_iff (f : Flag) {c : Char} : flag? c = some f ↔ c.toLower = letter f := by
  unfold flag?
  cases f <;> split <;> simp_all [letter]

theorem kind?_eq_some_iff {c : Char} {kind : Kind} :
    kind? c = some kind ↔
      c.toLower = match kind with | .die => 'd' | .fate => 'f' | .successes => 'w' := by
  unfold kind?
  cases kind <;> split <;> simp_all

theorem isDigit_eq_false_of_kind? {c : Char} {kind : Kind} (hc : kind? c = some kind) :
    c.isDigit = false :=
  isDigit_eq_false_of_toLower (kind?_eq_some_iff.1 hc) (by cases kind <;> rfl)

/-! ## Counts and sides -/

theorem isNumeral_value {ds : Text} (hne : ds ≠ []) (hds : ∀ c ∈ ds, c.isDigit = true) :
    IsNumeral ds ds.value := ⟨hne, hds, rfl⟩

theorem isNumeral_ofNat (n : Nat) : IsNumeral (Text.ofNat n) n :=
  ⟨Token.ofNat_ne_nil n, fun _ hc => Token.isDigit_of_mem_ofNat hc, Text.value_ofNat n⟩

theorem writesCount_nil {r : Range} {usual n : Nat} :
    WritesCount r usual [] n ↔ usual = n := by
  constructor
  · intro h
    cases h with
    | absent => rfl
    | written hds hn => exact absurd rfl hds.ne_nil
  · rintro rfl
    exact .absent

/-- What stands as a count is digits. -/
theorem WritesCount.isDigit {r : Range} {usual : Nat} {ds : Text} {n : Nat}
    (h : WritesCount r usual ds n) : ∀ c ∈ ds, c.isDigit = true := by
  cases h with
  | absent => exact fun _ hc => nomatch hc
  | written hds hn => exact hds.isDigit

theorem writesSides_nil {r : Range} {s : Sides} : WritesSides r [] s ↔ .twenty = s := by
  constructor
  · intro h
    cases h with
    | absent => rfl
    | numbered hds hn => exact absurd rfl hds.ne_nil
  · rintro rfl
    exact .absent

/-! ## Arguments -/

/-- What may stand behind the letter of a flag: nothing, a number, or a comparison. -/
inductive IsOptional : Text → Prop
  | nothing : IsOptional []
  | number {ds : Text} (hne : ds ≠ []) (hds : ∀ c ∈ ds, c.isDigit = true) : IsOptional ds
  | comparison {arg : Text} (h : IsComparison arg) : IsOptional arg

theorem IsComparison.ne_nil {arg : Text} (h : IsComparison arg) : arg ≠ [] := by
  obtain ⟨run, ds, rfl, h⟩ := h
  simp [h.run_ne_nil]

/-- A comparison is no number. -/
theorem IsComparison.exists_not_isDigit {arg : Text} (h : IsComparison arg) :
    ∃ c ∈ arg, c.isDigit = false := by
  obtain ⟨run, ds, rfl, h⟩ := h
  obtain ⟨c, run, rfl⟩ := List.exists_cons_of_ne_nil h.run_ne_nil
  refine ⟨c, List.mem_append_left ds List.mem_cons_self, ?_⟩
  rcases Token.eq_of_isComparisonChar (h.isComparisonChar c List.mem_cons_self) with
    rfl | rfl | rfl <;> rfl

theorem IsComparison.not_digits {arg : Text} (h : IsComparison arg) :
    ¬ ∀ c ∈ arg, c.isDigit = true := by
  obtain ⟨c, hc, hdigit⟩ := h.exists_not_isDigit
  intro hall
  rw [hall c hc] at hdigit
  cases hdigit

theorem WritesCount.isOptional {r : Range} {usual : Nat} {arg : Text} {n : Nat}
    (h : WritesCount r usual arg n) : IsOptional arg := by
  cases h with
  | absent => exact .nothing
  | written hds hn => exact .number hds.ne_nil hds.isDigit

theorem WritesThreshold.isOptional {r : Range} {usual : Int} {arg : Text} {t : Threshold}
    (h : WritesThreshold r usual arg t) : IsOptional arg := by
  cases h with
  | absent => exact .nothing
  | number hds hn => exact .number hds.ne_nil hds.isDigit
  | comparison h => exact .comparison h

theorem IsOptional.newline_not_mem {arg : Text} (h : IsOptional arg) : '\n' ∉ arg := by
  intro hmem
  cases h with
  | nothing => cases hmem
  | number hne hds => exact absurd (hds _ hmem) (by decide)
  | comparison h =>
    obtain ⟨run, ds, rfl, h⟩ := h
    rcases List.mem_append.1 hmem with hmem | hmem
    · exact absurd (h.isComparisonChar _ hmem) (by decide)
    · exact absurd (h.isDigit _ hmem) (by decide)

theorem IsOptional.exists_threshold {arg : Text} (harg : IsOptional arg) (usual : Int) :
    ∃ t, WritesThreshold .all usual arg t := by
  cases harg with
  | nothing => exact ⟨_, .absent⟩
  | number hne hds => exact ⟨_, .number (isNumeral_value hne hds) trivial⟩
  | comparison h => exact ⟨_, .comparison h⟩

/-- What is written within a range has the form. -/
theorem WritesThreshold.form {r : Range} {usual : Int} {arg : Text} {t : Threshold}
    (h : WritesThreshold r usual arg t) : WritesThreshold .all usual arg t := by
  cases h with
  | absent => exact .absent
  | number hds hn => exact .number hds trivial
  | comparison h => exact .comparison h

/-! ## Modifiers and flags -/

/-- The modifiers whose letter has this lower case. -/
theorem writesModifier_cons {r : Range} {s : Sides} {c : Char} {arg : Text} {m : Modifier} :
    WritesModifier r s (c :: arg) m ↔
      match c.toLower with
      | 'a' => arg = [] ∧ m = .advantage
      | 'd' => arg = [] ∧ m = .disadvantage
      | 'k' => ∃ n, WritesCount r 1 arg n ∧ .keep n = m
      | 'l' => ∃ n, WritesCount r 1 arg n ∧ .lose n = m
      | 'e' => ∃ t, WritesThreshold r s.maxValue arg t ∧ .explode t = m
      | '+' => ∃ n, WritesCount r 1 arg n ∧ .flat n = m
      | _ => False := by
  constructor
  · intro h
    cases h with
    | advantage hc => simp [hc]
    | disadvantage hc => simp [hc]
    | keep hc harg => simpa [hc] using harg
    | lose hc harg => simpa [hc] using harg
    | flat harg => exact ⟨_, harg, rfl⟩
    | explode hc harg => simpa [hc] using harg
  · intro h
    split at h
    case h_1 hc =>
      obtain ⟨rfl, rfl⟩ := h
      exact .advantage hc
    case h_2 hc =>
      obtain ⟨rfl, rfl⟩ := h
      exact .disadvantage hc
    case h_3 hc =>
      obtain ⟨n, harg, rfl⟩ := h
      exact .keep hc harg
    case h_4 hc =>
      obtain ⟨n, harg, rfl⟩ := h
      exact .lose hc harg
    case h_5 hc =>
      obtain ⟨t, harg, rfl⟩ := h
      exact .explode hc harg
    case h_6 hc =>
      obtain ⟨n, harg, rfl⟩ := h
      obtain rfl := toLower_eq_plus hc
      exact .flat harg
    case h_7 => exact h.elim

/-- Behind the letter of a modifier stands an argument and nothing else. -/
theorem WritesModifier.isOptional {r : Range} {s : Sides} {c : Char} {arg : Text} {m : Modifier}
    (h : WritesModifier r s (c :: arg) m) : IsOptional arg := by
  cases h with
  | advantage => exact .nothing
  | disadvantage => exact .nothing
  | keep _ harg => exact harg.isOptional
  | lose _ harg => exact harg.isOptional
  | flat harg => exact harg.isOptional
  | explode _ harg => exact harg.isOptional

/-- Modifiers begin with a letter or a plus sign that is no part of the sides, and they stand
on one line. -/
theorem WritesModifier.boundary {r : Range} {s : Sides} {text : Text} {m : Modifier}
    (h : WritesModifier r s text m) :
    (∀ c ∈ text.head?, c.isDigit = false ∧ c.toLower ≠ 'f') ∧ '\n' ∉ text := by
  cases text with
  | nil => exact ⟨fun _ hc => (nomatch hc), List.not_mem_nil⟩
  | cons c arg =>
    have hletter : c.toLower = 'a' ∨ c.toLower = 'd' ∨ c.toLower = 'k' ∨ c.toLower = 'l'
        ∨ c.toLower = 'e' ∨ c.toLower = '+' := by
      cases h <;> simp_all
    refine ⟨fun d hd => ?_, fun hmem => ?_⟩
    · cases hd
      rcases hletter with h | h | h | h | h | h <;>
        exact ⟨isDigit_eq_false_of_toLower h rfl, by rw [h]; decide⟩
    · rcases List.mem_cons.1 hmem with rfl | hmem
      · exact absurd hletter (by decide)
      · exact h.isOptional.newline_not_mem hmem

theorem WritesFlags.form {r : Range} {s : Text} {fs : List (Flag × Threshold)}
    (h : WritesFlags r s fs) : WritesFlags .all s fs := by
  induction h with
  | none => exact .none
  | next hc harg hrest ih => exact .next hc harg.form ih

/-- A text that begins with a flag, or is empty. -/
theorem WritesFlags.head {r : Range} {s : Text} {fs : List (Flag × Threshold)}
    (h : WritesFlags r s fs) : ∀ c ∈ s.head?, ∃ f, c.toLower = letter f := by
  cases h with
  | none => exact fun c hc => nomatch hc
  | next hc harg hrest =>
    intro d hd
    cases hd
    exact ⟨_, hc⟩

theorem letter_boundary (f : Flag) {c : Char} (hc : c.toLower = letter f) :
    c.isDigit = false ∧ isComparisonChar c = false := by
  refine ⟨isDigit_eq_false_of_toLower hc (by cases f <;> rfl), ?_⟩
  by_contra h
  rw [Bool.not_eq_false] at h
  rcases Token.eq_of_isComparisonChar h with rfl | rfl | rfl <;>
    cases f <;> exact absurd hc (by decide)

theorem WritesFlags.boundary {r : Range} {text : Text} {fs : List (Flag × Threshold)}
    (h : WritesFlags r text fs) :
    (∀ c ∈ text.head?, c.isDigit = false ∧ c.toLower ≠ 'f') ∧ '\n' ∉ text := by
  refine ⟨fun c hc => ?_, ?_⟩
  · obtain ⟨f, hf⟩ := h.head c hc
    exact ⟨(letter_boundary f hf).1, by rw [hf]; cases f <;> decide⟩
  · induction h with
    | none => exact List.not_mem_nil
    | @next c f arg rest t fs hc harg hrest ih =>
      rw [List.mem_cons, List.mem_append]
      rintro (rfl | hmem | hmem)
      · cases f <;> exact absurd hc (by decide)
      · exact harg.isOptional.newline_not_mem hmem
      · exact ih hmem

end Notation

end DiceRoll
