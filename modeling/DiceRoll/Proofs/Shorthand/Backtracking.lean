/-
An iteration found by trying.

How an iteration looks can be written down as a pattern: a number in brackets, a body that
is as short as can be, and from a semicolon on whatever is left, up to the end of the text.
Written as patterns usually are, that is `\[([0-9]+)\](.*?)(;.*)?$`, where a point stands for
any character but the end of a line.

A pattern does not say how it is found, but there is a common understanding of it. At each
place, from the left, all ways to read the parts are tried in an order of preference: a
part with a question mark behind its star is tried short before long, any other part long
before short, and a part that may be missing is tried before it is left out. The first way
that goes through at the first place where one does is what the pattern finds. This file
spells that out as lists of attempts, and shows that it comes to what `Iteration.find?` does
without ever going back (`search_pattern`). Two facts carry the proof. A run of digits that
stops before a closing bracket can stop nowhere else, so among the runs only the longest goes
through (`flatMap_longRuns`). And of the bodies the shortest that goes through ends at the
first semicolon, since everything behind it can be the rest (`head?_bodies`).

The number is read into a machine word, and one that does not fit counts as the greatest
word. As long as the limit is smaller than that, nothing of it is seen
(`backtrack_eq_expand`).
-/

import DiceRoll.Proofs.Shorthand.Bracket
import DiceRoll.Text.Numeral

set_option autoImplicit false

namespace DiceRoll

/-! ## Attempts -/

/-- The ways to read the front of a text, the preferred one first: what is read, and what
is left behind it. -/
abbrev Attempts (α : Type) := Text → List (α × Text)

namespace Attempts

variable {α : Type}

/-- One character of a kind. -/
def one (p : Char → Bool) : Attempts Char
  | [] => []
  | c :: s => if p c then [(c, s)] else []

/-- A run of characters of a kind, as long as can be. -/
def longRuns (p : Char → Bool) : Attempts Text
  | [] => [([], [])]
  | c :: s =>
    if p c then (longRuns p s).map (fun (run, rest) => (c :: run, rest)) ++ [([], c :: s)]
    else [([], c :: s)]

/-- A run of characters of a kind, as short as can be. -/
def shortRuns (p : Char → Bool) : Attempts Text
  | [] => [([], [])]
  | c :: s =>
    ([], c :: s) :: if p c then (shortRuns p s).map (fun (run, rest) => (c :: run, rest)) else []

/-- A character of one kind, and a run of another as long as can be. -/
def begun (first p : Char → Bool) : Attempts Text := fun s =>
  (one first s).flatMap fun (c, s) => (longRuns p s).map fun (run, rest) => (c :: run, rest)

/-- What may be missing. -/
def orNothing (a : Attempts Text) : Attempts Text := fun s => a s ++ [([], s)]

/-- Only what leaves nothing. -/
def toEnd (a : Attempts α) : Attempts α := fun s =>
  (a s).flatMap fun (found, rest) => if rest.isEmpty then [(found, rest)] else []

/-- The first place at which an attempt goes through, given by what stands before it, and
what the preferred attempt reads there and leaves behind it. -/
def search (a : Attempts α) : Text → Option (Text × α × Text)
  | [] => (a []).head?.map fun found => ([], found)
  | c :: s =>
    match (a (c :: s)).head? with
    | some found => some ([], found)
    | none => (search a s).map fun (before, found) => (c :: before, found)

/-- **Where only the end of a run can go through**, no other attempt counts. -/
theorem flatMap_longRuns {β : Type} {p : Char → Bool} (next : Text × Text → List β)
    (hnext : ∀ run c rest, p c = true → next (run, c :: rest) = []) (s : Text) :
    (longRuns p s).flatMap next = next (s.takeWhile p, s.dropWhile p) := by
  induction s generalizing next with
  | nil => simp [longRuns]
  | cons c s ih =>
    rw [longRuns]
    by_cases hc : p c = true
    -- What follows is put behind the longer run, so it is stated for every `next`.
    · have hlater := ih (fun found => next (c :: found.1, found.2)) fun run => hnext (c :: run)
      rw [if_pos hc, List.flatMap_append, List.flatMap_map, hlater, List.flatMap_singleton,
        hnext [] c s hc, List.append_nil, List.takeWhile_cons_of_pos hc,
        List.dropWhile_cons_of_pos hc]
    · rw [if_neg hc, List.flatMap_singleton, List.takeWhile_cons_of_neg hc,
        List.dropWhile_cons_of_neg hc]

end Attempts

namespace Iteration

open Text Attempts

/-! ## The pattern -/

/-- A character that does not end a line. -/
def isInLine (c : Char) : Bool := c != '\n'

/-- What follows a body, up to the end of the text: nothing, or a semicolon and all else. -/
def others : Attempts Text := toEnd (orNothing (begun (· == ';') isInLine))

/-- The body of an iteration and what follows it. -/
def bodies : Attempts (Text × Text) := fun s =>
  (shortRuns isInLine s).flatMap fun (body, s) =>
    (others s).map fun (others, rest) => ((body, others), rest)

/-- What stands behind the digits of an iteration. -/
def closed : Attempts (Text × Text) := fun s =>
  (one (· == ']') s).flatMap fun (_, s) => bodies s

/-- An iteration: the digits of its number, its body and what follows the body. -/
def pattern : Attempts (Text × Text × Text) := fun s =>
  (one (· == '[') s).flatMap fun (_, s) =>
    (begun Char.isDigit Char.isDigit s).flatMap fun (digits, s) =>
      (closed s).map fun (found, rest) => ((digits, found), rest)

/-- What follows a body begins with a semicolon and goes on to the end, on one line. -/
theorem others_cons (c : Char) (s : Text) :
    others (c :: s) = if c = ';' ∧ '\n' ∉ s then [(c :: s, [])] else [] := by
  by_cases hc : c = ';'
  · subst hc
    have hruns := flatMap_longRuns (p := isInLine)
      (fun found => if found.2.isEmpty then [(';' :: found.1, found.2)] else [])
      (fun _ _ _ _ => rfl) s
    have hline : (s.dropWhile isInLine).isEmpty = true ↔ '\n' ∉ s := by
      rw [List.isEmpty_iff, List.dropWhile_eq_nil_iff]
      exact ⟨fun h hmem => absurd (h _ hmem) (by decide), bne_of_not_mem⟩
    simp only [others, toEnd, orNothing, begun, one, beq_self_eq_true, if_true,
      List.flatMap_singleton, List.flatMap_append, List.flatMap_map, hruns, List.isEmpty_cons,
      Bool.false_eq_true, if_false, List.append_nil, true_and]
    by_cases hs : '\n' ∈ s
    · rw [if_neg (fun h => hline.1 h hs), if_neg (not_not_intro hs)]
    · have hrest := List.isEmpty_iff.1 (hline.2 hs)
      rw [if_pos (hline.2 hs), if_pos hs, hrest,
        List.takeWhile_eq_self_iff.2 (List.dropWhile_eq_nil_iff.1 hrest)]
  · simp [others, toEnd, orNothing, begun, one, hc]

/-- A body is empty or goes on, and it is tried empty first. -/
theorem bodies_cons (c : Char) (s : Text) :
    bodies (c :: s) = (if c = ';' ∧ '\n' ∉ s then [(([], c :: s), [])] else [])
      ++ if c = '\n' then []
        else (bodies s).map fun found => ((c :: found.1.1, found.1.2), found.2) := by
  rw [bodies, shortRuns, List.flatMap_cons]
  congr 1
  · simp only [others_cons]
    split <;> rfl
  · by_cases hc : c = '\n'
    · rw [if_pos hc, hc]
      rfl
    · rw [if_neg hc, if_pos (by simpa [isInLine] using hc), List.flatMap_map, bodies,
        List.map_flatMap]
      refine List.flatMap_congr fun found _ => ?_
      rw [List.map_map]
      rfl

/-- **The body ends at the first semicolon**, and there is none where a line ends. -/
theorem head?_bodies (s : Text) :
    (bodies s).head? = if '\n' ∈ s then none
      else some ((s.takeWhile (· != ';'), s.dropWhile (· != ';')), []) := by
  induction s with
  | nil => rfl
  | cons c s ih =>
    rw [bodies_cons]
    by_cases hline : '\n' ∈ s
    -- A line that ends behind the body is in the way of every longer body too.
    · have hnone : bodies s = [] := by rwa [if_pos hline, List.head?_eq_none_iff] at ih
      simp [hline, hnone]
    · rw [if_neg hline] at ih
      by_cases hc : c = ';'
      · simp [hc, hline]
      · by_cases hend : c = '\n'
        · simp [hend]
        · simp [hc, hend, hline, ih, Ne.symm hend]

/-! ## What is found -/

theorem closed_of_ne {c : Char} (hc : c ≠ ']') (s : Text) : closed (c :: s) = [] := by
  simp [closed, one, hc]

/-- The attempts at a place are those behind the number that stands there in brackets. -/
theorem pattern_eq (s : Text) :
    pattern s = match bracket? s with
      | some (digits, rest) => (bodies rest).map fun found => ((digits, found.1), found.2)
      | none => [] := by
  rcases s with _ | ⟨c, s⟩
  · rfl
  by_cases hopen : c = '['
  · subst hopen
    rcases s with _ | ⟨d, s⟩
    · rfl
    by_cases hd : d.isDigit = true
    -- A digit is no closing bracket, so a run that stops before one is tried in vain.
    · have hruns := flatMap_longRuns (p := Char.isDigit)
        (fun found => (closed found.2).map fun x => ((d :: found.1, x.1), x.2))
        (fun _ c rest hc => by
          have hclose : c ≠ ']' := by
            rintro rfl
            cases hc
          simp [closed_of_ne hclose]) s
      simp only [pattern, begun, one, beq_self_eq_true, if_true, List.flatMap_singleton, hd,
        List.flatMap_map, hruns, bracket?, List.takeWhile_cons_of_pos, List.dropWhile_cons_of_pos]
      rcases s.dropWhile Char.isDigit with _ | ⟨e, rest⟩
      · rfl
      · by_cases hclose : e = ']'
        · subst hclose
          simp [closed, one]
        · simp [closed_of_ne hclose, hclose]
    · simp [pattern, begun, one, bracket?, hd]
  · simp [pattern, one, bracket?, hopen]

/-- **An iteration is found where trying finds it.** The number, the body and what follows
the body are those of the preferred attempt at the first place at which one goes through,
and nothing is left behind them. -/
theorem search_pattern (s : Text) :
    search pattern s = (find? s).map fun (before, digits, rest) =>
      (before, (digits, rest.takeWhile (· != ';'), rest.dropWhile (· != ';')), []) := by
  induction s with
  | nil => rfl
  | cons c s ih =>
    rw [search, find?, pattern_eq, ih]
    cases bracket? (c :: s) with
    | none => simp [Option.map_map, Function.comp_def]
    | some found =>
      obtain ⟨digits, rest⟩ := found
      have hlines : rest.any (· == '\n') = true ↔ '\n' ∈ rest := by
        rw [List.any_beq', List.contains_iff_mem]
      simp only [List.head?_map, head?_bodies, hlines]
      by_cases hline : '\n' ∈ rest
      · simp [hline, Option.map_map, Function.comp_def]
      · simp [hline]

/-- A bracket with more than one line behind it is tried in vain. -/
example : search pattern "[2]a\n[13]b;c".toList
    = some ("[2]a\n".toList, (['1', '3'], ['b'], [';', 'c']), []) := by decide

/-! ## The number -/

/-- The number that digits denote, read into a machine word of which the greatest value is
given. A number that does not fit counts as that value. -/
def requested (greatest : Nat) (digits : Text) : Nat :=
  match numberWithin greatest digits with
  | .ok n => n
  | .error _ => greatest

/-- Digits behind a number make it no smaller. -/
theorem le_ofDigitChars (digits : Text) (read : Nat) : read ≤ Nat.ofDigitChars 10 digits read := by
  rw [Nat.ofDigitChars_eq_ofDigitChars_zero]
  have hscaled : read ≤ 10 ^ digits.length * read := Nat.le_mul_of_pos_left _ (by positivity)
  omega

/-- Digits are read to their end, or to where the number has grown too large. -/
theorem digitsWithin_eq {greatest read : Nat} {digits : Text}
    (hdigits : ∀ c ∈ digits, c.isDigit = true) (hread : read ≤ greatest) :
    digitsWithin greatest read digits
      = if Nat.ofDigitChars 10 digits read ≤ greatest then
          .ok (Nat.ofDigitChars 10 digits read) else .error .tooLarge := by
  induction digits generalizing read with
  | nil =>
    rw [digitsWithin, Nat.ofDigitChars_nil, if_pos hread]
  | cons c digits ih =>
    obtain ⟨hc, hrest⟩ := List.forall_mem_cons.1 hdigits
    simp only [digitsWithin, hc, Bool.not_true, Bool.false_eq_true, if_false,
      Nat.ofDigitChars_cons]
    by_cases hgrown : greatest < 10 * read + (c.toNat - '0'.toNat)
    -- Reading stops here, and the digits that are left unread only make the number greater.
    · have hvalue := le_ofDigitChars digits (10 * read + (c.toNat - '0'.toNat))
      rw [if_pos hgrown, if_neg (by omega)]
    · rw [if_neg hgrown, ih hrest (by omega)]

/-- **A number is cut down to the greatest word.** -/
theorem requested_eq {greatest : Nat} {digits : Text} (hne : digits ≠ [])
    (hdigits : ∀ c ∈ digits, c.isDigit = true) :
    requested greatest digits = min digits.value greatest := by
  have hunsigned : numberWithin greatest digits = digitsWithin greatest 0 digits := by
    unfold numberWithin
    split
    · exact absurd rfl hne
    · exact absurd (hdigits '+' (by simp)) (by decide)
    · exact absurd (hdigits '+' (by simp)) (by decide)
    · rfl
  rw [requested, hunsigned, digitsWithin_eq hdigits (Nat.zero_le _), ← Text.value]
  by_cases hfits : digits.value ≤ greatest
  · rw [if_pos hfits, Nat.min_eq_left hfits]
  · rw [if_neg hfits, Nat.min_eq_right (by omega)]

/-! ## The pass -/

/-- The text with its first iteration written out, as it is found by trying and with its
number read into a machine word. -/
def backtrack (greatest limit : Nat) (s : Text) : Text × List Problem :=
  match search pattern s with
  | none => (s, [])
  | some (before, (digits, body, others), after) =>
    let requested := requested greatest digits
    let (count, problems) :=
      if limit < requested then (limit, [.tooManyIterations limit]) else (requested, [])
    (before ++ copies count (trim body) ++ others ++ after, problems)

/-- **Nothing of the trying and of the word is seen**, as long as the limit is smaller than
the greatest word. -/
theorem backtrack_eq_expand {greatest limit : Nat} (hlimit : limit < greatest) (s : Text) :
    backtrack greatest limit s = expand limit s := by
  rw [backtrack, expand, search_pattern]
  cases hfind : find? s with
  | none => rfl
  | some found =>
    obtain ⟨before, digits, rest⟩ := found
    have hnumber := IsNumbered.of_find? hfind
    simp only [Option.map_some, requested_eq hnumber.ne_nil hnumber.isDigit, List.append_nil]
    -- A number that does not fit the word is over the limit before and after it is cut down.
    by_cases hmany : limit < digits.value
    · rw [if_pos hmany, if_pos (by omega), Nat.min_eq_right (by omega)]
    · rw [if_neg hmany, if_neg (by omega), Nat.min_eq_left (by omega), Nat.min_eq_left (by omega)]

end Iteration

end DiceRoll
