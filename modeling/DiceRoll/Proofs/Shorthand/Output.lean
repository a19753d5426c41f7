/-
What is written out for a check and for an attack.

A check becomes a twenty-sided die and a bonus, a text that begins with a digit and ends
with one and holds few other characters. So writing out checks brings in no other kind of
shorthand, and blanks nothing at the ends of a text. It can bring in checks, though. The
bonus of a check ends where its digits do, but what is in front of a check stays in front of
the die, and a `c` there begins a check that was none before: `cc5` is written out as
`c1d20 + 5`, where `c1` is the next check. Where the result holds no check (`Check.holds`),
writing out checks again changes nothing.

An attack becomes a list of two rolls with their titles. A result without a semicolon tells
that there was none (`Attack.expand_eq_self_of_not_mem`).
-/

import DiceRoll.Proofs.Text.Replacing
import Mathlib.Data.List.Infix

set_option autoImplicit false

namespace DiceRoll

open Text

namespace Check

/-! ## What is written for a check -/

/-- The characters that are written out for a check. -/
def isWritten (c : Char) : Bool :=
  c.isDigit || c == 'a' || c == 'd' || c == ' ' || c == '+' || c == '-'

theorem flag_eq (s : Text) :
    s = (flag s).1 ++ (flag s).2 ∧ ∀ c ∈ (flag s).1, isWritten c = true := by
  unfold flag
  split
  · exact ⟨rfl, List.forall_mem_singleton.2 rfl⟩
  · exact ⟨rfl, List.forall_mem_singleton.2 rfl⟩
  · exact ⟨rfl, List.forall_mem_nil _⟩

theorem writesBetweenDigits_written? {sign : Char} (hsign : isWritten sign = true) :
    WritesBetweenDigits isWritten (written? sign) := by
  have hread : ∀ {s out rest}, written? sign s = some (out, rest) →
      s.takeWhile Char.isDigit ≠ []
        ∧ out = ['1', 'd', '2', '0'] ++ (flag (s.dropWhile Char.isDigit)).1 ++ [' ', sign, ' ']
          ++ s.takeWhile Char.isDigit
        ∧ rest = (flag (s.dropWhile Char.isDigit)).2 := by
    intro s out rest h
    simp only [written?] at h
    split at h
    · cases h
    · rename_i hdigits
      cases h
      exact ⟨fun hempty => hdigits (List.isEmpty_iff.2 hempty), rfl, rfl⟩
  refine ⟨fun s out rest h => ?_, fun {s out rest} h => ?_, fun {s out rest} h => ?_⟩
  · obtain ⟨-, -, rfl⟩ := hread h
    have hflag := (flag_eq (s.dropWhile Char.isDigit)).1
    have hbehind : (flag (s.dropWhile Char.isDigit)).2 <:+ s.dropWhile Char.isDigit :=
      ⟨_, hflag.symm⟩
    exact hbehind.trans (List.dropWhile_suffix _)
  · obtain ⟨-, rfl, -⟩ := hread h
    have hflag := (flag_eq (s.dropWhile Char.isDigit)).2
    have hdie : ∀ c ∈ ['1', 'd', '2', '0'], isWritten c = true := List.all_eq_true.1 rfl
    have hmiddle : ∀ c ∈ [' ', sign, ' '], isWritten c = true :=
      List.forall_mem_cons.2 ⟨rfl, List.forall_mem_cons.2 ⟨hsign, List.forall_mem_singleton.2 rfl⟩⟩
    have hdigits : ∀ c ∈ s.takeWhile Char.isDigit, isWritten c = true := by
      intro c hc
      simp [isWritten, List.mem_takeWhile_imp hc]
    simp only [List.forall_mem_append]
    exact ⟨⟨⟨hdie, hflag⟩, hmiddle⟩, hdigits⟩
  · obtain ⟨hdigits, rfl, -⟩ := hread h
    refine ⟨⟨'1', _, rfl, rfl⟩, ['1', 'd', '2', '0'] ++ (flag (s.dropWhile Char.isDigit)).1
      ++ [' ', sign, ' '] ++ (s.takeWhile Char.isDigit).dropLast,
      (s.takeWhile Char.isDigit).getLast hdigits, ?_,
      List.mem_takeWhile_imp (List.getLast_mem hdigits)⟩
    rw [List.append_assoc _ _ [_], List.dropLast_append_getLast hdigits]

theorem writesBetweenDigits_bind {written : Char → Bool} {lead : Text}
    {read : Text → Option (Text × Text)} (hread : WritesBetweenDigits written read) :
    WritesBetweenDigits written fun s => (after? lead s).bind read := by
  refine ⟨fun s out rest h => ?_, fun {s out rest} h => ?_, fun {s out rest} h => ?_⟩
    <;> obtain ⟨behind, hbehind, hfound⟩ := Option.bind_eq_some_iff.1 h
  · exact (hread.goesOn hfound).trans ⟨lead, (after?_eq_some_iff.1 hbehind).symm⟩
  · exact hread.writes hfound
  · exact hread.digits hfound

theorem writesBetweenDigits_malus? : WritesBetweenDigits isWritten malus? :=
  writesBetweenDigits_bind (writesBetweenDigits_written? rfl)

theorem writesBetweenDigits_bonus? : WritesBetweenDigits isWritten bonus? :=
  writesBetweenDigits_bind (writesBetweenDigits_written? rfl)

/-! ## Texts with their checks written out -/

theorem mem_of_mem_expand {s : Text} {c : Char} (hc : c ∈ expand s)
    (hwritten : isWritten c = false) : c ∈ s := by
  have hfound {read : Text → Option (Text × Text)} (hread : WritesBetweenDigits isWritten read)
      {s : Text} (h : c ∈ substitute read s) : c ∈ s := by
    refine (mem_of_mem_substitute hread.goesOn h).resolve_right ?_
    rintro ⟨r, out, rest, hr, hout⟩
    rw [hread.writes hr c hout] at hwritten
    cases hwritten
  exact hfound writesBetweenDigits_malus? (hfound writesBetweenDigits_bonus? hc)

theorem isTrimmed_expand {s : Text} (hs : IsTrimmed s) : IsTrimmed (expand s) :=
  writesBetweenDigits_bonus?.isTrimmed_substitute
    (writesBetweenDigits_malus?.isTrimmed_substitute hs)

theorem expand_ne_nil {s : Text} (hs : s ≠ []) : expand s ≠ [] :=
  writesBetweenDigits_bonus?.substitute_ne_nil (writesBetweenDigits_malus?.substitute_ne_nil hs)

/-- A kind of character that includes the digits is not lost. -/
theorem exists_mem_expand {P : Char → Prop} (hdigits : ∀ c : Char, c.isDigit = true → P c)
    {s : Text} (hs : ∃ c ∈ s, P c) : ∃ c ∈ expand s, P c := by
  have hout {read : Text → Option (Text × Text)} (hread : WritesBetweenDigits isWritten read) :
      ∀ r out rest, read r = some (out, rest) → ∃ c ∈ out, P c := by
    intro r out rest h
    obtain ⟨⟨first, behind, rfl, hfirst⟩, -⟩ := hread.digits h
    exact ⟨first, List.mem_cons_self, hdigits first hfirst⟩
  exact exists_mem_substitute (hout writesBetweenDigits_bonus?)
    (exists_mem_substitute (hout writesBetweenDigits_malus?) hs)

/-- **Checks put no word together** that holds no digit and something that is not written
for a check. -/
theorem contains_expand {word : Text} (hword : ∀ c ∈ word, c.isDigit = false)
    (hforeign : ∃ c ∈ word, isWritten c = false) {s : Text} (hs : contains word s = false) :
    contains word (expand s) = false := by
  rw [contains_eq_false_iff] at hs ⊢
  intro hword'
  have hmalus := writesBetweenDigits_bonus?.infix_of_infix_substitute hword hforeign hword'
  exact hs (writesBetweenDigits_malus?.infix_of_infix_substitute hword hforeign hmalus)

/-! ## Whether there are checks -/

/-- Whether a check is written somewhere in a text. -/
def holds (s : Text) : Bool := s.tails.any fun r => (malus? r).isSome || (bonus? r).isSome

/-- **A text without checks is left as it is.** -/
theorem expand_eq_self_of_holds {s : Text} (hs : holds s = false) : expand s = s := by
  have hnone : ∀ r, r <:+ s → malus? r = none ∧ bonus? r = none := by
    intro r hr
    simpa using List.any_eq_false.1 hs r ((List.mem_tails r s).2 hr)
  rw [expand, substitute_of_none fun r hr => (hnone r hr).1,
    substitute_of_none fun r hr => (hnone r hr).2]

end Check

/-! ## What is written for an attack -/

namespace Attack

/-! ## What is written for an attack -/

/-- The characters that are written out for an attack. -/
def isWritten (c : Char) : Bool := c.isDigit || " +-.#;adeghimt".toList.contains c

theorem letter_eq (s : Text) :
    s = (letter s).1 ++ (letter s).2 ∧ ∀ c ∈ (letter s).1, isWritten c = true := by
  unfold letter
  split
  · exact ⟨rfl, List.forall_mem_singleton.2 rfl⟩
  · exact ⟨rfl, List.forall_mem_singleton.2 rfl⟩
  · exact ⟨rfl, List.forall_mem_singleton.2 rfl⟩
  · exact ⟨rfl, List.forall_mem_nil _⟩

theorem skipColon_suffix (s : Text) : skipColon s <:+ s := by
  unfold skipColon
  split
  · exact List.suffix_cons _ _
  · exact List.suffix_rfl

/-- An attack goes on to what stands behind it, and few characters are read for it. -/
theorem ofText?_eq_some {s rest : Text} {a : Attack} (h : ofText? s = some (a, rest)) :
    rest <:+ s ∧ (∀ c ∈ a.flag, isWritten c = true) ∧ ∀ c ∈ a.dice, isDiceChar c = true := by
  obtain ⟨hletter, hflag⟩ := letter_eq (s.dropWhile isBonusChar)
  simp only [ofText?] at h
  split at h
  · rename_i behind _ hcolon
    split at h
    · cases h
    · cases h
      refine ⟨?_, hflag, fun c hc => List.mem_takeWhile_imp hc⟩
      have hbehind : behind <:+ s.dropWhile isBonusChar := by
        refine ⟨(letter (s.dropWhile isBonusChar)).1 ++ [':'], ?_⟩
        rw [List.append_assoc, List.singleton_append, ← hcolon, ← hletter]
      exact ((List.dropWhile_suffix _).trans (skipColon_suffix _)).trans
        ((List.dropWhile_suffix _).trans (hbehind.trans (List.dropWhile_suffix _)))
  · cases h

theorem isWritten_of_isDigit {c : Char} (hc : c.isDigit = true) : isWritten c = true := by
  rw [isWritten, hc, Bool.true_or]

theorem isWritten_of_isDiceChar {c : Char} (hc : isDiceChar c = true) : isWritten c = true := by
  rcases Bool.or_eq_true_iff.1 hc with hpoint | hdigit
  · rw [eq_of_beq hpoint]
    rfl
  · exact isWritten_of_isDigit hdigit

theorem isWritten_of_mem_ofNat {n : Nat} {c : Char} (hc : c ∈ Text.ofNat n) : isWritten c = true :=
  isWritten_of_isDigit (Nat.isDigit_of_mem_toDigits (by decide) (by decide) hc)

theorem isWritten_of_mem_bonusText {n : Int} {c : Char} (hc : c ∈ bonusText n) :
    isWritten c = true := by
  have hsign : ∀ sign : Text, (∀ c ∈ sign, isWritten c = true) →
      ∀ {digits : Text}, (∀ c ∈ digits, isWritten c = true) → c ∈ sign ++ digits →
        isWritten c = true := by
    intro sign hsign digits hdigits hmem
    exact (List.mem_append.1 hmem).elim (hsign c) (hdigits c)
  have hminus : ∀ c ∈ Text.ofInt n, isWritten c = true := by
    obtain ⟨minus, hminus, hn⟩ := Markup.ofInt_eq n
    intro c hc
    rw [hn, List.mem_append] at hc
    rcases hc with hc | hc
    · rcases hminus with rfl | rfl
      · cases hc
      · rw [List.mem_singleton.1 hc]
        rfl
    · exact isWritten_of_mem_ofNat hc
  unfold bonusText at hc
  split at hc
  · exact hsign [' ', '+', ' '] (List.all_eq_true.1 rfl) hminus hc
  · split at hc
    · exact hsign [' ', '-', ' '] (List.all_eq_true.1 rfl) (fun _ => isWritten_of_mem_ofNat) hc
    · cases hc

theorem isWritten_of_mem_diceText {dice : Text} (hdice : ∀ c ∈ dice, isDiceChar c = true)
    {c : Char} (hc : c ∈ diceText dice) : isWritten c = true := by
  have hkept : ∀ c ∈ dice, isWritten c = true := fun c hc => isWritten_of_isDiceChar (hdice c hc)
  unfold diceText at hc
  split at hc
  · rcases List.mem_append.1 hc with hc | hc
    · rcases List.mem_pair.1 hc with rfl | rfl <;> rfl
    · exact hkept c hc
  · rename_i size hsize
    rcases List.mem_append.1 hc with hc | hc
    · exact hkept c ((List.takeWhile_sublist _).subset hc)
    · rcases List.mem_cons.1 hc with rfl | hc
      · rfl
      · have hbehind : c ∈ dice.dropWhile (· != '.') := hsize ▸ List.mem_cons_of_mem _ hc
        exact hkept c ((List.dropWhile_sublist _).subset hbehind)

theorem isWritten_of_mem_text {a : Attack} (hflag : ∀ c ∈ a.flag, isWritten c = true)
    (hdice : ∀ c ∈ a.dice, isDiceChar c = true) {c : Char} (hc : c ∈ a.text) :
    isWritten c = true := by
  have hhit : ∀ c ∈ " # hit; ".toList, isWritten c = true := List.all_eq_true.1 rfl
  have hdamage : ∀ c ∈ " # dmg".toList, isWritten c = true := List.all_eq_true.1 rfl
  have hdie : ∀ c ∈ ['1', 'd', '2', '0'], isWritten c = true := List.all_eq_true.1 rfl
  simp only [text, List.mem_append] at hc
  rcases hc with (((((hc | hc) | hc) | hc) | hc) | hc) | hc
  · exact hdie c hc
  · exact hflag c hc
  · exact isWritten_of_mem_bonusText hc
  · exact hhit c hc
  · exact isWritten_of_mem_diceText hdice hc
  · exact isWritten_of_mem_bonusText hc
  · exact hdamage c hc

/-- Every character of the result was there before or is written out for an attack. -/
theorem mem_of_mem_expand {s : Text} {c : Char} (hc : c ∈ expand s) :
    c ∈ s ∨ isWritten c = true := by
  have hread : GoesOn fun s => (ofText? s).map fun found => (found.1.text, found.2) := by
    intro s out rest h
    obtain ⟨⟨attack, behind⟩, hattack, heq⟩ := Option.map_eq_some_iff.1 h
    obtain ⟨-, rfl⟩ := Prod.mk.inj heq
    exact (ofText?_eq_some hattack).1
  refine (mem_of_mem_substitute hread hc).imp_right ?_
  rintro ⟨r, out, rest, hfound, hout⟩
  obtain ⟨⟨attack, behind⟩, hattack, heq⟩ := Option.map_eq_some_iff.1 hfound
  obtain ⟨rfl, -⟩ := Prod.mk.inj heq
  obtain ⟨-, hflag, hdice⟩ := ofText?_eq_some hattack
  exact isWritten_of_mem_text hflag hdice hout

/-- A kind of character that includes the digits is not lost. -/
theorem exists_mem_expand {P : Char → Prop} (hdigits : ∀ c : Char, c.isDigit = true → P c)
    {s : Text} (hs : ∃ c ∈ s, P c) : ∃ c ∈ expand s, P c := by
  refine exists_mem_substitute (fun r out rest h => ?_) hs
  obtain ⟨⟨attack, behind⟩, -, heq⟩ := Option.map_eq_some_iff.1 h
  obtain ⟨rfl, -⟩ := Prod.mk.inj heq
  exact ⟨'1', by simp [text], hdigits '1' rfl⟩

/-- An attack is a list of two rolls, so without a semicolon in the end there was none. -/
theorem expand_eq_self_of_not_mem {s : Text} (hs : ';' ∉ expand s) : expand s = s := by
  refine (substitute_eq_self_or s).resolve_right ?_
  rintro ⟨r, out, rest, hread, hout⟩
  obtain ⟨⟨attack, behind⟩, -, heq⟩ := Option.map_eq_some_iff.1 hread
  obtain ⟨rfl, -⟩ := Prod.mk.inj heq
  have hmem : ';' ∈ attack.text := by simp [Attack.text]
  exact hs (hout.subset hmem)

/-- **A roll stands in front of the first separator**: what is written for an attack begins
with a die, and the separator comes behind it. -/
theorem exists_die_before {s : Text} (hs : ';' ∉ s) (h : ';' ∈ expand s) :
    ∃ front rest, expand s = front ++ ';' :: rest ∧ ';' ∉ front ∧ '1' ∈ front := by
  unfold expand at h ⊢
  induction s using substitute_induct with
  | nil => cases h
  | found c s out rest hread _ _ =>
    obtain ⟨front, behind, heq, hfront⟩ := List.eq_append_cons_of_mem h
    refine ⟨front, behind, heq, hfront, ?_⟩
    obtain ⟨⟨attack, after⟩, -, hattack⟩ := Option.map_eq_some_iff.1 hread
    obtain ⟨rfl, -⟩ := Prod.mk.inj hattack
    cases front with
    | nil => exact absurd (List.cons.inj heq).1 (by decide)
    | cons d front =>
      obtain ⟨rfl, -⟩ := List.cons.inj heq
      exact List.mem_cons_self
  | kept c s ih =>
    obtain ⟨hc, hs⟩ := not_or.1 (mt List.mem_cons.2 hs)
    obtain ⟨front, rest, heq, hfront, hdie⟩ := ih hs ((List.mem_cons.1 h).resolve_left hc)
    refine ⟨c :: front, rest, by rw [heq, List.cons_append], ?_, List.mem_cons_of_mem c hdie⟩
    exact mt List.mem_cons.1 (not_or.2 ⟨hc, hfront⟩)

end Attack

/-- Checks and attacks bring in no characters but their own. -/
theorem not_mem_written {c : Char} (hcheck : Check.isWritten c = false)
    (hattack : Attack.isWritten c = false) {s : Text} (hc : c ∉ s) :
    c ∉ Attack.expand (Check.expand s) := by
  intro hmem
  rcases Attack.mem_of_mem_expand hmem with hmem | hmem
  · exact hc (Check.mem_of_mem_expand hmem hcheck)
  · rw [hattack] at hmem
    cases hmem

/-- **Without macros a text that asks for no copies and no abilities** is written out by its
checks and attacks alone. -/
theorem MacroBook.writeOut_of_no_bracket {book : MacroBook} (hbook : book.macros = []) {s : Text}
    (habilities : Text.contains Abilities.word s = false) (hbracket : '[' ∉ s) (limit : Nat) :
    book.writeOut limit s = (Attack.expand (Check.expand s), []) := by
  have hwritten := not_mem_written (c := '[') (by decide) (by decide) hbracket
  rw [writeOut_of_no_macros hbook]
  simp only [Abilities.expand_eq_self habilities, Iteration.expand_eq_self hbracket,
    Iteration.expand_eq_self hwritten, List.append_nil]

end DiceRoll
