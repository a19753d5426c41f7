/-
An attack with two modifiers.

A modifier is a numeral of any length, and it is read as an integer of sixty-four bits. Within
the range it counts as what it denotes, and beyond it as zero (`Attack.bonus_eq`). What is
written out for an attack is its two rolls, each a die with what its modifier counts as, and
nothing is written for a zero.
-/

import DiceRoll.Proofs.Arithmetic.Lexing
import DiceRoll.Proofs.Shorthand
import DiceRoll.Proofs.Shorthand.Output

set_option autoImplicit false

namespace DiceRoll

open Text

namespace Attack

/-! ## Modifiers -/

/-- A modifier: digits, at least one, behind a minus sign or none. -/
def IsModifier (m : Text) : Prop :=
  ∃ minus digits, m = minus ++ digits ∧ (minus = [] ∨ minus = ['-']) ∧ digits ≠ []
    ∧ ∀ c ∈ digits, c.isDigit = true

/-- The integer that a modifier denotes, however long it is. -/
def valueOf : Text → Int
  | '-' :: digits => -(Text.value digits : Int)
  | digits => Text.value digits

/-- **A modifier counts as what it denotes**, and as zero beyond sixty-four bits. -/
theorem bonus_eq {m : Text} (hm : IsModifier m) :
    bonus m = if Number.inRange (valueOf m) then valueOf m else 0 := by
  obtain ⟨minus, digits, rfl, hminus, hne, hdigits⟩ := hm
  have hall : digits.allDigits = true := List.all_eq_true.2 hdigits
  have hempty : digits.isEmpty = false := List.isEmpty_eq_false_iff.2 hne
  have hrange : ∀ n : Int, (if digits.isEmpty || !digits.allDigits || n < Number.minInt
      || Number.maxInt < n then 0 else n) = if Number.inRange n then n else 0 := by
    intro n
    simp only [hempty, hall, Number.inRange, Bool.false_or, Bool.not_true, Bool.or_eq_true,
      Bool.and_eq_true, decide_eq_true_eq]
    split <;> split <;> omega
  rcases hminus with rfl | rfl
  · obtain ⟨c, digits, rfl⟩ := List.exists_cons_of_ne_nil hne
    have hc := hdigits c List.mem_cons_self
    have hdash : c ≠ '-' := by
      rintro rfl
      cases hc
    have hplus : c ≠ '+' := by
      rintro rfl
      cases hc
    have hvalue : valueOf (c :: digits) = Text.value (c :: digits) := by
      rw [valueOf]
      exact fun ds h => hdash (List.cons.inj h).1
    rw [List.nil_append, hvalue, ← hrange, bonus, intWithin]
    · rfl
    · exact fun ds h => hdash (List.cons.inj h).1
    · exact fun ds h => hplus (List.cons.inj h).1
  · exact hrange (-(Text.value digits : Int))

theorem IsModifier.ne_nil {m : Text} (hm : IsModifier m) : m ≠ [] := by
  obtain ⟨minus, digits, rfl, -, hne, -⟩ := hm
  exact fun h => hne (List.append_eq_nil_iff.1 h).2

theorem IsModifier.isBonusChar {m : Text} (hm : IsModifier m) :
    ∀ c ∈ m, isBonusChar c = true := by
  obtain ⟨minus, digits, rfl, hminus, -, hdigits⟩ := hm
  intro c hc
  rcases List.mem_append.1 hc with hc | hc
  · rcases hminus with rfl | rfl
    · cases hc
    · rw [List.mem_singleton.1 hc]
      rfl
  · rw [Attack.isBonusChar, hdigits c hc, Bool.or_true]

/-! ## What is written out -/

/-- An attack with two modifiers. -/
def withModifiers (m : Text) (faces : Nat) (n : Text) : Text :=
  m ++ ':' :: (Text.ofNat faces ++ ':' :: n)

/-- The die of a roll. -/
def dieText (faces : Nat) : Text := '1' :: 'd' :: Text.ofNat faces

/-- One of the two rolls of an attack: a die, what is added to it, and a title. -/
def rollText (faces : Nat) (k : Int) (title : Text) : Text :=
  dieText faces ++ bonusText k ++ ' ' :: '#' :: ' ' :: title

theorem ofText?_withModifiers {m n : Text} (hm : IsModifier m) (hn : IsModifier n) (faces : Nat) :
    ofText? (withModifiers m faces n) = some (⟨m, [], Text.ofNat faces, n⟩, []) := by
  have hdice : ∀ c ∈ Text.ofNat faces, isDiceChar c = true := by
    intro c hc
    rw [isDiceChar, Token.isDigit_of_mem_ofNat hc, Bool.or_true]
  have hcolon : ∀ p : Char → Bool, p ':' = false → ∀ rest : Text,
      ∀ c ∈ (':' :: rest).head?, p c = false := by
    intro p hp rest c hc
    cases hc
    exact hp
  obtain ⟨c, hit, hcons⟩ := List.exists_cons_of_ne_nil hm.ne_nil
  have hfirst : (withModifiers m faces n).takeWhile isBonusChar = m :=
    takeWhile_run hm.isBonusChar (hcolon _ rfl _)
  have hbehind : (withModifiers m faces n).dropWhile isBonusChar
      = ':' :: (Text.ofNat faces ++ ':' :: n) := dropWhile_run hm.isBonusChar (hcolon _ rfl _)
  have hletter : ∀ rest : Text, letter (':' :: rest) = ([], ':' :: rest) := fun _ => rfl
  have hsize : (Text.ofNat faces).isEmpty = false :=
    List.isEmpty_eq_false_iff.2 (Token.ofNat_ne_nil faces)
  have hlast : n.takeWhile isBonusChar = n := List.takeWhile_eq_self_iff.2 hn.isBonusChar
  have hend : n.dropWhile isBonusChar = [] := List.dropWhile_eq_nil_iff.2 hn.isBonusChar
  have hskip : skipColon (':' :: n) = n := rfl
  rw [hcons] at hfirst hbehind ⊢
  simp only [ofText?, hfirst, hbehind, hletter, takeWhile_run hdice (hcolon _ rfl n),
    dropWhile_run hdice (hcolon _ rfl n), hsize, hskip, hlast, hend]
  rfl

/-- **The two rolls of an attack.** -/
theorem expand_withModifiers {m n : Text} (hm : IsModifier m) (hn : IsModifier n) (faces : Nat) :
    expand (withModifiers m faces n) = rollText 20 (bonus m) "hit".toList
      ++ ';' :: ' ' :: rollText faces (bonus n) "dmg".toList := by
  have hread := ofText?_withModifiers hm hn faces
  have hpoint : (Text.ofNat faces).dropWhile (· != '.') = [] := by
    rw [List.dropWhile_eq_nil_iff]
    intro c hc
    rw [bne_iff_ne]
    rintro rfl
    exact absurd (Token.isDigit_of_mem_ofNat hc) (by decide)
  have hdice : diceText (Text.ofNat faces) = dieText faces := by
    rw [diceText, hpoint]
    rfl
  have hne : withModifiers m faces n ≠ [] := by
    intro h
    exact hm.ne_nil (List.append_eq_nil_iff.1 h).1
  have hwritten : (ofText? (withModifiers m faces n)).map (fun found => (found.1.text, found.2))
      = some (text ⟨m, [], Text.ofNat faces, n⟩, []) := by
    rw [hread]
    rfl
  have htwenty : ['1', 'd', '2', '0'] = dieText 20 := rfl
  rw [expand, substitute_of_read hne hwritten]
  simp only [text, hdice, htwenty, rollText, List.append_nil, List.append_assoc]
  rfl

/-- What an attack is written with: bonuses, digits and colons. -/
theorem not_mem_withModifiers {m n : Text} (hm : IsModifier m) (hn : IsModifier n) (faces : Nat)
    {c : Char} (hc : isBonusChar c = false) (hcolon : c ≠ ':') : c ∉ withModifiers m faces n := by
  have hbonus {text : Text} (htext : ∀ d ∈ text, isBonusChar d = true) : c ∉ text := by
    intro hmem
    rw [htext c hmem] at hc
    cases hc
  have hsize : c ∉ Text.ofNat faces := hbonus fun d hd => by
    rw [isBonusChar, Token.isDigit_of_mem_ofNat hd, Bool.or_true]
  simp [withModifiers, hbonus hm.isBonusChar, hbonus hn.isBonusChar, hsize, hcolon]

/-- **An attack is written out as its two rolls.** -/
theorem writeOut_withModifiers {book : MacroBook} (hbook : book.macros = []) {m n : Text}
    (hm : IsModifier m) (hn : IsModifier n) (faces limit : Nat) :
    book.writeOut limit (withModifiers m faces n)
      = (rollText 20 (bonus m) "hit".toList ++ ';' :: ' ' :: rollText faces (bonus n) "dmg".toList,
        []) := by
  have habsent : ∀ {c : Char}, isBonusChar c = false → c ≠ ':' → c ∉ withModifiers m faces n :=
    not_mem_withModifiers hm hn faces
  have habilities : Text.contains Abilities.word (withModifiers m faces n) = false :=
    Text.contains_eq_false (c := 'a') (by decide) (habsent rfl (by decide))
  rw [MacroBook.writeOut_of_no_bracket hbook habilities (habsent rfl (by decide)),
    Check.expand_eq_self (habsent rfl (by decide)), expand_withModifiers hm hn]

end Attack

end DiceRoll
