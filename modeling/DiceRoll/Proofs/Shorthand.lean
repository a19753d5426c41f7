/-
A text without shorthand.

Every kind of shorthand has a character of its own: the abilities are a word with an
`a`, an iteration begins with a bracket, a check with a `c`, and an attack holds a
colon. A text without these four, in a session without macros, is written out as it
stands.
-/

import DiceRoll.Proofs.Text.Boundary
import DiceRoll.Shorthand.Expand

set_option autoImplicit false

namespace DiceRoll

/-- The characters without which there is no shorthand. -/
def isShorthand (c : Char) : Bool := c == 'a' || c == '[' || c == 'c' || c == ':'

/-- A text is written out as it stands where it holds no shorthand. -/
def HoldsNoShorthand (s : Text) : Prop := ∀ c ∈ s, isShorthand c = false

instance (s : Text) : Decidable (HoldsNoShorthand s) :=
  List.decidableBAll (isShorthand · = false) s

theorem HoldsNoShorthand.not_mem {s : Text} (hs : HoldsNoShorthand s) {c : Char}
    (hc : isShorthand c = true) : c ∉ s := by
  intro hmem
  rw [hs c hmem] at hc
  cases hc

/-! ## What is not found -/

/-- A text does not begin with a text of which it lacks a character. -/
theorem Text.after?_eq_none {lead s : Text} {c : Char} (hlead : c ∈ lead) (hs : c ∉ s) :
    Text.after? lead s = none := by
  cases h : Text.after? lead s with
  | none => rfl
  | some rest =>
    rw [Text.after?_eq_some_iff.1 h, List.mem_append, not_or] at hs
    exact absurd hlead hs.1

theorem Text.contains_eq_false {needle s : Text} {c : Char} (hneedle : c ∈ needle) (hs : c ∉ s) :
    Text.contains needle s = false := by
  induction s with
  | nil => simpa [Text.contains] using List.ne_nil_of_mem hneedle
  | cons d s ih =>
    rw [Text.contains, Text.after?_eq_none hneedle hs, ih fun h => hs (List.mem_cons_of_mem d h)]
    rfl

theorem Iteration.find?_eq_none {s : Text} (hs : '[' ∉ s) : Iteration.find? s = none := by
  induction s with
  | nil => rfl
  | cons c s ih =>
    rw [List.mem_cons, not_or] at hs
    have hbracket : Iteration.bracket? (c :: s) = none := by
      unfold Iteration.bracket?
      split
      · rename_i h
        exact absurd (List.cons.inj h).1.symm hs.1
      · rfl
    rw [Iteration.find?, hbracket, ih hs.2]
    rfl

theorem Iteration.expand_eq_self {s : Text} (hs : '[' ∉ s) (limit : Nat) :
    Iteration.expand limit s = (s, []) := by
  rw [Iteration.expand, Iteration.find?_eq_none hs]

theorem Check.expand_eq_self {s : Text} (hs : 'c' ∉ s) : Check.expand s = s := by
  have hmalus : ∀ r, r <:+ s → Check.malus? r = none := by
    intro r hr
    rw [Check.malus?, Text.after?_eq_none List.mem_cons_self fun h => hs (hr.subset h)]
    rfl
  have hbonus : ∀ r, r <:+ s → Check.bonus? r = none := by
    intro r hr
    rw [Check.bonus?, Text.after?_eq_none List.mem_cons_self fun h => hs (hr.subset h)]
    rfl
  rw [Check.expand, Text.substitute_of_none hmalus, Text.substitute_of_none hbonus]

theorem Attack.mem_of_mem_letter {s : Text} {c : Char} (hc : c ∈ (Attack.letter s).2) : c ∈ s := by
  unfold Attack.letter at hc
  split at hc <;> first | exact hc | exact List.mem_cons_of_mem _ hc

theorem Attack.expand_eq_self {s : Text} (hs : ':' ∉ s) : Attack.expand s = s := by
  have hread : ∀ r, r <:+ s → Attack.ofText? r = none := by
    intro r hr
    simp only [Attack.ofText?]
    split
    · rename_i hcolon
      have hmem : ':' ∈ (Attack.letter (r.dropWhile Attack.isBonusChar)).2 := by
        rw [hcolon]
        exact List.mem_cons_self
      have hdropped := (List.dropWhile_sublist _).subset (Attack.mem_of_mem_letter hmem)
      exact absurd (hr.subset hdropped) hs
    · rfl
  refine Text.substitute_of_none fun r hr => ?_
  rw [hread r hr]
  rfl

/-! ## Writing out -/

/-- Writing out without macros: an iteration, checks and attacks, and another iteration. -/
theorem MacroBook.writeOut_of_no_macros {b : MacroBook} (hb : b.macros = []) (limit : Nat)
    (s : Text) :
    b.writeOut limit s =
      let first := Iteration.expand limit (Abilities.expand s)
      let second := Iteration.expand limit (Attack.expand (Check.expand first.1))
      (second.1, first.2 ++ second.2) := by
  have hmacros (s : Text) : b.expand s = (s, []) := by
    rw [MacroBook.expand, List.map_eq_nil_iff.1 hb]
    rfl
  simp only [MacroBook.writeOut, hmacros, List.append_nil]

theorem Abilities.expand_eq_self {s : Text} (hs : Text.contains Abilities.word s = false) :
    Abilities.expand s = s := by
  rw [Abilities.expand, hs]
  rfl

/-- A text in which nothing stands for something longer. -/
structure IsWrittenOut (s : Text) : Prop where
  abilities : Text.contains Abilities.word s = false
  bracket : '[' ∉ s
  mark : 'c' ∉ s
  colon : ':' ∉ s

theorem HoldsNoShorthand.isWrittenOut {s : Text} (hs : HoldsNoShorthand s) : IsWrittenOut s where
  abilities := Text.contains_eq_false (c := 'a') (by decide) (hs.not_mem rfl)
  bracket := hs.not_mem rfl
  mark := hs.not_mem rfl
  colon := hs.not_mem rfl

/-- **A text without shorthand is written out as it stands**, if there are no macros. -/
theorem MacroBook.writeOut_of_isWrittenOut {b : MacroBook} (hb : b.macros = []) {s : Text}
    (hs : IsWrittenOut s) (limit : Nat) : b.writeOut limit s = (s, []) := by
  rw [writeOut_of_no_macros hb]
  simp only [Abilities.expand_eq_self hs.abilities, Iteration.expand_eq_self hs.bracket,
    Check.expand_eq_self hs.mark, Attack.expand_eq_self hs.colon, List.append_nil]

theorem MacroBook.writeOut_eq_self {b : MacroBook} (hb : b.macros = []) {s : Text}
    (hs : HoldsNoShorthand s) (limit : Nat) : b.writeOut limit s = (s, []) :=
  writeOut_of_isWrittenOut hb hs.isWrittenOut limit

end DiceRoll
