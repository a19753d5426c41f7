/-
Dice count as numbers.

The skeleton of a roll is what was typed with a zero in the place of each dice token.
Under the usual limits, where a token comes to a number, the value of a roll is the
value of its skeleton with these numbers in the place of the zeros
(`result_eq_refill`). What surrounds a token therefore never meets the dice one by one:
`2*3d6` doubles the sum, and a minus sign in front of a pool turns all of it around.

Two levels of nesting are left for the dice, one for the parentheses around a pool and
one for a minus sign in it.
-/

import DiceRoll.Proofs.Arithmetic.Substitution
import DiceRoll.Proofs.Dice.Meaning
import DiceRoll.Proofs.Roll.Leaf
import Mathlib

set_option autoImplicit false

namespace DiceRoll

open DiceRoll.Expr

/-! ## Skeletons -/

/-- A word of the skeleton. -/
def skeletonWord (word : Text) : Text := if isDice word then ['0'] else word

/-- The words with a zero in the place of each dice token, joined by blanks. -/
def skeleton (words : List Text) : Text := [' '].intercalate (words.map skeletonWord)

/-- The number for each literal of a word of the skeleton: what the dice came to for the
zero in their place, and nothing for a literal that was typed. -/
def numbersOf (word expression : Text) : List (Option Number) :=
  if isDice word then [(Arithmetic.finalize expression).toOption]
  else ((Token.ofText word).filter Token.isNumber).map fun _ => none

/-- The number for each literal of the skeleton. -/
def numbers (words expressions : List Text) : List (Option Number) :=
  (List.zipWith numbersOf words expressions).flatten

/-- The expression with these numbers in the place of its literals, taken from left to
right. A literal for which there is none stays. -/
def Expr.refill (e : Expr) (numbers : List (Option Number)) : Expr :=
  e.graft (numbers.map (Option.map .literal))

theorem ofText_skeleton (words : List Text) :
    Token.ofText (skeleton words) = words.flatMap fun word => Token.ofText (skeletonWord word) := by
  rw [skeleton, Token.ofText_intercalate, List.flatMap_map]

/-! ## The slots of a roll -/

/-- Whether a slot takes at most two levels of nesting. -/
def Slot.IsShallow (slot : Slot) : Prop := ∀ g ∈ slot.grafts, ∀ tree ∈ g, tree.nesting ≤ 2

/-- A word counts as its numbers: in the outline of its slots it is the word of the
skeleton, and its pools come to the numbers. -/
structure CountsAs (word expression : Text) (slots : List Slot) : Prop where
  outline : slots.map Slot.outline = Token.ofText (skeletonWord word)
  proper : ∀ slot ∈ slots, slot.IsProper
  shallow : ∀ slot ∈ slots, slot.IsShallow
  value : isDice word = true → ∃ v, Arithmetic.finalize expression = .ok (.int v)
  values : (slots.flatMap Slot.grafts).map (Option.map eval)
    = ((numbersOf word expression).map (Option.map Expr.literal)).map (Option.map eval)

/-- A word that is arithmetic counts as itself. -/
theorem countsAs_math {word : Text} (hdice : isDice word = false) :
    CountsAs word word ((Token.ofText word).map .token) := by
  constructor
  · rw [Slot.map_outline_token, skeletonWord, hdice]
    rfl
  · intro slot hslot
    obtain ⟨t, -, rfl⟩ := List.mem_map.1 hslot
    trivial
  · intro slot hslot
    obtain ⟨t, -, rfl⟩ := List.mem_map.1 hslot
    intro g hg tree htree
    simp only [Slot.grafts] at hg
    split at hg <;> simp at hg
    rw [hg] at htree
    cases htree
  · intro h
    rw [hdice] at h
    cases h
  · rw [Slot.flatMap_grafts_token, numbersOf, hdice]
    simp

/-- Dice count as the number that they come to. -/
theorem countsAs_dice {word expression : Text} {values : List Int} (hdice : isDice word = true)
    (hvalue : Arithmetic.finalize expression = .ok (.int values.sum)) (hne : values ≠ [])
    (haddable : Addable values) : CountsAs word expression [.ofValues values] := by
  constructor
  · rw [skeletonWord, hdice]
    exact (Token.ofText_ofNat (n := 0) (by decide)).symm
  · intro slot hslot
    obtain rfl := List.mem_singleton.1 hslot
    exact derives_pool hne
  · intro slot hslot g hg tree htree
    obtain rfl := List.mem_singleton.1 hslot
    obtain rfl := List.mem_singleton.1 hg
    obtain rfl := Option.mem_some.1 htree
    exact nesting_pool_le values
  · exact fun _ => ⟨_, hvalue⟩
  · rw [numbersOf, hdice, hvalue]
    simp [Slot.ofValues, Slot.grafts, eval_pool haddable, eval, Except.toOption]

/-- The outline of a roll is its skeleton. -/
theorem map_outline_of_spelled {words expressions : List Text} {slots : List Slot}
    (h : Spelled CountsAs words expressions slots) :
    slots.map Slot.outline = Token.ofText (skeleton words) := by
  rw [ofText_skeleton]
  induction h with
  | nil => rfl
  | cons _ hword _ ih => rw [List.map_append, hword.outline, ih, List.flatMap_cons]

/-- The pools of a roll come to its numbers. -/
theorem map_eval_of_spelled {words expressions : List Text} {slots : List Slot}
    (h : Spelled CountsAs words expressions slots) :
    (slots.flatMap Slot.grafts).map (Option.map eval)
      = ((numbers words expressions).map (Option.map Expr.literal)).map (Option.map eval) := by
  induction h with
  | nil => rfl
  | @cons word expression words expressions _ _ _ hword _ ih =>
    have hnumbers : numbers (word :: words) (expression :: expressions)
        = numbersOf word expression ++ numbers words expressions := by
      rw [numbers, List.zipWith_cons_cons, List.flatten_cons]
      rfl
    rw [List.flatMap_append, List.map_append, hword.values, ih, hnumbers, List.map_append,
      List.map_append]

/-! ## The value of a roll -/

section Value

variable {σ : Type} [Source σ]

/-- What a word of a roll counts as. -/
theorem exists_countsAs (hσ : Source.InRange σ) {escape body word : Text}
    (hword : word ∈ wordsOf escape body) {s s' : σ} {r : Resolved}
    (h : resolve Limits.usual word s = (.ok r, s')) :
    ∃ slots, slots.flatMap Slot.tokens = Token.ofText (Markup.plain r.expression)
      ∧ CountsAs word r.expression slots := by
  rcases resolve_eq_ok h with ⟨hmath, rfl⟩ | ⟨token, htoken, hroll⟩
  · refine ⟨_, ?_, countsAs_math (isDice_of_math hmath)⟩
    rw [Slot.flatMap_tokens_token, Resolved.literal, plain_of_mem_wordsOf hword]
  · have hproper := DiceToken.isProper_of_ofText? htoken
    obtain ⟨faces, hdrew, hr⟩ := DiceToken.roll_eq_ok hproper hroll
    obtain ⟨haddable, -⟩ :=
      DiceToken.sum_summands hσ hproper (DiceToken.isWithin_of_roll hroll) hdrew
    have hne := DiceToken.summands_ne_nil hproper hdrew.rolls
    have hvalue := finalize_of_plain_eq_group hr hne haddable
    refine ⟨_, ?_, countsAs_dice (isDice_of_ofText? htoken) hvalue hne haddable⟩
    rw [hr, ofText_pool haddable.readable, List.flatMap_singleton]
    rfl

/-- **Dice count as numbers.** Under the usual limits, with faces in range, each dice
token of a leaf without problems comes to an integer. Where the skeleton is arithmetic
that leaves two levels for the dice, the leaf has the value of the skeleton with these
integers in the place of the zeros, or fails to have one for the same cause. -/
theorem result_eq_refill (hσ : Source.InRange σ) {u : Setup} (hu : u.limits = Limits.usual)
    {raw : Text} {problems : List Problem} {s : σ} {leaf : Leaf}
    (h : (u.rollLeaf raw problems s).1 = .leaf raw problems leaf) {e : Expr}
    (he : ofTokens? (Token.ofText (skeleton leaf.parts)) = .ok e) (hn : e.nesting ≤ 98) :
    List.Forall₂ (fun word expression =>
        isDice word = true → ∃ v, Arithmetic.finalize expression = .ok (.int v))
      leaf.parts leaf.expressions
    ∧ leaf.result = answerOf (Markup.plain ([' '].intercalate leaf.expressions))
        (e.refill (numbers leaf.parts leaf.expressions)).eval := by
  obtain ⟨resolved, hresolved, rfl⟩ := rollLeaf_eq_leaf h
  simp only [Leaf.ofResolved] at he ⊢
  rw [hu] at hresolved
  obtain ⟨slots, hslots⟩ := Spelled.exists_of_resolved (R := CountsAs) hresolved
    fun _ hword _ _ _ _ h => exists_countsAs hσ hword h
  refine ⟨hslots.forall₂ fun _ _ _ h => h.value, ?_⟩
  -- The skeleton is the outline, and what was rolled is the outline with its pools.
  rw [← map_outline_of_spelled hslots] at he
  have htree := derives_graft (ofTokens?_eq_ok_iff.1 he).1 rfl
    (hslots.forall_mem fun _ _ _ h => h.proper)
  rw [hslots.tokens] at htree
  have hgrafts : ∀ g ∈ slots.flatMap Slot.grafts, ∀ tree ∈ g, tree.nesting ≤ 2 := by
    intro g hg
    obtain ⟨slot, hslot, hg⟩ := List.mem_flatMap.1 hg
    exact hslots.forall_mem (fun _ _ _ h => h.shallow) slot hslot g hg
  have hnesting := nesting_graft_le e hgrafts
  rw [Expr.refill, ← eval_graft e (map_eval_of_spelled hslots)]
  exact Arithmetic.finalize_of_derives htree (hnesting.trans (Nat.add_le_add_right hn 2))

end Value

/-- Two dice that are subtracted are subtracted together. -/
theorem result_eq_refill_of_difference :
    ∃ leaf e, (Setup.usual.rollLeaf "2-2d6".toList [] (⟨[3, 4], 0⟩ : Recording)).1
        = .leaf "2-2d6".toList [] leaf
      ∧ ofTokens? (Token.ofText (skeleton leaf.parts)) = .ok e
      ∧ leaf.result = answerOf (Markup.plain ([' '].intercalate leaf.expressions))
          (e.refill (numbers leaf.parts leaf.expressions)).eval := by
  have hroll : (Setup.usual.rollLeaf "2-2d6".toList [] (⟨[3, 4], 0⟩ : Recording)).1
      = .leaf "2-2d6".toList []
          (Leaf.ofResolved ["2".toList, "-".toList, "2d6".toList] none
            [.literal "2".toList, .literal "-".toList, .literal "(3+4)".toList]) := by rfl
  have htree : ofTokens? (Token.ofText (skeleton ["2".toList, "-".toList, "2d6".toList]))
      = .ok (.binary (.literal (.int 2)) .sub (.literal (.int 0))) := by cbv
  exact ⟨_, _, hroll, htree,
    (result_eq_refill Recording.inRange rfl hroll htree (by decide)).2⟩

end DiceRoll
