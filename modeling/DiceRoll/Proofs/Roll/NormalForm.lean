/-
The normal form of a body.

The words of a body are a normal form of it. Written one behind another with single blanks
between them they are a body that falls apart into the same words, and written without the
blanks they are the body itself, less its blanks and with the sign for times written as a
star. So nothing is lost on the way but commands, and nothing is put in.

What a word looks like carries all of this (`IsToken`). A token alone is spaced out to
itself and blanks, so it is one word again (`IsToken.words_spaced`), and blanks between
tokens keep their words apart. The other direction is a count of characters: spacing out
and cutting put blanks in and take blanks away (`flatten_words`), and nothing else.
-/

import DiceRoll.Proofs.Roll.Words
import DiceRoll.Proofs.Text.Replacing

set_option autoImplicit false

namespace DiceRoll

open Text

/-! ## What a word of a body looks like -/

/-- A word as a body is cut into: it is not empty and holds no blank, an operator in it is
the whole word, and the letter for times is written as a star. -/
structure IsToken (w : Text) : Prop where
  ne_nil : w ≠ []
  no_blank : ∀ c ∈ w, isBlank c = false
  operator_alone : ∀ c ∈ ['+', '-', '(', ')', '*'], c ∈ w → w = [c]
  no_letter_times : 'x' ∉ w

theorem isToken_of_mem_words_spaced {s w : Text} (hw : w ∈ words (s.flatMap spaced)) :
    IsToken w where
  ne_nil := (mem_words hw).1
  no_blank := (mem_words hw).2
  operator_alone c hc hmem := by
    have hoperators : ['+', '-', '(', ')', '*'].all isSetApart = true := rfl
    exact (eq_singleton_of_mem_words_spaced hw hmem (List.all_eq_true.1 hoperators c hc)).1
  no_letter_times hmem := (eq_singleton_of_mem_words_spaced hw hmem rfl).2 rfl

namespace IsToken

variable {w : Text} (hw : IsToken w)

include hw

/-- A token is an operator or holds none. -/
theorem eq_operator_or : (∃ c, isSetApart c = true ∧ operatorOf c = c ∧ w = [c])
    ∨ ∀ c ∈ w, isSetApart c = false := by
  by_cases hop : ∃ c ∈ w, isSetApart c = true
  · obtain ⟨c, hc, hset⟩ := hop
    -- The letter for times is set apart as well, but is no operator of a token.
    have hletter : c ≠ 'x' := by
      rintro rfl
      exact hw.no_letter_times hc
    have hlisted : c ∈ ['+', '-', '(', ')', '*'] := by
      simpa [isSetApart, hletter, or_assoc] using hset
    exact .inl ⟨c, hset, if_neg hletter, hw.operator_alone c hlisted hc⟩
  · right
    intro c hc
    rw [← Bool.not_eq_true]
    exact fun hset => hop ⟨c, hc, hset⟩

/-- **A token is cut into itself.** -/
theorem words_spaced : words (w.flatMap spaced) = [w] := by
  rcases hw.eq_operator_or with ⟨c, hset, hself, rfl⟩ | hnone
  · rw [words_spaced_cons hset, hself, List.flatMap_nil, words_nil]
  · rw [flatMap_spaced_of_not hnone]
    exact words_of_no_blank hw.no_blank hw.ne_nil

end IsToken

/-! ## Tokens written with blanks between them -/

/-- A body is cut at a blank. -/
theorem words_spaced_append_blank (a b : Text) :
    words ((a ++ ' ' :: b).flatMap spaced)
      = words (a.flatMap spaced) ++ words (b.flatMap spaced) := by
  rw [List.flatMap_append, List.flatMap_cons, spaced_of_not (by decide), List.singleton_append]
  exact words_append_blank isBlank_space _ _

/-- **Tokens are read back** from what is written of them. -/
theorem words_spaced_intercalate {tokens : List Text} (htokens : ∀ w ∈ tokens, IsToken w) :
    words (([' '].intercalate tokens).flatMap spaced) = tokens := by
  induction tokens with
  | nil => rfl
  | cons w tokens ih =>
    obtain ⟨hw, hrest⟩ := List.forall_mem_cons.1 htokens
    cases tokens with
    | nil =>
      rw [List.intercalate_singleton]
      exact hw.words_spaced
    | cons v tokens =>
      rw [intercalate_cons_cons, words_spaced_append_blank, hw.words_spaced, ih hrest,
        List.singleton_append]

theorem isToken_of_mem_wordsOf {escape body w : Text} (hw : w ∈ wordsOf escape body) :
    IsToken w := isToken_of_mem_words_spaced (mem_wordsOf hw)

/-- Commands that were left out once are not there to be left out again. -/
theorem wordsOf_intercalate_wordsOf (escape body : Text) :
    wordsOf escape ([' '].intercalate (wordsOf escape body)) = wordsOf escape body := by
  rw [wordsOf, words_spaced_intercalate fun w => isToken_of_mem_wordsOf]
  exact List.filter_eq_self.2 fun w hw => (List.mem_filter.1 hw).2

/-! ## Tokens written without blanks -/

/-- **Cutting a text into words takes its blanks away**, and nothing else. -/
theorem Text.flatten_words (s : Text) : (words s).flatten = s.filter fun c => !isBlank c := by
  induction s using cutInduction isBlank with
  | whole s hs =>
    have hkept : s.filter (fun c => !isBlank c) = s :=
      List.filter_eq_self.2 fun c hc => by rw [hs c hc]; rfl
    by_cases hne : s = []
    · rw [hne]
      rfl
    · rw [words_of_no_blank hs hne, hkept, List.flatten_singleton]
  | cut a c s ha hc ih =>
    have hkept : a.filter (fun d => !isBlank d) = a :=
      List.filter_eq_self.2 fun d hd => by rw [ha d hd]; rfl
    have hfront : (words a).flatten = a := by
      by_cases hne : a = []
      · rw [hne]
        rfl
      · rw [words_of_no_blank ha hne, List.flatten_singleton]
    rw [words_append_blank hc, List.flatten_append, hfront, ih, List.filter_append, hkept,
      List.filter_cons_of_neg (by simp [hc])]

/-- **Spacing out puts blanks in**, and writes the letter for times as a star. -/
theorem filter_flatMap_spaced (s : Text) :
    (s.flatMap spaced).filter (fun c => !isBlank c)
      = (s.filter fun c => !isBlank c).map operatorOf := by
  -- Spacing out goes character by character, and so do both sides.
  have hone : ∀ c, (spaced c).filter (fun d => !isBlank d)
      = ([c].filter fun d => !isBlank d).map operatorOf := by
    intro c
    by_cases hset : isSetApart c = true
    · have hinked : isBlank c = false := by
        by_contra hblank
        rw [Bool.not_eq_false] at hblank
        rw [isSetApart_of_isBlank hblank] at hset
        cases hset
      rw [spaced_of_isSetApart hset]
      simp [isBlank_space, isBlank_operatorOf hset, hinked]
    · rw [Bool.not_eq_true] at hset
      have hletter : c ≠ 'x' := by
        rintro rfl
        cases hset
      rw [spaced_of_not hset]
      cases hblank : isBlank c <;> simp [hblank, operatorOf, hletter]
  induction s with
  | nil => rfl
  | cons c s ih =>
    rw [List.flatMap_cons, List.filter_append, ih, hone, ← List.map_append, ← List.filter_append,
      List.singleton_append]

theorem wordsOf_of_no_escape (body : Text) : wordsOf [] body = words (body.flatMap spaced) := by
  rw [wordsOf]
  exact List.filter_eq_self.2 fun _ _ => rfl

/-- A command is a word that goes on behind the escape. -/
theorem isCommand_eq_true_iff {escape w : Text} :
    isCommand escape w = true ↔ escape ≠ [] ∧ escape <+: w ∧ w ≠ escape := by
  rw [isCommand, Bool.and_eq_true, Bool.and_eq_true, isSome_after?_iff, bne_iff_ne, and_assoc,
    Bool.not_eq_true', List.isEmpty_eq_false_iff]

/-! ## The normal form -/

/-- **Cutting a body into words reaches a normal form, and loses nothing but commands.**
Each word is a token. The words written with blanks between them are cut into the same
words again, and under no escape so are any tokens. Under no escape the words written
without blanks are the body without its blanks, in which the sign for times is a star; and
under an escape the same words are left, less those that begin with the escape and go on
behind it. -/
theorem wordsOf_normalForm (escape body : Text) :
    (∀ w ∈ wordsOf escape body, IsToken w)
      ∧ wordsOf escape ([' '].intercalate (wordsOf escape body)) = wordsOf escape body
      ∧ (∀ tokens : List Text, (∀ w ∈ tokens, IsToken w) →
          wordsOf [] ([' '].intercalate tokens) = tokens)
      ∧ (wordsOf [] body).flatten
          = (body.filter fun c => !isBlank c).map (fun c => if c = 'x' then '*' else c)
      ∧ wordsOf escape body
          = (wordsOf [] body).filter fun w => ¬ (escape ≠ [] ∧ escape <+: w ∧ w ≠ escape) := by
  refine ⟨fun w => isToken_of_mem_wordsOf, wordsOf_intercalate_wordsOf escape body,
    fun tokens htokens => ?_, ?_, ?_⟩
  · rw [wordsOf_of_no_escape, words_spaced_intercalate htokens]
  · rw [wordsOf_of_no_escape, flatten_words, filter_flatMap_spaced]
    rfl
  · rw [wordsOf_of_no_escape, wordsOf]
    refine List.filter_congr fun w _ => ?_
    rw [Bool.eq_iff_iff, Bool.not_eq_true', decide_eq_true_iff, ← isCommand_eq_true_iff,
      Bool.not_eq_true]

/-- An escape of operators alone is an operator like any other. -/
example : wordsOf ['-'] "-1x( 2--r)".toList
    = [['-'], ['1'], ['*'], ['('], ['2'], ['-'], ['-'], ['r'], [')']] := by decide

end DiceRoll
