/-
The words of a body.

An operator is a word of its own, with or without blanks around it. So a body
falls apart at its operators as it does at its blanks: `words_spaced_cut` is the
equation, and it says all there is to say about the words of a body.
-/

import DiceRoll.Proofs.Text.Boundary

set_option autoImplicit false

namespace DiceRoll

open Text

/-- Whether a character is set apart from its neighbours. -/
def isSetApart (c : Char) : Bool :=
  c == '+' || c == '-' || c == '(' || c == ')' || c == '*' || c == 'x'

/-- The operator that a character set apart stands for. -/
def operatorOf (c : Char) : Char := if c = 'x' then '*' else c

theorem spaced_of_not {c : Char} (hc : isSetApart c = false) : spaced c = [c] := by
  simp only [isSetApart, Bool.or_eq_false_iff] at hc
  simp [spaced, hc]

theorem spaced_of_isSetApart {c : Char} (hc : isSetApart c = true) :
    spaced c = [' ', operatorOf c, ' '] := by
  simp only [isSetApart, Bool.or_eq_true, beq_iff_eq] at hc
  rcases hc with ((((rfl | rfl) | rfl) | rfl) | rfl) | rfl <;> rfl

theorem isBlank_operatorOf {c : Char} (hc : isSetApart c = true) :
    isBlank (operatorOf c) = false := by
  simp only [isSetApart, Bool.or_eq_true, beq_iff_eq] at hc
  rcases hc with ((((rfl | rfl) | rfl) | rfl) | rfl) | rfl <;> decide

theorem isSetApart_of_isBlank {c : Char} (hc : isBlank c = true) : isSetApart c = false := by
  by_contra h
  rw [Bool.not_eq_false] at h
  simp only [isSetApart, Bool.or_eq_true, beq_iff_eq] at h
  rcases h with ((((rfl | rfl) | rfl) | rfl) | rfl) | rfl <;> exact absurd hc (by decide)

theorem flatMap_spaced_of_not {s : Text} (hs : ∀ c ∈ s, isSetApart c = false) :
    s.flatMap spaced = s := by
  induction s with
  | nil => rfl
  | cons c s ih =>
    rw [List.flatMap_cons, spaced_of_not (hs c List.mem_cons_self),
      ih fun d hd => hs d (List.mem_cons_of_mem c hd), List.singleton_append]

theorem isBlank_space : isBlank ' ' = true := by decide

/-- The operator in front of a body is its first word. -/
theorem words_spaced_cons {c : Char} (hc : isSetApart c = true) (s : Text) :
    words ((c :: s).flatMap spaced) = [operatorOf c] :: words (s.flatMap spaced) := by
  have hop : words [operatorOf c] = [[operatorOf c]] :=
    words_of_no_blank (by simpa using isBlank_operatorOf hc) (by simp)
  have hfront := words_append_blank isBlank_space [] (operatorOf c :: ' ' :: s.flatMap spaced)
  have hbehind := words_append_blank isBlank_space [operatorOf c] (s.flatMap spaced)
  rw [List.flatMap_cons, spaced_of_isSetApart hc]
  simp only [List.nil_append, List.cons_append, words_nil] at hfront hbehind ⊢
  rw [hfront, hbehind, hop, List.singleton_append]

/-- **Words split at an operator.** -/
theorem words_spaced_cut {a : Text} {c : Char} (ha : ∀ d ∈ a, isSetApart d = false)
    (hc : isSetApart c = true) (s : Text) :
    words ((a ++ c :: s).flatMap spaced)
      = words a ++ [operatorOf c] :: words (s.flatMap spaced) := by
  have hfront := words_append_blank isBlank_space a (operatorOf c :: ' ' :: s.flatMap spaced)
  have hop := words_spaced_cons hc s
  have hblank := words_append_blank isBlank_space [] (operatorOf c :: ' ' :: s.flatMap spaced)
  rw [List.flatMap_cons, spaced_of_isSetApart hc] at hop
  rw [List.flatMap_append, flatMap_spaced_of_not ha, List.flatMap_cons, spaced_of_isSetApart hc]
  simp only [List.nil_append, List.cons_append, words_nil] at hfront hop hblank ⊢
  rw [hfront, ← hblank, hop]

/-- The characters of words come from the text. -/
theorem mem_of_mem_words {s w : Text} (hw : w ∈ words s) {c : Char} (hc : c ∈ w) : c ∈ s := by
  induction s using cutInduction isBlank with
  | whole s hs =>
    by_cases hne : s = []
    · subst hne
      simp at hw
    · rw [words_of_no_blank hs hne, List.mem_singleton] at hw
      exact hw ▸ hc
  | cut a d s ha hd ih =>
    rw [words_append_blank hd, List.mem_append] at hw
    rcases hw with hw | hw
    · by_cases hne : a = []
      · subst hne
        simp at hw
      · rw [words_of_no_blank ha hne, List.mem_singleton] at hw
        exact List.mem_append_left _ (hw ▸ hc)
    · exact List.mem_append_right _ (List.mem_cons_of_mem d (ih hw))

/-- An operator in a word is the whole word, and no word holds the letter `x`. -/
theorem eq_singleton_of_mem_words_spaced {s w : Text} (hw : w ∈ words (s.flatMap spaced))
    {c : Char} (hc : c ∈ w) (hop : isSetApart c = true) : w = [c] ∧ c ≠ 'x' := by
  induction s using cutInduction isSetApart with
  | whole s hs =>
    rw [flatMap_spaced_of_not hs] at hw
    have := hs c (mem_of_mem_words hw hc)
    rw [hop] at this
    cases this
  | cut a d s ha hd ih =>
    rw [words_spaced_cut ha hd, List.mem_append, List.mem_cons] at hw
    rcases hw with hw | rfl | hw
    · have := ha c (mem_of_mem_words hw hc)
      rw [hop] at this
      cases this
    · rw [List.mem_singleton] at hc
      refine ⟨by rw [hc], ?_⟩
      rw [hc, operatorOf]
      split
      · decide
      · assumption
    · exact ih hw

/-! ## The words of a roll -/

theorem mem_wordsOf {escape body w : Text} (hw : w ∈ wordsOf escape body) :
    w ∈ words (body.flatMap spaced) := (List.mem_filter.1 hw).1

/-- The star stands alone. -/
theorem eq_star_of_mem_wordsOf {escape body w : Text} (hw : w ∈ wordsOf escape body)
    (hstar : '*' ∈ w) : w = ['*'] :=
  (eq_singleton_of_mem_words_spaced (mem_wordsOf hw) hstar rfl).1

end DiceRoll
