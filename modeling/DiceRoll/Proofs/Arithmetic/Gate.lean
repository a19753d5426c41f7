/-
The gate in front of arithmetic.

A text comes from a user, and what is evaluated of it holds the characters of arithmetic
and nothing else. The markup of a trace is the one thing that is taken off before that is
asked, and it is made of underscores and of stars, which multiply. So the question is what
a text can look like that is let through, for every way in which the two could be mixed up:
emphasis inside emphasis, halves of it, one piece that ends where another begins.

The answer is that there is one way to read such a text (`Composed`): characters of
arithmetic, and numbers with emphasis around each. Emphasis comes off in a single pass, so
emphasis that only appears once other emphasis is gone stays, and its underscores are
refused. Any text of another form is refused before its tokens are read
(`composed_of_finalize`).
-/

import DiceRoll.Proofs.Arithmetic.Sum
import DiceRoll.Proofs.Text.Replacing
import DiceRoll.Arithmetic.Finalize

set_option autoImplicit false

namespace DiceRoll.Arithmetic

open Text Markup

/-! ## What is let through -/

/-- A text put together, from left to right, from characters of arithmetic and from numbers
with emphasis on them. The second text is the first with each of these numbers alone. -/
inductive Composed : Text → Text → Prop where
  | nil : Composed [] []
  | char {c : Char} {s t : Text} (hc : isMathChar c = true) (h : Composed s t) :
      Composed (c :: s) (c :: t)
  | number {number s t : Text} (hnumber : IsNumber number) (h : Composed s t) :
      Composed (emphasis number ++ s) (number ++ t)

/-- A number is made of characters of arithmetic. -/
theorem isMathChar_of_isNumber {number : Text} (h : IsNumber number) :
    ∀ c ∈ number, isMathChar c = true := by
  obtain ⟨minus, digits, hminus, -, hdigits, rfl⟩ := h
  refine List.forall_mem_append.2 ⟨?_, ?_⟩
  · rcases hminus with rfl | rfl <;> exact List.all_eq_true.1 (by decide)
  · intro c hc
    rcases Bool.or_eq_true_iff.1 (hdigits c hc) with hdigit | hpoint
    · simp [isMathChar, hdigit]
    · rw [beq_iff_eq.1 hpoint]
      decide

/-- The underscore is no character of arithmetic, so emphasis holds one that is not. -/
theorem isMathChar_underscore : isMathChar '_' = false := by decide

namespace Composed

variable {s t : Text}

/-- What is left without emphasis is characters of arithmetic only. -/
theorem isMathChar (h : Composed s t) : ∀ c ∈ t, isMathChar c = true := by
  induction h with
  | nil => exact List.forall_mem_nil _
  | char hc _ ih => exact List.forall_mem_cons.2 ⟨hc, ih⟩
  | number hnumber _ ih => exact List.forall_mem_append.2 ⟨isMathChar_of_isNumber hnumber, ih⟩

/-- **Only one way leads through a text**: taking the emphasis off in one pass. No emphasis
begins at a character of arithmetic, and none ends inside a number. -/
theorem plain_eq (h : Composed s t) : plain s = t := by
  induction h with
  | nil => exact plain_nil
  | @char c s t hc _ ih =>
    have hne : c ≠ '_' := by
      rintro rfl
      rw [isMathChar_underscore] at hc
      cases hc
    have hnone : emphasized? (c :: s) = none := by
      rw [emphasized?, emphasisOpen, after?, if_neg hne.symm]
    rw [plain, substitute_cons_of_none hnone]
    exact congrArg (c :: ·) ih
  | @number number s t hnumber _ ih =>
    have hshorter : s.length < (emphasis number ++ s).length := by
      simp only [emphasis, emphasisOpen, List.length_append, List.length_cons]
      omega
    rw [plain, substitute_of_some (emphasized?_emphasis hnumber s) hshorter]
    exact congrArg (number ++ ·) ih

end Composed

/-- **What one pass leaves tells whether a text is let through.** Each find of the pass is a
number with emphasis on it, and each character it keeps stands in the result. -/
theorem composed_plain {s : Text} (h : ∀ c ∈ plain s, isMathChar c = true) :
    Composed s (plain s) := by
  unfold plain at h ⊢
  induction s using substitute_induct with
  | nil => exact .nil
  | found c s number rest hread _ ih =>
    obtain ⟨hnumber, hs⟩ := emphasized?_eq_some_iff.1 hread
    rw [hs]
    exact .number hnumber (ih (List.forall_mem_append.1 h).2)
  | kept c s ih =>
    obtain ⟨hc, hrest⟩ := List.forall_mem_cons.1 h
    exact .char hc (ih hrest)

/-! ## What becomes of a text -/

/-- Characters of arithmetic hold no emphasis. -/
theorem plain_of_isMathChar {t : Text} (ht : ∀ c ∈ t, isMathChar c = true) : plain t = t := by
  refine plain_of_not_mem (.inl fun hmem => ?_)
  have hmath := ht '_' hmem
  rw [isMathChar_underscore] at hmath
  cases hmath

/-- A text that is let through has the value of what is left without emphasis. -/
theorem Composed.finalize_eq {s t : Text} (h : Composed s t) : finalize s = finalize t := by
  rw [finalize, finalize, h.plain_eq, plain_of_isMathChar h.isMathChar]

/-- A text of any other form is refused for a character that is left, before it is read. -/
theorem finalize_of_not_composed {s : Text} (h : ∀ t, ¬ Composed s t) :
    ∃ c ∈ plain s, isMathChar c = false
      ∧ finalize s = .error (.nonMath (plain s) c) := by
  cases hfind : (plain s).find? fun c => !isMathChar c with
  | none =>
    have hmath : ∀ c ∈ plain s, isMathChar c = true := by
      simpa using List.find?_eq_none.1 hfind
    exact absurd (composed_plain hmath) (h _)
  | some c =>
    refine ⟨c, List.mem_of_find?_eq_some hfind, ?_, ?_⟩
    · simpa using List.find?_some hfind
    · rw [finalize, finalizePlain, hfind]

/-- **The gate is tight.** A text that has a value is characters of arithmetic and numbers
with emphasis on them, put together in one way, and its value is the one of the text with
the numbers alone. Whether or not there is a value, what is read of such a text holds
characters of arithmetic only; and a text that cannot be put together so is refused for a
character outside arithmetic, and nothing of it is read. -/
theorem composed_of_finalize (s : Text) :
    (∀ x, finalize s = .ok x → ∃ t, (∀ u, Composed s u ↔ u = t) ∧ finalize t = .ok x)
      ∧ (∀ t, Composed s t → (∀ c ∈ t, isMathChar c = true) ∧ finalize s = finalize t)
      ∧ ((∀ t, ¬ Composed s t) → ∃ c ∈ plain s, isMathChar c = false
          ∧ finalize s = .error (.nonMath (plain s) c)) := by
  refine ⟨fun x hx => ?_, fun t ht => ⟨ht.isMathChar, ht.finalize_eq⟩, finalize_of_not_composed⟩
  by_cases hcomposed : ∃ t, Composed s t
  · obtain ⟨t, ht⟩ := hcomposed
    refine ⟨t, fun u => ⟨fun hu => ?_, ?_⟩, ?_⟩
    · rw [← hu.plain_eq, ht.plain_eq]
    · rintro rfl
      exact ht
    · rw [← ht.finalize_eq, hx]
  -- A text that is not let through has no value.
  · obtain ⟨c, -, -, herror⟩ := finalize_of_not_composed (not_exists.1 hcomposed)
    rw [herror] at hx
    cases hx

/-- Two dice, one of them with emphasis on it. -/
theorem composed_of_finalize_of_twenty :
    ∃ t, (∀ u, Composed "(__**20**__+3)".toList u ↔ u = t) ∧ finalize t = .ok (.int 23) := by
  have hplain : plain "(__**20**__+3)".toList = group ['+'] ([20, 3].map Text.ofInt) :=
    plain_sumText [⟨20, true⟩, ⟨3, false⟩]
  have hmodest : Modest [20, 3] := ⟨20, by decide, by decide, by decide⟩
  have hvalue : finalize "(__**20**__+3)".toList = .ok (.int 23) :=
    finalize_of_plain_eq_group hplain (by decide) hmodest.addable
  exact (composed_of_finalize "(__**20**__+3)".toList).1 (.int 23) hvalue

/-- Emphasis inside emphasis is no number, and it is not taken off twice. -/
example : finalize "__**__**5**__**__".toList = .error (.nonMath "__**5**__".toList '_') := by
  cbv

end DiceRoll.Arithmetic
