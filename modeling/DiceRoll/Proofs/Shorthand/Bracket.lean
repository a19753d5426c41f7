/-
The first number in brackets.

A text may hold many numbers in brackets, and brackets that hold something else or are never
closed. Which of them an iteration begins with is settled by the place alone: it is the one
with the least in front of it (`find?_eq_some_iff`). Only a number with a line end behind it
is passed over, so on a single line the first number in brackets counts, and where nothing
counts there is no number in brackets at all (`find?_eq_none_iff`).
-/

import DiceRoll.Proofs.Shorthand.Label

set_option autoImplicit false

namespace DiceRoll.Iteration

open Text

/-! ## Numbers in brackets -/

/-- A number in brackets, given by what stands in front of it, its digits and what stands
behind it. -/
structure IsNumbered (s before digits rest : Text) : Prop where
  text : s = before ++ '[' :: (digits ++ ']' :: rest)
  ne_nil : digits ≠ []
  isDigit : ∀ c ∈ digits, c.isDigit = true

/-- A number in brackets is read at its place. -/
theorem bracket?_eq_some_iff {s digits rest : Text} :
    bracket? s = some (digits, rest) ↔ IsNumbered s [] digits rest := by
  constructor
  · intro h
    obtain ⟨hs, hdigits⟩ := eq_of_bracket? h
    refine ⟨hs, ?_, hdigits⟩
    rintro rfl
    rw [hs] at h
    cases h
  · rintro ⟨rfl, hne, hdigits⟩
    have hstop : ∀ c ∈ (']' :: rest).head?, c.isDigit = false := by
      intro c hc
      cases hc
      rfl
    obtain ⟨d, ds, rfl⟩ := List.exists_cons_of_ne_nil hne
    simp only [List.nil_append, bracket?, takeWhile_run hdigits hstop,
      dropWhile_run hdigits hstop]

theorem isNumbered_cons_iff {c d : Char} {s before digits rest : Text} :
    IsNumbered (c :: s) (d :: before) digits rest ↔ c = d ∧ IsNumbered s before digits rest := by
  constructor
  · rintro ⟨hs, hne, hdigits⟩
    obtain ⟨hc, hs⟩ := List.cons.inj hs
    exact ⟨hc, hs, hne, hdigits⟩
  · rintro ⟨rfl, rfl, hne, hdigits⟩
    exact ⟨rfl, hne, hdigits⟩

/-- At one place there is one number. -/
theorem IsNumbered.unique {s before before' digits digits' rest rest' : Text}
    (h : IsNumbered s before digits rest) (h' : IsNumbered s before' digits' rest')
    (hplace : before.length = before'.length) :
    before = before' ∧ digits = digits' ∧ rest = rest' := by
  -- Along what stands in front, up to the place itself, where one number is read.
  induction before generalizing s before' with
  | nil =>
    obtain rfl := List.eq_nil_of_length_eq_zero hplace.symm
    have hsame := (bracket?_eq_some_iff.2 h).symm.trans (bracket?_eq_some_iff.2 h')
    cases hsame
    exact ⟨rfl, rfl, rfl⟩
  | cons c before ih =>
    obtain ⟨d, before', rfl⟩ := List.exists_cons_of_length_eq_add_one hplace.symm
    rcases s with _ | ⟨e, s⟩
    · cases h.text
    · obtain ⟨rfl, hlater⟩ := isNumbered_cons_iff.1 h
      obtain ⟨rfl, hlater'⟩ := isNumbered_cons_iff.1 h'
      obtain ⟨rfl, rfl, rfl⟩ := ih hlater hlater' (Nat.succ.inj hplace)
      exact ⟨rfl, rfl, rfl⟩

/-- A number that is found stands in brackets. -/
theorem IsNumbered.of_find? {s before digits rest : Text}
    (h : find? s = some (before, digits, rest)) : IsNumbered s before digits rest := by
  obtain ⟨t, rfl, hbracket, -⟩ := exists_bracket?_of_find? h
  obtain ⟨ht, hne, hdigits⟩ := bracket?_eq_some_iff.1 hbracket
  exact ⟨congrArg (before ++ ·) ht, hne, hdigits⟩

/-- A number in brackets at the front of a text is found, if no line ends behind it. -/
theorem find?_of_bracket? {s digits rest : Text} (h : bracket? s = some (digits, rest))
    (hline : '\n' ∉ rest) : find? s = some ([], digits, rest) := by
  have hlines : ¬ rest.any (· == '\n') = true := by
    rwa [List.any_beq', List.contains_iff_mem]
  rcases s with _ | ⟨c, s⟩
  · cases h
  · rw [find?, h]
    exact if_neg hlines

/-- Where there is none at the front, the first one behind it is found. -/
theorem find?_of_bracket?_eq_none {c : Char} {s : Text} (h : bracket? (c :: s) = none) :
    find? (c :: s) = (find? s).map fun (before, found) => (c :: before, found) := by
  rw [find?, h]

/-! ## Texts of one line -/

/-- **A number in brackets is found**, unless one in front of it is. -/
theorem exists_find?_of_isNumbered {s before digits rest : Text} (hline : '\n' ∉ s)
    (hnumber : IsNumbered s before digits rest) :
    ∃ found, find? s = some found ∧ found.1.length ≤ before.length := by
  induction s generalizing before with
  | nil => simpa using hnumber.text
  | cons c s ih =>
    cases hbracket : bracket? (c :: s) with
    | some found =>
      -- What is found need not be the given number, but nothing stands in front of it.
      have hrest : '\n' ∉ found.2 := by
        intro hmem
        rw [(bracket?_eq_some_iff.1 hbracket).text] at hline
        exact hline (by simp [hmem])
      exact ⟨_, find?_of_bracket? hbracket hrest, Nat.zero_le _⟩
    | none =>
      rcases before with _ | ⟨d, before⟩
      · rw [bracket?_eq_some_iff.2 hnumber] at hbracket
        cases hbracket
      · obtain ⟨found, hfound, hle⟩ := ih (fun hmem => hline (List.mem_cons_of_mem c hmem))
          (isNumbered_cons_iff.1 hnumber).2
        rw [find?_of_bracket?_eq_none hbracket, hfound]
        exact ⟨_, rfl, Nat.succ_le_succ hle⟩

/-- Where nothing counts there is no number in brackets. -/
theorem find?_eq_none_iff {s : Text} (hline : '\n' ∉ s) :
    find? s = none ↔ ∀ before digits rest, ¬ IsNumbered s before digits rest := by
  constructor
  · intro h before digits rest hnumber
    obtain ⟨found, hfound, -⟩ := exists_find?_of_isNumbered hline hnumber
    rw [h] at hfound
    cases hfound
  · intro hnone
    rw [Option.eq_none_iff_forall_ne_some]
    exact fun found hfound => hnone _ _ _ (.of_find? hfound)

/-- **The first number in brackets counts.** -/
theorem find?_eq_some_iff {s before digits rest : Text} (hline : '\n' ∉ s) :
    find? s = some (before, digits, rest) ↔ IsNumbered s before digits rest
      ∧ ∀ before' digits' rest', IsNumbered s before' digits' rest' →
        before.length ≤ before'.length := by
  constructor
  · refine fun h => ⟨.of_find? h, fun before' digits' rest' hnumber => ?_⟩
    obtain ⟨found, hfound, hle⟩ := exists_find?_of_isNumbered hline hnumber
    rw [h] at hfound
    cases hfound
    exact hle
  · rintro ⟨hnumber, hfirst⟩
    obtain ⟨⟨before', digits', rest'⟩, hfound, hle⟩ := exists_find?_of_isNumbered hline hnumber
    have hfound' := IsNumbered.of_find? hfound
    obtain ⟨rfl, rfl, rfl⟩ :=
      hnumber.unique hfound' (Nat.le_antisymm (hfirst _ _ _ hfound') hle)
    exact hfound

end DiceRoll.Iteration
