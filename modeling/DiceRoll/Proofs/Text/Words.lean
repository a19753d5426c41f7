/-
The first word of a text, and what stands behind it.

Reading a command takes a text apart at its first word. What is left keeps its blanks, so
that more can be read of it, word by word or as a whole. The words of the text are the first
one and the words of what is left (`words_eq_cons`), and blanks at either end of the text
are seen in neither (`firstWord_trim`, `trim_behindWord_trim`).
-/

import DiceRoll.Proofs.Text.Boundary
import DiceRoll.Proofs.Text.Trim

set_option autoImplicit false

namespace DiceRoll.Text

/-! ## Blanks around words -/

theorem words_append_gap {gap : Text} (hgap : IsGap gap) (s : Text) :
    words (s ++ gap) = words s := by
  induction gap generalizing s with
  | nil => rw [List.append_nil]
  | cons c gap ih =>
    have hblanks := ih (fun d hd => hgap d (List.mem_cons_of_mem c hd)) []
    rw [List.nil_append, words_nil] at hblanks
    rw [words_append_blank (hgap c List.mem_cons_self), hblanks, List.append_nil]

theorem words_gap_append {gap : Text} (hgap : IsGap gap) (s : Text) :
    words (gap ++ s) = words s := by
  induction gap with
  | nil => rfl
  | cons c gap ih =>
    have hcut := words_append_blank (hgap c List.mem_cons_self) [] (gap ++ s)
    rw [words_nil, ih fun d hd => hgap d (List.mem_cons_of_mem c hd)] at hcut
    exact hcut

theorem words_trim (s : Text) : words (trim s) = words s := by
  obtain ⟨front, back, hs, hfront, hback⟩ := exists_eq_trim s
  nth_rewrite 2 [hs]
  rw [words_append_gap hback, words_gap_append hfront]

theorem IsGap.words_eq {s : Text} (hs : IsGap s) : words s = [] := by
  have h := words_gap_append hs []
  rwa [List.append_nil, words_nil] at h

/-! ## The first word -/

/-- Whether a character is part of a word. -/
def isInked (c : Char) : Bool := !isBlank c

/-- The first word of a text; the empty text if there is none. -/
def firstWord (s : Text) : Text := (trimLeft s).takeWhile isInked

/-- What stands behind the first word, blanks included. -/
def behindWord (s : Text) : Text := (trimLeft s).dropWhile isInked

theorem isInked_eq_false_iff {c : Char} : isInked c = false ↔ isBlank c = true := by
  simp [isInked]

theorem trimLeft_of_head? {s : Text} (hs : ∀ c ∈ s.head?, isBlank c = false) : trimLeft s = s :=
  dropWhile_of_head? hs

/-- Behind a word stands a blank, if anything. -/
theorem isBlank_of_head?_behindWord {s : Text} {c : Char} (hc : c ∈ (behindWord s).head?) :
    isBlank c = true := by
  have hhead := List.head?_dropWhile_not isInked (trimLeft s)
  rw [behindWord] at hc
  rw [Option.mem_def.1 hc] at hhead
  rw [← isInked_eq_false_iff]
  simpa using hhead

theorem firstWord_append_behindWord (s : Text) : firstWord s ++ behindWord s = trimLeft s :=
  List.takeWhile_append_dropWhile

theorem isBlank_of_mem_firstWord {s : Text} {c : Char} (hc : c ∈ firstWord s) :
    isBlank c = false := by
  simpa [isInked] using List.mem_takeWhile_imp hc

/-- Only a text of blanks has no first word. -/
theorem firstWord_ne_nil {s : Text} (hs : ¬ IsGap s) : firstWord s ≠ [] := by
  cases hleft : trimLeft s with
  | nil => exact absurd (List.dropWhile_eq_nil_iff.1 hleft) hs
  | cons c rest =>
    have hc : isBlank c = false :=
      isBlank_of_head?_dropWhile (s := s) (by rw [← trimLeft, hleft]; rfl)
    rw [firstWord, hleft, List.takeWhile_cons_of_pos (by rw [isInked, hc]; rfl)]
    exact List.cons_ne_nil _ _

theorem words_trimLeft (s : Text) : words (trimLeft s) = words s := by
  have hgap : IsGap (s.takeWhile isBlank) := fun c hc => List.mem_takeWhile_imp hc
  have hsplit : s = s.takeWhile isBlank ++ trimLeft s := List.takeWhile_append_dropWhile.symm
  nth_rewrite 2 [hsplit]
  rw [words_gap_append hgap]

/-- **The words of a text are its first one and those behind it.** -/
theorem words_eq_cons {s : Text} (hs : ¬ IsGap s) :
    words s = firstWord s :: words (behindWord s) := by
  have hfirst : words (firstWord s) = [firstWord s] :=
    words_of_no_blank (fun c => isBlank_of_mem_firstWord) (firstWord_ne_nil hs)
  rw [← words_trimLeft, ← firstWord_append_behindWord]
  cases hbehind : behindWord s with
  | nil => rw [List.append_nil, hfirst, words_nil]
  | cons c rest =>
    have hblank : isBlank c = true := isBlank_of_head?_behindWord (s := s) (by rw [hbehind]; rfl)
    have hskip := words_append_blank hblank [] rest
    rw [List.nil_append, words_nil, List.nil_append] at hskip
    rw [words_append_blank hblank, hfirst, hskip, List.singleton_append]

/-! ## Blanks at either end -/

theorem IsGap.trimLeft_eq {s : Text} (hs : IsGap s) : trimLeft s = [] :=
  List.dropWhile_eq_nil_iff.2 hs

/-- Blanks at the end stay behind the first word. -/
theorem exists_behindWord_eq {s : Text} (hs : ¬ IsGap s) :
    firstWord s = firstWord (trim s)
      ∧ ∃ gap, IsGap gap ∧ behindWord s = behindWord (trim s) ++ gap := by
  obtain ⟨front, back, hparts, hfront, hback⟩ := exists_eq_trim s
  have hne : trim s ≠ [] := fun hempty => hs (trim_eq_nil_iff.1 hempty)
  have htrimmed := isTrimmed_trim s
  have hhead : ∀ c ∈ (trim s ++ back).head?, isBlank c = false := by
    rw [List.head?_append_of_ne_nil _ hne]
    exact htrimmed.1
  have hleft : trimLeft s = trim s ++ back := by
    nth_rewrite 1 [hparts]
    rw [trimLeft, List.append_assoc, List.dropWhile_append_of_pos hfront,
      dropWhile_of_head? hhead]
  have hstop : ∀ c ∈ back.head?, isInked c = false := fun c hc =>
    isInked_eq_false_iff.2 (hback c (List.mem_of_mem_head? hc))
  rw [firstWord, firstWord, behindWord, behindWord, hleft, trimLeft_of_head? htrimmed.1]
  exact ⟨takeWhile_append_of_stop hstop _, back, hback, dropWhile_append_of_stop hstop _⟩

theorem firstWord_trim (s : Text) : firstWord (trim s) = firstWord s := by
  by_cases hs : IsGap s
  · rw [hs.trim_eq, firstWord, firstWord, hs.trimLeft_eq]
    rfl
  · exact (exists_behindWord_eq hs).1.symm

theorem trim_behindWord_trim (s : Text) :
    trim (behindWord (trim s)) = trim (behindWord s) := by
  by_cases hs : IsGap s
  · rw [hs.trim_eq, behindWord, behindWord, hs.trimLeft_eq]
    rfl
  · obtain ⟨-, gap, hgap, hbehind⟩ := exists_behindWord_eq hs
    rw [hbehind]
    exact (trim_append_gaps .nil _ hgap).symm

theorem words_behindWord_trim (s : Text) :
    words (behindWord (trim s)) = words (behindWord s) := by
  rw [← words_trim, trim_behindWord_trim, words_trim]

end DiceRoll.Text
