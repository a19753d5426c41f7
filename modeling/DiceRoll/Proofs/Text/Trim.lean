/-
Trimming.

A text is blanks, its trimmed middle and blanks again, and the middle neither begins nor
ends with a blank (`exists_eq_trim`, `isTrimmed_trim`). These two facts determine it:
whatever stands between blanks without a blank at either end is what trimming leaves
(`trim_eq`). The other lemmas are instances of that one.
-/

import DiceRoll.Text.Blank
import Mathlib.Data.List.DropRight

set_option autoImplicit false

namespace DiceRoll.Text

/-- A text of blanks only. -/
def IsGap (s : Text) : Prop := ∀ c ∈ s, isBlank c = true

/-- A text that neither begins nor ends with a blank. -/
def IsTrimmed (s : Text) : Prop :=
  (∀ c ∈ s.head?, isBlank c = false) ∧ ∀ c ∈ s.getLast?, isBlank c = false

theorem trim_eq_rdropWhile (s : Text) : trim s = (s.dropWhile isBlank).rdropWhile isBlank := rfl

theorem dropWhile_of_head? {p : Char → Bool} {s : Text} (hs : ∀ c ∈ s.head?, p c = false) :
    s.dropWhile p = s := by
  cases s with
  | nil => rfl
  | cons c s => rw [List.dropWhile_cons, hs c rfl, if_neg Bool.false_ne_true]

/-- **What stands between blanks is what trimming leaves**, if no blank is at its ends. -/
theorem trim_eq {front middle back : Text} (hfront : IsGap front) (hmiddle : IsTrimmed middle)
    (hback : IsGap back) : trim (front ++ middle ++ back) = middle := by
  rw [trim_eq_rdropWhile, List.append_assoc, List.dropWhile_append_of_pos hfront]
  by_cases hempty : middle = []
  · subst hempty
    rw [List.nil_append, List.dropWhile_eq_nil_iff.2 hback, List.rdropWhile_nil]
  · have hhead : ∀ c ∈ (middle ++ back).head?, isBlank c = false := by
      rw [List.head?_append_of_ne_nil _ hempty]
      exact hmiddle.1
    have hreverse : ∀ c ∈ back.reverse, isBlank c = true :=
      fun c hc => hback c (List.mem_reverse.1 hc)
    have hlast : ∀ c ∈ middle.reverse.head?, isBlank c = false := by
      rw [List.head?_reverse]
      exact hmiddle.2
    rw [dropWhile_of_head? hhead, List.rdropWhile, List.reverse_append,
      List.dropWhile_append_of_pos hreverse, dropWhile_of_head? hlast, List.reverse_reverse]

/-- A text is its trimmed middle with blanks around it. -/
theorem exists_eq_trim (s : Text) :
    ∃ front back, s = front ++ trim s ++ back ∧ IsGap front ∧ IsGap back := by
  refine ⟨s.takeWhile isBlank, (s.dropWhile isBlank).rtakeWhile isBlank, ?_, ?_, ?_⟩
  · rw [trim_eq_rdropWhile, List.append_assoc, List.rdropWhile_append_rtakeWhile,
      List.takeWhile_append_dropWhile]
  · exact fun c hc => List.mem_takeWhile_imp hc
  · exact fun c hc => List.mem_rtakeWhile_imp hc

theorem isBlank_of_head?_dropWhile {s : Text} {c : Char}
    (hc : c ∈ (s.dropWhile isBlank).head?) : isBlank c = false := by
  have hhead := List.head?_dropWhile_not isBlank s
  rw [Option.mem_def.1 hc] at hhead
  simpa using hhead

/-- **Trimming leaves no blank at either end.** -/
theorem isTrimmed_trim (s : Text) : IsTrimmed (trim s) := by
  constructor
  · intro c hc
    -- What trimming on the right leaves begins as the text did.
    obtain ⟨rest, hrest⟩ := List.rdropWhile_prefix isBlank (l := s.dropWhile isBlank)
    rw [← trim_eq_rdropWhile] at hrest
    have hne : trim s ≠ [] := by
      intro hnil
      rw [hnil] at hc
      cases hc
    rw [← List.head?_append_of_ne_nil _ hne, hrest] at hc
    exact isBlank_of_head?_dropWhile hc
  · intro c hc
    rw [trim_eq_rdropWhile, List.rdropWhile, List.getLast?_reverse] at hc
    exact isBlank_of_head?_dropWhile hc

/-! ## Blanks at an end -/

theorem IsGap.nil : IsGap [] := List.forall_mem_nil _

theorem IsGap.append {a b : Text} (ha : IsGap a) (hb : IsGap b) : IsGap (a ++ b) :=
  List.forall_mem_append.2 ⟨ha, hb⟩

theorem IsTrimmed.nil : IsTrimmed [] := ⟨fun _ hc => (Option.not_mem_none _ hc).elim,
  fun _ hc => (Option.not_mem_none _ hc).elim⟩

/-- A trimmed text is left as it is. -/
theorem IsTrimmed.trim_eq {s : Text} (hs : IsTrimmed s) : trim s = s := by
  have h := Text.trim_eq .nil hs .nil
  rwa [List.nil_append, List.append_nil] at h

/-- Blanks around a text are trimmed with it. -/
theorem trim_append_gaps {front back : Text} (hfront : IsGap front) (s : Text)
    (hback : IsGap back) : trim (front ++ s ++ back) = trim s := by
  obtain ⟨left, right, hs, hleft, hright⟩ := exists_eq_trim s
  have hparts : front ++ s ++ back = front ++ left ++ trim s ++ (right ++ back) := by
    nth_rewrite 1 [hs]
    simp only [List.append_assoc]
  rw [hparts]
  exact trim_eq (hfront.append hleft) (isTrimmed_trim s) (hright.append hback)

theorem trim_cons_blank {c : Char} (hc : isBlank c = true) (s : Text) : trim (c :: s) = trim s := by
  have h := trim_append_gaps (List.forall_mem_singleton.2 hc) s .nil
  rwa [List.append_nil, List.singleton_append] at h

theorem IsGap.trim_eq {s : Text} (hs : IsGap s) : trim s = [] := by
  have h := Text.trim_eq hs .nil .nil
  rwa [List.append_nil, List.append_nil] at h

/-- **Only blanks are trimmed to nothing.** -/
theorem trim_eq_nil_iff {s : Text} : trim s = [] ↔ IsGap s := by
  constructor
  · intro h
    obtain ⟨front, back, hs, hfront, hback⟩ := exists_eq_trim s
    rw [hs, h, List.append_nil]
    exact hfront.append hback
  · exact IsGap.trim_eq

/-! ## Trimming what stands in front -/

theorem mem_of_mem_trim {s : Text} {c : Char} (hc : c ∈ trim s) : c ∈ s := by
  obtain ⟨front, back, hs, -, -⟩ := exists_eq_trim s
  rw [hs]
  exact List.mem_append_left _ (List.mem_append_right _ hc)

/-- What begins and ends without a blank is trimmed, whatever stands in the middle. -/
theorem IsTrimmed.append {a b : Text} (ha : IsTrimmed a) (hne : a ≠ []) (middle : Text)
    (hb : IsTrimmed b) (hnb : b ≠ []) : IsTrimmed (a ++ middle ++ b) := by
  constructor
  · rw [List.append_assoc, List.head?_append_of_ne_nil _ hne]
    exact ha.1
  · rw [List.getLast?_append_of_ne_nil _ hnb]
    exact hb.2

/-- Behind a character that is no blank only the end is trimmed. -/
theorem exists_isTrimmed_cons {c : Char} (hc : isBlank c = false) (s : Text) :
    ∃ rest lost, s = rest ++ lost ∧ IsTrimmed (c :: rest) ∧ IsGap lost := by
  obtain ⟨front, back, hs, hfront, hback⟩ := exists_eq_trim (c :: s)
  have htrimmed := isTrimmed_trim (c :: s)
  cases front with
  | cons d front =>
    have hblank := hfront d List.mem_cons_self
    rw [List.cons_append, List.cons_append] at hs
    rw [← (List.cons.inj hs).1, hc] at hblank
    cases hblank
  | nil =>
    rw [List.nil_append] at hs
    cases hmiddle : trim (c :: s) with
    | nil =>
      have hblank := trim_eq_nil_iff.1 hmiddle c List.mem_cons_self
      rw [hc] at hblank
      cases hblank
    | cons d rest =>
      rw [hmiddle] at hs htrimmed
      rw [List.cons_append] at hs
      obtain ⟨rfl, hrest⟩ := List.cons.inj hs
      exact ⟨rest, back, hrest, htrimmed, hback⟩

/-- **Trimming splits at a character that is no blank.** What stands in front of it keeps
the blanks behind it, unless it has nothing else. -/
theorem exists_trim_append_cons {c : Char} (hc : isBlank c = false) (s t : Text) :
    ∃ gap rest lost, trim (s ++ c :: t) = trim s ++ gap ++ c :: rest ∧ t = rest ++ lost
      ∧ IsGap gap ∧ IsGap lost ∧ gap ⊆ s := by
  obtain ⟨rest, lost, rfl, hrest, hlost⟩ := exists_isTrimmed_cons hc t
  obtain ⟨front, back, hs, hfront, hback⟩ := exists_eq_trim s
  by_cases hempty : trim s = []
  · refine ⟨[], rest, lost, ?_, rfl, .nil, hlost, List.nil_subset _⟩
    have h := trim_eq (trim_eq_nil_iff.1 hempty) hrest hlost
    rw [List.append_assoc, List.cons_append] at h
    rw [hempty, h, List.nil_append, List.nil_append]
  · refine ⟨back, rest, lost, ?_, rfl, hback, hlost, ?_⟩
    · have hparts : s ++ c :: (rest ++ lost)
          = front ++ (trim s ++ back ++ c :: rest) ++ lost := by
        nth_rewrite 1 [hs]
        simp only [List.append_assoc, List.cons_append]
      rw [hparts]
      exact trim_eq hfront
        ((isTrimmed_trim s).append hempty back hrest (List.cons_ne_nil c rest)) hlost
    · rw [hs]
      exact List.subset_append_right _ _

end DiceRoll.Text
