/-
Texts at their boundaries.

Nearly every rule of this library reads a text from the left and looks at most a
few characters ahead. Where a character cannot be part of what is being read, the
text falls apart there: the rule does to the whole what it does to the two halves.
This file states that for the operations on text, each as one equation for
`a ++ b` or `a ++ c :: b`, and everything else about words, tokens and markup
follows from those equations.
-/

import DiceRoll.Roll.Parts
import Mathlib.Data.List.TakeWhile

set_option autoImplicit false

namespace DiceRoll.Text

/-! ## Runs of characters -/

/-- A run ends at a boundary, whatever stands behind it. -/
theorem takeWhile_append_of_stop {p : Char → Bool} {b : Text} (hb : ∀ c ∈ b.head?, p c = false)
    (a : Text) : (a ++ b).takeWhile p = a.takeWhile p := by
  induction a with
  | nil => cases b <;> simp_all
  | cons c a ih =>
    rw [List.cons_append, List.takeWhile_cons, List.takeWhile_cons, ih]

theorem bne_of_not_mem {c : Char} {s : Text} (hs : c ∉ s) : ∀ d ∈ s, (d != c) = true := by
  intro d hd
  rw [bne_iff_ne]
  rintro rfl
  exact hs hd

theorem dropWhile_append_of_stop {p : Char → Bool} {b : Text} (hb : ∀ c ∈ b.head?, p c = false)
    (a : Text) : (a ++ b).dropWhile p = a.dropWhile p ++ b := by
  induction a with
  | nil => cases b <;> simp_all
  | cons c a ih =>
    rw [List.cons_append, List.dropWhile_cons, List.dropWhile_cons, ih]
    split <;> rfl

/-- A run is taken to its end and no further. -/
theorem takeWhile_run {p : Char → Bool} {run b : Text} (hrun : ∀ c ∈ run, p c = true)
    (hb : ∀ c ∈ b.head?, p c = false) : (run ++ b).takeWhile p = run := by
  rw [takeWhile_append_of_stop hb, List.takeWhile_eq_self_iff.2 hrun]

theorem dropWhile_run {p : Char → Bool} {run b : Text} (hrun : ∀ c ∈ run, p c = true)
    (hb : ∀ c ∈ b.head?, p c = false) : (run ++ b).dropWhile p = b := by
  rw [dropWhile_append_of_stop hb, List.dropWhile_eq_nil_iff.2 hrun, List.nil_append]

/-- **Induction on the cuts of a text.** A text holds no cutting character, or it
is a text without one, a cutting character and a shorter text. -/
theorem cutInduction {motive : Text → Prop} (cuts : Char → Bool)
    (whole : ∀ s, (∀ c ∈ s, cuts c = false) → motive s)
    (cut : ∀ a c s, (∀ d ∈ a, cuts d = false) → cuts c = true → motive s → motive (a ++ c :: s))
    (s : Text) : motive s := by
  induction hn : s.length using Nat.strongRecOn generalizing s with
  | ind n ih =>
    have hrun : ∀ d ∈ s.takeWhile fun c => !cuts c, cuts d = false := by
      intro d hd
      simpa using List.all_eq_true.1 List.all_takeWhile d hd
    have hsplit := List.takeWhile_append_dropWhile (p := fun c => !cuts c) (l := s)
    cases hrest : s.dropWhile fun c => !cuts c with
    | nil =>
      rw [hrest, List.append_nil] at hsplit
      exact whole s (hsplit ▸ hrun)
    | cons c r =>
      have hc : cuts c = true := by
        have := List.head?_dropWhile_not (fun c => !cuts c) s
        simpa [hrest] using this
      rw [hrest] at hsplit
      rw [← hsplit]
      refine cut _ c r hrun hc (ih r.length ?_ r rfl)
      rw [← hn, ← hsplit, List.length_append, List.length_cons]
      omega

/-! ## Words -/

theorem pieces_ne_nil (cuts : Char → Bool) (s : Text) : pieces cuts s ≠ [] := by
  induction s with
  | nil => simp [pieces]
  | cons c s ih =>
    rw [pieces]
    split
    · simp
    · split <;> simp

/-- A separator ends one piece and begins the next. -/
theorem pieces_append_cons {cuts : Char → Bool} {c : Char} (hc : cuts c = true) (a b : Text) :
    pieces cuts (a ++ c :: b) = pieces cuts a ++ pieces cuts b := by
  induction a with
  | nil =>
    obtain ⟨p, ps, hps⟩ := List.exists_cons_of_ne_nil (pieces_ne_nil cuts b)
    simp [pieces, hps, hc]
  | cons d a ih =>
    obtain ⟨p, ps, hps⟩ := List.exists_cons_of_ne_nil (pieces_ne_nil cuts a)
    rw [List.cons_append, pieces, pieces, ih, hps]
    cases hd : cuts d <;> simp

theorem pieces_of_none {cuts : Char → Bool} {s : Text} (hs : ∀ c ∈ s, cuts c = false) :
    pieces cuts s = [s] := by
  induction s with
  | nil => rfl
  | cons c s ih =>
    rw [pieces, ih fun d hd => hs d (List.mem_cons_of_mem c hd)]
    simp [hs c List.mem_cons_self]

/-- **Words split at a blank.** -/
theorem words_append_blank {c : Char} (hc : isBlank c = true) (a b : Text) :
    words (a ++ c :: b) = words a ++ words b := by
  rw [words, pieces_append_cons hc, List.filter_append]
  rfl

/-- A text without blanks is one word, unless it is empty. -/
theorem words_of_no_blank {s : Text} (hs : ∀ c ∈ s, isBlank c = false) (hne : s ≠ []) :
    words s = [s] := by
  rw [words, pieces_of_none hs]
  simp [hne]

@[simp] theorem words_nil : words [] = [] := rfl

/-- A word is not empty and holds no blank. -/
theorem mem_words {s w : Text} (hw : w ∈ words s) : w ≠ [] ∧ ∀ c ∈ w, isBlank c = false := by
  induction s using cutInduction isBlank with
  | whole s hs =>
    by_cases hne : s = []
    · subst hne
      simp at hw
    · rw [words_of_no_blank hs hne, List.mem_singleton] at hw
      subst hw
      exact ⟨hne, hs⟩
  | cut a c s ha hc ih =>
    rw [words_append_blank hc, List.mem_append] at hw
    rcases hw with hw | hw
    · by_cases hne : a = []
      · subst hne
        simp at hw
      · rw [words_of_no_blank ha hne, List.mem_singleton] at hw
        subst hw
        exact ⟨hne, ha⟩
    · exact ih hw

/-! ## Joined texts -/

theorem intercalate_cons_cons (sep : Char) (x y : Text) (items : List Text) :
    [sep].intercalate (x :: y :: items) = x ++ sep :: [sep].intercalate (y :: items) := by
  rw [List.intercalate_cons_cons, List.append_assoc, List.singleton_append]

/-- What splits at a separator is done to joined texts one by one. -/
theorem map_intercalate {pass : Text → Text} {sep : Char} (hnil : pass [] = [])
    (hcut : ∀ a b, pass (a ++ sep :: b) = pass a ++ sep :: pass b) (items : List Text) :
    pass ([sep].intercalate items) = [sep].intercalate (items.map pass) := by
  induction items with
  | nil => exact hnil
  | cons x items ih =>
    cases items with
    | nil => rw [List.map_singleton, List.intercalate_singleton, List.intercalate_singleton]
    | cons y items =>
      rw [List.map_cons] at ih
      rw [intercalate_cons_cons, hcut, ih, List.map_cons, List.map_cons, intercalate_cons_cons]

/-! ## Replacing -/

theorem substitute_cons_of_none {read : Text → Option (Text × Text)} {c : Char} {s : Text}
    (h : read (c :: s) = none) : substitute read (c :: s) = c :: substitute read s := by
  rw [substitute, h]

/-- A reader that takes a part of the text leaves its output in front of the rest. -/
theorem substitute_of_some {read : Text → Option (Text × Text)} {s out rest : Text}
    (h : read s = some (out, rest)) (hlt : rest.length < s.length) :
    substitute read s = out ++ substitute read rest := by
  obtain ⟨c, s, rfl⟩ := List.exists_cons_of_length_pos (Nat.zero_lt_of_lt hlt)
  rw [substitute, h]
  exact if_pos hlt

/-- A reader that takes the whole text leaves its output. -/
theorem substitute_of_read {read : Text → Option (Text × Text)} {s out : Text} (hs : s ≠ [])
    (h : read s = some (out, [])) : substitute read s = out := by
  rw [substitute_of_some h (List.length_pos_iff.2 hs), substitute, List.append_nil]

/-- A text in which nothing is recognised stays as it is. -/
theorem substitute_of_none {read : Text → Option (Text × Text)} {s : Text}
    (h : ∀ r, r <:+ s → read r = none) : substitute read s = s := by
  induction s with
  | nil => rw [substitute]
  | cons c s ih =>
    rw [substitute_cons_of_none (h _ List.suffix_rfl), ih]
    exact fun r hr => h r (hr.trans (List.suffix_cons c s))

/-- **Replacing splits at a boundary.** What a reader makes of a text does not
depend on what stands behind the boundary, so the halves are replaced one by one. -/
theorem substitute_append {read : Text → Option (Text × Text)} {b : Text}
    (hb : ∀ a, a ≠ [] → read (a ++ b) = (read a).map fun found => (found.1, found.2 ++ b))
    (a : Text) : substitute read (a ++ b) = substitute read a ++ substitute read b := by
  induction hn : a.length using Nat.strongRecOn generalizing a with
  | ind n ih =>
    cases a with
    | nil => rw [List.nil_append, substitute, List.nil_append]
    | cons c a =>
      have hread := hb (c :: a) (List.cons_ne_nil c a)
      have hskip : substitute read (a ++ b) = substitute read a ++ substitute read b :=
        ih a.length (by rw [← hn]; exact Nat.lt_succ_self _) a rfl
      rw [List.cons_append, substitute, substitute, ← List.cons_append, hread]
      cases hfound : read (c :: a) with
      | none => simp [hskip]
      | some found =>
        obtain ⟨out, rest⟩ := found
        have hlength : (rest ++ b).length < (a ++ b).length + 1 ↔ rest.length < a.length + 1 := by
          simp only [List.length_append]
          omega
        simp only [Option.map_some, hlength]
        split
        · rename_i hlt
          rw [ih rest.length (by rw [← hn]; exact hlt) rest rfl, List.append_assoc]
        · rw [hskip, List.cons_append]

end DiceRoll.Text
