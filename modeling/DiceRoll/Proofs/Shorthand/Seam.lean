/-
Shorthand does not reach across a seam.

A blank, the mark of a title and a separator stand in no check, in no attack and in no
number in brackets. Where a text has one of them, checks and attacks are written out on
either side of it by themselves (`Check.splitsAtSeams`, `Attack.splitsAtSeams`). So the
entries of a list and the body and the title of a roll are written out one by one, although
the passes run over the text as a whole.

An iteration is different. Its number is read on one side of a seam, but what it copies
goes on to the end of the text. What lies behind the seam then decides whether the number
counts at all, since a line break there takes it out (`Iteration.find?_append_of_some`).
-/

import DiceRoll.Proofs.Text.Replacing

set_option autoImplicit false

namespace DiceRoll

open Text

/-! ## Seams -/

/-- The characters at which shorthand ends: blanks, the mark of a title and the
separators. -/
def isSeam (c : Char) : Bool := isBlank c || c == '#' || c == ';' || c == ','

theorem isSeam_of_isBlank {c : Char} (hc : isBlank c = true) : isSeam c = true := by
  simp [isSeam, hc]

theorem ne_of_isSeam {c d : Char} (hc : isSeam c = true) (hd : isSeam d = false) : c ≠ d := by
  rintro rfl
  rw [hc] at hd
  cases hd

theorem isDigit_of_isSeam {c : Char} (hc : isSeam c = true) : c.isDigit = false := by
  by_contra hdigit
  rw [Bool.not_eq_false] at hdigit
  simp only [isSeam, isBlank_of_isDigit hdigit, Bool.false_or, Bool.or_eq_true, beq_iff_eq] at hc
  rcases hc with (rfl | rfl) | rfl <;> exact absurd hdigit (by decide)

/-! ## Passes that split

A pass that splits at every seam does to a text what it does to its parts, be they what
stands in front of a few blanks, the entries of a list, or a body and its title. -/

/-- A pass that does to a text what it does to either side of a seam. -/
structure SplitsAtSeams (pass : Text → Text) : Prop where
  nil : pass [] = []
  cut {c : Char} (hc : isSeam c = true) (a b : Text) : pass (a ++ c :: b) = pass a ++ c :: pass b

namespace SplitsAtSeams

variable {pass : Text → Text} (hpass : SplitsAtSeams pass)

include hpass

/-- A seam is not lost. -/
theorem mem_of_mem {c : Char} (hc : isSeam c = true) {s : Text} (hmem : c ∈ s) : c ∈ pass s := by
  obtain ⟨a, b, rfl⟩ := List.append_of_mem hmem
  rw [hpass.cut hc]
  exact List.mem_append_right _ List.mem_cons_self

/-- Blanks behind a text stay as they are. -/
theorem append_gap {gap : Text} (hgap : IsGap gap) (s : Text) :
    pass (s ++ gap) = pass s ++ gap := by
  induction gap generalizing s with
  | nil => rw [List.append_nil, List.append_nil]
  | cons c gap ih =>
    have hrest := fun d hd => hgap d (List.mem_cons_of_mem c hd)
    have hblanks := ih hrest []
    rw [List.nil_append, hpass.nil, List.nil_append] at hblanks
    rw [hpass.cut (isSeam_of_isBlank (hgap c List.mem_cons_self)), hblanks]

/-- So do blanks in front of it. -/
theorem gap_append {gap : Text} (hgap : IsGap gap) (s : Text) :
    pass (gap ++ s) = gap ++ pass s := by
  induction gap with
  | nil => rfl
  | cons c gap ih =>
    have hcut := hpass.cut (isSeam_of_isBlank (hgap c List.mem_cons_self)) [] (gap ++ s)
    rw [List.nil_append, hpass.nil, List.nil_append,
      ih fun d hd => hgap d (List.mem_cons_of_mem c hd)] at hcut
    exact hcut

/-- **The entries of a list are gone over one by one.** -/
theorem intercalate {c : Char} (hc : isSeam c = true) (entries : List Text) :
    pass ([c].intercalate entries) = [c].intercalate (entries.map pass) :=
  map_intercalate hpass.nil (hpass.cut hc) entries

end SplitsAtSeams

section Seam

variable {c : Char} (hc : isSeam c = true)

/-! ## Checks -/

namespace Check

include hc

theorem flag_append (a b : Text) : flag (a ++ c :: b) = ((flag a).1, (flag a).2 ++ c :: b) := by
  cases a with
  | nil =>
    have ha := ne_of_isSeam hc (d := 'a') rfl
    have hd := ne_of_isSeam hc (d := 'd') rfl
    unfold flag
    split <;> simp_all
  | cons d a =>
    rw [List.cons_append]
    unfold flag
    split <;> simp_all

theorem written?_append (sign : Char) (a b : Text) :
    written? sign (a ++ c :: b)
      = (written? sign a).map fun found => (found.1, found.2 ++ c :: b) := by
  have hstop : ∀ d ∈ (c :: b).head?, d.isDigit = false := by
    intro d hd
    cases hd
    exact isDigit_of_isSeam hc
  simp only [written?, takeWhile_append_of_stop hstop, dropWhile_append_of_stop hstop,
    flag_append hc]
  split <;> rfl

theorem malus?_append (a b : Text) :
    malus? (a ++ c :: b) = (malus? a).map fun found => (found.1, found.2 ++ c :: b) := by
  have hmark : c ∉ ['c', '-'] := by
    simp [ne_of_isSeam hc (d := 'c') rfl, ne_of_isSeam hc (d := '-') rfl]
  rw [malus?, malus?, after?_append hmark]
  cases after? ['c', '-'] a with
  | none => rfl
  | some rest => exact written?_append hc '-' rest b

theorem bonus?_append (a b : Text) :
    bonus? (a ++ c :: b) = (bonus? a).map fun found => (found.1, found.2 ++ c :: b) := by
  have hmark : c ∉ ['c'] := by simp [ne_of_isSeam hc (d := 'c') rfl]
  rw [bonus?, bonus?, after?_append hmark]
  cases after? ['c'] a with
  | none => rfl
  | some rest => exact written?_append hc '+' rest b

end Check

/-- **Checks are written out on either side of a seam.** -/
theorem Check.splitsAtSeams : SplitsAtSeams Check.expand where
  nil := by rw [Check.expand, substitute_nil, substitute_nil]
  cut hc a b := by
    rw [Check.expand, substitute_append_cons (Check.malus?_append hc · b) rfl,
      substitute_append_cons (Check.bonus?_append hc · _) rfl, Check.expand, Check.expand]

/-! ## Attacks -/

namespace Attack

include hc

theorem letter_append (a b : Text) :
    letter (a ++ c :: b) = ((letter a).1, (letter a).2 ++ c :: b) := by
  cases a with
  | nil =>
    have ha := ne_of_isSeam hc (d := 'a') rfl
    have hd := ne_of_isSeam hc (d := 'd') rfl
    have he := ne_of_isSeam hc (d := 'e') rfl
    unfold letter
    split <;> simp_all
  | cons d a =>
    rw [List.cons_append]
    unfold letter
    split <;> simp_all

theorem skipColon_append (a b : Text) : skipColon (a ++ c :: b) = skipColon a ++ c :: b := by
  cases a with
  | nil =>
    have hcolon := ne_of_isSeam hc (d := ':') rfl
    unfold skipColon
    split <;> simp_all
  | cons d a =>
    rw [List.cons_append]
    unfold skipColon
    split <;> simp_all

theorem ofText?_append (a b : Text) :
    ofText? (a ++ c :: b) = (ofText? a).map fun found => (found.1, found.2 ++ c :: b) := by
  have hdigit := isDigit_of_isSeam hc
  have hbonus : ∀ d ∈ (c :: b).head?, isBonusChar d = false := by
    intro d hd
    cases hd
    simp [isBonusChar, hdigit, ne_of_isSeam hc (d := '-') rfl]
  have hdice : ∀ d ∈ (c :: b).head?, isDiceChar d = false := by
    intro d hd
    cases hd
    simp [isDiceChar, hdigit, ne_of_isSeam hc (d := '.') rfl]
  simp only [ofText?, takeWhile_append_of_stop hbonus, dropWhile_append_of_stop hbonus,
    letter_append hc]
  cases a.takeWhile isBonusChar with
  | nil => rfl
  | cons h hit =>
    cases hrest : (letter (a.dropWhile isBonusChar)).2 with
    | nil =>
      rw [List.nil_append]
      split
      · rename_i hcolon
        exact absurd (List.cons.inj hcolon).1 (ne_of_isSeam hc rfl)
      · rfl
    | cons d rest =>
      by_cases hcolon : d = ':'
      · subst hcolon
        simp only [List.cons_append, takeWhile_append_of_stop hdice, dropWhile_append_of_stop hdice,
          skipColon_append hc, takeWhile_append_of_stop hbonus, dropWhile_append_of_stop hbonus]
        split <;> rfl
      · simp [hcolon]

end Attack

/-- **Attacks are written out on either side of a seam.** -/
theorem Attack.splitsAtSeams : SplitsAtSeams Attack.expand where
  nil := substitute_nil
  cut hc a b := by
    refine substitute_append_cons (fun a => ?_) rfl a
    rw [Attack.ofText?_append hc]
    cases Attack.ofText? a <;> rfl

/-! ## Iterations -/

namespace Iteration

include hc

theorem bracket?_append (a b : Text) :
    bracket? (a ++ c :: b) = (bracket? a).map fun found => (found.1, found.2 ++ c :: b) := by
  have hstop : ∀ d ∈ (c :: b).head?, d.isDigit = false := by
    intro d hd
    cases hd
    exact isDigit_of_isSeam hc
  cases a with
  | nil =>
    have hopen := ne_of_isSeam hc (d := '[') rfl
    unfold bracket?
    split <;> simp_all
  | cons d a =>
    by_cases hopen : d = '['
    · subst hopen
      simp only [bracket?, List.cons_append, takeWhile_append_of_stop hstop,
        dropWhile_append_of_stop hstop]
      cases a.takeWhile Char.isDigit with
      | nil => rfl
      | cons digit digits =>
        cases a.dropWhile Char.isDigit with
        | nil =>
          rw [List.nil_append]
          split
          · rename_i hclose
            exact absurd (List.cons.inj hclose).1 (ne_of_isSeam hc rfl)
          · rfl
        | cons e rest =>
          by_cases hclose : e = ']'
          · subst hclose
            rfl
          · simp [hclose]
    · simp [bracket?, hopen]

/-- Where no number counts in front of a seam, the first one that counts stands behind
it. -/
theorem find?_append_of_none {a : Text} (ha : find? a = none) (b : Text) :
    find? (a ++ c :: b) = (find? b).map fun found => (a ++ c :: found.1, found.2) := by
  induction a with
  | nil =>
    have hbracket : bracket? (c :: b) = none := bracket?_append hc [] b
    rw [List.nil_append, find?, hbracket]
    rfl
  | cons d a ih =>
    have hcut := bracket?_append hc (d :: a) b
    rw [List.cons_append] at hcut
    rw [find?] at ha
    rw [List.cons_append, find?, hcut]
    cases hbracket : bracket? (d :: a) with
    | none =>
      simp only [hbracket, Option.map_eq_none_iff] at ha
      simp only [Option.map_none, ih ha, Option.map_map]
      rfl
    | some found =>
      simp only [hbracket] at ha
      -- A number that does not count has a line end behind it, and keeps it.
      by_cases hlines : found.2.any (· == '\n') = true
      · rw [if_pos hlines, Option.map_eq_none_iff] at ha
        simp only [Option.map_some, List.any_append, hlines, Bool.true_or, if_true, ih ha,
          Option.map_map]
        rfl
      · rw [if_neg hlines] at ha
        cases ha

/-- **A number in front of a seam counts as it did**, unless a line ends behind the seam. -/
theorem find?_append_of_some {a b before digits rest : Text}
    (ha : find? a = some (before, digits, rest)) (hb : '\n' ∉ c :: b) :
    find? (a ++ c :: b) = some (before, digits, rest ++ c :: b) := by
  have hlast : (c :: b).any (· == '\n') = false := by
    rw [List.any_eq_false]
    intro e he
    rw [beq_iff_eq]
    rintro rfl
    exact hb he
  induction a generalizing before with
  | nil => cases ha
  | cons d a ih =>
    have hcut := bracket?_append hc (d :: a) b
    rw [List.cons_append] at hcut
    rw [find?] at ha
    rw [List.cons_append, find?, hcut]
    cases hbracket : bracket? (d :: a) with
    | none =>
      simp only [hbracket, Option.map_eq_some_iff] at ha
      obtain ⟨⟨behind, found⟩, hfound, heq⟩ := ha
      cases heq
      simp [ih hfound]
    | some found =>
      simp only [hbracket] at ha
      simp only [Option.map_some, List.any_append, hlast, Bool.or_false]
      by_cases hlines : found.2.any (· == '\n') = true
      · rw [if_pos hlines, Option.map_eq_some_iff] at ha
        obtain ⟨⟨behind, later⟩, hlater, heq⟩ := ha
        cases heq
        simp [ih hlater, hlines]
      · rw [if_neg hlines] at ha ⊢
        cases ha
        rfl

end Iteration

end Seam

/-- The number of a copy is put in on either side of a seam. -/
theorem Iteration.splitsAtSeams_replace (number : Text) :
    SplitsAtSeams (replace Iteration.placeholder number) where
  nil := substitute_nil
  cut {c} hc a b := by
    have hword : c ∉ Iteration.placeholder := by
      simp [Iteration.placeholder, ne_of_isSeam hc (d := '\x7b') rfl,
        ne_of_isSeam hc (d := 'i') rfl, ne_of_isSeam hc (d := '\x7d') rfl]
    exact replace_append_cons (List.cons_ne_nil _ _) hword number a b

end DiceRoll
