/-
A title goes through the passes.

The title of a roll is told from its body only after all shorthand has been written out. So
every pass runs over the title as well, and a title that reads like shorthand is written out
like any other text. A title in which no pass finds anything is a label (`IsLabel`), and the
file shows that a label is carried along: whatever is written out for the body, the mark and
the label stand behind it in the end, with nothing lost but blanks (`IsTail`).

The one pass that looks past the mark is the iteration. It copies the title together with
the body, so the title is kept only where there is a copy, and is not numbered itself
(`KeepsTitle`). More copies than one would make a list of the body.
-/

import DiceRoll.Proofs.Shorthand.Seam

set_option autoImplicit false

namespace DiceRoll

open Text

/-! ## Iterations

An iteration as it is found, and what its writing out can bring in. -/

namespace Iteration

theorem eq_of_bracket? {s digits rest : Text} (h : bracket? s = some (digits, rest)) :
    s = '[' :: digits ++ ']' :: rest ∧ ∀ c ∈ digits, c.isDigit = true := by
  cases s with
  | nil => cases h
  | cons c s =>
    by_cases hopen : c = '['
    · subst hopen
      have hsplit := List.takeWhile_append_dropWhile (p := Char.isDigit) (l := s)
      simp only [bracket?] at h
      split at h
      · rename_i hrest
        cases h
        rw [hrest] at hsplit
        rw [List.cons_append, hsplit]
        exact ⟨rfl, fun c hc => List.mem_takeWhile_imp hc⟩
      · cases h
    · simp [bracket?, hopen] at h

/-- A number that counts is read at its place, and no line ends behind it. -/
theorem exists_bracket?_of_find? {s before digits rest : Text}
    (h : find? s = some (before, digits, rest)) :
    ∃ t, s = before ++ t ∧ bracket? t = some (digits, rest) ∧ '\n' ∉ rest := by
  induction s generalizing before with
  | nil => cases h
  | cons c s ih =>
    have hlater (h : ((find? s).map fun found => (c :: found.1, found.2))
        = some (before, digits, rest)) :
        ∃ t, c :: s = before ++ t ∧ bracket? t = some (digits, rest) ∧ '\n' ∉ rest := by
      obtain ⟨⟨behind, later⟩, hlater, heq⟩ := Option.map_eq_some_iff.1 h
      obtain ⟨rfl, rfl⟩ := Prod.mk.inj heq
      obtain ⟨t, hs, hbracket, hline⟩ := ih hlater
      exact ⟨t, congrArg (c :: ·) hs, hbracket, hline⟩
    rw [find?] at h
    split at h
    · rename_i digits' rest' hbracket
      split at h
      · exact hlater h
      · rename_i hlines
        cases h
        exact ⟨c :: s, rfl, hbracket, fun hmem => hlines (List.any_eq_true.2 ⟨'\n', hmem, rfl⟩)⟩
    · exact hlater h

/-- **A number that counts** stands in brackets, and no line ends behind it. -/
theorem eq_of_find? {s before digits rest : Text} (h : find? s = some (before, digits, rest)) :
    s = before ++ '[' :: digits ++ ']' :: rest ∧ (∀ c ∈ digits, c.isDigit = true)
      ∧ '\n' ∉ rest := by
  obtain ⟨t, rfl, hbracket, hline⟩ := exists_bracket?_of_find? h
  obtain ⟨rfl, hdigits⟩ := eq_of_bracket? hbracket
  exact ⟨(List.append_assoc _ _ _).symm, hdigits, hline⟩

theorem mem_dropWhile_of_mem {s : Text} (hs : ';' ∈ s) : ';' ∈ s.dropWhile (· != ';') := by
  rw [← List.takeWhile_append_dropWhile (p := (· != ';')) (l := s)] at hs
  rcases List.mem_append.1 hs with hrun | hbehind
  · exact absurd (List.mem_takeWhile_imp hrun) (by decide)
  · exact hbehind

/-- The characters of a copy are those of the body and of its number. -/
theorem mem_of_mem_copies {count : Nat} {body : Text} {c : Char} (hc : c ∈ copies count body) :
    c = ';' ∨ c ∈ body ∨ c.isDigit = true := by
  refine (mem_of_mem_intercalate hc).imp_right ?_
  rintro ⟨copy, hcopy, hmem⟩
  obtain ⟨i, -, rfl⟩ := List.mem_map.1 hcopy
  exact (mem_of_mem_replace hmem).imp_right
    (Nat.isDigit_of_mem_toDigits (by decide) (by decide))

/-- A character that is written out for an iteration was there before, or is a digit or a
semicolon. -/
theorem mem_of_mem_expand {limit : Nat} {s : Text} {c : Char} (hc : c ∈ (expand limit s).1) :
    c ∈ s ∨ c = ';' ∨ c.isDigit = true := by
  cases hfind : find? s with
  | none =>
    rw [expand, hfind] at hc
    exact .inl hc
  | some found =>
    obtain ⟨before, digits, rest⟩ := found
    obtain ⟨hs, -⟩ := eq_of_find? hfind
    have hrest : ∀ d ∈ rest, d ∈ s := by
      intro d hd
      rw [hs]
      exact List.mem_append_right _ (List.mem_cons_of_mem _ hd)
    rw [expand, hfind] at hc
    rcases List.mem_append.1 hc with hc | hothers
    · rcases List.mem_append.1 hc with hbefore | hcopies
      · rw [hs]
        exact .inl (List.mem_append_left _ (List.mem_append_left _ hbefore))
      · rcases mem_of_mem_copies hcopies with hsemicolon | hbody | hdigit
        · exact .inr (.inl hsemicolon)
        · have hrun := (List.takeWhile_sublist _).subset (mem_of_mem_trim hbody)
          exact .inl (hrest c hrun)
        · exact .inr (.inr hdigit)
    · exact .inl (hrest c ((List.dropWhile_sublist _).subset hothers))

/-- A semicolon is not lost. -/
theorem mem_expand_of_mem {limit : Nat} {s : Text} (hs : ';' ∈ s) : ';' ∈ (expand limit s).1 := by
  cases hfind : find? s with
  | none =>
    rw [expand, hfind]
    exact hs
  | some found =>
    obtain ⟨before, digits, rest⟩ := found
    obtain ⟨rfl, hdigits, -⟩ := eq_of_find? hfind
    rw [expand, hfind]
    simp only [List.mem_append, List.mem_cons] at hs ⊢
    rcases hs with (hbefore | hopen | hdigit) | hclose | hrest
    · exact .inl (.inl hbefore)
    · exact absurd hopen (by decide)
    · exact absurd (hdigits _ hdigit) (by decide)
    · exact absurd hclose (by decide)
    · exact .inr (mem_dropWhile_of_mem hrest)

/-- An iteration in a text that is no list afterwards asks for at most one copy, of all that
stands behind it. -/
theorem expand_of_find? {limit : Nat} {s before digits rest : Text}
    (hfind : find? s = some (before, digits, rest)) (hcount : 1 ≤ min digits.value limit)
    (hs : ';' ∉ (expand limit s).1) :
    min digits.value limit = 1 ∧ ';' ∉ rest := by
  rw [expand, hfind] at hs
  simp only [List.mem_append, not_or] at hs
  obtain ⟨⟨-, hcopies⟩, hothers⟩ := hs
  constructor
  · by_contra hcount'
    refine hcopies (mem_intercalate ?_)
    rw [List.length_map, List.length_range]
    omega
  · exact fun hmem => hothers (mem_dropWhile_of_mem hmem)

/-- A single copy of all that stands behind a number. -/
theorem expand_single {limit : Nat} {s before digits rest : Text}
    (hfind : find? s = some (before, digits, rest)) (hcount : min digits.value limit = 1)
    (hrest : ';' ∉ rest) :
    expand limit s = (before ++ Text.replace placeholder ['1'] (trim rest),
      if limit < digits.value then [.tooManyIterations limit] else []) := by
  have hrun := bne_of_not_mem hrest
  have hcopy (body : Text) : copies 1 body = Text.replace placeholder ['1'] body := by
    rw [copies, List.range_one, List.map_singleton, List.intercalate_singleton]
    rfl
  rw [expand, hfind]
  simp only [List.takeWhile_eq_self_iff.2 hrun, List.dropWhile_eq_nil_iff.2 hrun, hcount, hcopy,
    List.append_nil]

end Iteration

/-! ## Labels -/

/-- A text in which no pass finds shorthand. -/
structure IsLabel (t : Text) : Prop where
  abilities : Text.contains Abilities.word t = false
  iteration : Iteration.find? t = none
  checks : Check.expand t = t
  attacks : Attack.expand t = t

/-- What a label looks like behind what was written out for its body. There may be blanks in
front of the mark, and some at its end may be gone. -/
def IsTail (t tail : Text) : Prop :=
  ∃ gap rest lost, tail = gap ++ '#' :: rest ∧ t = rest ++ lost ∧ IsGap gap ∧ IsGap lost
    ∧ '\n' ∉ gap ∧ Iteration.find? rest = none

/-- A title behind a body comes through the iteration that is found in the body: there is a
copy of it, no line of it ends, so that the iteration counts at all, and it does not show
the number of the copy. -/
def Iteration.KeepsTitle (limit : Nat) (t s : Text) : Prop :=
  ∀ before digits rest, find? s = some (before, digits, rest) →
    1 ≤ min digits.value limit ∧ '\n' ∉ t ∧ Text.contains placeholder t = false

theorem isSeam_title : isSeam '#' = true := by decide

theorem IsLabel.isTail {t : Text} (ht : IsLabel t) : IsTail t ('#' :: t) :=
  ⟨[], t, [], rfl, (List.append_nil t).symm, .nil, .nil, List.not_mem_nil, ht.iteration⟩

/-- A tail begins with a seam. -/
theorem IsTail.exists_cons {t tail : Text} (h : IsTail t tail) :
    ∃ c rest, tail = c :: rest ∧ isSeam c = true := by
  obtain ⟨gap, rest, lost, rfl, -, hgap, -⟩ := h
  cases gap with
  | nil => exact ⟨'#', rest, rfl, isSeam_title⟩
  | cons c gap => exact ⟨c, _, rfl, isSeam_of_isBlank (hgap c List.mem_cons_self)⟩

theorem IsTail.mem_of_mem {t tail : Text} (h : IsTail t tail) {c : Char} (hc : c ∈ tail) :
    (isBlank c = true ∧ c ≠ '\n') ∨ c = '#' ∨ c ∈ t := by
  obtain ⟨gap, rest, lost, rfl, rfl, hgap, -, hlines, -⟩ := h
  rw [List.mem_append, List.mem_cons] at hc
  rcases hc with hblank | hmark | hrest
  · refine .inl ⟨hgap c hblank, ?_⟩
    rintro rfl
    exact hlines hblank
  · exact .inr (.inl hmark)
  · exact .inr (.inr (List.mem_append_left _ hrest))

/-- **A pass that splits carries a label along**, if it finds nothing in it. -/
theorem SplitsAtSeams.append_tail {pass : Text → Text} (hpass : SplitsAtSeams pass)
    {t tail : Text} (ht : pass t = t) (htail : IsTail t tail) (s : Text) :
    pass (s ++ tail) = pass s ++ tail := by
  obtain ⟨gap, rest, lost, rfl, rfl, hgap, hlost, -⟩ := htail
  rw [hpass.append_gap hlost, List.append_cancel_right_eq] at ht
  rw [← List.append_assoc, hpass.cut isSeam_title, hpass.append_gap hgap, ht, List.append_assoc]

namespace Iteration

/-- A label behind a text without an iteration brings none in. -/
theorem find?_append_tail_of_none {s t tail : Text} (hs : find? s = none) (htail : IsTail t tail) :
    find? (s ++ tail) = none := by
  obtain ⟨gap, rest, lost, rfl, -, hgap, -, -, hrest⟩ := htail
  have hfront : find? (s ++ gap) = none := by
    cases gap with
    | nil => rwa [List.append_nil]
    | cons c gap =>
      have hbracket : '[' ∉ gap := by
        intro hmem
        exact absurd (hgap '[' (List.mem_cons_of_mem c hmem)) (by decide)
      rw [find?_append_of_none (isSeam_of_isBlank (hgap c List.mem_cons_self)) hs,
        find?_eq_none hbracket]
      rfl
  rw [← List.append_assoc, find?_append_of_none isSeam_title hfront, hrest]
  rfl

/-- **A label is copied with its body**, and trimmed with it. -/
theorem exists_isTail_of_copy {t tail rest : Text} (hlines : '\n' ∉ t) (hrest : '\n' ∉ rest)
    (hnumber : Text.contains placeholder t = false) (htail : IsTail t tail) :
    ∃ tail', IsTail t tail' ∧ Text.replace placeholder ['1'] (trim (rest ++ tail))
      = Text.replace placeholder ['1'] (trim rest) ++ tail' := by
  obtain ⟨gap, kept, lost, rfl, rfl, hgap, hlost, hgapLines, hkept⟩ := htail
  obtain ⟨gap', kept', lost', htrim, rfl, hgap', hlost', hsub⟩ :=
    exists_trim_append_cons (c := '#') (by decide) (rest ++ gap) kept
  have hfront : trim (rest ++ gap) = trim rest := trim_append_gaps .nil rest hgap
  rw [hfront] at htrim
  -- Trimming takes blanks from the end of the label alone, and as no line ends among them, an
  -- iteration in what is left would be one in the whole label.
  have hnone : find? kept' = none := by
    cases lost' with
    | nil => rwa [List.append_nil] at hkept
    | cons c lost' =>
      by_contra hfound
      obtain ⟨⟨before, digits, behind⟩, hfind⟩ := Option.ne_none_iff_exists'.1 hfound
      have hseam : isSeam c = true := isSeam_of_isBlank (hlost' c List.mem_cons_self)
      have hline : '\n' ∉ c :: lost' := fun hmem =>
        hlines (List.mem_append_left _ (List.mem_append_right _ hmem))
      rw [find?_append_of_some hseam hfind hline] at hkept
      cases hkept
  have htail' : IsTail (kept' ++ lost' ++ lost) (gap' ++ '#' :: kept') := by
    refine ⟨gap', kept', lost' ++ lost, rfl, List.append_assoc .., hgap', hlost'.append hlost,
      fun hmem => ?_, hnone⟩
    rcases List.mem_append.1 (hsub hmem) with h | h
    · exact hrest h
    · exact hgapLines h
  refine ⟨_, htail', ?_⟩
  rw [← List.append_assoc, htrim, List.append_assoc]
  exact (splitsAtSeams_replace ['1']).append_tail (replace_eq_self hnumber _) htail' _

/-- **An iteration carries a label along.** -/
theorem exists_expand_append_tail {limit : Nat} {s t tail : Text} (hkeeps : KeepsTitle limit t s)
    (ht : ';' ∉ t) (hs : ';' ∉ (expand limit s).1) (htail : IsTail t tail) :
    ∃ tail', IsTail t tail'
      ∧ expand limit (s ++ tail) = ((expand limit s).1 ++ tail', (expand limit s).2) := by
  cases hfind : find? s with
  | none =>
    refine ⟨tail, htail, ?_⟩
    rw [expand, expand, hfind, find?_append_tail_of_none hfind htail]
  | some found =>
    obtain ⟨before, digits, rest⟩ := found
    obtain ⟨hcount, hlines, hnumber⟩ := hkeeps before digits rest hfind
    obtain ⟨hsingle, hrest⟩ := expand_of_find? hfind hcount hs
    obtain ⟨tail', htail', hcopy⟩ :=
      exists_isTail_of_copy hlines (eq_of_find? hfind).2.2 hnumber htail
    refine ⟨tail', htail', ?_⟩
    have hline : '\n' ∉ tail := by
      intro hmem
      rcases htail.mem_of_mem hmem with ⟨-, hne⟩ | hmark | hmem
      · exact hne rfl
      · exact absurd hmark (by decide)
      · exact hlines hmem
    have hsemicolon : ';' ∉ rest ++ tail := by
      intro hmem
      rcases List.mem_append.1 hmem with hmem | hmem
      · exact hrest hmem
      · rcases htail.mem_of_mem hmem with ⟨hblank, -⟩ | hmark | hmem
        · exact absurd hblank (by decide)
        · exact absurd hmark (by decide)
        · exact ht hmem
    have hfind' : find? (s ++ tail) = some (before, digits, rest ++ tail) := by
      obtain ⟨c, behind, rfl, hseam⟩ := htail.exists_cons
      exact find?_append_of_some hseam hfind hline
    rw [expand_single hfind' hsingle hsemicolon, expand_single hfind hsingle hrest, hcopy,
      List.append_assoc]

end Iteration

/-! ## A body and its title -/

/-- The texts in which iterations are looked for when a text is written out: the text
itself, and what checks and attacks have made of it. -/
def Iteration.stages (limit : Nat) (s : Text) : List Text :=
  [s, Attack.expand (Check.expand (Iteration.expand limit s).1)]

/-- The abilities are a list. -/
theorem MacroBook.not_contains_abilities {book : MacroBook} (hbook : book.macros = [])
    {limit : Nat} {s : Text} (hs : ';' ∉ (book.writeOut limit s).1) :
    Text.contains Abilities.word s = false := by
  by_contra hcontains
  rw [Bool.not_eq_false] at hcontains
  have hrolls : Abilities.expand s = Abilities.rolls := by rw [Abilities.expand, if_pos hcontains]
  have hiteration := Iteration.expand_eq_self (s := Abilities.rolls) (by decide) limit
  rw [writeOut_of_no_macros hbook, hrolls] at hs
  simp only [hiteration, Check.expand_eq_self (s := Abilities.rolls) (by decide),
    Attack.expand_eq_self (s := Abilities.rolls) (by decide)] at hs
  exact hs (by decide)

/-- **A label is carried along by all passes**, if its body is no list afterwards. -/
theorem MacroBook.writeOut_append_label {book : MacroBook} (hbook : book.macros = [])
    {limit : Nat} {b t : Text} (ht : IsLabel t) (hsemicolon : ';' ∉ t)
    (hkeeps : ∀ s ∈ Iteration.stages limit b, Iteration.KeepsTitle limit t s)
    (hb : ';' ∉ (book.writeOut limit b).1) :
    ∃ tail, IsTail t tail ∧ book.writeOut limit (b ++ '#' :: t)
      = ((book.writeOut limit b).1 ++ tail, (book.writeOut limit b).2) := by
  -- Abilities would replace the whole text, the title included.
  have hbody := not_contains_abilities hbook hb
  have hwhole : Text.contains Abilities.word (b ++ '#' :: t) = false := by
    rw [contains_append_cons (by decide), hbody, ht.abilities]
    rfl
  rw [writeOut_of_no_macros hbook, Abilities.expand_eq_self hbody] at hb
  rw [writeOut_of_no_macros hbook, writeOut_of_no_macros hbook, Abilities.expand_eq_self hbody,
    Abilities.expand_eq_self hwhole]
  have hkeepsFirst := hkeeps b List.mem_cons_self
  have hkeepsSecond := hkeeps _ (List.mem_cons_of_mem b List.mem_cons_self)
  -- Iterations are looked for twice. What is no list in the end was none in between, since no
  -- pass takes a semicolon away.
  generalize hfirst : Iteration.expand limit b = first at hb hkeepsSecond ⊢
  have hfirstSemicolon : ';' ∉ first.1 := fun hmem =>
    hb (Iteration.mem_expand_of_mem
      (Attack.splitsAtSeams.mem_of_mem (by decide)
        (Check.splitsAtSeams.mem_of_mem (by decide) hmem)))
  obtain ⟨tail, htail, hiterated⟩ := Iteration.exists_expand_append_tail hkeepsFirst hsemicolon
    (hfirst ▸ hfirstSemicolon) ht.isTail
  rw [hfirst] at hiterated
  obtain ⟨tail', htail', hdone⟩ :=
    Iteration.exists_expand_append_tail hkeepsSecond hsemicolon hb htail
  refine ⟨tail', htail', ?_⟩
  simp only [hiterated, Check.splitsAtSeams.append_tail ht.checks htail,
    Attack.splitsAtSeams.append_tail ht.attacks htail, hdone]

end DiceRoll
