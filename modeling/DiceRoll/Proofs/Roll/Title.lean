/-
A title is a label.

The title of a roll is what stands behind the first `#` once all shorthand has been written
out. Where no pass finds shorthand in it, a title is a label and nothing else: the words of
the body, what they come to, the problems and the faces drawn are those of the body alone.

The two runs that are compared read two texts, and the passes see the whole of either. What
carries the comparison is that all passes carry a label along behind its body
(`MacroBook.writeOut_append_label`). What is left for this file is the end of the reading:
where the mark stands, the body ends.
-/

import DiceRoll.Proofs.Roll.Leaf
import DiceRoll.Proofs.Shorthand.Output
import DiceRoll.Proofs.Shorthand.Label
import DiceRoll.Proofs.Source.Draws
import DiceRoll.Proofs.Text.Words
import Mathlib

set_option autoImplicit false

namespace DiceRoll

open Text

/-! ## The body and the title -/

theorem bodyOf_append {s : Text} (hs : '#' ∉ s) (t : Text) : bodyOf (s ++ '#' :: t) = s := by
  rw [bodyOf, List.takeWhile_append_of_pos (bne_of_not_mem hs)]
  simp

/-- What is shown as the title for a text that stands behind the mark. -/
theorem titleOf_append {s : Text} (hs : '#' ∉ s) (t : Text) :
    titleOf (s ++ '#' :: t) = if (trim t).isEmpty then none else some (trim t) := by
  rw [titleOf, List.dropWhile_append_of_pos (bne_of_not_mem hs)]
  rfl

/-- Blanks at the end of a body are no words. -/
theorem wordsOf_append_gap {gap : Text} (hgap : IsGap gap) (escape body : Text) :
    wordsOf escape (body ++ gap) = wordsOf escape body := by
  rw [wordsOf, List.flatMap_append,
    flatMap_spaced_of_not fun c hc => isSetApart_of_isBlank (hgap c hc), words_append_gap hgap]
  rfl

/-- A label brings in no separator. -/
theorem IsTail.firstSeparator?_append {t tail raw : Text} (htail : IsTail t tail)
    (hraw : firstSeparator? raw = none) (ht : firstSeparator? t = none) :
    firstSeparator? (raw ++ tail) = none := by
  rw [firstSeparator?_eq_none_iff] at hraw ht ⊢
  have hnone : ∀ c, isBlank c = false → c ≠ '#' → c ∉ t → c ∉ tail := by
    intro c hblank hmark ht hmem
    rcases htail.mem_of_mem hmem with ⟨h, -⟩ | h | h
    · rw [hblank] at h
      cases h
    · exact hmark h
    · exact ht h
  simp only [List.mem_append, not_or]
  exact ⟨⟨hraw.1, hnone ';' (by decide) (by decide) ht.1⟩,
    ⟨hraw.2, hnone ',' (by decide) (by decide) ht.2⟩⟩

variable {σ : Type} [Source σ]

/-- **A leaf with a label** is the leaf of its body, under that title. -/
theorem Setup.rollLeaf_append_tail {u : Setup} {raw t tail : Text} {problems found : List Problem}
    {leaf : Leaf} {s s' : σ} (hraw : '#' ∉ raw) (htail : IsTail t tail)
    (h : u.rollLeaf raw problems s = (.leaf raw found leaf, s')) :
    u.rollLeaf (raw ++ tail) problems s
      = (.leaf (raw ++ tail) found
          { leaf with title := if (trim t).isEmpty then none else some (trim t) }, s') := by
  obtain ⟨gap, rest, lost, rfl, rfl, hgap, hlost, -⟩ := htail
  have hmark : '#' ∉ raw ++ gap := by
    intro hmem
    rcases List.mem_append.1 hmem with hmem | hmem
    · exact hraw hmem
    · exact absurd (hgap '#' hmem) (by decide)
  have hbody : bodyOf raw = raw := List.takeWhile_eq_self_iff.2 (bne_of_not_mem hraw)
  have htitle : trim (rest ++ lost) = trim rest := trim_append_gaps .nil rest hlost
  rw [Setup.rollLeaf, hbody] at h
  rw [← List.append_assoc, Setup.rollLeaf, bodyOf_append hmark, titleOf_append hmark,
    wordsOf_append_gap hgap, htitle]
  simp only [Prod.mk.injEq, Roll.leaf.injEq, true_and] at h ⊢
  obtain ⟨⟨hfound, rfl⟩, hs⟩ := h
  exact ⟨⟨hfound, rfl⟩, hs⟩

/-! ## Reading a body with its title -/

/-- Only an attack brings in the mark of a title. -/
theorem MacroBook.mark_not_mem_writeOut {book : MacroBook} (hbook : book.macros = [])
    {limit : Nat} {s : Text} (hs : '#' ∉ s) (hlist : ';' ∉ (book.writeOut limit s).1) :
    '#' ∉ (book.writeOut limit s).1 := by
  have habilities := not_contains_abilities hbook hlist
  rw [writeOut_of_no_macros hbook, Abilities.expand_eq_self habilities] at hlist ⊢
  have hnone : ∀ x : Text, '#' ∈ (Iteration.expand limit x).1 → '#' ∈ x := by
    intro x hmem
    rcases Iteration.mem_of_mem_expand hmem with h | h | h
    · exact h
    · exact absurd h (by decide)
    · exact absurd h (by decide)
  intro hmem
  have hattacks : ';' ∉ Attack.expand (Check.expand (Iteration.expand limit s).1) :=
    fun h => hlist (Iteration.mem_expand_of_mem h)
  have hchecks := hnone _ hmem
  rw [Attack.expand_eq_self_of_not_mem hattacks] at hchecks
  exact hs (hnone s (Check.mem_of_mem_expand hchecks (by decide)))

/-- **A title is only a label**, as far as it is one: no pass finds shorthand in it, and an
iteration in its body copies the two together, once. Then the roll of a body with a title is
the roll of the body with that title, from the first problem to the last face drawn. -/
theorem Session.parse_append_title {u : Setup} (hmacros : u.macros.macros = [])
    (hrolls : 1 ≤ u.limits.maxRolls) {b t : Text} (hb : '#' ∉ b) (ht : IsLabel t)
    (hseparator : firstSeparator? t = none)
    (hkeeps : ∀ x ∈ Iteration.stages u.limits.maxIterations b,
      Iteration.KeepsTitle u.limits.maxIterations t x)
    {s : σ} {raw : Text} {problems : List Problem} {leaf : Leaf}
    (hbody : ((⟨u, s⟩ : Session σ).parse b).1 = .leaf raw problems leaf)
    (hraw : firstSeparator? raw = none) :
    ∃ raw', (⟨u, s⟩ : Session σ).parse (b ++ '#' :: t)
      = (.leaf raw' problems
          { leaf with title := if (trim t).isEmpty then none else some (trim t) },
        ((⟨u, s⟩ : Session σ).parse b).2) := by
  have hbook : u.told.macros.macros = [] := u.macros_told.trans hmacros
  have hfirst : (0 : Nat) ≠ u.told.limits.maxRolls := Nat.ne_of_lt hrolls
  have hwritten : raw = (u.told.macros.writeOut u.limits.maxIterations b).1 := by
    have hroll := u.told.raw_roll u.limits.maxDepth b (p := ⟨0, s⟩) hfirst
    rw [parse_eq] at hbody
    rw [hbody] at hroll
    exact hroll
  subst hwritten
  have hsemicolon := (firstSeparator?_eq_none_iff.1 hraw).1
  obtain ⟨tail, htail, hwhole⟩ := MacroBook.writeOut_append_label hbook ht
    (firstSeparator?_eq_none_iff.1 hseparator).1 hkeeps hsemicolon
  have hmark := MacroBook.mark_not_mem_writeOut hbook hb hsemicolon
  have hlist := htail.firstSeparator?_append hraw hseparator
  have hrest := parse_eq_rollLeaf hrolls hwhole hlist s
  have hfront := parse_eq_rollLeaf hrolls (Prod.eta _).symm hraw s
  rw [hfront] at hbody ⊢
  have hlabel := Setup.rollLeaf_append_tail hmark htail (Prod.ext hbody rfl)
  exact ⟨_, by rw [hrest, hlabel]⟩

/-- One copy of a check, under a title with blanks around it. -/
theorem parse_append_title_of_check :
    ∃ raw, ((Session.ofSource (⟨[14, 9], 0⟩ : Recording)).parse "[1]c5a# to hit ".toList).1
      = .leaf raw [] { Leaf.ofResolved ["1d20a".toList, "+".toList, "5".toList] none
          [⟨"14".toList, "(14 > 9)".toList⟩, .literal "+".toList, .literal "5".toList] with
        title := some "to hit".toList } := by
  have hbody : ((Session.ofSource (⟨[14, 9], 0⟩ : Recording)).parse "[1]c5a".toList).1
      = .leaf "1d20a + 5".toList []
        (Leaf.ofResolved ["1d20a".toList, "+".toList, "5".toList] none
          [⟨"14".toList, "(14 > 9)".toList⟩, .literal "+".toList, .literal "5".toList]) := by
    cbv
  have hlabel : IsLabel " to hit ".toList := ⟨by decide, by decide, by cbv, by cbv⟩
  have hstages : Iteration.stages Setup.usual.limits.maxIterations "[1]c5a".toList
      = ["[1]c5a".toList, "1d20a + 5".toList] := by cbv
  have hkeeps : ∀ x ∈ Iteration.stages Setup.usual.limits.maxIterations "[1]c5a".toList,
      Iteration.KeepsTitle Setup.usual.limits.maxIterations " to hit ".toList x := by
    intro x hx before digits rest hfind
    refine ⟨?_, by decide, by decide⟩
    rw [hstages, List.mem_cons, List.mem_singleton] at hx
    rcases hx with rfl | rfl
    · have hone : Iteration.find? "[1]c5a".toList = some ([], ['1'], "c5a".toList) := by cbv
      rw [hone] at hfind
      cases hfind
      decide
    · have hnone : Iteration.find? "1d20a + 5".toList = none := by cbv
      rw [hnone] at hfind
      cases hfind
  obtain ⟨raw, hparse⟩ :=
    Session.parse_append_title rfl (by decide) (by decide) hlabel (by decide) hkeeps hbody
      (by decide)
  exact ⟨raw, congrArg Prod.fst hparse⟩

/-- **A title that reads like shorthand is written out.** The check in it is rolled by
nobody, and is not the title any more. -/
theorem not_forall_parse_append_title :
    ¬ ∀ (s : Recording) (b t raw : Text) (problems : List Problem) (leaf : Leaf),
        '#' ∉ b → firstSeparator? b = none → '#' ∉ t → firstSeparator? t = none →
        ((Session.ofSource s).parse b).1 = .leaf raw problems leaf →
        ∃ raw', ((Session.ofSource s).parse (b ++ '#' :: t)).1
          = .leaf raw' problems
            { leaf with title := if (trim t).isEmpty then none else some (trim t) } := by
  intro hall
  have hbody : ((Session.ofSource (⟨[17], 0⟩ : Recording)).parse "1d20".toList).1
      = .leaf "1d20".toList []
        (Leaf.ofResolved ["1d20".toList] none [.literal "17".toList]) := by cbv
  have htitle : ((Session.ofSource (⟨[17], 0⟩ : Recording)).parse "1d20#c5".toList).1
      = .leaf "1d20#1d20 + 5".toList []
        (Leaf.ofResolved ["1d20".toList] (some "1d20 + 5".toList) [.literal "17".toList]) := by cbv
  obtain ⟨raw', hlabel⟩ := hall _ _ "c5".toList _ _ _ (by decide) rfl (by decide) rfl hbody
  have heq := htitle.symm.trans hlabel
  have hnames := congrArg Leaf.title (Roll.leaf.inj heq).2.2
  exact absurd hnames (by decide)

end DiceRoll
