/-
A command in front of a text.

A user calls for a roll with a command, the escape and `roll`, and types the text behind it.
The command goes through the whole reading: it is still there when checks and attacks are
written out, when a list is cut and when the operators are spaced out, and only the words
that begin with the escape are dropped in the end. So it is dropped if it is still a word by
then. The escape must be none of the characters that a pass reads or a text is cut at, and
none of the operators, which are words of their own (`not_forall_parse_command`).

Then the command is a front that changes nothing (`IsFront`). It stays in front of a text as
checks and attacks are written out, and in front of the first entry of a list, with the
blanks between the two. The rolls of a text with and without such a front differ in the
texts that they were read from, and in nothing else (`Session.parse_command`).
-/

import DiceRoll.Proofs.Roll.Splitting
import DiceRoll.Proofs.Roll.Title

set_option autoImplicit false

namespace DiceRoll

open Text

/-! ## Rolls without their texts -/

mutual

/-- A roll without the texts that it and its entries were read from. -/
def Roll.withoutRaw : Roll → Roll
  | .leaf _ problems leaf => .leaf [] problems leaf
  | .list _ problems separator rolls => .list [] problems separator (withoutRaws rolls)

/-- Rolls without the texts that they were read from. -/
def withoutRaws : List Roll → List Roll
  | [] => []
  | r :: rs => r.withoutRaw :: withoutRaws rs

end

/-! ## The command -/

/-- An escape of one character that is no letter or digit, no blank and none of the
characters that shorthand, titles and lists are written with. -/
structure IsPlainEscape (e : Char) : Prop where
  alphanumeric : e.isAlphanum = false
  blank : isBlank e = false
  marks : e ∉ [';', ',', '#', '[', ']', ':']

theorem IsPlainEscape.isSetApart {e : Char} (he : IsPlainEscape e)
    (hoperator : e ∉ ['+', '-', '*', '(', ')']) : isSetApart e = false := by
  have hx : e ≠ 'x' := by
    rintro rfl
    exact absurd he.alphanumeric (by decide)
  simp only [List.mem_cons, List.not_mem_nil, or_false, not_or] at hoperator
  simp [DiceRoll.isSetApart, hoperator, hx]

/-- The command that calls for a roll. -/
def command (e : Char) : Text := [e, 'r', 'o', 'l', 'l']

/-- The command and a gap. -/
def IsFront (e : Char) (front : Text) : Prop :=
  ∃ gap, gap ≠ [] ∧ IsGap gap ∧ front = command e ++ gap

theorem Abilities.not_mem_word_of_isBlank {c : Char} (hc : isBlank c = true) : c ∉ Abilities.word :=
  fun hmem => List.any_eq_false.1 (show Abilities.word.any isBlank = false from rfl) c hmem hc

theorem Abilities.contains_gap_append {gap : Text} (hgap : IsGap gap) (s : Text) :
    Text.contains Abilities.word (gap ++ s) = Text.contains Abilities.word s := by
  induction gap with
  | nil => rfl
  | cons c gap ih =>
    have hcut := contains_append_cons (not_mem_word_of_isBlank (hgap c List.mem_cons_self)) []
      (gap ++ s)
    rw [List.nil_append, ih fun d hd => hgap d (List.mem_cons_of_mem c hd)] at hcut
    exact hcut

section Front

variable {e : Char} (he : IsPlainEscape e) {front : Text} (hfront : IsFront e front)

include hfront

theorem IsFront.append_gap {gap : Text} (hgap : IsGap gap) : IsFront e (front ++ gap) := by
  obtain ⟨first, hne, hfirst, rfl⟩ := hfront
  refine ⟨first ++ gap, ?_, hfirst.append hgap, List.append_assoc ..⟩
  exact fun h => hne (List.append_eq_nil_iff.1 h).1

/-- **A pass leaves a front as it is**, and does to the text behind it what it does to the
text alone. -/
theorem IsFront.pass_append {pass : Text → Text} (hpass : SplitsAtSeams pass)
    (hcommand : pass (command e) = command e) (s : Text) : pass (front ++ s) = front ++ pass s := by
  obtain ⟨gap, hne, hgap, rfl⟩ := hfront
  obtain ⟨c, gap, rfl⟩ := List.exists_cons_of_ne_nil hne
  rw [List.append_assoc, List.cons_append,
    hpass.cut (isSeam_of_isBlank (hgap c List.mem_cons_self)), hcommand,
    hpass.gap_append fun d hd => hgap d (List.mem_cons_of_mem c hd), List.append_assoc,
    List.cons_append]

include he

/-- The characters that have a meaning of their own are not in a front. -/
theorem IsFront.not_mem {c : Char} (hc : c ∈ [';', ',', '#', '[', ']', ':']) : c ∉ front := by
  obtain ⟨gap, -, hgap, rfl⟩ := hfront
  intro hmem
  rcases List.mem_append.1 hmem with hmem | hmem
  · rcases List.mem_cons.1 hmem with rfl | hmem
    · exact he.marks hc
    · simp only [List.mem_cons, List.not_mem_nil, or_false] at hc hmem
      rcases hc with rfl | rfl | rfl | rfl | rfl | rfl <;> exact absurd hmem (by decide)
  · have hblank := hgap c hmem
    simp only [List.mem_cons, List.not_mem_nil, or_false] at hc
    rcases hc with rfl | rfl | rfl | rfl | rfl | rfl <;> exact absurd hblank (by decide)

theorem IsFront.check_append (s : Text) : Check.expand (front ++ s) = front ++ Check.expand s := by
  refine hfront.pass_append Check.splitsAtSeams (Check.expand_eq_self fun hmem => ?_) s
  rcases List.mem_cons.1 hmem with rfl | hmem
  · exact absurd he.alphanumeric (by decide)
  · exact absurd hmem (by decide)

theorem IsFront.attack_append (s : Text) :
    Attack.expand (front ++ s) = front ++ Attack.expand s := by
  refine hfront.pass_append Attack.splitsAtSeams (Attack.expand_eq_self fun hmem => ?_) s
  rcases List.mem_cons.1 hmem with rfl | hmem
  · exact he.marks (by decide)
  · exact absurd hmem (by decide)

/-- The abilities are not asked for by a front. -/
theorem IsFront.contains_append (s : Text) :
    Text.contains Abilities.word (front ++ s) = Text.contains Abilities.word s := by
  obtain ⟨gap, hne, hgap, rfl⟩ := hfront
  obtain ⟨c, gap, rfl⟩ := List.exists_cons_of_ne_nil hne
  have hcommand : Text.contains Abilities.word (command e) = false := by
    refine Text.contains_eq_false (c := 'a') (by decide) fun hmem => ?_
    rcases List.mem_cons.1 hmem with rfl | hmem
    · exact absurd he.alphanumeric (by decide)
    · exact absurd hmem (by decide)
  rw [List.append_assoc, List.cons_append,
    contains_append_cons (Abilities.not_mem_word_of_isBlank (hgap c List.mem_cons_self)), hcommand,
    Bool.false_or, Abilities.contains_gap_append fun d hd => hgap d (List.mem_cons_of_mem c hd)]

/-! ## Words and entries behind a front -/

/-- **The command is the first word, and is dropped**, if the escape is no operator. -/
theorem IsFront.wordsOf_append (hescape : isSetApart e = false) (body : Text) :
    wordsOf [e] (front ++ body) = wordsOf [e] body := by
  obtain ⟨gap, hne, hgap, rfl⟩ := hfront
  obtain ⟨c, gap, rfl⟩ := List.exists_cons_of_ne_nil hne
  have hplain : ∀ d ∈ command e ++ c :: gap, isSetApart d = false := by
    intro d hd
    rcases List.mem_append.1 hd with hd | hd
    · rcases List.mem_cons.1 hd with rfl | hd
      · exact hescape
      · exact Bool.eq_false_iff.2
          (List.any_eq_false.1 (show ['r', 'o', 'l', 'l'].any isSetApart = false from rfl) d hd)
    · exact isSetApart_of_isBlank (hgap d hd)
  have hword : words (command e) = [command e] := by
    refine words_of_no_blank (fun d hd => ?_) (List.cons_ne_nil _ _)
    rcases List.mem_cons.1 hd with rfl | hd
    · exact he.blank
    · exact Bool.eq_false_iff.2
        (List.any_eq_false.1 (show ['r', 'o', 'l', 'l'].any isBlank = false from rfl) d hd)
  have hcommand : isCommand [e] (command e) = true := by
    simp [isCommand, command, after?]
  rw [wordsOf, List.flatMap_append, flatMap_spaced_of_not hplain, List.append_assoc,
    List.cons_append, words_append_blank (hgap c List.mem_cons_self), hword,
    words_gap_append fun d hd => hgap d (List.mem_cons_of_mem c hd), List.filter_append, wordsOf]
  simp [hcommand]

theorem IsFront.bodyOf_append (s : Text) : bodyOf (front ++ s) = front ++ bodyOf s :=
  List.takeWhile_append_of_pos (bne_of_not_mem (hfront.not_mem he (by decide)))

theorem IsFront.titleOf_append (s : Text) : titleOf (front ++ s) = titleOf s := by
  have hdrop : (front ++ s).dropWhile (· != '#') = s.dropWhile (· != '#') :=
    List.dropWhile_append_of_pos (bne_of_not_mem (hfront.not_mem he (by decide)))
  rw [titleOf, titleOf, hdrop]

theorem IsFront.firstSeparator?_append (s : Text) :
    firstSeparator? (front ++ s) = firstSeparator? s := by
  have hnone : firstSeparator? front = none := firstSeparator?_eq_none_iff.2
    ⟨hfront.not_mem he (by decide), hfront.not_mem he (by decide)⟩
  rw [firstSeparator?, List.findSome?_append]
  rw [firstSeparator?] at hnone
  rw [hnone]
  rfl

end Front

/-- **The first entry takes the front along**, if there is something in it. -/
theorem IsFront.entries_append {e : Char} (he : IsPlainEscape e) {front : Text}
    (hfront : IsFront e front) {first : Text} (hfirst : ';' ∉ first) (hdie : '1' ∈ first)
    (rest : Text) :
    ∃ front', IsFront e front'
      ∧ Separator.semicolon.entries (first ++ ';' :: rest)
        = trim first :: Separator.semicolon.entries rest
      ∧ Separator.semicolon.entries (front ++ (first ++ ';' :: rest))
        = (front' ++ trim first) :: Separator.semicolon.entries rest := by
  have hentry : ∀ a : Text, ';' ∉ a → trim a ≠ [] → Separator.semicolon.entries (a ++ ';' :: rest)
      = trim a :: Separator.semicolon.entries rest :=
    fun _ ha hne => @entries_append_cons .semicolon _ ha hne rest
  have hcontent : trim first ≠ [] := by
    intro hempty
    exact absurd (trim_eq_nil_iff.1 hempty '1' hdie) (by decide)
  obtain ⟨before, behind, hparts, hbefore, hbehind⟩ := exists_eq_trim first
  have hlonger := hfront.append_gap hbefore
  refine ⟨front ++ before, hlonger, hentry first hfirst hcontent, ?_⟩
  -- A front begins with the escape, so what it has in front of the entry is not trimmed.
  have htrim : trim (front ++ first) = front ++ before ++ trim first := by
    obtain ⟨gap, -, hgap, hgapEq⟩ := hlonger
    have hcommand : IsTrimmed (command e) := by
      refine ⟨fun c hc => ?_, fun c hc => ?_⟩
      · cases hc
        exact he.blank
      · cases hc
        exact (by decide : isBlank 'l' = false)
    have hmiddle := hcommand.append (List.cons_ne_nil _ _) gap (isTrimmed_trim first) hcontent
    have h := trim_eq .nil hmiddle hbehind
    rw [List.nil_append, ← hgapEq] at h
    rw [← h]
    congr 1
    nth_rewrite 1 [hparts]
    simp only [List.append_assoc]
  have hsemicolon : ';' ∉ front ++ first := by
    rw [List.mem_append, not_or]
    exact ⟨hfront.not_mem he (by decide), hfirst⟩
  have hne : trim (front ++ first) ≠ [] := by
    rw [htrim]
    exact fun h => hcontent (List.append_eq_nil_iff.1 h).2
  rw [← List.append_assoc, hentry _ hsemicolon hne, htrim]

/-! ## Writing out behind a front -/

/-- A text that no separator cuts and that asks for no copies. -/
structure IsUncut (x : Text) : Prop where
  semicolon : ';' ∉ x
  comma : ',' ∉ x
  bracket : '[' ∉ x

namespace IsUncut

variable {x : Text} (hx : IsUncut x)

include hx

/-- **A list that was written out** for such a text begins with a die, and its first entry is
such a text again. -/
theorem exists_first (hlist : ';' ∈ Attack.expand (Check.expand x)) :
    ∃ first rest, Attack.expand (Check.expand x) = first ++ ';' :: rest ∧ ';' ∉ first
      ∧ '1' ∈ first ∧ IsUncut (trim first) := by
  have hchecks : ';' ∉ Check.expand x :=
    fun hmem => hx.semicolon (Check.mem_of_mem_expand hmem (by decide))
  obtain ⟨first, rest, hraw, hfirst, hdie⟩ := Attack.exists_die_before hchecks hlist
  have hin : ∀ c ∈ trim first, c ∈ Attack.expand (Check.expand x) := fun c hc =>
    hraw ▸ List.mem_append_left _ (mem_of_mem_trim hc)
  refine ⟨first, rest, hraw, hfirst, hdie, fun hmem => hfirst (mem_of_mem_trim hmem), ?_, ?_⟩
  · exact fun hmem => not_mem_written (by decide) (by decide) hx.comma (hin _ hmem)
  · exact fun hmem => not_mem_written (by decide) (by decide) hx.bracket (hin _ hmem)

end IsUncut

/-- **A front stays in front** of what is written out, unless the text asks for abilities. -/
theorem IsFront.writeOut_append {book : MacroBook} (hbook : book.macros = []) {e : Char}
    (he : IsPlainEscape e) {front x : Text} (hfront : IsFront e front)
    (habilities : Text.contains Abilities.word x = false) (hbracket : '[' ∉ x) (limit : Nat) :
    book.writeOut limit (front ++ x) = (front ++ Attack.expand (Check.expand x), []) := by
  have hbracket : '[' ∉ front ++ x := fun hmem =>
    (List.mem_append.1 hmem).elim (hfront.not_mem he (by decide)) hbracket
  rw [MacroBook.writeOut_of_no_bracket hbook ((hfront.contains_append he x).trans habilities)
    hbracket, hfront.check_append he, hfront.attack_append he]

/-- A text that asks for the abilities stands for their rolls, with a front and without. -/
theorem IsFront.writeOut_of_contains {book : MacroBook} (hbook : book.macros = []) {e : Char}
    (he : IsPlainEscape e) {front x : Text} (hfront : IsFront e front)
    (habilities : Text.contains Abilities.word x = true) (limit : Nat) :
    book.writeOut limit (front ++ x) = book.writeOut limit x := by
  have hfull := (hfront.contains_append he x).trans habilities
  rw [MacroBook.writeOut_of_no_macros hbook, MacroBook.writeOut_of_no_macros hbook,
    Abilities.expand, if_pos hfull, Abilities.expand, if_pos habilities]

/-! ## Rolling behind a front -/

variable {σ : Type} [Source σ]

/-- Two outcomes that differ in the texts that the rolls were read from, and in nothing else. -/
def AgreeButRaw {ρ : Type} (a b : Roll × ρ) : Prop :=
  a.1.withoutRaw = b.1.withoutRaw ∧ a.2 = b.2

section Rolling

variable {u : Setup} {e : Char} (he : IsPlainEscape e) (hescape : u.escape = [e])
  (hplain : isSetApart e = false) {front : Text}

include he hescape hplain

/-- **A leaf behind a front** is the leaf of the text alone. -/
theorem Setup.rollLeaf_front (hfront : IsFront e front) (raw : Text) (problems : List Problem)
    (s : σ) : AgreeButRaw (u.rollLeaf (front ++ raw) problems s) (u.rollLeaf raw problems s) := by
  have hwords : wordsOf u.escape (bodyOf (front ++ raw)) = wordsOf u.escape (bodyOf raw) := by
    rw [hescape, hfront.bodyOf_append he, hfront.wordsOf_append he hplain]
  simp only [Setup.rollLeaf, hwords, hfront.titleOf_append he]
  exact ⟨rfl, rfl⟩

/-- **A text behind a front is rolled like the text alone.** The induction is on how deep
lists may stand: the first entry of a list is again a text behind a front, and the other
entries are the same on either side. -/
theorem Setup.roll_front (hmacros : u.macros.macros = []) (depth : Nat) (hfront : IsFront e front)
    {x : Text} (hx : IsUncut x) (p : Progress σ) :
    AgreeButRaw (u.roll depth (front ++ x) p) (u.roll depth x p) := by
  induction depth using Nat.strongRecOn generalizing front x p with
  | ind depth ih =>
    by_cases hrolls : p.rolls = u.limits.maxRolls
    · rw [Setup.roll, if_pos hrolls, Setup.roll, if_pos hrolls]
      exact ⟨rfl, rfl⟩
    cases habilities : Text.contains Abilities.word x with
    | true =>
      rw [Setup.roll, if_neg hrolls, Setup.roll, if_neg hrolls,
        hfront.writeOut_of_contains hmacros he habilities]
      exact ⟨rfl, rfl⟩
    | false =>
      have hwritten := MacroBook.writeOut_of_no_bracket hmacros habilities hx.bracket
        u.limits.maxIterations
      have hwritten' := hfront.writeOut_append hmacros he habilities hx.bracket
        u.limits.maxIterations
      have hcomma := not_mem_written (c := ',') (by decide) (by decide) hx.comma
      by_cases hlist : ';' ∈ Attack.expand (Check.expand x)
      · have hseparator := firstSeparator?_eq_semicolon hlist hcomma
        have hseparator' := (hfront.firstSeparator?_append he _).trans hseparator
        cases depth with
        | zero =>
          rw [Setup.roll, if_neg hrolls, Setup.roll, if_neg hrolls]
          simp only [hwritten, hwritten', hseparator, hseparator']
          exact ⟨rfl, rfl⟩
        | succ n =>
          obtain ⟨first, rest, hraw, hfirst, hdie, huncut⟩ := hx.exists_first hlist
          obtain ⟨front', hfront', hentries, hentries'⟩ :=
            hfront.entries_append he hfirst hdie rest
          obtain ⟨hroll, hprogress⟩ :=
            ih n (Nat.lt_succ_self n) hfront' huncut ⟨p.rolls + 1, p.source⟩
          rw [u.roll_eq_list n hrolls hwritten hseparator,
            u.roll_eq_list n hrolls hwritten' hseparator', hraw, hentries, hentries']
          simp only [drawEach, hprogress, List.isEmpty_cons, Bool.false_eq_true, if_false]
          exact ⟨by simp only [Roll.withoutRaw, withoutRaws, hroll], rfl⟩
      · have hseparator := firstSeparator?_eq_none_iff.2 ⟨hlist, hcomma⟩
        have hseparator' := (hfront.firstSeparator?_append he _).trans hseparator
        rw [u.roll_eq_rollLeaf depth hrolls hwritten hseparator,
          u.roll_eq_rollLeaf depth hrolls hwritten' hseparator']
        obtain ⟨hroll, hsource⟩ := Setup.rollLeaf_front he hescape hplain hfront
          (Attack.expand (Check.expand x)) [] p.source
        exact ⟨hroll, by rw [hsource]⟩

end Rolling

/-- **The command changes nothing.** With an escape of one character that no pass and no
operator is written with, a text behind the command rolls as the text does alone, from the
same faces: the rolls agree in all but the texts that they were read from. -/
theorem Session.parse_command {u : Setup} {e : Char} (hmacros : u.macros.macros = [])
    (hescape : u.escape = [e]) (he : IsPlainEscape e) (hoperator : e ∉ ['+', '-', '*', '(', ')'])
    {s : Text} (hsemicolon : ';' ∉ s) (hcomma : ',' ∉ s) (hbracket : '[' ∉ s) (source : σ) :
    AgreeButRaw ((⟨u, source⟩ : Session σ).parse (e :: "roll ".toList ++ s))
      ((⟨u, source⟩ : Session σ).parse s) := by
  have hfront : IsFront e (e :: "roll ".toList) :=
    ⟨[' '], List.cons_ne_nil _ _, List.forall_mem_singleton.2 (by decide), rfl⟩
  obtain ⟨hroll, hprogress⟩ := Setup.roll_front (u := u.told) he hescape
    (he.isSetApart hoperator) (u.macros_told.trans hmacros) u.limits.maxDepth hfront
    ⟨hsemicolon, hcomma, hbracket⟩ ⟨0, source⟩
  rw [parse_eq, parse_eq]
  exact ⟨hroll, by rw [hprogress]⟩

/-- An attack behind a command, with an escape that a number could be written with. -/
theorem parse_command_of_attack :
    ((⟨{ Setup.usual with escape := ['.'] }, ⟨[14, 3], 0⟩⟩ : Session Recording).parse
        ".roll 5:6".toList).1.withoutRaw
      = .list [] [] .semicolon
        [.leaf [] [] (Leaf.ofResolved ["1d20".toList, "+".toList, "5".toList] (some "hit".toList)
            [.literal "14".toList, .literal "+".toList, .literal "5".toList]),
          .leaf [] [] (Leaf.ofResolved ["1d6".toList] (some "dmg".toList)
            [.literal "3".toList])] :=
  (Session.parse_command (u := { Setup.usual with escape := ['.'] }) (e := '.') rfl rfl
    ⟨by decide, by decide, by decide⟩ (by decide) (s := "5:6".toList) (by decide) (by decide)
    (by decide) (⟨[14, 3], 0⟩ : Recording)).1.trans (by cbv)

/-- **An operator is no escape.** It is a word of its own, so the command behind it is a word
too, and a problem. -/
theorem not_forall_parse_command :
    ¬ ∀ (e : Char) (s : Text) (source : Recording), IsPlainEscape e →
        ';' ∉ s → ',' ∉ s → '[' ∉ s →
        AgreeButRaw
          ((⟨{ Setup.usual with escape := [e] }, source⟩ : Session Recording).parse
            (e :: "roll ".toList ++ s))
          ((⟨{ Setup.usual with escape := [e] }, source⟩ : Session Recording).parse s) := by
  intro hall
  have hplus := (hall '+' "1d20".toList ⟨[7], 0⟩ ⟨by decide, by decide, by decide⟩ (by decide)
    (by decide) (by decide)).1
  have hcommand : ((⟨{ Setup.usual with escape := ['+'] }, ⟨[7], 0⟩⟩ : Session Recording).parse
      ('+' :: "roll ".toList ++ "1d20".toList)).1.withoutRaw.problems.length = 1 := by cbv
  have halone : ((⟨{ Setup.usual with escape := ['+'] }, ⟨[7], 0⟩⟩ : Session Recording).parse
      "1d20".toList).1.withoutRaw.problems.length = 0 := by cbv
  rw [hplus, halone] at hcommand
  exact absurd hcommand (by decide)

end DiceRoll
