/-
Plain arithmetic as a roll.

A text of numbers, signs, the four operations, parentheses and spaces has a value by
itself, and rolling it goes a longer way: it is written out, cut into words at its
operators, and the words are joined again. Both ways lead to the same value
(`parse_eq_of_finalize`), with one reservation. The usual escape is the slash, and a
word that begins with the escape and goes on is a command, which is left out. So a slash
behind a space or a closing parenthesis needs something other than a number directly
behind it: `8/2`, `8 / 2` and `8/ 2` are four, but `8 /2` is eight.
-/

import DiceRoll.Proofs.Arithmetic.Finalize
import DiceRoll.Proofs.Arithmetic.Neighbours
import DiceRoll.Proofs.Roll.Leaf
import DiceRoll.Proofs.Source.Draws
import Mathlib

set_option autoImplicit false

namespace DiceRoll

open Text DiceRoll.Expr

/-! ## Plain characters -/

/-- The characters of plain arithmetic. -/
def plainChars : List Char := "0123456789.+-*/() ".toList

/-- A text of plain arithmetic. -/
def IsPlain (s : Text) : Prop := ∀ c ∈ s, c ∈ plainChars

instance (s : Text) : Decidable (IsPlain s) :=
  List.decidableBAll (· ∈ plainChars) s

/-- What is checked of the plain characters one by one holds of a plain text. The check
is a Boolean one, as there is a slower way to decide it: over all the characters. -/
theorem IsPlain.forall {s : Text} (hs : IsPlain s) {P : Char → Prop} [DecidablePred P]
    (hP : plainChars.all (fun c => decide (P c)) = true) : ∀ c ∈ s, P c :=
  fun c hc => of_decide_eq_true (List.all_eq_true.1 hP c (hs c hc))

theorem IsPlain.append {a b : Text} (h : IsPlain (a ++ b)) : IsPlain a ∧ IsPlain b :=
  List.forall_mem_append.1 h

theorem IsPlain.tail {c : Char} {s : Text} (h : IsPlain (c :: s)) : IsPlain s :=
  (List.forall_mem_cons.1 h).2

/-- What is checked of the ten digits holds of every digit. -/
theorem forall_isDigit {P : Char → Prop} [DecidablePred P]
    (hP : "0123456789".toList.all (fun c => decide (P c)) = true) {c : Char}
    (hc : c.isDigit = true) : P c := by
  have hbounds : 48 ≤ c.toNat ∧ c.toNat ≤ 57 := by
    simpa [Char.isDigit, UInt32.le_iff_toNat_le] using hc
  have hall : ∀ n, 48 ≤ n → n ≤ 57 → Char.ofNat n ∈ "0123456789".toList := by
    intro n hlow hhigh
    interval_cases n <;> decide
  refine of_decide_eq_true (List.all_eq_true.1 hP c ?_)
  rw [← Char.ofNat_toNat c]
  exact hall _ hbounds.1 hbounds.2

/-- Digits are plain. -/
theorem isPlain_of_digits {s : Text} (hs : ∀ c ∈ s, c.isDigit = true) : IsPlain s :=
  fun c hc => forall_isDigit (P := (· ∈ plainChars)) (by decide) (hs c hc)

theorem IsPlain.holdsNoShorthand {s : Text} (hs : IsPlain s) : HoldsNoShorthand s :=
  hs.forall (by decide)

theorem IsPlain.firstSeparator? {s : Text} (hs : IsPlain s) : firstSeparator? s = none :=
  List.findSome?_eq_none_iff.2 (hs.forall (by decide))

theorem IsPlain.bodyOf {s : Text} (hs : IsPlain s) : bodyOf s = s :=
  List.takeWhile_eq_self_iff.2 (hs.forall (by decide))

theorem IsPlain.plain {s : Text} (hs : IsPlain s) : Markup.plain s = s :=
  Markup.plain_of_not_mem (.inl fun h => absurd (hs _ h) (by decide))

/-! ## The words of plain arithmetic -/

theorem mem_of_mem_digits {w : Text} {c : Char} (hc : c ∈ (DiceToken.digits w).2) : c ∈ w := by
  simp only [DiceToken.digits] at hc
  split at hc
  · exact hc
  · exact (List.dropWhile_sublist _).subset hc

/-- A plain text is no dice. -/
theorem IsPlain.ofText?_eq {w : Text} (hw : IsPlain w) : DiceToken.ofText? w = .error .notDice := by
  have hkind : ∀ c ∈ w, DiceToken.kind? c = none := hw.forall (by decide)
  have hparts : DiceToken.parts? w = none := by
    have hrest : ∀ c ∈ (DiceToken.digits w).2, DiceToken.kind? c = none :=
      fun c hc => hkind c (mem_of_mem_digits hc)
    rw [DiceToken.parts?]
    generalize DiceToken.digits w = cut at hrest
    obtain ⟨count, rest⟩ := cut
    cases rest with
    | nil => rfl
    | cons letter rest => simp only [hrest letter List.mem_cons_self]
  rw [DiceToken.ofText?, hparts]

/-- A point without a digit is an error token. -/
theorem error_mem_of_points {w : Text} (hne : w ≠ []) (hw : ∀ c ∈ w, c = '.') :
    .error ∈ Token.ofText w := by
  obtain ⟨c, w, rfl⟩ := List.exists_cons_of_ne_nil hne
  obtain rfl := hw c List.mem_cons_self
  have hscan : (Token.scan '.' w).1 = .error := by
    cases w with
    | nil => rfl
    | cons d w =>
      obtain rfl := hw d (by simp)
      rfl
  rw [Token.ofText_cons, if_neg (by decide), hscan]
  exact List.mem_cons_self

/-- A plain word with a digit or an operator in it is arithmetic. -/
theorem IsPlain.ofWord?_of_any {w : Text} (hw : IsPlain w) (hmark : w.any Part.isMathMark = true) :
    Part.ofWord? w = .ok .math := by
  rw [Part.ofWord?, hw.ofText?_eq]
  simp only [hmark, if_true]

/-- A word of plain arithmetic is arithmetic, unless it holds an error token. -/
theorem IsPlain.ofWord?_eq {w : Text} (hw : IsPlain w) (hne : w ≠ [])
    (hblank : ∀ c ∈ w, isBlank c = false) (herror : .error ∉ Token.ofText w) :
    Part.ofWord? w = .ok .math := by
  have hmark : w.any Part.isMathMark = true := by
    by_contra hnone
    refine herror (error_mem_of_points hne fun c hc => ?_)
    have hc' : Part.isMathMark c = false := by
      simpa using fun h => hnone (List.any_eq_true.2 ⟨c, hc, h⟩)
    have hpoint : ∀ c ∈ w, Part.isMathMark c = false → isBlank c = false → c = '.' :=
      hw.forall (by decide)
    exact hpoint c hc hc' (hblank c hc)
  exact hw.ofWord?_of_any hmark

/-- The words of plain arithmetic are plain. -/
theorem IsPlain.of_mem_words_spaced {s w : Text} (hs : IsPlain s)
    (hw : w ∈ words (s.flatMap spaced)) : IsPlain w := by
  intro c hc
  obtain ⟨d, hd, hcd⟩ := List.mem_flatMap.1 (mem_of_mem_words hw hc)
  have hall : ∀ d ∈ s, IsPlain (spaced d) := hs.forall (by decide)
  exact hall d hd c hcd

/-- The tokens of a plain text are the tokens of its words. -/
theorem IsPlain.flatMap_ofText_words {s : Text} (hs : IsPlain s) :
    (words s).flatMap Token.ofText = Token.ofText s := by
  induction s using cutInduction isBlank with
  | whole s hblank =>
    by_cases hne : s = []
    · subst hne
      simp
    · rw [words_of_no_blank hblank hne, List.flatMap_singleton]
  | cut a c s ha hc ih =>
    have hspace : c = ' ' := by
      have honly : ∀ d ∈ a ++ c :: s, isBlank d = true → d = ' ' := hs.forall (by decide)
      exact honly c (by simp) hc
    rw [words_append_blank hc, List.flatMap_append, ih hs.append.2.tail, hspace,
      Token.ofText_append_space]
    by_cases hne : a = []
    · subst hne
      simp
    · rw [words_of_no_blank ha hne, List.flatMap_singleton]

/-- **Spacing out operators changes no token.** -/
theorem IsPlain.flatMap_ofText_words_spaced {s : Text} (hs : IsPlain s) :
    (words (s.flatMap spaced)).flatMap Token.ofText = Token.ofText s := by
  induction s using cutInduction isSetApart with
  | whole s hapart => rw [flatMap_spaced_of_not hapart, hs.flatMap_ofText_words]
  | cut a c s ha hc ih =>
    have hsymbol : ∃ t, Token.symbol? c = some t ∧ operatorOf c = c := by
      have hall : ∀ d ∈ a ++ c :: s, isSetApart d = true →
          (Token.symbol? d).isSome = true ∧ operatorOf d = d := hs.forall (by decide)
      obtain ⟨hsome, hop⟩ := hall c (by simp) hc
      obtain ⟨t, ht⟩ := Option.isSome_iff_exists.1 hsome
      exact ⟨t, ht, hop⟩
    obtain ⟨t, ht, hop⟩ := hsymbol
    rw [words_spaced_cut ha hc, List.flatMap_append, List.flatMap_cons, ih hs.append.2.tail,
      hs.append.1.flatMap_ofText_words, hop, Token.ofText_symbol ht, Token.ofText_nil,
      Token.ofText_append_symbol ht]
    rfl

/-! ## Commands

A word stands in the text as it is written, behind a blank, behind an operator, or at the
very front. -/

theorem eq_or_mem_getLast? {a front : Text} {c d : Char}
    (hd : d ∈ (a ++ c :: front).getLast?) : d = c ∨ d ∈ front.getLast? := by
  rw [List.getLast?_append_of_ne_nil _ (List.cons_ne_nil c front)] at hd
  cases front with
  | nil =>
    cases hd
    exact .inl rfl
  | cons e front => exact .inr (by rwa [List.getLast?_cons_cons] at hd)

theorem exists_of_mem_words {s w : Text} (hw : w ∈ words s) :
    ∃ a b, s = a ++ w ++ b ∧ ∀ c ∈ a.getLast?, isBlank c = true := by
  induction s using cutInduction isBlank with
  | whole s hblank =>
    by_cases hne : s = []
    · subst hne
      simp at hw
    · rw [words_of_no_blank hblank hne, List.mem_singleton] at hw
      exact ⟨[], [], by simp [hw], by simp⟩
  | cut a c s ha hc ih =>
    rw [words_append_blank hc, List.mem_append] at hw
    rcases hw with hw | hw
    · by_cases hne : a = []
      · subst hne
        simp at hw
      · rw [words_of_no_blank ha hne, List.mem_singleton] at hw
        exact ⟨[], c :: s, by simp [hw], by simp⟩
    · obtain ⟨front, back, rfl, hfront⟩ := ih hw
      refine ⟨a ++ c :: front, back, by simp, fun d hd => ?_⟩
      rcases eq_or_mem_getLast? hd with rfl | hd
      · exact hc
      · exact hfront d hd

theorem exists_of_mem_words_spaced {s w : Text} (hw : w ∈ words (s.flatMap spaced))
    (hlength : 1 < w.length) :
    ∃ a b, s = a ++ w ++ b ∧ ∀ c ∈ a.getLast?, isBlank c = true ∨ isSetApart c = true := by
  induction s using cutInduction isSetApart with
  | whole s hapart =>
    rw [flatMap_spaced_of_not hapart] at hw
    obtain ⟨a, b, hs, ha⟩ := exists_of_mem_words hw
    exact ⟨a, b, hs, fun c hc => .inl (ha c hc)⟩
  | cut a c s ha hc ih =>
    rw [words_spaced_cut ha hc, List.mem_append, List.mem_cons] at hw
    rcases hw with hw | rfl | hw
    · obtain ⟨front, back, rfl, hfront⟩ := exists_of_mem_words hw
      exact ⟨front, back ++ c :: s, by simp, fun d hd => .inl (hfront d hd)⟩
    · simp at hlength
    · obtain ⟨front, back, rfl, hfront⟩ := ih hw
      refine ⟨a ++ c :: front, back, by simp, fun d hd => ?_⟩
      rcases eq_or_mem_getLast? hd with rfl | hd
      · exact .inr hc
      · exact hfront d hd

/-- Whether a slash behind a space or a closing parenthesis has a number directly behind
it. The roll would take it for a command. -/
def holdsCommand (s : Text) : Bool :=
  s.tails.any fun
    | c :: '/' :: d :: _ => (c == ' ' || c == ')') && Markup.isNumberChar d
    | _ => false

theorem isNumberChar_of_holdsCommand {s : Text} (hs : holdsCommand s = false)
    {a b : Text} {c d : Char} (h : s = a ++ c :: '/' :: d :: b) (hc : c = ' ' ∨ c = ')') :
    Markup.isNumberChar d = false := by
  have hall := List.any_eq_false.1 hs (c :: '/' :: d :: b) ((List.mem_tails _ _).2 ⟨a, h.symm⟩)
  rcases hc with rfl | rfl <;> simpa using hall

/-- Arithmetic does not begin with a slash. -/
theorem not_joined_of_slash (b : Text) : ¬ Token.Joined (Token.ofText ('/' :: b)) := by
  intro h
  rw [Token.ofText_symbol (t := .slash) rfl] at h
  exact absurd (h.begins _ rfl) (by decide)

/-- A symbol in front of a slash ends an operand. -/
theorem ends_of_slash {a b : Text} {c : Char} {t : Token} (hc : Token.symbol? c = some t)
    (h : Token.Joined (Token.ofText (a ++ c :: '/' :: b))) : t.ends = true := by
  rw [Token.ofText_append_symbol hc, Token.ofText_symbol (t := .slash) rfl, ← List.singleton_append,
    ← List.append_assoc] at h
  obtain ⟨front, u, hfront, hu⟩ := h.ends_of_not_begins rfl
  obtain ⟨-, hlast⟩ := List.append_inj' hfront rfl
  rw [(List.cons.inj hlast).1]
  exact hu

/-- A character behind which a word begins, in front of a slash. -/
theorem IsPlain.eq_of_slash {a b : Text} {c : Char} (hs : IsPlain (a ++ c :: '/' :: b))
    (hcut : isBlank c = true ∨ isSetApart c = true)
    (h : Token.Joined (Token.ofText (a ++ c :: '/' :: b))) : c = ' ' ∨ c = ')' := by
  have hall : ∀ d ∈ a ++ c :: '/' :: b, isBlank d = true ∨ isSetApart d = true →
      d = ' ' ∨ d = ')' ∨ (Token.symbol? d).any (fun t => !t.ends) = true :=
    hs.forall (by decide)
  rcases hall c (by simp) hcut with hc | hc | hc
  · exact .inl hc
  · exact .inr hc
  · cases ht : Token.symbol? c with
    | none =>
      rw [ht] at hc
      cases hc
    | some t =>
      rw [ht, Option.any_some, ends_of_slash ht h] at hc
      cases hc

/-- **No word of plain arithmetic is a command**, unless a slash stands in front of a
number and behind something else than one. -/
theorem IsPlain.isCommand_eq {s : Text} (hs : IsPlain s) (hjoined : Token.Joined (Token.ofText s))
    (hcommand : holdsCommand s = false) {w : Text} (hw : w ∈ words (s.flatMap spaced)) :
    isCommand usualEscape w = false := by
  by_contra hnot
  simp only [isCommand, Bool.and_eq_true, Bool.not_eq_false, bne_iff_ne, ne_eq,
    Option.isSome_iff_exists] at hnot
  obtain ⟨⟨-, rest, hrest⟩, hne⟩ := hnot
  have hslash : w = '/' :: rest := after?_eq_some_iff.1 hrest
  cases rest with
  | nil => exact hne hslash
  | cons d rest =>
    obtain ⟨a, b, hab, ha⟩ := exists_of_mem_words_spaced hw (by simp [hslash])
    have hd : d ∈ w := by simp [hslash]
    have hblank := (mem_words hw).2 d hd
    have hapart : isSetApart d = false := by
      by_contra hop
      have := (eq_singleton_of_mem_words_spaced hw hd (by simpa using hop)).1
      simp [hslash] at this
    rw [hslash, List.append_assoc, List.cons_append, List.cons_append] at hab
    rw [hab] at hjoined
    -- The slash is not at the front of the text, so it has a neighbour there.
    rcases List.eq_nil_or_concat a with rfl | ⟨front, c, rfl⟩
    · exact not_joined_of_slash _ hjoined
    rw [List.concat_eq_append, List.append_assoc, List.singleton_append] at hab hjoined
    have hc : c = ' ' ∨ c = ')' := (hab ▸ hs).eq_of_slash (ha c (by simp)) hjoined
    have hnumber := isNumberChar_of_holdsCommand hcommand hab hc
    have hagain : ∀ d ∈ s, isBlank d = false → isSetApart d = false →
        Markup.isNumberChar d = false → d = '/' := hs.forall (by decide)
    obtain rfl := hagain d (by simp [hab]) hblank hapart hnumber
    -- What is left is a second slash, and the first one ends no operand.
    have hends := ends_of_slash (a := front ++ [c]) (c := '/') (b := rest ++ b) (t := .slash) rfl
      (by simpa using hjoined)
    cases hends

/-! ## The value of plain arithmetic -/

/-- The words of plain arithmetic are all of it. -/
theorem IsPlain.wordsOf_eq {s : Text} (hs : IsPlain s) (hjoined : Token.Joined (Token.ofText s))
    (hcommand : holdsCommand s = false) :
    wordsOf usualEscape s = words (s.flatMap spaced) := by
  rw [wordsOf, List.filter_eq_self]
  intro w hw
  rw [hs.isCommand_eq hjoined hcommand hw]
  rfl

section Value

variable {σ : Type} [Source σ]

/-- Arithmetic is resolved without a draw. -/
theorem drawEach_resolve_math {limits : Limits} {words : List Text}
    (hwords : ∀ word ∈ words, Part.ofWord? word = .ok .math) (s : σ) :
    drawEach (resolve limits) words s = (words.map fun word => .ok (Resolved.literal word), s) := by
  induction words with
  | nil => rfl
  | cons word words ih =>
    obtain ⟨hword, hwords⟩ := List.forall_mem_cons.1 hwords
    have hresolve : resolve limits word s = (.ok (Resolved.literal word), s) := by
      rw [resolve, hword]
    simp only [drawEach, hresolve, ih hwords, List.map_cons]

theorem filterMap_toOption_literal (words : List Text) :
    (words.map fun word => (.ok (Resolved.literal word) : Except Problem Resolved)).filterMap
      Except.toOption = words.map Resolved.literal := by
  rw [List.filterMap_map, ← List.filterMap_eq_map]
  rfl

/-- A leaf of arithmetic is the arithmetic, its words joined by blanks. -/
theorem rollLeaf_of_math {u : Setup} {raw : Text} (hne : wordsOf u.escape (bodyOf raw) ≠ [])
    (hwords : ∀ word ∈ wordsOf u.escape (bodyOf raw), Part.ofWord? word = .ok .math)
    (problems : List Problem) (s : σ) :
    (u.rollLeaf raw problems s).1
      = .leaf raw problems (Leaf.ofResolved (wordsOf u.escape (bodyOf raw)) (titleOf raw)
          ((wordsOf u.escape (bodyOf raw)).map Resolved.literal)) := by
  have hblank : (wordsOf u.escape (bodyOf raw)).isEmpty = false := by simpa using hne
  have hresolved := filterMap_toOption_literal (wordsOf u.escape (bodyOf raw))
  simp [Setup.rollLeaf, drawEach_resolve_math hwords, hblank, hresolved]

/-- **Plain arithmetic is rolled to its value.** A text of numbers, signs, operations,
parentheses and spaces that has a value has the same value as a roll under the usual
escape and without macros, however its operators are spaced, if none of its slashes
makes a command. Nothing is drawn for it and there are no problems. -/
theorem parse_eq_of_finalize {u : Setup} (hescape : u.escape = usualEscape)
    (hmacros : u.macros.macros = []) (hrolls : 1 ≤ u.limits.maxRolls) (s : σ) {input : Text}
    (hplain : IsPlain input) (hcommand : holdsCommand input = false) {v : Number}
    (hv : Arithmetic.finalize input = .ok v) :
    ∃ leaf, ((⟨u, s⟩ : Session σ).parse input).1 = .leaf input [] leaf ∧ leaf.result = .ok v := by
  obtain ⟨e, he, hnesting, heval⟩ := Arithmetic.derives_of_finalize_ok hv
  rw [hplain.plain] at he
  -- The roll reads the tokens of the words, and they are the tokens of the text.
  have htokens := hplain.flatMap_ofText_words_spaced
  have hwords : ∀ word ∈ words (input.flatMap spaced), Part.ofWord? word = .ok .math := by
    intro word hword
    obtain ⟨hne, hblank⟩ := mem_words hword
    refine (hplain.of_mem_words_spaced hword).ofWord?_eq hne hblank fun herror => ?_
    exact he.error_not_mem (htokens ▸ List.mem_flatMap.2 ⟨word, hword, herror⟩)
  have hne : words (input.flatMap spaced) ≠ [] := by
    intro hnil
    rw [hnil] at htokens
    exact he.joined.ne_nil htokens.symm
  have hwordsOf : wordsOf u.told.escape (bodyOf input) = words (input.flatMap spaced) := by
    rw [hplain.bodyOf, ← hplain.wordsOf_eq he.joined hcommand, ← hescape]
    rfl
  refine ⟨Leaf.ofResolved (words (input.flatMap spaced)) (titleOf input)
    ((words (input.flatMap spaced)).map Resolved.literal), ?_, ?_⟩
  · rw [Session.parse_of_holdsNoShorthand hmacros hrolls hplain.holdsNoShorthand
      hplain.firstSeparator?]
    rw [← hwordsOf] at hne hwords ⊢
    exact rollLeaf_of_math hne hwords [] s
  · have hspelled : Token.ofText (Markup.plain ([' '].intercalate
        (((words (input.flatMap spaced)).map Resolved.literal).map Resolved.expression)))
        = Token.ofText input := by
      rw [ofText_plain_expressions, List.flatMap_map, List.flatMap_map, ← htokens]
      refine List.flatMap_congr fun word hword => ?_
      rw [Resolved.literal, (hplain.of_mem_words_spaced hword).plain]
    rw [← hspelled] at he
    exact (Arithmetic.finalize_of_derives he hnesting).trans (by rw [heval]; rfl)

end Value

/-- Slashes with and without spaces around them. -/
theorem parse_eq_of_finalize_spaced :
    ∃ leaf, ((Session.ofSource (⟨[], 0⟩ : Recording)).parse "2*(8/ 4 -5)".toList).1
        = .leaf "2*(8/ 4 -5)".toList [] leaf
      ∧ leaf.result = .ok (.int (-6)) :=
  parse_eq_of_finalize rfl rfl (by decide) _ (by decide) (by decide) (by cbv)

/-- **A command inside arithmetic is left out.** Eight divided by two is four, and it is
rolled to eight if a space stands in front of the slash and none behind it. -/
theorem not_forall_parse_eq :
    ¬ ∀ (s : Recording) (input : Text) (v : Number), IsPlain input →
        Arithmetic.finalize input = .ok v →
        ∃ leaf, ((Session.ofSource s).parse input).1 = .leaf input [] leaf
          ∧ leaf.result = .ok v := by
  intro hall
  have hvalue : Arithmetic.finalize "8 /2".toList = .ok (.int 4) := by cbv
  have hparse : ((Session.ofSource (⟨[], 0⟩ : Recording)).parse "8 /2".toList).1
      = .leaf "8 /2".toList []
          (Leaf.ofResolved ["8".toList] none [Resolved.literal "8".toList]) :=
    Session.parse_of_holdsNoShorthand rfl (by decide) (by decide) rfl _
  have height : Arithmetic.finalize "8".toList = .ok (.int 8) := by cbv
  obtain ⟨leaf, hleaf, hresult⟩ := hall _ _ _ (by decide) hvalue
  rw [hparse] at hleaf
  cases hleaf
  have heq := height.symm.trans hresult
  cases heq

end DiceRoll
