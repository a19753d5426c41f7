/-
The rolls of an attack.

The two modifiers of an attack are numerals of any length. Each of them is read as an integer
of sixty-four bits, written out again behind a die and read once more as arithmetic, and
every length ends in one of three ways (`Attack.Yields`). A modifier in the range is added to
the face of its die, exactly. Where the sum leaves the range, or the numeral that is written
out does, as that of the least integer does without its sign, the roll has no value. And a
modifier beyond the range is read as zero and is not written out at all, so that the roll is
the bare face and nothing tells that something was left out
(`not_forall_parse_attack`).
-/

import DiceRoll.Proofs.Dice.RoundTrip
import DiceRoll.Proofs.Dice.Summands
import DiceRoll.Proofs.Roll.Entries
import DiceRoll.Proofs.Roll.Plain
import DiceRoll.Proofs.Shorthand.Attack

set_option autoImplicit false

namespace DiceRoll

open Text DiceRoll.Expr

namespace Attack

/-! ## The words of a roll -/

/-- The words of what is added to a roll: a sign and a numeral, or nothing. -/
def bonusWords (k : Int) : List Text :=
  if 0 < k then [['+'], Text.ofNat k.natAbs]
  else if k < 0 then [['-'], Text.ofNat k.natAbs]
  else []

/-- What is added is nothing, or a sign and a numeral with blanks in front of them. -/
theorem bonus_cases (k : Int) :
    (k = 0 ∧ bonusWords k = [] ∧ bonusText k = [])
      ∨ ∃ sign, (0 < k ∧ sign = '+' ∨ k < 0 ∧ sign = '-')
        ∧ bonusWords k = [[sign], Text.ofNat k.natAbs]
        ∧ bonusText k = ' ' :: sign :: ' ' :: Text.ofNat k.natAbs := by
  rcases Int.lt_trichotomy k 0 with hk | rfl | hk
  · refine .inr ⟨'-', .inr ⟨hk, rfl⟩, ?_, ?_⟩
    · rw [bonusWords, if_neg (by omega), if_pos hk]
    · rw [bonusText, if_neg (by omega), if_pos hk]
      rfl
  · exact .inl ⟨rfl, rfl, rfl⟩
  · have hint : Text.ofInt k = Text.ofNat k.natAbs := by
      obtain ⟨n, rfl⟩ := Int.eq_ofNat_of_zero_le (Int.le_of_lt hk)
      rfl
    refine .inr ⟨'+', .inl ⟨hk, rfl⟩, ?_, ?_⟩
    · rw [bonusWords, if_pos hk]
    · rw [bonusText, if_pos hk, hint]
      rfl

theorem isPlain_ofNat (n : Nat) : IsPlain (Text.ofNat n) :=
  isPlain_of_digits fun _ => Token.isDigit_of_mem_ofNat

theorem isPlain_bonusText (k : Int) : IsPlain (bonusText k) := by
  rcases bonus_cases k with ⟨-, -, h⟩ | ⟨sign, hsign, -, h⟩
  · rw [h]
    exact List.forall_mem_nil _
  · rw [h]
    have hsign : sign ∈ plainChars := by
      rcases hsign with ⟨-, rfl⟩ | ⟨-, rfl⟩ <;> decide
    have hspace : ' ' ∈ plainChars := by decide
    simpa [IsPlain, hspace, hsign] using isPlain_ofNat k.natAbs

theorem isSetApart_of_isDigit {c : Char} (hc : c.isDigit = true) : isSetApart c = false :=
  forall_isDigit (P := (isSetApart · = false)) (by decide) hc

theorem forall_mem_dieText {P : Char → Prop} (hd : P 'd')
    (hdigits : ∀ c : Char, c.isDigit = true → P c) (faces : Nat) : ∀ c ∈ dieText faces, P c := by
  rw [dieText, List.forall_mem_cons, List.forall_mem_cons]
  exact ⟨hdigits '1' rfl, hd, fun c hc => hdigits c (Token.isDigit_of_mem_ofNat hc)⟩

/-- **The words of a roll** are the die, the sign and the numeral. -/
theorem words_dieText_append (faces : Nat) (k : Int) :
    words ((dieText faces ++ bonusText k ++ [' ']).flatMap spaced)
      = dieText faces :: bonusWords k := by
  have happart := forall_mem_dieText (P := (isSetApart · = false)) rfl
    (fun _ => isSetApart_of_isDigit) faces
  have hdie : words (dieText faces) = [dieText faces] :=
    words_of_no_blank (forall_mem_dieText (by decide) (fun _ => isBlank_of_isDigit) faces)
      (List.cons_ne_nil _ _)
  have hgap : IsGap [' '] := List.forall_mem_singleton.2 isBlank_space
  have hspace : ∀ c ∈ dieText faces ++ [' '], isSetApart c = false :=
    List.forall_mem_append.2 ⟨happart, List.forall_mem_singleton.2 rfl⟩
  rcases bonus_cases k with ⟨-, hwords, htext⟩ | ⟨sign, hsign, hwords, htext⟩
  · rw [hwords, htext, List.append_nil, flatMap_spaced_of_not hspace, words_append_gap hgap, hdie]
  · have hcut : isSetApart sign = true ∧ operatorOf sign = sign := by
      rcases hsign with ⟨-, rfl⟩ | ⟨-, rfl⟩ <;> exact ⟨rfl, rfl⟩
    have hdigits : ∀ c ∈ Text.ofNat k.natAbs, c.isDigit = true :=
      fun _ => Token.isDigit_of_mem_ofNat
    have hnumeral : ∀ c ∈ ' ' :: (Text.ofNat k.natAbs ++ [' ']), isSetApart c = false :=
      List.forall_mem_cons.2 ⟨rfl, List.forall_mem_append.2
        ⟨fun c hc => isSetApart_of_isDigit (hdigits c hc), List.forall_mem_singleton.2 rfl⟩⟩
    have hbehind : words (' ' :: (Text.ofNat k.natAbs ++ [' '])) = [Text.ofNat k.natAbs] := by
      rw [← List.singleton_append, words_gap_append hgap, words_append_gap hgap, words_of_no_blank
        (fun c hc => isBlank_of_isDigit (hdigits c hc)) (Token.ofNat_ne_nil _)]
    have hparts : dieText faces ++ bonusText k ++ [' ']
        = (dieText faces ++ [' ']) ++ sign :: ' ' :: (Text.ofNat k.natAbs ++ [' ']) := by
      rw [htext]
      simp only [List.append_assoc, List.cons_append, List.nil_append]
    rw [hparts, words_spaced_cut hspace hcut.1, words_append_gap hgap, hdie,
      flatMap_spaced_of_not hnumeral, hbehind, hcut.2, hwords]
    rfl

/-- A word that does not begin like the escape is no command, and neither is a character. -/
theorem isCommand_eq_false {escape w : Text} (hescape : ∀ c ∈ escape.head?, c.isDigit = false)
    (hw : (∃ c rest, w = c :: rest ∧ c.isDigit = true) ∨ ∃ c, w = [c]) :
    isCommand escape w = false := by
  by_contra h
  simp only [isCommand, Bool.not_eq_false, Bool.and_eq_true, Bool.not_eq_true',
    List.isEmpty_eq_false_iff, bne_iff_ne, isSome_after?_iff] at h
  obtain ⟨⟨hne, hbegins⟩, hother⟩ := h
  obtain ⟨d, escape, rfl⟩ := List.exists_cons_of_ne_nil hne
  rcases hw with ⟨c, rest, rfl, hc⟩ | ⟨c, rfl⟩
  · have hd := hescape d rfl
    rw [(List.cons_prefix_cons.1 hbegins).1, hc] at hd
    cases hd
  · obtain ⟨rfl, hnil⟩ := List.cons_prefix_cons.1 hbegins
    rw [List.prefix_nil.1 hnil] at hother
    exact hother rfl

/-- No word of a roll is a command, if the escape does not begin with a digit. -/
theorem wordsOf_dieText_append {escape : Text} (hescape : ∀ c ∈ escape.head?, c.isDigit = false)
    (faces : Nat) (k : Int) :
    wordsOf escape (dieText faces ++ bonusText k ++ [' ']) = dieText faces :: bonusWords k := by
  rw [wordsOf, words_dieText_append, List.filter_eq_self]
  have hnumeral : isCommand escape (Text.ofNat k.natAbs) = false := by
    obtain ⟨c, rest, hcons⟩ := List.exists_cons_of_ne_nil (Token.ofNat_ne_nil k.natAbs)
    have hc : c.isDigit = true := Token.isDigit_of_mem_ofNat (hcons ▸ List.mem_cons_self)
    exact isCommand_eq_false hescape (.inl ⟨c, rest, hcons, hc⟩)
  intro w hw
  rw [Bool.not_eq_true']
  rcases List.mem_cons.1 hw with rfl | hw
  · exact isCommand_eq_false hescape (.inl ⟨'1', _, rfl, rfl⟩)
  · rcases bonus_cases k with ⟨-, hwords, -⟩ | ⟨sign, -, hwords, -⟩
    · rw [hwords] at hw
      cases hw
    · rw [hwords, List.mem_pair] at hw
      rcases hw with rfl | rfl
      · exact isCommand_eq_false hescape (.inr ⟨sign, rfl⟩)
      · exact hnumeral

/-! ## What a roll comes to -/

/-- What a die and a modifier come to: their sum, if the modifier is in the range and both
the sum and the numeral that is written out are; no value, if one of those two is not; and
the face alone, if the modifier is beyond the range. -/
def Yields (result : Except MathError Number) (face : Nat) (v : Int) : Prop :=
  if Number.inRange v then
    if Number.minInt < v ∧ face + v ≤ Number.maxInt then result = .ok (.int (face + v))
    else result.isOk = false
  else result = .ok (.int face)

/-- The text that is evaluated for a face and what is added to it. -/
def sumText (die : Text) (k : Int) : Text := [' '].intercalate (die :: bonusWords k)

/-- A sum of two operands, evaluated. -/
theorem finalize_sum {s : Text} {face n : Nat} {t : Token} {op : Operation}
    (ht : Strength.sum.join? t = some op)
    (hs : Token.ofText (Markup.plain s) = [.integer face, t, .integer n]) :
    Arithmetic.finalize s = answerOf (Markup.plain s) (op.apply (.int face) (.int n)) := by
  have hfirst : Derives (.chain .sum) [.integer face] (.literal (.int face)) :=
    .first (.first (.atom (.integer face)))
  have hsecond : Derives Strength.sum.operands [.integer n] (.literal (.int n)) :=
    .first (.atom (.integer n))
  have hderives : Derives .conditional (Token.ofText (Markup.plain s))
      (.binary (.literal (.int face)) op (.literal (.int n))) := by
    rw [hs]
    exact .plain (.first (.join ht hfirst hsecond))
  exact Arithmetic.finalize_of_derives hderives (Nat.zero_le _)

/-- A text with a numeral that is too large has no value. -/
theorem not_isOk_finalize {s : Text} (hs : .error ∈ Token.ofText (Markup.plain s)) :
    (Arithmetic.finalize s).isOk = false := by
  cases h : Arithmetic.finalize s with
  | error _ => rfl
  | ok x =>
    obtain ⟨e, he, -⟩ := Arithmetic.derives_of_finalize_ok h
    exact absurd hs he.error_not_mem

section Sum

variable {die : Text} {face : Nat} (hbound : (face : Int) ≤ Number.maxInt)
  (hdie : Markup.plain die = Text.ofInt face)

include hbound hdie

/-- The tokens of a roll are the face, the sign and the numeral. -/
theorem ofText_sumText (k : Int) : Token.ofText (Markup.plain (sumText die k))
    = .integer face :: (bonusWords k).flatMap Token.ofText := by
  have hplain : ∀ word ∈ bonusWords k, Markup.plain word = word := by
    intro word hword
    refine IsPlain.plain ?_
    rcases bonus_cases k with ⟨-, hwords, -⟩ | ⟨sign, hsign, hwords, -⟩
    · rw [hwords] at hword
      cases hword
    · rw [hwords, List.mem_pair] at hword
      rcases hword with rfl | rfl
      · rcases hsign with ⟨-, rfl⟩ | ⟨-, rfl⟩ <;> decide
      · exact isPlain_ofNat _
  have hwords : ((bonusWords k).flatMap fun word => Token.ofText (Markup.plain word))
      = (bonusWords k).flatMap Token.ofText :=
    List.flatMap_congr fun word hword => by rw [hplain word hword]
  rw [sumText, ofText_plain_expressions, List.flatMap_cons, hdie, hwords]
  exact congrArg (· ++ _) (Token.ofText_ofNat hbound)

/-- **The face and what is added to it are added up**, if the numeral can be read. -/
theorem finalize_sumText {k : Int} (hne : k ≠ 0) (hk : (k.natAbs : Int) ≤ Number.maxInt) :
    Arithmetic.finalize (sumText die k)
      = answerOf (Markup.plain (sumText die k)) (Number.ofInt? (face + k)) := by
  have htokens := ofText_sumText hbound hdie k
  rcases bonus_cases k with ⟨hzero, -, -⟩ | ⟨sign, ⟨hpos, rfl⟩ | ⟨hneg, rfl⟩, hwords, -⟩
  · exact absurd hzero hne
  · have hplus : Token.ofText ['+'] = [.plus] := by
      rw [Token.ofText_symbol (t := .plus) rfl, Token.ofText_nil]
    have hsum : (face : Int) + k.natAbs = face + k := by omega
    rw [hwords, List.flatMap_cons, List.flatMap_singleton, hplus, Token.ofText_ofNat hk] at htokens
    rw [finalize_sum (t := .plus) rfl htokens, ← hsum]
    rfl
  · have hminus : Token.ofText ['-'] = [.minus] := by
      rw [Token.ofText_symbol (t := .minus) rfl, Token.ofText_nil]
    have hdifference : (face : Int) - k.natAbs = face + k := by omega
    rw [hwords, List.flatMap_cons, List.flatMap_singleton, hminus, Token.ofText_ofNat hk] at htokens
    rw [finalize_sum (t := .minus) rfl htokens, ← hdifference]
    rfl

/-- A numeral beyond the range is no arithmetic. -/
theorem not_isOk_finalize_sumText {k : Int} (hk : Number.maxInt < k.natAbs) :
    (Arithmetic.finalize (sumText die k)).isOk = false := by
  have herror : Token.ofText (Text.ofNat k.natAbs) = [.error] := by
    rw [Token.ofText_digits (fun _ => Token.isDigit_of_mem_ofNat) (Token.ofNat_ne_nil _),
      Token.ofDigits, value_ofNat, if_neg (Int.not_le.2 hk)]
  have hword : Text.ofNat k.natAbs ∈ bonusWords k := by
    rcases bonus_cases k with ⟨rfl, -, -⟩ | ⟨sign, -, hwords, -⟩
    · exact absurd hk (by decide)
    · rw [hwords]
      exact List.mem_pair.2 (.inr rfl)
  refine not_isOk_finalize ?_
  rw [ofText_sumText hbound hdie]
  refine List.mem_cons_of_mem _ (List.mem_flatMap.2 ⟨_, hword, ?_⟩)
  rw [herror]
  exact List.mem_singleton_self _

/-- **A bonus in the range is added to the face**, or the roll has no value. -/
theorem yields_bonus (hface : 1 ≤ face) {k : Int} (hk : Number.inRange k = true) :
    Yields (Arithmetic.finalize (sumText die k)) face k := by
  have hrange := hk
  have hin : Number.inRange (face + k) = true ↔ face + k ≤ Number.maxInt := by
    simp only [Number.inRange, Bool.and_eq_true, decide_eq_true_eq] at hrange ⊢
    omega
  simp only [Number.inRange, Bool.and_eq_true, decide_eq_true_eq] at hrange
  have hmin : Number.minInt = -Number.maxInt - 1 := rfl
  rw [Yields, if_pos hk]
  by_cases hzero : k = 0
  · -- Nothing is added, and the face is all there is.
    subst hzero
    have htokens : Token.ofText (Markup.plain (sumText die 0)) = [.integer face] :=
      ofText_sumText hbound hdie 0
    have hderives : Derives .conditional (Token.ofText (Markup.plain (sumText die 0)))
        (.literal (.int face)) := htokens ▸ (Derives.atom (.integer face)).conditional
    rw [if_pos ⟨by decide, by omega⟩, Arithmetic.finalize_of_derives hderives (Nat.zero_le _),
      Int.add_zero]
    rfl
  by_cases hwritten : (k.natAbs : Int) ≤ Number.maxInt
  · rw [finalize_sumText hbound hdie hzero hwritten, Number.ofInt?]
    by_cases hfits : face + k ≤ Number.maxInt
    · rw [if_pos ⟨by omega, hfits⟩, if_pos (hin.2 hfits)]
      rfl
    · rw [if_neg fun h => hfits h.2, if_neg (mt hin.1 hfits)]
      rfl
  · -- Only the least integer is beyond the range without its sign.
    rw [if_neg fun h => hwritten (by omega)]
    exact not_isOk_finalize_sumText hbound hdie (Int.not_le.1 hwritten)

/-- **What a modifier comes to**, whatever its length. -/
theorem yields_modifier (hface : 1 ≤ face) {m : Text} (hm : IsModifier m) :
    Yields (Arithmetic.finalize (sumText die (bonus m))) face (valueOf m) := by
  rw [bonus_eq hm]
  by_cases hrange : Number.inRange (valueOf m) = true
  · rw [if_pos hrange]
    exact yields_bonus hbound hdie hface hrange
  · have hzero := yields_bonus hbound hdie hface (k := 0) rfl
    rw [Yields, if_pos (show Number.inRange 0 = true from rfl),
      if_pos ⟨by decide, by omega⟩, Int.add_zero] at hzero
    rw [if_neg hrange, Yields, if_neg hrange]
    exact hzero

end Sum

/-! ## Rolling the parts of an attack -/

/-- A title that is nothing else: it has no blanks around it, no shorthand and no separator. -/
structure IsTitle (title : Text) : Prop where
  trimmed : trim title = title
  ne_nil : title ≠ []
  shorthand : HoldsNoShorthand title
  separators : firstSeparator? title = none

theorem isTitle_hit : IsTitle "hit".toList := ⟨by cbv, by decide, by decide, rfl⟩

theorem isTitle_dmg : IsTitle "dmg".toList := ⟨by cbv, by decide, by decide, rfl⟩

theorem IsTitle.isTrimmed {title : Text} (htitle : IsTitle title) : IsTrimmed title := by
  have h := isTrimmed_trim title
  rwa [htitle.trimmed] at h

/-- What holds of plain arithmetic, of the letter of a die, of the mark and of a title holds of
a roll. -/
theorem forall_mem_rollText {P : Char → Prop} [DecidablePred P]
    (hplain : ('d' :: '#' :: plainChars).all (fun c => decide (P c)) = true) {title : Text}
    (htitle : ∀ c ∈ title, P c) (faces : Nat) (k : Int) : ∀ c ∈ rollText faces k title, P c := by
  simp only [List.all_cons, Bool.and_eq_true, decide_eq_true_eq] at hplain
  obtain ⟨hd, hmark, hplain⟩ := hplain
  have hdigits : ∀ c : Char, c.isDigit = true → P c := fun c hc =>
    (isPlain_of_digits (List.forall_mem_singleton.2 hc)).forall hplain c List.mem_cons_self
  have hspace : P ' ' := IsPlain.forall (s := [' ']) (by decide) hplain ' ' List.mem_cons_self
  simp only [rollText, List.forall_mem_append, List.forall_mem_cons]
  exact ⟨⟨forall_mem_dieText hd hdigits faces, (isPlain_bonusText k).forall hplain⟩, hspace, hmark,
    hspace, htitle⟩

/-- **A roll of an attack is settled.** -/
theorem isSettled_rollText (faces : Nat) (k : Int) {title : Text} (htitle : IsTitle title) :
    IsSettled (rollText faces k title) := by
  have hshorthand : HoldsNoShorthand (rollText faces k title) :=
    forall_mem_rollText (by decide) htitle.shorthand faces k
  have hseparators : ∀ c ∈ rollText faces k title, isSeparator c = false :=
    forall_mem_rollText (by decide) (isSeparator_of_firstSeparator? htitle.separators) faces k
  have hwritten := hshorthand.isWrittenOut
  have hdie : IsTrimmed ['1'] := by
    constructor <;> rintro _ ⟨⟩ <;> rfl
  have htrimmed : IsTrimmed (rollText faces k title) := by
    have hends := hdie.append (List.cons_ne_nil _ _)
      ('d' :: Text.ofNat faces ++ bonusText k ++ [' ', '#', ' ']) htitle.isTrimmed htitle.ne_nil
    simpa only [rollText, dieText, List.append_assoc, List.cons_append, List.nil_append] using hends
  exact {
    trimmed := htrimmed.trim_eq
    ne_nil := List.cons_ne_nil _ _
    separators := firstSeparator?_eq_none_iff.2
      ⟨fun h => absurd (hseparators ';' h) (by decide),
        fun h => absurd (hseparators ',' h) (by decide)⟩
    bracket := hwritten.bracket
    abilities := hwritten.abilities
    checks := Check.expand_eq_self hwritten.mark
    attacks := Attack.expand_eq_self hwritten.colon }

/-- The entries of the list are the two rolls. -/
theorem entries_rollText {first second : Text} (hfirst : IsSettled first)
    (hsecond : IsSettled second) :
    Separator.semicolon.entries (first ++ ';' :: ' ' :: second) = [first, second] := by
  have hcut {x : Text} (hx : IsSettled x) : ';' ∉ x :=
    (firstSeparator?_eq_none_iff.1 hx.separators).1
  have hbehind : ';' ∉ ' ' :: second := fun h => (List.mem_cons.1 h).elim (by decide) (hcut hsecond)
  have htrim : trim (' ' :: second) = second :=
    (trim_cons_blank isBlank_space second).trans hsecond.trimmed
  have hlast : Separator.semicolon.entries (' ' :: second) = [trim (' ' :: second)] :=
    entries_of_not_mem hbehind (htrim.symm ▸ hsecond.ne_nil)
  have hall : Separator.semicolon.entries (first ++ ';' :: ' ' :: second)
      = trim first :: Separator.semicolon.entries (' ' :: second) :=
    entries_append_cons (hcut hfirst) (hfirst.trimmed.symm ▸ hfirst.ne_nil) _
  rw [hall, hlast, htrim, hfirst.trimmed]

section Rolls

variable {σ : Type} [Source σ]

/-- **A die is one face.** -/
theorem resolve_dieText {limits : Limits} (hdice : 1 ≤ limits.maxDice) {faces : Nat}
    (hfaces : IsCount faces) (hsides : faces ≤ limits.maxSides) (s : σ) :
    resolve limits (dieText faces) s
      = (.ok (Resolved.sum [Die.ofFace (.numbered faces) (Source.draw faces s).1]),
        (Source.draw faces s).2) := by
  have hread : DiceToken.ofText? (dieText faces)
      = .ok (.pool ⟨1, .numbered faces, .plain⟩) := by
    refine Notation.ofText?_eq_ok_iff.2 ⟨Text.ofNat 1, 'd', Text.ofNat faces, [], ?_, ?_⟩
    · rw [List.append_nil]
      rfl
    · exact .die (Notation.writesCount_ofNat isCount_one 1) rfl
        (.numbered (Notation.isNumeral_ofNat faces) hfaces) .plain
  have hwithin : PoolSpec.isWithin ⟨1, .numbered faces, .plain⟩ limits = true := by
    simpa [PoolSpec.isWithin] using ⟨hdice, hsides⟩
  have hword : Part.ofWord? (dieText faces) = .ok (.dice (.pool ⟨1, .numbered faces, .plain⟩)) := by
    rw [Part.ofWord?, hread]
  simp only [resolve, hword, DiceToken.roll, hwithin, if_true]
  rfl

/-- A die, shown without its emphasis, is the number on its face. -/
theorem plain_sumText_die (faces face : Nat) :
    Markup.plain (Resolved.sumText [Die.ofFace (.numbered faces) face]) = Text.ofInt face := by
  have hvalues : [Die.ofFace (.numbered faces) face].map Die.value = [(face : Int)] := rfl
  rw [plain_sumText_of_values hvalues]
  simp [Markup.group]

/-- What is added is arithmetic. -/
theorem ofWord?_bonusWords (k : Int) : ∀ word ∈ bonusWords k, Part.ofWord? word = .ok .math := by
  rcases bonus_cases k with ⟨-, hwords, -⟩ | ⟨sign, hsign, hwords, -⟩
  · rw [hwords]
    exact List.forall_mem_nil _
  · have hnumeral : (Text.ofNat k.natAbs).any Part.isMathMark = true := by
      obtain ⟨c, hc⟩ := List.exists_mem_of_ne_nil _ (Token.ofNat_ne_nil k.natAbs)
      refine List.any_eq_true.2 ⟨c, hc, ?_⟩
      rw [Part.isMathMark, Token.isDigit_of_mem_ofNat hc, Bool.true_or]
    rw [hwords, List.forall_mem_cons, List.forall_mem_singleton]
    refine ⟨?_, (isPlain_ofNat _).ofWord?_of_any hnumeral⟩
    rcases hsign with ⟨-, rfl⟩ | ⟨-, rfl⟩
    · exact IsPlain.ofWord?_of_any (by decide) rfl
    · exact IsPlain.ofWord?_of_any (by decide) rfl

/-- The leaf of a roll that lies on a face. -/
def leafOf (faces : Nat) (k : Int) (title : Text) (face : Nat) : Leaf :=
  Leaf.ofResolved (dieText faces :: bonusWords k) (some title)
    (Resolved.sum [Die.ofFace (.numbered faces) face] :: (bonusWords k).map Resolved.literal)

/-- **A roll of an attack draws one face**, and has no problems. -/
theorem rollLeaf_rollText {u : Setup} (hescape : ∀ c ∈ u.escape.head?, c.isDigit = false)
    (hdice : 1 ≤ u.limits.maxDice) {faces : Nat} (hfaces : IsCount faces)
    (hsides : faces ≤ u.limits.maxSides) (k : Int) {title : Text} (htitle : IsTitle title) (s : σ) :
    u.rollLeaf (rollText faces k title) [] s
      = (.leaf (rollText faces k title) [] (leafOf faces k title (Source.draw faces s).1),
        (Source.draw faces s).2) := by
  have hmark : '#' ∉ dieText faces ++ bonusText k ++ [' '] := by
    simp only [List.mem_append, not_or]
    refine ⟨⟨fun h => ?_, fun h => ?_⟩, by decide⟩
    · have hnone := forall_mem_dieText (P := (· ≠ '#')) (by decide)
        (fun _ => forall_isDigit (P := (· ≠ '#')) (by decide)) faces
      exact hnone '#' h rfl
    · exact absurd (isPlain_bonusText k '#' h) (by decide)
  have hsplit : rollText faces k title
      = (dieText faces ++ bonusText k ++ [' ']) ++ '#' :: ' ' :: title := by
    simp only [rollText, List.append_assoc, List.cons_append, List.nil_append]
  have hname : trim (' ' :: title) = title :=
    (trim_cons_blank isBlank_space title).trans htitle.trimmed
  have htitled : titleOf (rollText faces k title) = some title := by
    rw [hsplit, titleOf_append hmark, hname, if_neg (by simpa using htitle.ne_nil)]
  have hwords : wordsOf u.escape (bodyOf (rollText faces k title))
      = dieText faces :: bonusWords k := by
    rw [hsplit, bodyOf_append hmark, wordsOf_dieText_append hescape]
  have hdrawn : drawEach (resolve u.limits) (dieText faces :: bonusWords k) s
      = (.ok (Resolved.sum [Die.ofFace (.numbered faces) (Source.draw faces s).1])
          :: (bonusWords k).map fun word => .ok (Resolved.literal word),
        (Source.draw faces s).2) := by
    simp only [drawEach, resolve_dieText hdice hfaces hsides, drawEach_resolve_math
      (ofWord?_bonusWords k)]
  have hresolved := filterMap_toOption_literal (bonusWords k)
  simp [Setup.rollLeaf, hwords, htitled, hdrawn, hresolved, leafOf, Except.toOption]

/-- **What is added to the face of a leaf** is the modifier, or it has no value, or the modifier
is beyond the range. -/
theorem yields_leafOf {faces face : Nat} (hface : 1 ≤ face) (hbound : face ≤ maxCount) {m : Text}
    (hm : IsModifier m) (title : Text) :
    Yields (leafOf faces (bonus m) title face).result face (valueOf m) := by
  have hnumeral : (face : Int) ≤ Number.maxInt :=
    (Int.ofNat_le.2 hbound).trans (by decide)
  have hexpressions : ((bonusWords (bonus m)).map Resolved.literal).map Resolved.expression
      = bonusWords (bonus m) := by
    rw [List.map_map]
    exact List.map_id _
  have hyields := yields_modifier hnumeral (plain_sumText_die faces face) hface hm
  rw [leafOf, Leaf.ofResolved, List.map_cons, hexpressions]
  exact hyields

/-- **An attack comes to its two rolls**, the one to hit first. -/
theorem parse_withModifiers {u : Setup} (hmacros : u.macros.macros = [])
    (hescape : ∀ c ∈ u.escape.head?, c.isDigit = false) (hdepth : 1 ≤ u.limits.maxDepth)
    (hrolls : 2 < u.limits.maxRolls) (hdice : 1 ≤ u.limits.maxDice)
    (htwenty : 20 ≤ u.limits.maxSides) {m n : Text} (hm : IsModifier m) (hn : IsModifier n)
    {faces : Nat} (hfaces : IsCount faces) (hsides : faces ≤ u.limits.maxSides) (s : σ) :
    (⟨u, s⟩ : Session σ).parse (withModifiers m faces n)
      = (.list (rollText 20 (bonus m) "hit".toList
            ++ ';' :: ' ' :: rollText faces (bonus n) "dmg".toList) [] .semicolon
          [.leaf (rollText 20 (bonus m) "hit".toList) []
              (leafOf 20 (bonus m) "hit".toList (Source.draw 20 s).1),
            .leaf (rollText faces (bonus n) "dmg".toList) []
              (leafOf faces (bonus n) "dmg".toList (Source.draw faces (Source.draw 20 s).2).1)],
        ⟨u.told, (Source.draw faces (Source.draw 20 s).2).2⟩) := by
  have hhit := isSettled_rollText 20 (bonus m) isTitle_hit
  have hdamage := isSettled_rollText faces (bonus n) isTitle_dmg
  have hbook : u.told.macros.macros = [] := u.macros_told.trans hmacros
  have hseparator : firstSeparator? (rollText 20 (bonus m) "hit".toList
      ++ ';' :: ' ' :: rollText faces (bonus n) "dmg".toList) = some .semicolon := by
    refine firstSeparator?_eq_semicolon (List.mem_append_right _ List.mem_cons_self) fun h => ?_
    simp only [List.mem_append, List.mem_cons] at h
    rcases h with h | h | h | h
    · exact (firstSeparator?_eq_none_iff.1 hhit.separators).2 h
    · cases h
    · cases h
    · exact (firstSeparator?_eq_none_iff.1 hdamage.separators).2 h
  have hsettled : ∀ x ∈ [rollText 20 (bonus m) "hit".toList, rollText faces (bonus n) "dmg".toList],
      IsSettled x := List.forall_mem_cons.2 ⟨hhit, List.forall_mem_singleton.2 hdamage⟩
  have hone : 1 ≤ u.limits.maxRolls := Nat.one_le_of_lt hrolls
  rw [Session.parse_of_isSettled hmacros hdepth (List.cons_ne_nil _ _)
    (Nat.lt_of_le_of_lt (Nat.le_refl 2) hrolls) hsettled
    (writeOut_withModifiers hbook hm hn faces u.limits.maxIterations) hseparator
    (entries_rollText hhit hdamage)]
  simp only [drawEach, hhit.alone_eq hmacros hone, hdamage.alone_eq hmacros hone,
    rollLeaf_rollText (u := u.told) hescape hdice Notation.isCount_twenty htwenty _ isTitle_hit,
    rollLeaf_rollText (u := u.told) hescape hdice hfaces hsides _ isTitle_dmg]

end Rolls

end Attack

/-! ## Attacks -/

variable {σ : Type} [Source σ]

/-- **The two rolls of an attack**, whatever the length of its modifiers: each lies on one face,
under its title and without problems, and comes to the sum of the face and its modifier, or has
no value, or is the face alone if the modifier is beyond the range. -/
theorem Session.parse_attack (hσ : Source.InRange σ) {u : Setup} (hlimits : u.limits = Limits.usual)
    (hmacros : u.macros.macros = []) (hescape : ∀ c ∈ u.escape.head?, c.isDigit = false)
    {m n : Text} (hm : Attack.IsModifier m) (hn : Attack.IsModifier n) {faces : Nat}
    (hlow : 1 ≤ faces) (hhigh : faces ≤ 1000) (s : σ) :
    ∃ raw rawHit rawDamage hit damage,
      (⟨u, s⟩ : Session σ).parse (Attack.withModifiers m faces n)
          = (.list raw [] .semicolon [.leaf rawHit [] hit, .leaf rawDamage [] damage],
            ⟨u.told, (Source.draw faces (Source.draw 20 s).2).2⟩)
        ∧ hit.title = some "hit".toList ∧ damage.title = some "dmg".toList
        ∧ Attack.Yields hit.result (Source.draw 20 s).1 (Attack.valueOf m)
        ∧ Attack.Yields damage.result (Source.draw faces (Source.draw 20 s).2).1
            (Attack.valueOf n) := by
  have hcount : IsCount faces := ⟨hlow, hhigh.trans (by decide)⟩
  have hfirst := hσ 20 s (by decide)
  have hsecond := hσ faces (Source.draw 20 s).2 hlow
  refine ⟨_, _, _, _, _, Attack.parse_withModifiers hmacros hescape ?_ ?_ ?_ ?_ hm hn hcount ?_ s,
    rfl, rfl, Attack.yields_leafOf hfirst.1 (hfirst.2.trans (by decide)) hm _,
    Attack.yields_leafOf hsecond.1 (hsecond.2.trans hcount.2) hn _⟩
  all_goals rw [hlimits]
  · decide
  · decide
  · decide
  · decide
  · exact hhigh

/-- A modifier in the range and one beyond it. -/
theorem parse_attack_of_recorded :
    ∃ raw rawHit rawDamage hit damage,
      (Session.ofSource (⟨[14, 3], 0⟩ : Recording)).parse
          (Attack.withModifiers "-2".toList 6 "99999999999999999999".toList)
        = (.list raw [] .semicolon [.leaf rawHit [] hit, .leaf rawDamage [] damage],
          ⟨Setup.usual.told, ⟨[14, 3], 2⟩⟩)
        ∧ hit.title = some "hit".toList ∧ damage.title = some "dmg".toList
        ∧ hit.result = .ok (.int 12) ∧ damage.result = .ok (.int 3) := by
  have hm : Attack.IsModifier "-2".toList :=
    ⟨['-'], ['2'], rfl, .inr rfl, by decide, List.all_eq_true.1 rfl⟩
  have hn : Attack.IsModifier "99999999999999999999".toList :=
    ⟨[], "99999999999999999999".toList, rfl, .inl rfl, by decide, List.all_eq_true.1 rfl⟩
  have hescape : ∀ c ∈ Setup.usual.escape.head?, c.isDigit = false := by
    rintro _ ⟨⟩
    rfl
  obtain ⟨raw, rawHit, rawDamage, hit, damage, hparse, htitle, htitle', hhit, hdamage⟩ :=
    Session.parse_attack Recording.inRange (u := Setup.usual) rfl rfl hescape hm hn
      (show 1 ≤ 6 by decide) (by decide) ⟨[14, 3], 0⟩
  refine ⟨raw, rawHit, rawDamage, hit, damage, hparse, htitle, htitle', ?_, ?_⟩
  · rwa [Attack.Yields, if_pos (by decide), if_pos (by decide)] at hhit
  · rwa [Attack.Yields, if_neg (by decide)] at hdamage

/-- **A modifier beyond the range is dropped without a word.** The roll is a success, and lacks
the modifier. -/
theorem not_forall_parse_attack :
    ¬ ∀ (s : Recording) (m n : Text) (faces : Nat), Attack.IsModifier m → Attack.IsModifier n →
        1 ≤ faces → faces ≤ 1000 →
        ∃ raw rawHit rawDamage problems problems' hit damage,
          ((Session.ofSource s).parse (Attack.withModifiers m faces n)).1
              = .list raw [] .semicolon
                  [.leaf rawHit problems hit, .leaf rawDamage problems' damage]
            ∧ hit.title = some "hit".toList ∧ damage.title = some "dmg".toList
            ∧ (hit.result = .ok (.int ((Source.draw 20 s).1 + Attack.valueOf m))
              ∨ (Roll.leaf rawHit problems hit).isSuccess = false)
            ∧ (damage.result
                = .ok (.int ((Source.draw faces (Source.draw 20 s).2).1 + Attack.valueOf n))
              ∨ (Roll.leaf rawDamage problems' damage).isSuccess = false) := by
  intro hall
  have hm : Attack.IsModifier "9223372036854775808".toList :=
    ⟨[], "9223372036854775808".toList, rfl, .inl rfl, by decide, List.all_eq_true.1 rfl⟩
  have hn : Attack.IsModifier "3".toList := ⟨[], ['3'], rfl, .inl rfl, by decide,
    List.all_eq_true.1 rfl⟩
  have hescape : ∀ c ∈ Setup.usual.escape.head?, c.isDigit = false := by
    rintro _ ⟨⟩
    rfl
  obtain ⟨raw, rawHit, rawDamage, problems, problems', hit, damage, hlist, -, -, hresult, -⟩ :=
    hall ⟨[7, 4], 0⟩ _ _ 6 hm hn (by decide) (by decide)
  have hparse := Attack.parse_withModifiers (u := Setup.usual) rfl hescape (by decide) (by decide)
    (by decide) (by decide) hm hn (show IsCount 6 from ⟨by decide, by decide⟩) (by decide)
    (⟨[7, 4], 0⟩ : Recording)
  have hbare : (Attack.leafOf 20 (Attack.bonus "9223372036854775808".toList) "hit".toList
      (Source.draw 20 (⟨[7, 4], 0⟩ : Recording)).1).result = .ok (.int 7) := by cbv
  have hrolls := congrArg Prod.fst hparse
  rw [Session.ofSource, hrolls] at hlist
  obtain ⟨-, -, -, hrolls⟩ := Roll.list.inj hlist
  obtain ⟨-, rfl, rfl⟩ := Roll.leaf.inj (List.cons.inj hrolls).1
  rcases hresult with hsum | hfailed
  · have heq := hbare.symm.trans hsum
    cases heq
  · rw [Roll.isSuccess, hbare] at hfailed
    cases hfailed

end DiceRoll
