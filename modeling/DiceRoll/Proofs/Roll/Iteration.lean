/-
An iteration makes its rolls.

The copies of an iteration are joined into one text, and from there on they are a list like
any other: the text is written out once more, cut at its first separator, and each entry is
written out again. Whether the list has as many rolls as the iteration asks for depends on
what the body brings with it. A body in which no pass finds anything, and no separator, gives
copies on which writing out has nothing left to do (`IsBody.isSettled_copy`), and then the
list is cut where it was put together and each copy is rolled as it would be alone.

A comma is the character that is easily forgotten. The separator that comes first cuts the
whole text, and in the joined copies that is a comma of the first copy, before any semicolon
(`not_forall_parse_iteration`).
-/

import DiceRoll.Proofs.Roll.Entries
import DiceRoll.Proofs.Shorthand.Bracket

set_option autoImplicit false

namespace DiceRoll

open Text

/-! ## The copies -/

namespace Iteration

/-- The copy of a body with its number. -/
def copy (body : Text) (i : Nat) : Text := Text.replace placeholder (Text.ofNat i) body

theorem copies_eq (n : Nat) (body : Text) :
    copies n body = [';'].intercalate ((List.range n).map fun i => copy body (i + 1)) := rfl

theorem writesBetweenDigits_number (i : Nat) :
    WritesBetweenDigits Char.isDigit
      fun s => (after? placeholder s).map fun rest => (Text.ofNat i, rest) := by
  have hread {s out rest : Text}
      (h : ((after? placeholder s).map fun rest => (Text.ofNat i, rest)) = some (out, rest)) :
      out = Text.ofNat i ∧ s = placeholder ++ rest := by
    obtain ⟨behind, hbehind, heq⟩ := Option.map_eq_some_iff.1 h
    obtain ⟨rfl, rfl⟩ := Prod.mk.inj heq
    exact ⟨rfl, after?_eq_some_iff.1 hbehind⟩
  have hdigit : ∀ c ∈ Text.ofNat i, c.isDigit = true := fun _ => Token.isDigit_of_mem_ofNat
  have hne := Token.ofNat_ne_nil i
  refine ⟨fun s out rest h => ⟨placeholder, (hread h).2.symm⟩, fun {s out rest} h => ?_,
    fun {s out rest} h => ?_⟩
  · rw [(hread h).1]
    exact hdigit
  · rw [(hread h).1]
    exact ⟨⟨_, _, (List.cons_head_tail hne).symm, hdigit _ (List.head_mem hne)⟩,
      _, _, (List.dropLast_append_getLast hne).symm, hdigit _ (List.getLast_mem hne)⟩

/-- A character that is no digit is not brought in by the number of a copy. -/
theorem not_mem_copy {body : Text} {c : Char} (hc : c ∉ body) (hdigit : c.isDigit = false)
    (i : Nat) : c ∉ copy (trim body) i := by
  intro hmem
  rcases mem_of_mem_replace hmem with hmem | hmem
  · exact hc (mem_of_mem_trim hmem)
  · rw [Token.isDigit_of_mem_ofNat hmem] at hdigit
    cases hdigit

theorem not_mem_copies {body : Text} {c : Char} (hc : c ∉ body) (hdigit : c.isDigit = false)
    (hsemicolon : c ≠ ';') (n : Nat) : c ∉ copies n (trim body) := by
  rw [copies_eq]
  intro hmem
  rcases mem_of_mem_intercalate hmem with heq | ⟨x, hx, hmem⟩
  · exact hsemicolon heq
  · obtain ⟨i, -, rfl⟩ := List.mem_map.1 hx
    exact not_mem_copy hc hdigit (i + 1) hmem

/-- A bracket with a number, in front of a single line, is the iteration that is found. -/
theorem find?_bracket {digits rest : Text} (hne : digits ≠ [])
    (hdigits : ∀ c ∈ digits, c.isDigit = true) (hline : '\n' ∉ rest) :
    find? ('[' :: (digits ++ ']' :: rest)) = some ([], digits, rest) :=
  find?_of_bracket? (bracket?_eq_some_iff.2 ⟨rfl, hne, hdigits⟩) hline

/-- **As many copies as asked for**, of all that stands behind the bracket. -/
theorem expand_bracket {limit n : Nat} (hn : n ≤ limit) {body : Text} (hlist : ';' ∉ body)
    (hline : '\n' ∉ body) :
    expand limit ('[' :: (Text.ofNat n ++ ']' :: body)) = (copies n (trim body), []) := by
  have hrun := bne_of_not_mem hlist
  rw [expand, find?_bracket (Token.ofNat_ne_nil n) (fun _ => Token.isDigit_of_mem_ofNat) hline]
  simp only [value_ofNat, Nat.min_eq_left hn, List.takeWhile_eq_self_iff.2 hrun,
    List.dropWhile_eq_nil_iff.2 hrun, List.nil_append, List.append_nil, Nat.not_lt.2 hn, if_false]

end Iteration

/-- A text that can be copied: it is not blank, stands on one line, and holds no separator,
no bracket, no abilities, and neither of the characters that stand for something longer. -/
structure IsBody (body : Text) : Prop where
  not_blank : trim body ≠ []
  line : '\n' ∉ body
  semicolon : ';' ∉ body
  comma : ',' ∉ body
  bracket : '[' ∉ body
  mark : 'c' ∉ body
  colon : ':' ∉ body
  abilities : Text.contains Abilities.word body = false

namespace IsBody

variable {body : Text} (hbody : IsBody body)

include hbody

/-- The number of a copy puts no word together. -/
theorem contains_copy (i : Nat) :
    Text.contains Abilities.word (Iteration.copy (trim body) i) = false := by
  have hletters : ∀ c ∈ Abilities.word, c.isDigit = false := by
    intro c hc
    simpa using List.any_eq_false.1 (show Abilities.word.any Char.isDigit = false from rfl) c hc
  have htrim : trim body <:+: body := by
    obtain ⟨front, back, hsplit, -⟩ := exists_eq_trim body
    exact ⟨front, back, hsplit.symm⟩
  rw [contains_eq_false_iff]
  intro hword
  exact contains_eq_false_iff.1 hbody.abilities
    (((Iteration.writesBetweenDigits_number i).infix_of_infix_substitute hletters
      ⟨'a', by decide, by decide⟩ hword).trans htrim)

/-- **On a copy writing out has nothing left to do.** -/
theorem isSettled_copy (i : Nat) : IsSettled (Iteration.copy (trim body) i) where
  trimmed := ((Iteration.writesBetweenDigits_number i).isTrimmed_substitute
    (isTrimmed_trim body)).trim_eq
  ne_nil := (Iteration.writesBetweenDigits_number i).substitute_ne_nil hbody.not_blank
  separators := firstSeparator?_eq_none_iff.2
    ⟨Iteration.not_mem_copy hbody.semicolon rfl i, Iteration.not_mem_copy hbody.comma rfl i⟩
  bracket := Iteration.not_mem_copy hbody.bracket rfl i
  abilities := hbody.contains_copy i
  checks := Check.expand_eq_self (Iteration.not_mem_copy hbody.mark rfl i)
  attacks := Attack.expand_eq_self (Iteration.not_mem_copy hbody.colon rfl i)

/-- An iteration is written out as its copies. -/
theorem writeOut_bracket {book : MacroBook} (hbook : book.macros = []) {limit n : Nat}
    (hn : n ≤ limit) :
    book.writeOut limit ('[' :: (Text.ofNat n ++ ']' :: body))
      = (Iteration.copies n (trim body), []) := by
  have habilities :
      Text.contains Abilities.word ('[' :: (Text.ofNat n ++ ']' :: body)) = false := by
    have hnumber : Text.contains Abilities.word (Text.ofNat n) = false :=
      contains_eq_false (c := 'a') (by decide) fun hmem =>
        absurd (Token.isDigit_of_mem_ofNat hmem) (by decide)
    have hbracket : '[' ∉ Abilities.word := by decide
    have hopen := contains_append_cons hbracket [] (Text.ofNat n ++ ']' :: body)
    rw [List.nil_append] at hopen
    rw [hopen, contains_append_cons (by decide), hnumber, hbody.abilities]
    rfl
  rw [MacroBook.writeOut_of_no_macros hbook]
  simp only [Abilities.expand_eq_self habilities,
    Iteration.expand_bracket hn hbody.semicolon hbody.line,
    Check.expand_eq_self (Iteration.not_mem_copies hbody.mark rfl (by decide) n),
    Attack.expand_eq_self (Iteration.not_mem_copies hbody.colon rfl (by decide) n),
    Iteration.expand_eq_self (Iteration.not_mem_copies hbody.bracket rfl (by decide) n),
    List.append_nil]

end IsBody

/-! ## The list -/

section Rolls

variable {σ : Type} [Source σ]

/-- **What is written out as settled texts is rolled text by text.** -/
theorem Session.parse_eq_list {u : Setup} (hmacros : u.macros.macros = [])
    (hdepth : 1 ≤ u.limits.maxDepth) {input : Text} {xs : List Text} (hlist : 2 ≤ xs.length)
    (hrolls : xs.length < u.limits.maxRolls) (hxs : ∀ x ∈ xs, IsSettled x)
    (hwritten : u.told.macros.writeOut u.limits.maxIterations input
      = ([';'].intercalate xs, [])) (s : σ) :
    (⟨u, s⟩ : Session σ).parse input
      = (.list ([';'].intercalate xs) [] .semicolon (drawEach (alone u) xs s).1,
        ⟨u.told, (drawEach (alone u) xs s).2⟩) := by
  have hne : xs ≠ [] := by
    rintro rfl
    exact absurd hlist (by decide)
  have hcomma : ',' ∉ [';'].intercalate xs := by
    intro hmem
    rcases mem_of_mem_intercalate hmem with heq | ⟨x, hx, hmem⟩
    · exact absurd heq (by decide)
    · exact (firstSeparator?_eq_none_iff.1 (hxs x hx).separators).2 hmem
  exact parse_of_isSettled hmacros hdepth hne hrolls hxs hwritten
    (firstSeparator?_eq_semicolon (mem_intercalate hlist) hcomma)
    (IsSettled.entries_intercalate hxs hne) s

/-- **An iteration makes as many rolls as it asks for.** The input is a list of them, and each
is the roll that the copy with its number comes to by itself, from the source that the rolls
before it have left. -/
theorem Session.parse_iteration {u : Setup} (hmacros : u.macros.macros = [])
    (hdepth : 1 ≤ u.limits.maxDepth) {n : Nat} (hlow : 2 ≤ n)
    (hlimit : n ≤ u.limits.maxIterations) (hrolls : n < u.limits.maxRolls) {body : Text}
    (hbody : IsBody body) (s : σ) :
    ∃ raw rolls, ∃ after : Nat → σ,
      (⟨u, s⟩ : Session σ).parse ('[' :: (Text.ofNat n ++ ']' :: body))
          = (.list raw [] .semicolon rolls, ⟨u.told, after n⟩)
        ∧ rolls.length = n ∧ after 0 = s
        ∧ ∀ i, i < n → ∃ roll, rolls[i]? = some roll
          ∧ alone u (Iteration.copy (trim body) (i + 1)) (after i) = (roll, after (i + 1)) := by
  have hbook : u.told.macros.macros = [] := u.macros_told.trans hmacros
  let xs := (List.range n).map fun i => Iteration.copy (trim body) (i + 1)
  have hcount : xs.length = n := by rw [List.length_map, List.length_range]
  have hxs : ∀ x ∈ xs, IsSettled x :=
    List.forall_mem_map.2 fun i _ => hbody.isSettled_copy (i + 1)
  have hparse := parse_eq_list hmacros hdepth (hlow.trans hcount.ge) (hcount.trans_lt hrolls) hxs
    (hbody.writeOut_bracket hbook hlimit) s
  obtain ⟨after, hzero, hlast, hafter⟩ := exists_after_drawEach (alone u) xs s
  rw [hcount] at hlast
  rw [← hlast] at hparse
  refine ⟨_, _, after, hparse, by rw [length_drawEach, hcount], hzero, fun i hi => ?_⟩
  refine hafter i _ ?_
  rw [List.getElem?_map, List.getElem?_range hi]
  rfl

end Rolls

/-- Three copies of a pool whose dice are as many as the number of the copy. -/
theorem parse_iteration_of_numbered :
    let body : Text := [' ', '\x7b', 'i', '\x7d', 'd', '6']
    let s : Recording := ⟨[4, 1, 6, 2, 2, 5], 0⟩
    ∃ raw rolls, ∃ after : Nat → Recording,
      (Session.ofSource s).parse ('[' :: (Text.ofNat 3 ++ ']' :: body))
          = (.list raw [] .semicolon rolls, ⟨Setup.usual.told, after 3⟩)
        ∧ rolls.length = 3 ∧ after 0 = s
        ∧ ∀ i, i < 3 → ∃ roll, rolls[i]? = some roll
          ∧ Session.alone Setup.usual (Iteration.copy (trim body) (i + 1)) (after i)
            = (roll, after (i + 1)) := by
  intro body s
  have hbody : IsBody body :=
    ⟨by decide, by decide, by decide, by decide, by decide, by decide, by decide, by decide⟩
  exact Session.parse_iteration rfl (by decide) (by decide) (by decide) (by decide) hbody s

/-- **A comma in the body cuts the copies.** The separator that comes first is the comma then,
and the list is not one of copies. -/
theorem not_forall_parse_iteration :
    ¬ ∀ (s : Recording) (n : Nat) (body : Text), 2 ≤ n → n ≤ Setup.usual.limits.maxIterations →
        n < Setup.usual.limits.maxRolls → trim body ≠ [] →
        (∀ c ∈ [';', '[', ':', 'c', '#', '\n'], c ∉ body) →
        Text.contains Abilities.word body = false →
        ∃ raw problems rolls,
          ((Session.ofSource s).parse ('[' :: (Text.ofNat n ++ ']' :: body))).1
            = .list raw problems .semicolon rolls ∧ rolls.length = n := by
  intro hall
  obtain ⟨raw, problems, rolls, hlist, -⟩ := hall ⟨[1, 2, 3, 4], 0⟩ 2 ['d', '6', ',', 'd', '8']
    (by decide) (by decide) (by decide) (by decide) (by simp) (by decide)
  have hcomma : (match ((Session.ofSource (⟨[1, 2, 3, 4], 0⟩ : Recording)).parse
      ('[' :: (Text.ofNat 2 ++ ']' :: ['d', '6', ',', 'd', '8']))).1 with
    | .list _ _ separator _ => some separator
    | _ => none) = some .comma := by cbv
  rw [hlist] at hcomma
  cases hcomma

end DiceRoll
