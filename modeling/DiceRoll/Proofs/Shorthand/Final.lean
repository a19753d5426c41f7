/-
Texts that are written out for good.

A text that is written out as itself holds no shorthand of any kind: none of the passes has
anything to do on it, not even to undo what another one did (`isFinal_of_written_eq`).

Two characters tell. No pass takes a semicolon away, and an attack or an iteration with
several copies brings one in, so where the text comes out as it was there was neither. And
apart from iterations with several copies no pass brings a bracket in, while every iteration
takes one away, so there was no iteration either. What is left are checks, and checks alone
leave no text as it was unless there are none.
-/

import DiceRoll.Proofs.Shorthand.Label
import DiceRoll.Proofs.Shorthand.Output

set_option autoImplicit false

namespace DiceRoll

open Text

/-! ## The passes

Names for what the passes leave, without the problems that they report. -/

/-- The text with its first iteration written out. -/
def unroll (limit : Nat) (s : Text) : Text := (Iteration.expand limit s).1

/-- The text with its checks and attacks written out. -/
def spell (s : Text) : Text := Attack.expand (Check.expand s)

/-- The text with all its shorthand written out, in a session without macros. -/
def written (limit : Nat) (s : Text) : Text := (MacroBook.empty.writeOut limit s).1

theorem written_eq (limit : Nat) (s : Text) :
    written limit s = unroll limit (spell (unroll limit (Abilities.expand s))) := by
  rw [written, MacroBook.writeOut_of_no_macros rfl]
  rfl

theorem MacroBook.writeOut_eq_written {book : MacroBook} (hbook : book.macros = []) (limit : Nat)
    (s : Text) : book.writeOut limit s = (written limit s, (book.writeOut limit s).2) := by
  refine Prod.ext ?_ rfl
  rw [writeOut_of_no_macros hbook, written_eq]
  rfl

theorem unroll_of_none {s : Text} (hs : Iteration.find? s = none) (limit : Nat) :
    unroll limit s = s := by
  rw [unroll, Iteration.expand, hs]

theorem unroll_of_some {s before digits rest : Text}
    (hs : Iteration.find? s = some (before, digits, rest)) (limit : Nat) :
    unroll limit s
      = before ++ Iteration.copies (min digits.value limit) (trim (rest.takeWhile (· != ';')))
        ++ rest.dropWhile (· != ';') := by
  rw [unroll, Iteration.expand, hs]

/-- A text without abilities is written out by the other passes. -/
theorem written_of_not_contains {s : Text} (hs : Text.contains Abilities.word s = false)
    (limit : Nat) : written limit s = unroll limit (spell (unroll limit s)) := by
  rw [written_eq, Abilities.expand_eq_self hs]

/-! ## Semicolons -/

/-- **Induction on the parts of a text** between the places of a character. -/
theorem splitInduction {motive : Text → Prop} (d : Char) (whole : ∀ s, d ∉ s → motive s)
    (cut : ∀ a s, d ∉ a → motive s → motive (a ++ d :: s)) (s : Text) : motive s := by
  have hnone : ∀ {a : Text}, (∀ c ∈ a, (c == d) = false) → d ∉ a := fun ha hmem => by
    simpa using ha d hmem
  induction s using cutInduction (· == d) with
  | whole s hs => exact whole s (hnone hs)
  | cut a c s ha hc ih =>
    obtain rfl := beq_iff_eq.1 hc
    exact cut a s (hnone ha) ih

theorem count_append_cons {c d : Char} (a b : Text) :
    (a ++ d :: b).count c = a.count c + (if d = c then 1 else 0) + b.count c := by
  rw [List.count_append, List.count_cons]
  by_cases hd : d = c
  · simp [hd]
    omega
  · simp [hd]

theorem mem_of_mem_spell {s : Text} {c : Char} (hcheck : Check.isWritten c = false)
    (hattack : Attack.isWritten c = false) (hc : c ∈ spell s) : c ∈ s := by
  by_contra hs
  exact not_mem_written hcheck hattack hs hc

/-- Checks neither bring in semicolons nor take them away. -/
theorem count_semicolon_check (s : Text) : (Check.expand s).count ';' = s.count ';' := by
  have hnone {a : Text} (ha : ';' ∉ a) : (Check.expand a).count ';' = a.count ';' := by
    rw [List.count_eq_zero.2 ha, List.count_eq_zero]
    exact fun hmem => ha (Check.mem_of_mem_expand hmem (by decide))
  induction s using splitInduction ';' with
  | whole s hs => exact hnone hs
  | cut a s ha ih =>
    rw [Check.splitsAtSeams.cut (c := ';') (by decide), count_append_cons, count_append_cons, ih,
      hnone ha]

/-- Attacks take no semicolon away, and where they bring none in there are none. -/
theorem count_semicolon_attack (s : Text) :
    s.count ';' ≤ (Attack.expand s).count ';'
      ∧ ((Attack.expand s).count ';' = s.count ';' → Attack.expand s = s) := by
  induction s using splitInduction ';' with
  | whole s hs =>
    rw [List.count_eq_zero.2 hs]
    refine ⟨Nat.zero_le _, fun hcount => ?_⟩
    exact Attack.expand_eq_self_of_not_mem (List.count_eq_zero.1 hcount)
  | cut a s ha ih =>
    rw [Attack.splitsAtSeams.cut (c := ';') (by decide), count_append_cons, count_append_cons,
      List.count_eq_zero.2 ha]
    refine ⟨by omega, fun hcount => ?_⟩
    have hfront : (Attack.expand a).count ';' = 0 := by omega
    rw [Attack.expand_eq_self_of_not_mem (List.count_eq_zero.1 hfront), ih.2 (by omega)]

/-- An iteration as it is found, and what it leaves. -/
structure Iteration.Found (limit : Nat) (s : Text) (count : Nat)
    (before digits body others : Text) : Prop where
  text : s = before ++ '[' :: digits ++ ']' :: (body ++ others)
  number : ∀ c ∈ digits, c.isDigit = true
  line : '\n' ∉ body ++ others
  single : ';' ∉ body
  result : unroll limit s = before ++ copies count (trim body) ++ others

theorem Iteration.exists_found {s : Text} (hs : find? s ≠ none) (limit : Nat) :
    ∃ count before digits body others, Found limit s count before digits body others := by
  obtain ⟨⟨before, digits, rest⟩, hfind⟩ := Option.ne_none_iff_exists'.1 hs
  obtain ⟨htext, hdigits, hline⟩ := eq_of_find? hfind
  have hrest := List.takeWhile_append_dropWhile (p := (· != ';')) (l := rest)
  refine ⟨min digits.value limit, before, digits, rest.takeWhile (· != ';'),
    rest.dropWhile (· != ';'), ?_⟩
  exact {
    text := by rw [hrest, htext]
    number := hdigits
    line := by rwa [hrest]
    single := fun hmem => by simpa using List.mem_takeWhile_imp hmem
    result := unroll_of_some hfind limit }

/-- A text holds no more of a character after a replacement that does not write it. -/
theorem count_substitute_le {read : Text → Option (Text × Text)} (hread : GoesOn read) {c : Char}
    (hout : ∀ s out rest, read s = some (out, rest) → c ∉ out) (s : Text) :
    (substitute read s).count c ≤ s.count c := by
  induction s using substitute_induct with
  | nil => exact Nat.le_refl _
  | found d s out rest hfound _ ih =>
    have hrest := (hread hfound).sublist.count_le c
    rw [List.count_append, List.count_eq_zero.2 (hout _ _ _ hfound)]
    omega
  | kept d s ih =>
    rw [List.count_cons, List.count_cons]
    omega

theorem count_trim_le (s : Text) (c : Char) : (trim s).count c ≤ s.count c := by
  obtain ⟨front, back, hs, -⟩ := exists_eq_trim s
  have hpart : trim s <:+: s := ⟨front, back, hs.symm⟩
  exact hpart.sublist.count_le c

/-- A single copy holds no more brackets than what it copies. -/
theorem Iteration.count_bracket_copies {count : Nat} {body : Text}
    (hcount : ';' ∉ copies count body) : (copies count body).count '[' ≤ body.count '[' := by
  rcases count with _ | _ | count
  · exact Nat.zero_le _
  · rw [copies, List.range_one, List.map_singleton, List.intercalate_singleton]
    refine count_substitute_le (fun s out rest h => ?_) (fun s out rest h => ?_) body
    all_goals
      obtain ⟨behind, hbehind, heq⟩ := Option.map_eq_some_iff.1 h
      obtain ⟨rfl, rfl⟩ := Prod.mk.inj heq
    · exact ⟨placeholder, (after?_eq_some_iff.1 hbehind).symm⟩
    · intro hmem
      exact absurd (Nat.isDigit_of_mem_toDigits (by decide) (by decide) hmem) (by decide)
  · refine absurd (mem_intercalate ?_) hcount
    rw [List.length_map, List.length_range]
    omega

/-- **An iteration takes no semicolon away, and where it brings none in it takes a bracket
away.** -/
theorem count_unroll (limit : Nat) (s : Text) :
    s.count ';' ≤ (unroll limit s).count ';'
      ∧ ((unroll limit s).count ';' = s.count ';' →
        Iteration.find? s = none ∨ (unroll limit s).count '[' < s.count '[') := by
  by_cases hs : Iteration.find? s = none
  · rw [unroll_of_none hs]
    exact ⟨Nat.le_refl _, fun _ => .inl hs⟩
  · obtain ⟨count, before, digits, body, others, hfound⟩ := Iteration.exists_found hs limit
    have hdigits {c : Char} (hc : c.isDigit = false) : digits.count c = 0 := by
      rw [List.count_eq_zero]
      intro hmem
      rw [hfound.number c hmem] at hc
      cases hc
    have hsemicolons : s.count ';' = before.count ';' + others.count ';' := by
      rw [hfound.text]
      simp [hdigits, List.count_eq_zero.2 hfound.single]
    have hbrackets : s.count '[' = before.count '[' + 1 + body.count '[' + others.count '[' := by
      rw [hfound.text]
      simp [hdigits]
      omega
    rw [hfound.result, List.count_append, List.count_append, List.count_append, List.count_append]
    refine ⟨by omega, fun hcount => .inr ?_⟩
    have hcopies := Iteration.count_bracket_copies (List.count_eq_zero.1
      (show (Iteration.copies count (trim body)).count ';' = 0 by omega))
    have htrim := count_trim_le body '['
    omega

theorem count_bracket_check_le (s : Text) : (Check.expand s).count '[' ≤ s.count '[' := by
  have hread {read : Text → Option (Text × Text)} (h : WritesBetweenDigits Check.isWritten read)
      (s : Text) : (substitute read s).count '[' ≤ s.count '[' := by
    refine count_substitute_le h.goesOn (fun r out rest hr hmem => ?_) s
    exact absurd (h.writes hr '[' hmem) (by decide)
  exact (hread Check.writesBetweenDigits_bonus? _).trans (hread Check.writesBetweenDigits_malus? s)

/-! ## Texts without shorthand -/

/-- A text in which there is no shorthand but iterations. -/
structure IsQuiet (s : Text) : Prop where
  abilities : Text.contains Abilities.word s = false
  checks : Check.expand s = s
  attacks : Attack.expand s = s

theorem IsQuiet.spell_eq {s : Text} (hs : IsQuiet s) : spell s = s := by
  rw [spell, hs.checks, hs.attacks]

/-- A text in which there is no shorthand. -/
structure IsFinal (s : Text) : Prop extends IsQuiet s where
  iteration : Iteration.find? s = none

theorem IsWrittenOut.isFinal {s : Text} (hs : IsWrittenOut s) : IsFinal s where
  abilities := hs.abilities
  checks := Check.expand_eq_self hs.mark
  attacks := Attack.expand_eq_self hs.colon
  iteration := Iteration.find?_eq_none hs.bracket

/-- The abilities are written out as something else. -/
theorem written_abilities {limit : Nat} {s : Text} (hs : Text.contains Abilities.word s = true) :
    written limit s = Abilities.rolls := by
  have hrolls : Abilities.expand s = Abilities.rolls := by rw [Abilities.expand, if_pos hs]
  have hunrolled : unroll limit Abilities.rolls = Abilities.rolls :=
    unroll_of_none (Iteration.find?_eq_none (by decide)) limit
  have hspelled : spell Abilities.rolls = Abilities.rolls := by
    rw [spell, Check.expand_eq_self (by decide), Attack.expand_eq_self (by decide)]
  rw [written_eq, hrolls, hunrolled, hspelled, hunrolled]

/-- **A text that is written out as itself holds no shorthand.** -/
theorem isFinal_of_written_eq {limit : Nat} {s : Text} (hs : written limit s = s) : IsFinal s := by
  have habilities : Text.contains Abilities.word s = false := by
    by_contra hcontains
    rw [Bool.not_eq_false] at hcontains
    rw [written_abilities hcontains] at hs
    rw [← hs] at hcontains
    exact absurd hcontains (by decide)
  rw [written_of_not_contains habilities] at hs
  -- All passes keep the number of semicolons, so that there are no attacks, and no iteration
  -- makes more than one copy.
  obtain ⟨hfirst, hfirst'⟩ := count_unroll limit s
  obtain ⟨hattack, hattack'⟩ := count_semicolon_attack (Check.expand (unroll limit s))
  obtain ⟨hsecond, hsecond'⟩ := count_unroll limit (spell (unroll limit s))
  have hcheck := count_semicolon_check (unroll limit s)
  rw [hs] at hsecond hsecond'
  have hspell : spell (unroll limit s) = Check.expand (unroll limit s) :=
    hattack' (by rw [spell] at hsecond; omega)
  rw [hspell] at hs hsecond hsecond'
  -- Then all passes keep the number of brackets, so that there are no iterations.
  have hbrackets := count_bracket_check_le (unroll limit s)
  have hsecondBrackets : s.count '[' ≤ (Check.expand (unroll limit s)).count '[' := by
    rcases hsecond' (by omega) with hnone | hlt
    · rw [unroll_of_none hnone] at hs
      exact (congrArg (List.count '[') hs).ge
    · exact Nat.le_of_lt hlt
  have hnone : Iteration.find? s = none := (hfirst' (by omega)).resolve_right (by omega)
  rw [unroll_of_none hnone] at hs hspell hsecond' hbrackets hcheck
  have hnone' : Iteration.find? (Check.expand s) = none :=
    (hsecond' (by omega)).resolve_right (by omega)
  rw [unroll_of_none hnone'] at hs
  rw [spell, hs] at hspell
  exact ⟨⟨habilities, hs, hspell⟩, hnone⟩

end DiceRoll
