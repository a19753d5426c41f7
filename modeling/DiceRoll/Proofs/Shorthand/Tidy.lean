/-
Iterations at a seam.

Checks and attacks end at a seam, and an iteration does not: it reaches to the next semicolon,
and counts only if no line ends behind it. This file says what is left of the seams for
iterations. What stands in front of a bracket stays; behind an iteration the text goes on
at the next semicolon; and a line that ends behind a seam leaves all brackets in front of it
without effect.

The last point makes the difference between a text and its parts, so it is ruled out for
good. In a tidy text (`IsTidy`) no line ends behind a bracket, and iterations are the only
shorthand. The parts of a tidy text are tidy, and an iteration is found in one of them where
it is found in the text.
-/

import DiceRoll.Proofs.Shorthand.Final

set_option autoImplicit false

namespace DiceRoll

open Text

variable {limit : Nat}

/-! ## Unrolling at a seam -/

theorem unroll_append_of_find? {a b : Text} {c : Char}
    (h : Iteration.find? (a ++ c :: b)
      = (Iteration.find? b).map fun found => (a ++ c :: found.1, found.2)) :
    unroll limit (a ++ c :: b) = a ++ c :: unroll limit b := by
  cases hb : Iteration.find? b with
  | none =>
    rw [hb] at h
    rw [unroll_of_none h, unroll_of_none hb]
  | some found =>
    obtain ⟨before, digits, rest⟩ := found
    rw [hb] at h
    rw [unroll_of_some h, unroll_of_some hb]
    simp only [List.append_assoc, List.cons_append]

section Seam

variable {c : Char} (hc : isSeam c = true)

include hc

/-- Where a line ends behind a seam, no bracket in front of it counts. -/
theorem Iteration.find?_append_of_line {b : Text} (hb : '\n' ∈ b) (a : Text) :
    find? (a ++ c :: b) = (find? b).map fun found => (a ++ c :: found.1, found.2) := by
  induction a with
  | nil => exact find?_append_of_none hc rfl b
  | cons d a ih =>
    have hcut := bracket?_append hc (d :: a) b
    rw [List.cons_append] at hcut
    rw [List.cons_append, find?, hcut, ih]
    cases bracket? (d :: a) with
    | none => simp [Option.map_map, Function.comp_def]
    | some found =>
      have hlines : (found.2 ++ c :: b).any (· == '\n') = true :=
        List.any_eq_true.2 ⟨'\n', by simp [hb], rfl⟩
      simp [hlines, Option.map_map, Function.comp_def]

theorem unroll_append_of_none {a : Text} (ha : Iteration.find? a = none) (b : Text) :
    unroll limit (a ++ c :: b) = a ++ c :: unroll limit b :=
  unroll_append_of_find? (Iteration.find?_append_of_none hc ha b)

theorem Iteration.find?_cons_of_isSeam (b : Text) :
    find? (c :: b) = (find? b).map fun found => (c :: found.1, found.2) :=
  find?_append_of_none hc (a := []) rfl b

theorem unroll_cons_of_isSeam (b : Text) : unroll limit (c :: b) = c :: unroll limit b :=
  unroll_append_of_none hc (a := []) rfl b

theorem unroll_append_of_line {b : Text} (hb : '\n' ∈ b) (a : Text) :
    unroll limit (a ++ c :: b) = a ++ c :: unroll limit b :=
  unroll_append_of_find? (Iteration.find?_append_of_line hc hb a)

end Seam

/-- **An iteration ends at a semicolon**, and what stands behind it stays. -/
theorem unroll_append_of_some {a b : Text} (ha : Iteration.find? a ≠ none) (hb : '\n' ∉ b) :
    unroll limit (a ++ ';' :: b) = unroll limit a ++ ';' :: b := by
  obtain ⟨⟨before, digits, rest⟩, hfind⟩ := Option.ne_none_iff_exists'.1 ha
  have hline : '\n' ∉ ';' :: b := by simp [hb]
  have hfind' := Iteration.find?_append_of_some (c := ';') (by decide) hfind hline
  have hstop : ∀ d ∈ (';' :: b).head?, (d != ';') = false := by
    intro d hd
    cases hd
    rfl
  rw [unroll_of_some hfind, unroll_of_some hfind', takeWhile_append_of_stop hstop,
    dropWhile_append_of_stop hstop, List.append_assoc _ _ (';' :: b)]

/-- A blank at the end of an iteration is trimmed with its body. -/
theorem unroll_append_blank {s : Text} {c : Char} (hs : Iteration.find? s ≠ none)
    (hsemicolon : ';' ∉ s) (hc : isBlank c = true) (hline : c ≠ '\n') :
    unroll limit (s ++ [c]) = unroll limit s := by
  obtain ⟨⟨before, digits, rest⟩, hfind⟩ := Option.ne_none_iff_exists'.1 hs
  have hfind' := Iteration.find?_append_of_some (isSeam_of_isBlank hc) hfind (b := [])
    (by simpa using hline.symm)
  have hrest : ∀ d ∈ rest, (d != ';') = true := by
    refine bne_of_not_mem fun hmem => hsemicolon ?_
    rw [(Iteration.eq_of_find? hfind).1]
    simp [hmem]
  have hrest' : ∀ d ∈ rest ++ [c], (d != ';') = true := by
    refine List.forall_mem_append.2 ⟨hrest, List.forall_mem_singleton.2 ?_⟩
    exact bne_iff_ne.2 fun heq => absurd (heq ▸ hc) (by decide)
  have htrim : trim (rest ++ [c]) = trim rest :=
    trim_append_gaps .nil rest (List.forall_mem_singleton.2 hc)
  rw [unroll_of_some hfind, unroll_of_some hfind', List.takeWhile_eq_self_iff.2 hrest,
    List.takeWhile_eq_self_iff.2 hrest', List.dropWhile_eq_nil_iff.2 hrest,
    List.dropWhile_eq_nil_iff.2 hrest', htrim]

/-! ## Brackets and lines -/

/-- A text in which no line ends behind a bracket. -/
def IsClear (s : Text) : Prop := '\n' ∉ s.dropWhile (· != '[')

instance (s : Text) : Decidable (IsClear s) :=
  inferInstanceAs (Decidable ('\n' ∉ s.dropWhile (· != '[')))

theorem isClear_of_not_mem {s : Text} (hs : '[' ∉ s) : IsClear s := by
  rw [IsClear, List.dropWhile_eq_nil_iff.2 (bne_of_not_mem hs)]
  exact List.not_mem_nil

theorem isClear_of_line {s : Text} (hs : '\n' ∉ s) : IsClear s :=
  fun hmem => hs ((List.dropWhile_sublist _).subset hmem)

theorem isClear_append_iff {a b : Text} :
    IsClear (a ++ b) ↔ IsClear a ∧ IsClear b ∧ ('[' ∈ a → '\n' ∉ b) := by
  by_cases ha : '[' ∈ a
  · have hbracket : (a.dropWhile (· != '[')).isEmpty = false := by
      rw [List.isEmpty_eq_false_iff, ne_eq, List.dropWhile_eq_nil_iff]
      intro hall
      exact absurd (hall '[' ha) (by decide)
    rw [IsClear, List.dropWhile_append, hbracket, if_neg Bool.false_ne_true, List.mem_append,
      not_or]
    exact ⟨fun h => ⟨h.1, isClear_of_line h.2, fun _ => h.2⟩, fun h => ⟨h.1, h.2.2 ha⟩⟩
  · rw [IsClear, List.dropWhile_append_of_pos (bne_of_not_mem ha)]
    exact ⟨fun h => ⟨isClear_of_not_mem ha, h, fun hmem => absurd hmem ha⟩, fun h => h.2.1⟩

/-- No line ends behind an iteration that counts. -/
theorem IsClear.line_of_find? {a b : Text} (h : IsClear (a ++ b)) (ha : Iteration.find? a ≠ none) :
    '\n' ∉ b := by
  refine (isClear_append_iff.1 h).2.2 ?_
  by_contra hbracket
  exact ha (Iteration.find?_eq_none hbracket)

theorem IsClear.of_append_cons {a b : Text} {c : Char} (h : IsClear (a ++ c :: b)) :
    IsClear a ∧ IsClear b ∧ ('[' ∈ a → '\n' ∉ c :: b) := by
  obtain ⟨ha, hb, hline⟩ := isClear_append_iff.1 h
  exact ⟨ha, (isClear_append_iff (a := [c]).1 hb).2.1, hline⟩

theorem splitsAtSeams_spell : SplitsAtSeams spell where
  nil := by rw [spell, Check.splitsAtSeams.nil, Attack.splitsAtSeams.nil]
  cut hc a b := by
    rw [spell, Check.splitsAtSeams.cut hc, Attack.splitsAtSeams.cut hc, spell, spell]

theorem IsClear.spell {s : Text} (hs : IsClear s) : IsClear (spell s) := by
  induction s using splitInduction '\n' with
  | whole s hline => exact isClear_of_line fun hmem => hline (mem_of_mem_spell rfl rfl hmem)
  | cut a s _ ih =>
    obtain ⟨-, hrest, hbracket⟩ := hs.of_append_cons
    have hnone : '[' ∉ a := fun hmem => hbracket hmem List.mem_cons_self
    have hnone' : '[' ∉ DiceRoll.spell a := fun hmem => hnone (mem_of_mem_spell rfl rfl hmem)
    rw [splitsAtSeams_spell.cut (c := '\n') (by decide), isClear_append_iff]
    refine ⟨isClear_of_not_mem hnone', ?_, fun hmem => absurd hmem hnone'⟩
    exact isClear_append_iff (a := ['\n']).2
      ⟨by decide, ih hrest, fun hmem => absurd hmem (by decide)⟩

/-- What is copied stands on one line. -/
theorem Iteration.Found.line_result {s before digits body others : Text} {count : Nat}
    (h : Found limit s count before digits body others) :
    '\n' ∉ copies count (Text.trim body) ++ others := by
  have hbody : '\n' ∉ body := fun hmem => h.line (List.mem_append_left _ hmem)
  intro hmem
  rcases List.mem_append.1 hmem with hmem | hmem
  · rcases mem_of_mem_copies hmem with heq | hmem | hdigit
    · exact absurd heq (by decide)
    · exact hbody (mem_of_mem_trim hmem)
    · exact absurd hdigit (by decide)
  · exact h.line (List.mem_append_right _ hmem)

theorem IsClear.unroll {s : Text} (hs : IsClear s) : IsClear (unroll limit s) := by
  by_cases hnone : Iteration.find? s = none
  · rwa [unroll_of_none hnone]
  · obtain ⟨count, before, digits, body, others, hfound⟩ := Iteration.exists_found hnone limit
    rw [hfound.text, List.append_assoc] at hs
    have hline := hfound.line_result
    rw [hfound.result, List.append_assoc, isClear_append_iff]
    exact ⟨(isClear_append_iff.1 hs).1, isClear_of_line hline, fun _ => hline⟩

/-- Where no line ends behind a bracket, a bracket that counts still counts in front of a
seam. -/
theorem Iteration.find?_append_eq_none_iff {c : Char} (hc : isSeam c = true) {a b : Text}
    (hclear : IsClear (a ++ c :: b)) :
    find? (a ++ c :: b) = none ↔ find? a = none ∧ find? b = none := by
  by_cases ha : find? a = none
  · rw [find?_append_of_none hc ha, Option.map_eq_none_iff]
    exact ⟨fun hb => ⟨ha, hb⟩, And.right⟩
  · obtain ⟨⟨before, digits, rest⟩, hfind⟩ := Option.ne_none_iff_exists'.1 ha
    rw [find?_append_of_some hc hfind (hclear.line_of_find? ha)]
    exact ⟨fun h => (Option.some_ne_none _ h).elim, fun h => absurd h.1 ha⟩

/-! ## Parts without shorthand -/

theorem Abilities.not_mem_word_of_isSeam {c : Char} (hc : isSeam c = true) : c ∉ Abilities.word :=
  fun hmem => List.any_eq_false.1 (show Abilities.word.any isSeam = false from rfl) c hmem hc

/-- Where a reader takes a character away with every find, it has found nothing in a text
that holds the character as often afterwards. -/
theorem count_substitute_lt {read : Text → Option (Text × Text)} {d : Char}
    (hread : ∀ s out rest, read s = some (out, rest) → d ∉ out ∧ rest.count d < s.count d)
    (s : Text) : (substitute read s).count d ≤ s.count d
      ∧ ((substitute read s).count d = s.count d → substitute read s = s) := by
  induction s using substitute_induct with
  | nil => exact ⟨Nat.le_refl _, fun _ => rfl⟩
  | found c s out rest hfound _ ih =>
    obtain ⟨hout, hrest⟩ := hread _ _ _ hfound
    rw [List.count_append, List.count_eq_zero.2 hout]
    exact ⟨by omega, fun hcount => by omega⟩
  | kept c s ih =>
    rw [List.count_cons, List.count_cons]
    exact ⟨by omega, fun hcount => congrArg (c :: ·) (ih.2 (by omega))⟩

/-- A check takes its mark away, so where all marks are left there was none. -/
theorem count_mark_check (s : Text) : (Check.expand s).count 'c' ≤ s.count 'c'
    ∧ ((Check.expand s).count 'c' = s.count 'c' → Check.expand s = s) := by
  have hread (lead : Text) (hlead : 'c' ∈ lead) (sign : Char)
      (hsign : Check.isWritten sign = true) (s out rest : Text)
      (h : (after? lead s).bind (Check.written? sign) = some (out, rest)) :
      'c' ∉ out ∧ rest.count 'c' < s.count 'c' := by
    obtain ⟨behind, hbehind, hwritten⟩ := Option.bind_eq_some_iff.1 h
    have hdigits := Check.writesBetweenDigits_written? hsign
    refine ⟨fun hmem => absurd (hdigits.writes hwritten 'c' hmem) (by decide), ?_⟩
    have hrest := (hdigits.goesOn hwritten).sublist.count_le 'c'
    have hpos := List.count_pos_iff.2 hlead
    rw [after?_eq_some_iff.1 hbehind, List.count_append]
    omega
  have hmalus := count_substitute_lt (hread ['c', '-'] (by decide) '-' rfl) s
  have hbonus := count_substitute_lt (hread ['c'] (by decide) '+' rfl)
    (substitute Check.malus? s)
  refine ⟨hbonus.1.trans hmalus.1, fun hcount => ?_⟩
  have hfirst : substitute Check.malus? s = s := hmalus.2 (le_antisymm hmalus.1 (hcount ▸ hbonus.1))
  have hsecond := hbonus.2 (le_antisymm hbonus.1 (hcount ▸ hmalus.1))
  rw [Check.expand]
  exact hsecond.trans hfirst

/-- **Shorthand is found on one side of a seam.** -/
theorem isQuiet_append_cons_iff {c : Char} (hc : isSeam c = true) {a b : Text} :
    IsQuiet (a ++ c :: b) ↔ IsQuiet a ∧ IsQuiet b := by
  have hword := contains_append_cons (Abilities.not_mem_word_of_isSeam hc) a b
  constructor
  · intro h
    have habilities := h.abilities
    rw [hword, Bool.or_eq_false_iff] at habilities
    have hchecks : (Check.expand (a ++ c :: b)).count 'c' = (a ++ c :: b).count 'c' := by
      rw [h.checks]
    have hattacks : (Attack.expand (a ++ c :: b)).count ';' = (a ++ c :: b).count ';' := by
      rw [h.attacks]
    rw [Check.splitsAtSeams.cut hc, count_append_cons, count_append_cons] at hchecks
    rw [Attack.splitsAtSeams.cut hc, count_append_cons, count_append_cons] at hattacks
    obtain ⟨hca, hca'⟩ := count_mark_check a
    obtain ⟨hcb, hcb'⟩ := count_mark_check b
    obtain ⟨haa, haa'⟩ := count_semicolon_attack a
    obtain ⟨hab, hab'⟩ := count_semicolon_attack b
    exact ⟨⟨habilities.1, hca' (by omega), haa' (by omega)⟩,
      ⟨habilities.2, hcb' (by omega), hab' (by omega)⟩⟩
  · rintro ⟨ha, hb⟩
    constructor
    · rw [hword, ha.abilities, hb.abilities]
      rfl
    · rw [Check.splitsAtSeams.cut hc, ha.checks, hb.checks]
    · rw [Attack.splitsAtSeams.cut hc, ha.attacks, hb.attacks]

/-- A text in which there is no shorthand but iterations, and no line ends behind one. -/
structure IsTidy (s : Text) : Prop extends IsQuiet s where
  clear : IsClear s

theorem IsTidy.of_append_cons {c : Char} (hc : isSeam c = true) {a b : Text}
    (h : IsTidy (a ++ c :: b)) : IsTidy a ∧ IsTidy b := by
  obtain ⟨ha, hb⟩ := (isQuiet_append_cons_iff hc).1 h.toIsQuiet
  obtain ⟨ha', hb', -⟩ := h.clear.of_append_cons
  exact ⟨⟨ha, ha'⟩, ⟨hb, hb'⟩⟩

theorem IsTidy.cons_blank {c : Char} (hc : isBlank c = true) {s : Text} (hs : IsTidy s) :
    IsTidy (c :: s) where
  toIsQuiet := (isQuiet_append_cons_iff (isSeam_of_isBlank hc) (a := [])).2
    ⟨⟨rfl, Check.splitsAtSeams.nil, Attack.splitsAtSeams.nil⟩, hs.toIsQuiet⟩
  clear := by
    have hbracket : '[' ∉ [c] := by
      rw [List.mem_singleton]
      rintro rfl
      exact absurd hc (by decide)
    exact isClear_append_iff (a := [c]).2
      ⟨isClear_of_not_mem hbracket, hs.clear, fun hmem => absurd hmem hbracket⟩

end DiceRoll
