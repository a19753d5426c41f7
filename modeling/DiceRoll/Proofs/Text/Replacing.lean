/-
What replacing keeps, and what it brings in.

A replacement walks the text once, and every character of its result was either there
before or is written by the reader. The lemmas of this file are the consequences of that
which the passes over shorthand need: where the result falls apart, where its characters
come from, and which words cannot appear in it by accident.

The last point is the delicate one. A word could be put together from a replacement and
what stands beside it. It is not, if the character at either end of every replacement does
not occur in the word (`infix_of_infix_substitute`).
-/

import DiceRoll.Proofs.Markup
import DiceRoll.Proofs.Shorthand
import DiceRoll.Proofs.Text.Trim
import Mathlib.Tactic.IntervalCases

set_option autoImplicit false

namespace DiceRoll.Text

/-! ## Joined texts -/

theorem mem_of_mem_intercalate {sep c : Char} {items : List Text}
    (hc : c ∈ [sep].intercalate items) : c = sep ∨ ∃ item ∈ items, c ∈ item := by
  induction items with
  | nil => cases hc
  | cons x items ih =>
    cases items with
    | nil =>
      rw [List.intercalate_singleton] at hc
      exact .inr ⟨x, List.mem_cons_self, hc⟩
    | cons y items =>
      rw [intercalate_cons_cons, List.mem_append, List.mem_cons] at hc
      rcases hc with hx | hsep | hrest
      · exact .inr ⟨x, List.mem_cons_self, hx⟩
      · exact .inl hsep
      · refine (ih hrest).imp_right ?_
        rintro ⟨item, hitem, hmem⟩
        exact ⟨item, List.mem_cons_of_mem x hitem, hmem⟩

theorem mem_intercalate {sep : Char} {items : List Text} (h : 2 ≤ items.length) :
    sep ∈ [sep].intercalate items := by
  rcases items with _ | ⟨x, _ | ⟨y, items⟩⟩
  · exact absurd h (by decide)
  · exact absurd h (by simp)
  · rw [intercalate_cons_cons]
    exact List.mem_append_right _ List.mem_cons_self

/-- What was joined falls apart again. -/
theorem pieces_intercalate {cuts : Char → Bool} {sep : Char} (hsep : cuts sep = true)
    {items : List Text} (hne : items ≠ []) (hitems : ∀ x ∈ items, ∀ c ∈ x, cuts c = false) :
    pieces cuts ([sep].intercalate items) = items := by
  induction items with
  | nil => exact absurd rfl hne
  | cons x items ih =>
    obtain ⟨hx, hrest⟩ := List.forall_mem_cons.1 hitems
    cases items with
    | nil => rw [List.intercalate_singleton, pieces_of_none hx]
    | cons y items =>
      rw [intercalate_cons_cons, pieces_append_cons hsep, pieces_of_none hx,
        ih (List.cons_ne_nil y items) hrest, List.singleton_append]

/-! ## Where a word occurs -/

theorem isSome_after?_iff {lead s : Text} : (after? lead s).isSome = true ↔ lead <+: s := by
  rw [Option.isSome_iff_exists]
  constructor
  · rintro ⟨rest, hrest⟩
    exact ⟨rest, (after?_eq_some_iff.1 hrest).symm⟩
  · rintro ⟨rest, hrest⟩
    exact ⟨rest, after?_eq_some_iff.2 hrest.symm⟩

theorem contains_iff_isInfix {needle s : Text} : contains needle s = true ↔ needle <:+: s := by
  induction s with
  | nil => simp [contains]
  | cons c s ih =>
    rw [contains, Bool.or_eq_true, isSome_after?_iff, ih, List.infix_cons_iff]

theorem contains_eq_false_iff {needle s : Text} :
    contains needle s = false ↔ ¬ needle <:+: s := by
  rw [← contains_iff_isInfix, Bool.not_eq_true]

/-- **A word stands on one side** of a character that it does not hold. -/
theorem contains_append_cons {needle : Text} {c : Char} (hc : c ∉ needle) (a b : Text) :
    contains needle (a ++ c :: b) = (contains needle a || contains needle b) := by
  induction a with
  | nil =>
    have hempty : (after? needle []).isSome = needle.isEmpty := by cases needle <;> rfl
    have hcut := after?_append hc [] b
    rw [List.nil_append] at hcut ⊢
    rw [contains, contains, hcut, Option.isSome_map, hempty]
  | cons d a ih =>
    rw [List.cons_append, contains, contains, ih, ← List.cons_append, after?_append hc,
      Option.isSome_map, Bool.or_assoc]

theorem infix_append_cons_iff {needle : Text} {c : Char} (hc : c ∉ needle) {a b : Text} :
    needle <:+: a ++ c :: b ↔ needle <:+: a ∨ needle <:+: b := by
  rw [← contains_iff_isInfix, contains_append_cons hc, Bool.or_eq_true, contains_iff_isInfix,
    contains_iff_isInfix]

theorem contains_intercalate {needle : Text} {sep : Char} (hsep : sep ∉ needle)
    (hne : needle ≠ []) {items : List Text} (hitems : ∀ x ∈ items, contains needle x = false) :
    contains needle ([sep].intercalate items) = false := by
  induction items with
  | nil => simpa [contains] using hne
  | cons x items ih =>
    obtain ⟨hx, hrest⟩ := List.forall_mem_cons.1 hitems
    cases items with
    | nil =>
      rw [List.intercalate_singleton]
      exact hx
    | cons y items =>
      rw [intercalate_cons_cons, contains_append_cons hsep, hx, ih hrest]
      rfl

/-! ## Replacing -/

section Substitute

variable {read : Text → Option (Text × Text)}

@[simp] theorem substitute_nil : substitute read [] = [] := by rw [substitute]

/-- **Induction on what replacing does.** At the end nothing is left to do; a find takes
the place of what was read; and elsewhere a character stays. -/
theorem substitute_induct {motive : Text → Text → Prop} (nil : motive [] [])
    (found : ∀ c s out rest, read (c :: s) = some (out, rest) → rest.length < s.length + 1 →
      motive rest (substitute read rest) → motive (c :: s) (out ++ substitute read rest))
    (kept : ∀ c s, motive s (substitute read s) → motive (c :: s) (c :: substitute read s))
    (s : Text) : motive s (substitute read s) := by
  induction hn : s.length using Nat.strongRecOn generalizing s with
  | ind n ih =>
    cases s with
    | nil =>
      rw [substitute_nil]
      exact nil
    | cons c s =>
      rw [List.length_cons] at hn
      have hskip := kept c s (ih s.length (by omega) s rfl)
      rw [substitute]
      split
      · rename_i out rest hread
        split
        · rename_i hlt
          exact found c s out rest hread hlt (ih rest.length (by omega) rest rfl)
        · exact hskip
      · exact hskip

/-- Where a reader stops at a character that it does not read, either side is replaced by
itself and the character stays. -/
theorem substitute_append_cons {c : Char} {b : Text}
    (hread : ∀ a, read (a ++ c :: b) = (read a).map fun found => (found.1, found.2 ++ c :: b))
    (hnil : read [] = none) (a : Text) :
    substitute read (a ++ c :: b) = substitute read a ++ c :: substitute read b := by
  have hcut : read (c :: b) = none := by
    have h := hread []
    rwa [hnil] at h
  rw [substitute_append fun a _ => hread a, substitute_cons_of_none hcut]

/-- Replacing changes nothing, or something that the reader wrote stands in the result. -/
theorem substitute_eq_self_or (s : Text) :
    substitute read s = s
      ∨ ∃ r out rest, read r = some (out, rest) ∧ out <:+: substitute read s := by
  induction s using substitute_induct with
  | nil => exact .inl rfl
  | found c s out rest hread _ _ =>
    exact .inr ⟨c :: s, out, rest, hread, (List.prefix_append out _).isInfix⟩
  | kept c s ih =>
    rcases ih with hself | ⟨r, out, rest, hread, hout⟩
    · exact .inl (congrArg (c :: ·) hself)
    · exact .inr ⟨r, out, rest, hread, List.infix_cons hout⟩

/-- A reader that goes on behind what it has read. -/
def GoesOn (read : Text → Option (Text × Text)) : Prop :=
  ∀ ⦃s out rest : Text⦄, read s = some (out, rest) → rest <:+ s

/-- A character of the result was there before, or the reader wrote it. -/
theorem mem_of_mem_substitute (hread : GoesOn read) {s : Text} {c : Char}
    (hc : c ∈ substitute read s) :
    c ∈ s ∨ ∃ r out rest, read r = some (out, rest) ∧ c ∈ out := by
  induction s using substitute_induct with
  | nil => exact .inl hc
  | found d s out rest hfound _ ih =>
    rcases List.mem_append.1 hc with hout | hrest
    · exact .inr ⟨d :: s, out, rest, hfound, hout⟩
    · exact (ih hrest).imp_left fun h => (hread hfound).subset h
  | kept d s ih =>
    rcases List.mem_cons.1 hc with rfl | hrest
    · exact .inl List.mem_cons_self
    · exact (ih hrest).imp_left (List.mem_cons_of_mem d)

/-- A kind of character that every find brings in is not lost. -/
theorem exists_mem_substitute {P : Char → Prop}
    (hout : ∀ r out rest, read r = some (out, rest) → ∃ c ∈ out, P c) {s : Text}
    (hs : ∃ c ∈ s, P c) : ∃ c ∈ substitute read s, P c := by
  induction s using substitute_induct with
  | nil => exact hs
  | found c s out rest hread _ _ =>
    obtain ⟨d, hd, hP⟩ := hout _ _ _ hread
    exact ⟨d, List.mem_append_left _ hd, hP⟩
  | kept c s ih =>
    obtain ⟨d, hd, hP⟩ := hs
    rcases List.mem_cons.1 hd with rfl | hd
    · exact ⟨d, List.mem_cons_self, hP⟩
    · obtain ⟨e, he, hP⟩ := ih ⟨d, hd, hP⟩
      exact ⟨e, List.mem_cons_of_mem c he, hP⟩

end Substitute

/-! ## Replacing one word by another -/

/-- A text that does not contain a word keeps all it has when the word is replaced. -/
theorem replace_eq_self {old s : Text} (hs : contains old s = false) (new : Text) :
    replace old new s = s := by
  refine substitute_of_none fun r hr => ?_
  have hnone : after? old r = none := by
    rw [← Option.not_isSome_iff_eq_none, isSome_after?_iff]
    intro hbegins
    exact contains_eq_false_iff.1 hs (hbegins.isInfix.trans hr.isInfix)
  rw [hnone]
  rfl

/-- **A word is replaced on either side** of a character that it does not hold. -/
theorem replace_append_cons {old : Text} {c : Char} (hold : old ≠ []) (hc : c ∉ old)
    (new a b : Text) :
    replace old new (a ++ c :: b) = replace old new a ++ c :: replace old new b := by
  refine substitute_append_cons (fun a => ?_) ?_ a
  · rw [after?_append hc, Option.map_map, Option.map_map]
    rfl
  · obtain ⟨d, old, rfl⟩ := List.exists_cons_of_ne_nil hold
    rfl

theorem mem_of_mem_replace {old new s : Text} {c : Char} (hc : c ∈ replace old new s) :
    c ∈ s ∨ c ∈ new := by
  have hread : GoesOn fun s => (after? old s).map fun rest => (new, rest) := by
    intro s out rest h
    obtain ⟨behind, hbehind, heq⟩ := Option.map_eq_some_iff.1 h
    obtain ⟨-, rfl⟩ := Prod.mk.inj heq
    exact ⟨old, (after?_eq_some_iff.1 hbehind).symm⟩
  refine (mem_of_mem_substitute hread hc).imp_right ?_
  rintro ⟨r, out, rest, h, hout⟩
  obtain ⟨behind, -, heq⟩ := Option.map_eq_some_iff.1 h
  rwa [(Prod.mk.inj heq).1]

/-- Joined texts begin with the first of them. -/
theorem prefix_intercalate (sep part : Text) (parts : List Text) :
    part <+: sep.intercalate (part :: parts) := by
  cases parts with
  | nil => exact List.intercalate_singleton ▸ List.prefix_rfl
  | cons next parts =>
    rw [List.intercalate_cons_cons, List.append_assoc]
    exact List.prefix_append _ _

theorem intercalate_cons_part (sep : Text) (c : Char) (part : Text) (parts : List Text) :
    sep.intercalate ((c :: part) :: parts) = c :: sep.intercalate (part :: parts) := by
  cases parts with
  | nil => rw [List.intercalate_singleton, List.intercalate_singleton]
  | cons next parts => rw [List.intercalate_cons_cons, List.intercalate_cons_cons]; rfl

/-- **A word cuts every text** into parts that do not hold it. -/
theorem exists_eq_intercalate {word : Text} (hword : word ≠ []) (s : Text) :
    ∃ part parts, s = word.intercalate (part :: parts)
      ∧ ∀ p ∈ part :: parts, ¬ word <:+: p := by
  have hempty : ¬ word <:+: [] := by simpa using hword
  induction hn : s.length using Nat.strongRecOn generalizing s with
  | ind n ih =>
    rcases s with _ | ⟨c, s⟩
    · exact ⟨[], [], rfl, List.forall_mem_singleton.2 hempty⟩
    rw [List.length_cons] at hn
    by_cases hfront : word <+: c :: s
    · obtain ⟨rest, hs⟩ := hfront
      have hlength := congrArg List.length hs
      have hpositive := List.length_pos_iff.2 hword
      rw [List.length_append, List.length_cons] at hlength
      obtain ⟨part, parts, hrest, hparts⟩ := ih rest.length (by omega) rest rfl
      refine ⟨[], part :: parts, ?_, List.forall_mem_cons.2 ⟨hempty, hparts⟩⟩
      rw [List.intercalate_cons_cons, ← hrest, List.nil_append, hs]
    · obtain ⟨part, parts, hs, hparts⟩ := ih s.length (by omega) s rfl
      obtain ⟨hpart, hothers⟩ := List.forall_mem_cons.1 hparts
      refine ⟨c :: part, parts, by rw [intercalate_cons_part, ← hs],
        List.forall_mem_cons.2 ⟨fun hinfix => ?_, hothers⟩⟩
      rcases List.infix_cons_iff.1 hinfix with hbegins | hinfix
      · have hgrown : c :: part <+: c :: s := by
          rw [hs]
          exact (List.prefix_cons_inj c).2 (prefix_intercalate word part parts)
        exact hfront (hbegins.trans hgrown)
      · exact hpart hinfix

/-- A word whose first character does not come again in it is found behind any text that
does not hold it: no find can begin in that text and end in the word. -/
theorem replace_append_word {c : Char} {tail : Text} (hc : c ∉ tail) {part : Text}
    (hpart : ¬ c :: tail <:+: part) (new rest : Text) :
    replace (c :: tail) new (part ++ (c :: tail ++ rest))
      = part ++ (new ++ replace (c :: tail) new rest) := by
  induction part with
  | nil =>
    have hfound : after? (c :: tail) (c :: tail ++ rest) = some rest := after?_eq_some_iff.2 rfl
    rw [List.nil_append, List.nil_append]
    refine substitute_of_some (by rw [hfound]; rfl) ?_
    rw [List.length_append, List.length_cons]
    omega
  | cons d part ih =>
    have hnone : after? (c :: tail) (d :: part ++ (c :: tail ++ rest)) = none := by
      rw [← Option.not_isSome_iff_eq_none, isSome_after?_iff]
      rintro ⟨behind, heq⟩
      rcases List.append_eq_append_iff.1 heq with ⟨more, hword, -⟩ | ⟨more, hword, hmore⟩
      · exact hpart (hword ▸ (List.prefix_append _ _).isInfix)
      · rcases more with _ | ⟨e, more⟩
        · rw [List.append_nil] at hword
          exact hpart (hword ▸ List.infix_rfl)
        -- The word would go on into its own first character.
        · obtain rfl := (List.cons.inj hmore).1
          refine hc ?_
          rw [(List.cons.inj hword).2]
          exact List.mem_append_right _ List.mem_cons_self
    rw [replace, List.cons_append, substitute_cons_of_none (by rw [← List.cons_append, hnone]; rfl)]
    exact congrArg (d :: ·) (ih fun hinfix => hpart (List.infix_cons hinfix))

/-- **A word is replaced wherever it stands**: what takes its place joins the parts that it
cuts a text into. -/
theorem replace_intercalate {c : Char} {tail : Text} (hc : c ∉ tail) {parts : List Text}
    (hparts : ∀ part ∈ parts, ¬ c :: tail <:+: part) (new : Text) :
    replace (c :: tail) new ((c :: tail).intercalate parts) = new.intercalate parts := by
  induction parts with
  | nil => exact substitute_nil
  | cons part parts ih =>
    obtain ⟨hpart, hrest⟩ := List.forall_mem_cons.1 hparts
    cases parts with
    | nil =>
      rw [List.intercalate_singleton, List.intercalate_singleton]
      exact replace_eq_self (contains_eq_false_iff.2 hpart) new
    | cons next parts =>
      rw [List.intercalate_cons_cons, List.intercalate_cons_cons, List.append_assoc,
        List.append_assoc, replace_append_word hc hpart, ih hrest]

/-! ## Replacements with a digit at either end

What is written for a check begins with a digit and ends with one, and so does the number of
a copy. -/

theorem isBlank_of_isDigit {c : Char} (hc : c.isDigit = true) : isBlank c = false := by
  have hbounds : 48 ≤ c.toNat ∧ c.toNat ≤ 57 := by
    simpa [Char.isDigit, UInt32.le_iff_toNat_le] using hc
  have hnone : ∀ n, 48 ≤ n → n ≤ 57 → blankRanges.contains n = false := by
    intro n hlow hhigh
    interval_cases n <;> rfl
  exact hnone _ hbounds.1 hbounds.2

/-- A reader that goes on behind what it has read, and writes certain characters, of which
the first and the last are digits. -/
structure WritesBetweenDigits (written : Char → Bool) (read : Text → Option (Text × Text)) :
    Prop where
  goesOn : GoesOn read
  writes {s out rest : Text} (h : read s = some (out, rest)) : ∀ c ∈ out, written c = true
  digits {s out rest : Text} (h : read s = some (out, rest)) :
    (∃ first behind, out = first :: behind ∧ first.isDigit = true)
      ∧ ∃ front last, out = front ++ [last] ∧ last.isDigit = true

namespace WritesBetweenDigits

variable {written : Char → Bool} {read : Text → Option (Text × Text)}
  (hread : WritesBetweenDigits written read)

include hread

theorem substitute_ne_nil {s : Text} (hs : s ≠ []) : substitute read s ≠ [] := by
  have hout : ∀ r out rest, read r = some (out, rest) → ∃ c ∈ out, True := by
    intro r out rest hfound
    obtain ⟨⟨first, behind, rfl, -⟩, -⟩ := hread.digits hfound
    exact ⟨first, List.mem_cons_self, trivial⟩
  obtain ⟨c, hc⟩ := List.exists_mem_of_ne_nil s hs
  obtain ⟨d, hd, -⟩ := exists_mem_substitute hout ⟨c, hc, trivial⟩
  exact List.ne_nil_of_mem hd

theorem isBlank_of_head?_substitute {s : Text} (hs : ∀ c ∈ s.head?, isBlank c = false) :
    ∀ c ∈ (substitute read s).head?, isBlank c = false := by
  induction s using substitute_induct with
  | nil => exact hs
  | found c s out rest hfound _ _ =>
    obtain ⟨⟨first, behind, rfl, hfirst⟩, -⟩ := hread.digits hfound
    exact fun d hd => Option.mem_some_iff.1 hd ▸ isBlank_of_isDigit hfirst
  | kept c s _ => exact hs

theorem isBlank_of_getLast?_substitute {s : Text} (hs : ∀ c ∈ s.getLast?, isBlank c = false) :
    ∀ c ∈ (substitute read s).getLast?, isBlank c = false := by
  induction s using substitute_induct with
  | nil => exact hs
  | found c s out rest hfound _ ih =>
    obtain ⟨-, _, last, rfl, hlast⟩ := hread.digits hfound
    obtain ⟨front, hfront⟩ := hread.goesOn hfound
    have hrest : ∀ d ∈ rest.getLast?, isBlank d = false := by
      intro d hd
      refine hs d ?_
      rw [← hfront, List.getLast?_append, Option.mem_def.1 hd]
      rfl
    intro d hd
    rw [List.getLast?_append, Option.mem_def, Option.or_eq_some_iff] at hd
    rcases hd with hd | ⟨-, hd⟩
    · exact ih hrest d hd
    · rw [List.getLast?_concat, Option.some.injEq] at hd
      exact hd ▸ isBlank_of_isDigit hlast
  | kept c s ih =>
    by_cases hempty : s = []
    · subst hempty
      rwa [substitute_nil]
    · have hresult := hread.substitute_ne_nil hempty
      rw [List.getLast?_cons_of_ne_nil hempty] at hs
      rw [List.getLast?_cons_of_ne_nil hresult]
      exact ih hs

/-- Where the text is blank at neither end, the result is not either. -/
theorem isTrimmed_substitute {s : Text} (hs : IsTrimmed s) : IsTrimmed (substitute read s) :=
  ⟨hread.isBlank_of_head?_substitute hs.1, hread.isBlank_of_getLast?_substitute hs.2⟩

/-- A word without digits that begins the result began the text. -/
theorem prefix_of_prefix_substitute {word : Text} (hword : ∀ c ∈ word, c.isDigit = false)
    {s : Text} (h : word <+: substitute read s) : word <+: s := by
  induction s using substitute_induct generalizing word with
  | nil => exact h
  | found c s out rest hfound _ _ =>
    obtain ⟨⟨first, behind, rfl, hfirst⟩, -⟩ := hread.digits hfound
    cases word with
    | nil => exact List.nil_prefix
    | cons d word =>
      have hdigit := hword d List.mem_cons_self
      rw [List.cons_append, List.cons_prefix_cons] at h
      rw [h.1, hfirst] at hdigit
      cases hdigit
  | kept c s ih =>
    cases word with
    | nil => exact List.nil_prefix
    | cons d word =>
      rw [List.cons_prefix_cons] at h ⊢
      exact ⟨h.1, ih (fun e he => hword e (List.mem_cons_of_mem d he)) h.2⟩

/-- **Replacements put no word together** that holds no digit, and some character that is
not written. -/
theorem infix_of_infix_substitute {word : Text} (hword : ∀ c ∈ word, c.isDigit = false)
    (hforeign : ∃ c ∈ word, written c = false) {s : Text} (h : word <:+: substitute read s) :
    word <:+: s := by
  induction s using substitute_induct with
  | nil => exact h
  | found c s out rest hfound _ ih =>
    have hwrites := hread.writes hfound
    obtain ⟨-, front, last, rfl, hlast⟩ := hread.digits hfound
    -- The last digit of what is written cuts it off from what follows.
    have hcut : last ∉ word := by
      intro hmem
      rw [hword last hmem] at hlast
      cases hlast
    rw [List.append_assoc, List.singleton_append, infix_append_cons_iff hcut] at h
    rcases h with hout | hrest
    · obtain ⟨d, hd, hforeign⟩ := hforeign
      rw [hwrites d (List.mem_append_left _ (hout.subset hd))] at hforeign
      cases hforeign
    · exact (ih hrest).trans (hread.goesOn hfound).isInfix
  | kept c s ih =>
    rw [List.infix_cons_iff] at h
    -- A word that begins with the character that stays may go on into what was written, and
    -- then it has a digit.
    rcases h with hbegins | hrest
    · cases word with
      | nil => exact List.nil_infix
      | cons d word =>
        rw [List.cons_prefix_cons] at hbegins
        have hbehind := hread.prefix_of_prefix_substitute
          (fun e he => hword e (List.mem_cons_of_mem d he)) hbegins.2
        exact (List.cons_prefix_cons.2 ⟨hbegins.1, hbehind⟩).isInfix
    · exact List.infix_cons (ih hrest)

end WritesBetweenDigits

end DiceRoll.Text
