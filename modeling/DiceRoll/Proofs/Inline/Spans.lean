/-
What is rolled of a message, and what is left of it.

A message is read twice. Once for its rolls: a parenthesis, the escape, a command, a blank
and the rest of a line up to the first closing parenthesis. And once for what is left out
of it: a parenthesis, the escape and the rest of a line up to the first closing one,
whatever stands between. Every lemma of this file says of one of the two readers where it
finds something, and what becomes of the message there.

The rolls fix what should be left: the message falls apart into rolls and the texts between
them (`spans`), and without the rolls the texts between them are left, each less one space
at its end (`withoutRolls`). The two readings agree on a message in which what the second
finds is what the first finds (`OnlyRolls`). They part where parentheses open with the
escape and hold no roll, which are left out all the same, and where a line ends directly
behind a command, which is rolled and stays.
-/

import DiceRoll.Inline
import DiceRoll.Proofs.Text.Replacing

set_option autoImplicit false

namespace DiceRoll

open Text

/-! ## Collecting

The walk is that of replacing, without the text in between. -/

section Collect

variable {α : Type} {read : Text → Option (α × Text)}

@[simp] theorem Text.collect_nil : collect read [] = [] := by rw [collect]

theorem Text.collect_cons_of_none {c : Char} {s : Text} (h : read (c :: s) = none) :
    collect read (c :: s) = collect read s := by
  rw [collect, h]

theorem Text.collect_of_some {s rest : Text} {found : α} (h : read s = some (found, rest))
    (hlt : rest.length < s.length) : collect read s = found :: collect read rest := by
  obtain ⟨c, s, rfl⟩ := List.exists_cons_of_length_pos (Nat.zero_lt_of_lt hlt)
  rw [collect, h]
  exact if_pos hlt

end Collect

namespace Inline

/-! ## The two readers -/

/-- **The first closing parenthesis closes**, if it is on the same line. -/
theorem closed?_eq_some_iff {s inside rest : Text} :
    closed? s = some (inside, rest) ↔ s = inside ++ ')' :: rest ∧ ')' ∉ inside ∧ '\n' ∉ inside := by
  constructor
  · intro h
    have hrun : ')' ∉ s.takeWhile (· != ')') :=
      fun hmem => by simpa using List.mem_takeWhile_imp hmem
    have hsplit := List.takeWhile_append_dropWhile (p := (· != ')')) (l := s)
    have hhead := List.head?_dropWhile_not (· != ')') s
    rw [closed?] at h
    cases hdrop : s.dropWhile (· != ')') with
    | nil =>
      rw [hdrop] at h
      cases h
    | cons c behind =>
      rw [hdrop] at h hsplit hhead
      obtain rfl : c = ')' := by simpa using hhead
      simp only at h
      split at h
      · cases h
      · rename_i hline
        cases h
        exact ⟨hsplit.symm, hrun, by simpa using hline⟩
  · rintro ⟨rfl, hclose, hline⟩
    have hrun := bne_of_not_mem hclose
    have hstop : ∀ d ∈ (')' :: rest).head?, (d != ')') = false := by simp
    rw [closed?, takeWhile_run hrun hstop, dropWhile_run hrun hstop]
    simpa using hline

/-- What is read as parentheses that open with the escape. -/
theorem parenthesized?_eq_some_iff {escape s out rest : Text} :
    parenthesized? escape s = some (out, rest) ↔ out = [] ∧ ∃ inside,
      s = '(' :: (escape ++ inside) ++ ')' :: rest ∧ ')' ∉ inside ∧ '\n' ∉ inside := by
  rw [parenthesized?]
  constructor
  · intro h
    split at h
    · cases h
    · rename_i behind hafter
      obtain ⟨⟨inside, rest'⟩, hclosed, heq⟩ := Option.map_eq_some_iff.1 h
      cases heq
      obtain ⟨rfl, hclose, hline⟩ := closed?_eq_some_iff.1 hclosed
      refine ⟨rfl, inside, ?_, hclose, hline⟩
      rw [after?_eq_some_iff.1 hafter]
      simp
  · rintro ⟨rfl, inside, rfl, hclose, hline⟩
    have hafter : after? ('(' :: escape) ('(' :: (escape ++ inside) ++ ')' :: rest)
        = some (inside ++ ')' :: rest) := after?_eq_some_iff.2 (by simp)
    rw [hafter]
    simp [closed?_eq_some_iff.2 ⟨rfl, hclose, hline⟩]

theorem rollWith?_eq_some_iff {escape word s body rest : Text} :
    rollWith? escape word s = some (body, rest) ↔ ∃ c inside, body = escape ++ word ++ c :: inside
      ∧ s = '(' :: body ++ ')' :: rest ∧ isBlank c = true ∧ ')' ∉ inside ∧ '\n' ∉ inside := by
  rw [rollWith?]
  constructor
  · intro h
    split at h
    · rename_i c behind hafter
      split at h
      · rename_i hblank
        obtain ⟨⟨inside, rest'⟩, hclosed, heq⟩ := Option.map_eq_some_iff.1 h
        cases heq
        obtain ⟨rfl, hclose, hline⟩ := closed?_eq_some_iff.1 hclosed
        refine ⟨c, inside, rfl, ?_, hblank, hclose, hline⟩
        rw [after?_eq_some_iff.1 hafter]
        simp
      · cases h
    · cases h
  · rintro ⟨c, inside, rfl, rfl, hblank, hclose, hline⟩
    have hafter : after? ('(' :: (escape ++ word))
          ('(' :: (escape ++ word ++ c :: inside) ++ ')' :: rest)
        = some (c :: (inside ++ ')' :: rest)) := after?_eq_some_iff.2 (by simp)
    rw [hafter]
    simp [hblank, closed?_eq_some_iff.2 ⟨rfl, hclose, hline⟩]

/-- Whether a text is a roll as it is written between parentheses: the escape, a command, a
blank, and no closing parenthesis, with no end of a line behind the blank. -/
def IsRoll (escape body : Text) : Prop :=
  ∃ word, (word = ['r', 'o', 'l', 'l'] ∨ word = ['r']) ∧ ∃ c inside,
    body = escape ++ word ++ c :: inside ∧ isBlank c = true ∧ ')' ∉ inside ∧ '\n' ∉ inside

/-- Between the escape and the inside of a roll stand the letters of the command and a
blank. -/
theorem IsRoll.exists_eq {escape body : Text} (h : IsRoll escape body) :
    ∃ head inside, body = escape ++ (head ++ inside)
      ∧ (∀ d, d ∉ ['r', 'o', 'l'] → isBlank d = false → d ∉ head)
      ∧ ')' ∉ inside ∧ '\n' ∉ inside := by
  obtain ⟨word, hword, c, inside, rfl, hblank, hclose, hline⟩ := h
  refine ⟨word ++ [c], inside, by simp, fun d hletter hd hmem => ?_, hclose, hline⟩
  rcases List.mem_append.1 hmem with hmem | hmem
  · refine hletter ?_
    rcases hword with rfl | rfl <;> simp_all
  · rw [List.mem_singleton.1 hmem, hblank] at hd
    cases hd

/-- **What is read as a roll.** The two commands are not in each other's way. -/
theorem roll?_eq_some_iff {escape s body rest : Text} :
    roll? escape s = some (body, rest) ↔ IsRoll escape body ∧ s = '(' :: body ++ ')' :: rest := by
  rw [roll?, Option.or_eq_some_iff]
  constructor
  · rintro (h | ⟨-, h⟩)
    · obtain ⟨c, inside, hbody, hs, hmore⟩ := rollWith?_eq_some_iff.1 h
      exact ⟨⟨_, .inl rfl, c, inside, hbody, hmore⟩, hs⟩
    · obtain ⟨c, inside, hbody, hs, hmore⟩ := rollWith?_eq_some_iff.1 h
      exact ⟨⟨_, .inr rfl, c, inside, hbody, hmore⟩, hs⟩
  · rintro ⟨⟨word, rfl | rfl, c, inside, hbody, hmore⟩, hs⟩
    · exact .inl (rollWith?_eq_some_iff.2 ⟨c, inside, hbody, hs, hmore⟩)
    · refine .inr ⟨?_, rollWith?_eq_some_iff.2 ⟨c, inside, hbody, hs, hmore⟩⟩
      -- The long command goes on with a letter where the short one has its blank.
      rw [Option.eq_none_iff_forall_not_mem]
      rintro ⟨body', rest'⟩ hlong
      obtain ⟨c', inside', hbody', hs', -⟩ := rollWith?_eq_some_iff.1 hlong
      rw [hs', hbody', hbody] at hs
      simp only [List.cons_append, List.append_assoc, List.cons.injEq, true_and,
        List.append_cancel_left_eq, List.nil_append] at hs
      rw [← hs.1] at hmore
      exact absurd hmore.1 (by decide)

theorem length_lt_of_roll? {escape s body rest : Text} (h : roll? escape s = some (body, rest)) :
    rest.length < s.length := by
  obtain ⟨-, rfl⟩ := roll?_eq_some_iff.1 h
  simp only [List.length_append, List.length_cons]
  omega

theorem length_lt_of_parenthesized? {escape s out rest : Text}
    (h : parenthesized? escape s = some (out, rest)) : rest.length < s.length := by
  obtain ⟨-, inside, rfl, -⟩ := parenthesized?_eq_some_iff.1 h
  simp only [List.length_append, List.length_cons]
  omega

/-- A roll and the parentheses read in its place end with the same parenthesis. -/
theorem rest_eq_of_roll?_of_parenthesized? {escape s body out rest rest' : Text}
    (hroll : roll? escape s = some (body, rest))
    (hcut : parenthesized? escape s = some (out, rest')) : rest = rest' := by
  obtain ⟨hisRoll, rfl⟩ := roll?_eq_some_iff.1 hroll
  obtain ⟨head, inside, rfl, hhead, hclose, -⟩ := hisRoll.exists_eq
  obtain ⟨-, inside', hs, hclose', -⟩ := parenthesized?_eq_some_iff.1 hcut
  have hbody : ')' ∉ head ++ inside :=
    List.not_mem_append (hhead ')' (by decide) (by decide)) hclose
  simp only [List.cons_append, List.append_assoc, List.cons.injEq, true_and,
    List.append_cancel_left_eq] at hs
  have hdrop := congrArg (List.dropWhile (· != ')')) hs
  have hstop : ∀ (r : Text), ∀ d ∈ (')' :: r).head?, (d != ')') = false := by simp
  rw [← List.append_assoc, dropWhile_run (bne_of_not_mem hbody) (hstop rest),
    dropWhile_run (bne_of_not_mem hclose') (hstop rest')] at hdrop
  exact (List.cons.inj hdrop).2

/-- A roll is read as parentheses too, unless its line ends behind the command. -/
theorem parenthesized?_of_roll {escape body : Text} (hbody : IsRoll escape body)
    (hline : '\n' ∉ body) (rest : Text) :
    parenthesized? escape ('(' :: body ++ ')' :: rest) = some ([], rest) := by
  obtain ⟨head, inside, rfl, hhead, hclose, -⟩ := hbody.exists_eq
  refine parenthesized?_eq_some_iff.2 ⟨rfl, head ++ inside, rfl, ?_, ?_⟩
  · exact List.not_mem_append (hhead ')' (by decide) (by decide)) hclose
  · exact fun hmem => hline (List.mem_append_right escape hmem)

/-! ## The two readings -/

section Reading

variable {escape s : Text}

theorem bodies_nil : bodies escape [] = [] := collect_nil

theorem bodies_of_some {body rest : Text} (h : roll? escape s = some (body, rest)) :
    bodies escape s = body :: bodies escape rest :=
  collect_of_some h (length_lt_of_roll? h)

theorem bodies_cons_of_none {c : Char} (h : roll? escape (c :: s) = none) :
    bodies escape (c :: s) = bodies escape s :=
  collect_cons_of_none h

theorem remainder_nil : remainder escape [] = [] := substitute_nil

/-- What begins with no parenthesis is not read, and a space only in front of one. -/
theorem cut?_cons (c : Char) (s : Text) :
    cut? escape (c :: s)
      = if c = ' ' then parenthesized? escape s else parenthesized? escape (c :: s) := by
  split
  · rename_i hc
    rw [hc, cut?]
  · rename_i hc
    rw [cut?]
    simpa using hc

theorem head_of_parenthesized? {c : Char} (h : (parenthesized? escape (c :: s)).isSome = true) :
    c = '(' := by
  obtain ⟨⟨out, rest⟩, h⟩ := Option.isSome_iff_exists.1 h
  obtain ⟨-, inside, hs, -⟩ := parenthesized?_eq_some_iff.1 h
  exact (List.cons.inj hs).1

theorem cut?_of_parenthesized? {out rest : Text} (h : parenthesized? escape s = some (out, rest)) :
    cut? escape s = some (out, rest) := by
  cases s with
  | nil => exact absurd (length_lt_of_parenthesized? h) (Nat.not_lt_zero _)
  | cons c s =>
    have hc : c = '(' := head_of_parenthesized? (by rw [h]; rfl)
    rw [cut?_cons, if_neg (by rw [hc]; decide), h]

theorem remainder_of_parenthesized? {out rest : Text}
    (h : parenthesized? escape s = some (out, rest)) :
    remainder escape s = remainder escape rest := by
  rw [remainder, substitute_of_some (cut?_of_parenthesized? h) (length_lt_of_parenthesized? h),
    (parenthesized?_eq_some_iff.1 h).1, List.nil_append, remainder]

theorem remainder_space_of_parenthesized? {out rest : Text}
    (h : parenthesized? escape s = some (out, rest)) :
    remainder escape (' ' :: s) = remainder escape rest := by
  have hcut : cut? escape (' ' :: s) = some (out, rest) := by rw [cut?_cons, if_pos rfl, h]
  have hlt : rest.length < (' ' :: s).length :=
    (length_lt_of_parenthesized? h).trans (Nat.lt_succ_self _)
  rw [remainder, substitute_of_some hcut hlt, (parenthesized?_eq_some_iff.1 h).1, List.nil_append,
    remainder]

theorem remainder_cons_of_none {c : Char} (h : cut? escape (c :: s) = none) :
    remainder escape (c :: s) = c :: remainder escape s :=
  substitute_cons_of_none h

end Reading

/-! ## The message without its rolls -/

/-- A roll of a message, and what stands between it and the roll before it. -/
structure Span where
  gap : Text
  body : Text
deriving DecidableEq, Repr

/-- Spans with one more character in front. -/
def push (c : Char) : List Span × Text → List Span × Text
  | ([], last) => ([], c :: last)
  | (span :: more, last) => ({ span with gap := c :: span.gap } :: more, last)

/-- A message as its rolls, each with what stands in front of it, and what stands behind
the last one. -/
def spans (escape : Text) : Text → List Span × Text
  | [] => ([], [])
  | c :: s =>
    match roll? escape (c :: s) with
    | some (body, rest) =>
      if rest.length < s.length + 1 then
        (⟨[], body⟩ :: (spans escape rest).1, (spans escape rest).2)
      else push c (spans escape s)
    | none => push c (spans escape s)
termination_by s => s.length

/-- A text without the space at its end, if it has one there. -/
def withoutSpace (s : Text) : Text := if s.getLast? = some ' ' then s.dropLast else s

/-- The message without its rolls, and without one space in front of each. -/
def withoutRolls (escape message : Text) : Text :=
  (spans escape message).1.flatMap (fun span => withoutSpace span.gap) ++ (spans escape message).2

section Spans

variable {escape s : Text}

theorem spans_nil : spans escape [] = ([], []) := by rw [spans]

theorem spans_of_some {body rest : Text} (h : roll? escape s = some (body, rest)) :
    spans escape s = (⟨[], body⟩ :: (spans escape rest).1, (spans escape rest).2) := by
  have hlt := length_lt_of_roll? h
  obtain ⟨c, s, rfl⟩ := List.exists_cons_of_length_pos (Nat.zero_lt_of_lt hlt)
  rw [spans, h]
  exact if_pos hlt

theorem spans_cons_of_none {c : Char} (h : roll? escape (c :: s) = none) :
    spans escape (c :: s) = push c (spans escape s) := by
  rw [spans, h]

/-- **Induction along the rolls of a message.** -/
theorem rollInduction (escape : Text) {motive : Text → Prop} (nil : motive [])
    (roll : ∀ s body rest, roll? escape s = some (body, rest) → motive rest → motive s)
    (other : ∀ c s, roll? escape (c :: s) = none → motive s → motive (c :: s)) (s : Text) :
    motive s := by
  induction hn : s.length using Nat.strongRecOn generalizing s with
  | ind n ih =>
    cases hroll : roll? escape s with
    | some found =>
      obtain ⟨body, rest⟩ := found
      exact roll s body rest hroll (ih rest.length (hn ▸ length_lt_of_roll? hroll) rest rfl)
    | none =>
      cases s with
      | nil => exact nil
      | cons c s =>
        rw [List.length_cons] at hn
        exact other c s hroll (ih s.length (by omega) s rfl)

/-- **The spans are those of the rolls that are found**, in order. -/
theorem map_body_spans (message : Text) :
    (spans escape message).1.map Span.body = bodies escape message := by
  induction message using rollInduction escape with
  | nil => rw [spans_nil, bodies_nil, List.map_nil]
  | roll s body rest hroll ih => rw [spans_of_some hroll, bodies_of_some hroll, List.map_cons, ih]
  | other c s hroll ih =>
    rw [spans_cons_of_none hroll, bodies_cons_of_none hroll, ← ih]
    obtain ⟨_ | ⟨span, more⟩, last⟩ := spans escape s <;> rfl

/-- **The spans are the message**, each roll in its parentheses. -/
theorem join_spans (message : Text) :
    (spans escape message).1.flatMap (fun span => span.gap ++ '(' :: span.body ++ [')'])
      ++ (spans escape message).2 = message := by
  induction message using rollInduction escape with
  | nil => rw [spans_nil, List.flatMap_nil, List.append_nil]
  | roll s body rest hroll ih =>
    rw [spans_of_some hroll, (roll?_eq_some_iff.1 hroll).2]
    simpa using ih
  | other c s hroll ih =>
    rw [spans_cons_of_none hroll]
    nth_rewrite 3 [← ih]
    obtain ⟨_ | ⟨span, more⟩, last⟩ := spans escape s <;> simp [push]

theorem withoutRolls_nil : withoutRolls escape [] = [] := by rw [withoutRolls, spans_nil]; rfl

theorem withoutRolls_of_some {body rest : Text} (h : roll? escape s = some (body, rest)) :
    withoutRolls escape s = withoutRolls escape rest := by
  rw [withoutRolls, withoutRolls, spans_of_some h]
  rfl

/-- Nothing stands between the front of a message and its first roll only if the message
begins with a roll. -/
theorem isSome_roll?_of_gap {span : Span} {more : List Span} {last : Text}
    (h : spans escape s = (span :: more, last)) (hgap : span.gap = []) :
    (roll? escape s).isSome = true := by
  cases hroll : roll? escape s with
  | some found => rfl
  | none =>
    cases s with
    | nil =>
      rw [spans_nil] at h
      cases h
    | cons c s =>
      rw [spans_cons_of_none hroll] at h
      generalize spans escape s = found at h
      obtain ⟨_ | ⟨first, behind⟩, last'⟩ := found <;> cases h
      cases hgap

theorem withoutRolls_space_of_some {body rest : Text} (h : roll? escape s = some (body, rest)) :
    withoutRolls escape (' ' :: s) = withoutRolls escape rest := by
  have hnone : roll? escape (' ' :: s) = none := by
    rw [Option.eq_none_iff_forall_not_mem]
    rintro ⟨body', rest'⟩ hroll
    exact absurd (List.cons.inj (roll?_eq_some_iff.1 hroll).2).1 (by decide)
  rw [withoutRolls, spans_cons_of_none hnone, spans_of_some h]
  rfl

theorem withoutRolls_cons {c : Char} (hnone : roll? escape (c :: s) = none)
    (hspace : c = ' ' → roll? escape s = none) :
    withoutRolls escape (c :: s) = c :: withoutRolls escape s := by
  rw [withoutRolls, withoutRolls, spans_cons_of_none hnone]
  generalize hspans : spans escape s = found
  obtain ⟨_ | ⟨span, more⟩, last⟩ := found
  · rfl
  · have hkept : withoutSpace (c :: span.gap) = c :: withoutSpace span.gap := by
      cases hgap : span.gap with
      | nil =>
        have hc : c ≠ ' ' := fun hc => by
          have hsome := isSome_roll?_of_gap hspans hgap
          rw [hspace hc] at hsome
          cases hsome
        simp [withoutSpace, hc]
      | cons d gap =>
        rw [withoutSpace, withoutSpace, List.getLast?_cons_cons]
        split <;> rfl
    simp [push, hkept]

end Spans

/-! ## Where the two readings agree -/

/-- A message in which all parentheses are rolls that open with the escape outside of a
roll and close on the same line, and in which no line ends behind a command. -/
inductive OnlyRolls (escape : Text) : Text → Prop where
  | nil : OnlyRolls escape []
  | roll {s body rest : Text} (hroll : roll? escape s = some (body, rest))
      (hcut : (parenthesized? escape s).isSome = true) (hrest : OnlyRolls escape rest) :
      OnlyRolls escape s
  | other {c : Char} {s : Text} (hroll : roll? escape (c :: s) = none)
      (hcut : parenthesized? escape (c :: s) = none) (hs : OnlyRolls escape s) :
      OnlyRolls escape (c :: s)

/-- What holds no parenthesis does not matter. -/
theorem OnlyRolls.append {escape s : Text} (front : Text) (hfront : '(' ∉ front)
    (h : OnlyRolls escape s) : OnlyRolls escape (front ++ s) := by
  induction front with
  | nil => exact h
  | cons c front ih =>
    rw [List.mem_cons, not_or] at hfront
    refine .other ?_ ?_ (ih hfront.2)
    · rw [Option.eq_none_iff_forall_not_mem]
      rintro ⟨body, rest⟩ hroll
      exact hfront.1 (List.cons.inj (roll?_eq_some_iff.1 hroll).2).1.symm
    · rw [Option.eq_none_iff_forall_not_mem]
      rintro ⟨out, rest⟩ hcut
      exact hfront.1 (head_of_parenthesized? (Option.isSome_of_mem hcut)).symm

theorem OnlyRolls.roll_append {escape s : Text} (body : Text) (hbody : IsRoll escape body)
    (hline : '\n' ∉ body) (h : OnlyRolls escape s) :
    OnlyRolls escape ('(' :: body ++ ')' :: s) :=
  .roll (roll?_eq_some_iff.2 ⟨hbody, rfl⟩)
    (Option.isSome_of_mem (parenthesized?_of_roll hbody hline s)) h

/-- The first place of such a message is read in the same way both times. -/
theorem OnlyRolls.head {escape s : Text} (h : OnlyRolls escape s) :
    (roll? escape s = none ∧ parenthesized? escape s = none)
      ∨ ∃ body rest, roll? escape s = some (body, rest)
          ∧ parenthesized? escape s = some ([], rest) := by
  cases h with
  | nil => exact .inl ⟨rfl, rfl⟩
  | @roll _ body rest hroll hcut _ =>
    obtain ⟨⟨out, rest'⟩, hcut⟩ := Option.isSome_iff_exists.1 hcut
    obtain rfl := rest_eq_of_roll?_of_parenthesized? hroll hcut
    obtain rfl := (parenthesized?_eq_some_iff.1 hcut).1
    exact .inr ⟨body, rest, hroll, hcut⟩
  | other hroll hcut _ => exact .inl ⟨hroll, hcut⟩

/-- **Nothing but the rolls is left out** of a message that has no other parentheses with
the escape. -/
theorem remainder_eq_withoutRolls {escape message : Text} (h : OnlyRolls escape message) :
    remainder escape message = withoutRolls escape message := by
  induction h with
  | nil => rw [remainder_nil, withoutRolls_nil]
  | @roll s body rest hroll hcut hrest ih =>
    obtain ⟨⟨out, rest'⟩, hcut⟩ := Option.isSome_iff_exists.1 hcut
    obtain rfl := rest_eq_of_roll?_of_parenthesized? hroll hcut
    rw [remainder_of_parenthesized? hcut, withoutRolls_of_some hroll, ih]
  | @other c s hroll hcut hs ih =>
    rcases hs.head with ⟨hroll', hcut'⟩ | ⟨body, rest, hroll', hcut'⟩
    · have hnone : cut? escape (c :: s) = none := by
        rw [cut?_cons]
        split
        · exact hcut'
        · exact hcut
      rw [remainder_cons_of_none hnone, withoutRolls_cons hroll fun _ => hroll', ih]
    -- A roll comes next, and a space in front of it goes with it.
    · rw [remainder_of_parenthesized? hcut', withoutRolls_of_some hroll'] at ih
      by_cases hc : c = ' '
      · rw [hc, remainder_space_of_parenthesized? hcut', withoutRolls_space_of_some hroll', ih]
      · have hnone : cut? escape (c :: s) = none := by rw [cut?_cons, if_neg hc, hcut]
        rw [remainder_cons_of_none hnone, withoutRolls_cons hroll fun h => absurd h hc,
          remainder_of_parenthesized? hcut', withoutRolls_of_some hroll', ih]

end Inline

end DiceRoll
