/-
Messages with rolls in them.

The rolls of a message are rolled together and the message is shown without them. This file
says when what is shown is the message less what was rolled (`Session.remainder_of_inline`),
and which command a roll in a message stands for (`Session.inline_command`).

Neither answer is the simplest one. Parentheses that open with the escape are left out of
the message whether they hold a roll or not. And a roll ends at the first closing
parenthesis, so that an expression with parentheses of its own is cut off at the first of
them that closes: the command that is rolled is the front of the expression, and the rest of
it is read as message.
-/

import DiceRoll.Proofs.Inline.Spans
import DiceRoll.Proofs.Source.Draws
import Mathlib

set_option autoImplicit false

namespace DiceRoll

open Inline

variable {σ : Type} [Source σ]

namespace Session

/-- A message with rolls is read as the list of them. -/
theorem inline_of_ne_nil (t : Session σ) {message : Text}
    (h : bodies t.setup.escape message ≠ []) :
    t.inline message
      = (some ((t.parse ([';', ' '].intercalate (bodies t.setup.escape message))).1,
          remainder t.setup.escape message),
        (t.parse ([';', ' '].intercalate (bodies t.setup.escape message))).2) := by
  rw [inline]
  split
  · exact absurd ‹_› h
  · rfl

/-- A message without rolls is none of the program's business. -/
theorem inline_of_nil (t : Session σ) {message : Text}
    (h : bodies t.setup.escape message = []) : t.inline message = (none, t) := by
  rw [inline, h]

end Session

/-! ## What is left of a message -/

/-- **What is left of a message is the message without what was rolled**, where there is
nothing else in it for the second reading to find: the message is its rolls and the texts
between them, the rolls are those that were rolled, in order, and each was left out with
one space in front of it. -/
theorem Session.remainder_of_inline {t t' : Session σ} {message left : Text} {roll : Roll}
    (h : t.inline message = (some (roll, left), t')) (honly : OnlyRolls t.setup.escape message) :
    (spans t.setup.escape message).1.flatMap (fun span => span.gap ++ '(' :: span.body ++ [')'])
        ++ (spans t.setup.escape message).2 = message
      ∧ (roll, t') = t.parse
          ([';', ' '].intercalate ((spans t.setup.escape message).1.map Span.body))
      ∧ left = withoutRolls t.setup.escape message := by
  have hne : bodies t.setup.escape message ≠ [] := by
    intro hnil
    rw [t.inline_of_nil hnil] at h
    cases h
  rw [t.inline_of_ne_nil hne] at h
  cases h
  exact ⟨join_spans message, by rw [map_body_spans], remainder_eq_withoutRolls honly⟩

/-- Two rolls, one of them with the long command, and parentheses that are not for the
program. -/
theorem Session.remainder_of_inline_twice :
    "hit and, (now)!".toList
      = withoutRolls ['/'] "hit (/r 1d6) and (/roll 1d8), (now)!".toList := by
  have honly : OnlyRolls ['/'] "hit (/r 1d6) and (/roll 1d8), (now)!".toList := by
    have hlast : OnlyRolls ['/'] "(now)!".toList :=
      .other rfl rfl (OnlyRolls.append "now)!".toList (by decide) .nil)
    have hsecond : OnlyRolls ['/'] "(/roll 1d8), (now)!".toList :=
      .roll_append "/roll 1d8".toList
        ⟨_, .inl rfl, ' ', "1d8".toList, rfl, rfl, by decide, by decide⟩ (by decide)
        (OnlyRolls.append ", ".toList (by decide) hlast)
    have hfirst : OnlyRolls ['/'] "(/r 1d6) and (/roll 1d8), (now)!".toList :=
      .roll_append "/r 1d6".toList
        ⟨_, .inr rfl, ' ', "1d6".toList, rfl, rfl, by decide, by decide⟩ (by decide)
        (OnlyRolls.append " and ".toList (by decide) hsecond)
    exact OnlyRolls.append "hit ".toList (by decide) hfirst
  have hrolls : bodies ['/'] "hit (/r 1d6) and (/roll 1d8), (now)!".toList ≠ [] := by
    have hbodies : bodies ['/'] "hit (/r 1d6) and (/roll 1d8), (now)!".toList
        = ["/r 1d6".toList, "/roll 1d8".toList] := by cbv
    rw [hbodies]
    exact List.cons_ne_nil _ _
  have hleft : remainder ['/'] "hit (/r 1d6) and (/roll 1d8), (now)!".toList
      = "hit and, (now)!".toList := by cbv
  have hinline := (Session.ofSource (⟨[4, 5], 0⟩ : Recording)).inline_of_ne_nil hrolls
  rw [show (Session.ofSource (⟨[4, 5], 0⟩ : Recording)).setup.escape = ['/'] from rfl,
    hleft] at hinline
  exact (Session.remainder_of_inline hinline honly).2.2

/-- Parentheses that open with the escape are left out with the rolls, though nothing in
them was rolled. -/
theorem Session.not_forall_remainder_of_inline :
    ¬ ∀ (t t' : Session Recording) (message left : Text) (roll : Roll),
      t.inline message = (some (roll, left), t') →
        left = withoutRolls t.setup.escape message := by
  intro h
  have hbodies : bodies ['/'] "(/r 1d6) (/me waves)".toList = ["/r 1d6".toList] := by cbv
  have hleft : remainder ['/'] "(/r 1d6) (/me waves)".toList = [] := by cbv
  have hwithout : withoutRolls ['/'] "(/r 1d6) (/me waves)".toList = " (/me waves)".toList := by
    cbv
  have hrolls : bodies ['/'] "(/r 1d6) (/me waves)".toList ≠ [] := by
    rw [hbodies]
    exact List.cons_ne_nil _ _
  have heq := h _ _ _ _ _ ((Session.ofSource (⟨[4], 0⟩ : Recording)).inline_of_ne_nil hrolls)
  rw [show (Session.ofSource (⟨[4], 0⟩ : Recording)).setup.escape = ['/'] from rfl, hleft,
    hwithout] at heq
  cases heq

/-! ## The command that a roll stands for -/

namespace Inline

/-- The short command with an expression, as it is typed. -/
def command (escape e : Text) : Text := escape ++ 'r' :: ' ' :: e

theorem isRoll_command {escape e : Text} (hclose : ')' ∉ e) (hline : '\n' ∉ e) :
    IsRoll escape (command escape e) :=
  ⟨['r'], .inr rfl, ' ', e, by simp [command], by decide, hclose, hline⟩

/-- A command in parentheses is the first roll of what it stands in front of, however its
blanks and commands are written. -/
theorem bodies_command (escape : Text) {e : Text} (hclose : ')' ∉ e) (hline : '\n' ∉ e)
    (rest : Text) :
    bodies escape ('(' :: command escape e ++ ')' :: rest)
      = command escape e :: bodies escape rest :=
  bodies_of_some (roll?_eq_some_iff.2 ⟨isRoll_command hclose hline, rfl⟩)

theorem remainder_command {escape e : Text} (hclose : ')' ∉ e) (hline : '\n' ∉ e) (rest : Text) :
    remainder escape ('(' :: command escape e ++ ')' :: rest) = remainder escape rest := by
  refine remainder_of_parenthesized? (parenthesized?_eq_some_iff.2
    ⟨rfl, 'r' :: ' ' :: e, by simp [command], by simp [hclose], by simp [hline]⟩)

/-- Whether every parenthesis of a text has its other half in it. -/
def IsBalanced (s : Text) : Prop :=
  s.count '(' = s.count ')' ∧ ∀ front, front <+: s → front.count ')' ≤ front.count '('

instance (s : Text) : Decidable (IsBalanced s) :=
  decidable_of_iff (s.count '(' = s.count ')'
    ∧ ∀ front ∈ s.inits, front.count ')' ≤ front.count '(')
    (by simp only [IsBalanced, List.mem_inits])

/-- Parentheses that are left out hold one that closes and at least one that opens, so no
more of those that open are left than of those that close, if it was so before. -/
theorem count_remainder_le {escape : Text} (hescape : '(' ∉ escape ∧ ')' ∉ escape) (s : Text) :
    s.count ')' + (remainder escape s).count '('
      ≤ s.count '(' + (remainder escape s).count ')' := by
  rw [remainder]
  induction s using Text.substitute_induct with
  | nil => simp
  | found c s out rest hcut _ ih =>
    have hparts : out = [] ∧ ∃ inside gap, ')' ∉ inside ∧ (gap = [] ∨ gap = [' '])
        ∧ c :: s = gap ++ ('(' :: (escape ++ inside) ++ ')' :: rest) := by
      rw [cut?_cons] at hcut
      split at hcut
      · rename_i hc
        obtain ⟨hout, inside, hs, hclose, -⟩ := parenthesized?_eq_some_iff.1 hcut
        exact ⟨hout, inside, [' '], hclose, .inr rfl, by rw [hc, hs]; rfl⟩
      · obtain ⟨hout, inside, hs, hclose, -⟩ := parenthesized?_eq_some_iff.1 hcut
        exact ⟨hout, inside, [], hclose, .inl rfl, hs⟩
    obtain ⟨rfl, inside, gap, hclose, hgap, hs⟩ := hparts
    have hgap' : gap.count '(' = 0 ∧ gap.count ')' = 0 := by
      rcases hgap with rfl | rfl <;> decide
    rw [hs]
    simp only [List.count_append, List.count_cons, hgap', List.count_eq_zero.2 hescape.2,
      List.count_eq_zero.2 hclose, List.nil_append, Char.reduceBEq, beq_self_eq_true,
      if_true, Bool.false_eq_true, if_false]
    omega
  | kept c s ih =>
    simp only [List.count_cons]
    omega

end Inline

/-- **A roll in a message ends at the first closing parenthesis.** An expression without one
is rolled as the command that is typed, and nothing is left of the message. Of an expression
with one, the front is rolled as the command, and what stands behind is read as message
together with the parenthesis that was meant to close the roll; if the parentheses of the
expression are balanced, something of it is left, whatever else was rolled. -/
theorem Session.inline_command (t : Session σ) {e : Text} (hline : '\n' ∉ e) :
    (')' ∉ e →
      t.inline ('(' :: command t.setup.escape e ++ [')'])
        = (some ((t.parse (command t.setup.escape e)).1, []),
          (t.parse (command t.setup.escape e)).2))
    ∧ ∀ front behind, e = front ++ ')' :: behind → ')' ∉ front →
      let rolls := [';', ' '].intercalate
        (command t.setup.escape front :: bodies t.setup.escape (behind ++ [')']))
      t.inline ('(' :: command t.setup.escape e ++ [')'])
          = (some ((t.parse rolls).1, remainder t.setup.escape (behind ++ [')'])),
            (t.parse rolls).2)
        ∧ (IsBalanced e → '(' ∉ t.setup.escape → ')' ∉ t.setup.escape →
          remainder t.setup.escape (behind ++ [')']) ≠ []) := by
  refine ⟨fun hclose => ?_, ?_⟩
  · have hbodies := bodies_command t.setup.escape hclose hline []
    rw [bodies_nil] at hbodies
    rw [t.inline_of_ne_nil (by rw [hbodies]; exact List.cons_ne_nil _ _), hbodies,
      remainder_command hclose hline, remainder_nil, List.intercalate_singleton]
  · rintro front behind rfl hclose
    have hline' : '\n' ∉ front := fun hmem => hline (List.mem_append_left _ hmem)
    have hmessage : '(' :: command t.setup.escape (front ++ ')' :: behind) ++ [')']
        = '(' :: command t.setup.escape front ++ ')' :: (behind ++ [')']) := by
      simp [command]
    have hbodies := bodies_command t.setup.escape hclose hline' (behind ++ [')'])
    constructor
    · rw [hmessage, t.inline_of_ne_nil (by rw [hbodies]; exact List.cons_ne_nil _ _), hbodies,
        remainder_command hclose hline']
    · rintro ⟨hcount, hprefix⟩ hopen hshut hnil
      -- The front opens one more than it closes, so what is left closes more than it opens.
      have hfront := hprefix (front ++ [')']) ⟨behind, by simp⟩
      have hle := count_remainder_le ⟨hopen, hshut⟩ (behind ++ [')'])
      rw [hnil] at hle
      simp only [List.count_append, List.count_cons, List.count_nil, List.count_eq_zero.2 hclose,
        Char.reduceBEq, beq_self_eq_true, if_true, Bool.false_eq_true, if_false]
        at hcount hfront hle
      omega

/-- A sum without parentheses, and a product with a sum in parentheses. -/
theorem Session.inline_command_of_sum :
    (Session.ofSource (⟨[14], 0⟩ : Recording)).inline "(/r 1d20 + 3)".toList
        = (some (((Session.ofSource (⟨[14], 0⟩ : Recording)).parse "/r 1d20 + 3".toList).1, []),
          ((Session.ofSource (⟨[14], 0⟩ : Recording)).parse "/r 1d20 + 3".toList).2)
      ∧ (Session.ofSource (⟨[4], 0⟩ : Recording)).inline "(/r (1d6+2)*3)".toList
        = (some (((Session.ofSource (⟨[4], 0⟩ : Recording)).parse "/r (1d6+2".toList).1,
            "*3)".toList),
          ((Session.ofSource (⟨[4], 0⟩ : Recording)).parse "/r (1d6+2".toList).2)
      ∧ remainder ['/'] "*3)".toList ≠ [] := by
  constructor
  · exact ((Session.ofSource (⟨[14], 0⟩ : Recording)).inline_command (e := "1d20 + 3".toList)
      (by decide)).1 (by decide)
  · have hrolls : [';', ' '].intercalate
        (command ['/'] "(1d6+2".toList :: bodies ['/'] "*3)".toList) = "/r (1d6+2".toList := by cbv
    have hleft : remainder ['/'] "*3)".toList = "*3)".toList := by cbv
    obtain ⟨hinline, hsome⟩ := ((Session.ofSource (⟨[4], 0⟩ : Recording)).inline_command
      (e := "(1d6+2)*3".toList) (by decide)).2 "(1d6+2".toList "*3".toList rfl (by decide)
    refine ⟨?_, hsome (by decide) (by decide) (by decide)⟩
    rw [← hleft, ← hrolls]
    exact hinline

/-- The closing parenthesis of a sum ends the roll, and the factor behind it stays in the
message. -/
theorem Session.not_forall_inline_command :
    ¬ ∀ (t : Session Recording) (e : Text), '\n' ∉ e → IsBalanced e →
      t.inline ('(' :: command t.setup.escape e ++ [')'])
        = (some ((t.parse (command t.setup.escape e)).1, []),
          (t.parse (command t.setup.escape e)).2) := by
  intro h
  have hcommand := h (Session.ofSource ⟨[4], 0⟩) "(1d6+2)*3".toList (by decide) (by decide)
  have hbodies : bodies ['/'] "(/r (1d6+2)*3)".toList = ["/r (1d6+2".toList] := by cbv
  have hleft : remainder ['/'] "(/r (1d6+2)*3)".toList = "*3)".toList := by cbv
  have hrolls : bodies ['/'] "(/r (1d6+2)*3)".toList ≠ [] := by
    rw [hbodies]
    exact List.cons_ne_nil _ _
  have hinline := (Session.ofSource (⟨[4], 0⟩ : Recording)).inline_of_ne_nil hrolls
  have hpair := (congrArg Prod.fst hcommand).symm.trans (congrArg Prod.fst hinline)
  have heq := congrArg Prod.snd (Option.some.inj hpair)
  rw [show (Session.ofSource (⟨[4], 0⟩ : Recording)).setup.escape = ['/'] from rfl, hleft] at heq
  cases heq

end DiceRoll
