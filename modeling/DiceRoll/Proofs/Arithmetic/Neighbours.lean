/-
Neighbours in a derived text.

An operand ends with a number or a closing parenthesis, and it begins with a number, a
sign or an opening parenthesis. Between two neighbours in a derived text one of the two
always holds: an operand has just ended, or one begins (`Derives.joined`). So a slash,
which begins no operand, stands behind the end of one.

A minus sign is an operator behind the end of an operand and a sign anywhere else. As a
sign it can be taken away (`Derives.without_sign`).
-/

import DiceRoll.Proofs.Arithmetic.Grammar
import Mathlib.Data.List.Chain

set_option autoImplicit false

namespace DiceRoll

namespace Token

/-- Whether an operand can begin with a token. -/
def begins : Token → Bool
  | .integer _ => true
  | .decimal _ => true
  | .leftParen => true
  | .plus => true
  | .minus => true
  | _ => false

/-- Whether an operand can end with a token. -/
def ends : Token → Bool
  | .integer _ => true
  | .decimal _ => true
  | .rightParen => true
  | _ => false

/-- Whether an operand has ended behind these tokens. Behind none of them it is as it
was in front of them. -/
def ended (before : Bool) (ts : List Token) : Bool := (ts.getLast?.map ends).getD before

@[simp] theorem ended_nil (before : Bool) : ended before [] = before := rfl

theorem ended_append (before : Bool) (ts us : List Token) :
    ended before (ts ++ us) = ended (ended before ts) us := by
  rw [ended, List.getLast?_append]
  cases hlast : us.getLast? <;> simp [ended, hlast]

theorem ended_append_cons (before : Bool) (ts : List Token) (t : Token) (us : List Token) :
    ended before (ts ++ t :: us) = ended t.ends us := by
  rw [ended, List.getLast?_append, List.getLast?_cons]
  cases hlast : us.getLast? <;> simp [ended, hlast]

/-- Tokens that begin and end as operands do, inside as well as outside. -/
structure Joined (ts : List Token) : Prop where
  ne_nil : ts ≠ []
  begins : ∀ t ∈ ts.head?, t.begins = true
  ends : ∀ t ∈ ts.getLast?, t.ends = true
  chain : ts.IsChain fun t u => t.ends = true ∨ u.begins = true

theorem joined_singleton {t : Token} (hbegins : t.begins = true) (hends : t.ends = true) :
    Joined [t] := by
  refine ⟨List.cons_ne_nil _ _, ?_, ?_, List.isChain_singleton t⟩
  · rintro _ ⟨⟩
    exact hbegins
  · rintro _ ⟨⟩
    exact hends

theorem Joined.cons {t : Token} (ht : t.begins = true) {ts : List Token} (hts : Joined ts) :
    Joined (t :: ts) := by
  refine ⟨List.cons_ne_nil _ _, ?_, ?_, ?_⟩
  · rintro _ ⟨⟩
    exact ht
  · rw [List.getLast?_cons_of_ne_nil hts.ne_nil]
    exact hts.ends
  · exact hts.chain.cons fun u hu => .inr (hts.begins u hu)

theorem Joined.concat {t : Token} (ht : t.ends = true) {ts : List Token} (hts : Joined ts) :
    Joined (ts ++ [t]) := by
  refine ⟨by simp, ?_, ?_, ?_⟩
  · rw [List.head?_append_of_ne_nil _ hts.ne_nil]
    exact hts.begins
  · rw [List.getLast?_concat]
    rintro _ ⟨⟩
    exact ht
  · exact hts.chain.append (List.isChain_singleton t) fun u hu _ _ => .inl (hts.ends u hu)

/-- Whatever stands between operands joins them. -/
theorem Joined.append_cons {ts us : List Token} (hts : Joined ts) (t : Token) (hus : Joined us) :
    Joined (ts ++ t :: us) := by
  have hchain : (t :: us).IsChain fun t u => t.ends = true ∨ u.begins = true :=
    hus.chain.cons fun u hu => .inr (hus.begins u hu)
  refine ⟨by simp, ?_, ?_, ?_⟩
  · rw [List.head?_append_of_ne_nil _ hts.ne_nil]
    exact hts.begins
  · rw [List.getLast?_append_of_ne_nil _ (List.cons_ne_nil t us),
      List.getLast?_cons_of_ne_nil hus.ne_nil]
    exact hus.ends
  · exact hts.chain.append hchain fun u hu _ _ => .inl (hts.ends u hu)

/-- In front of a token that begins no operand, one has ended. -/
theorem Joined.ends_of_not_begins {t : Token} (ht : t.begins = false) {ts us : List Token}
    (h : Joined (ts ++ t :: us)) : ∃ front u, ts = front ++ [u] ∧ u.ends = true := by
  rcases List.eq_nil_or_concat ts with rfl | ⟨front, u, rfl⟩
  · have := h.begins t rfl
    rw [ht] at this
    cases this
  · rw [List.concat_eq_append] at h ⊢
    refine ⟨front, u, rfl, ?_⟩
    have hchain := h.chain
    rw [List.append_assoc, List.singleton_append,
      List.isChain_append_cons_cons, ht] at hchain
    exact hchain.2.1.resolve_right Bool.false_ne_true

end Token

namespace Expr

open Token

theorem begins_of_sign {t : Token} {sign : Sign} (ht : t.sign? = some sign) : t.begins = true := by
  cases t <;> first | rfl | cases ht

/-- **What is derived is joined.** -/
theorem Derives.joined {rule : Rule} {ts : List Token} {e : Expr} (h : Derives rule ts e) :
    Joined ts := by
  induction h with
  | integer n => exact joined_singleton rfl rfl
  | decimal x => exact joined_singleton rfl rfl
  | group _ ih => exact (ih.concat rfl).cons rfl
  | atom _ ih => exact ih
  | signed ht _ ih => exact ih.cons (begins_of_sign ht)
  | first _ ih => exact ih
  | join _ _ _ ihl ihr => exact ihl.append_cons _ ihr
  | plain _ ih => exact ih
  | choice _ _ _ ihc iht ihf => exact ihc.append_cons _ (iht.append_cons _ ihf)

/-! ## Signs -/

theorem ends_of_sign {t : Token} {sign : Sign} (ht : t.sign? = some sign) : t.ends = false := by
  cases t <;> first | rfl | cases ht

theorem ends_of_join {s : Strength} {t : Token} {op : Operation} (ht : s.join? t = some op) :
    t.ends = false := by
  cases s <;> cases t <;> first | rfl | cases ht

theorem Derives.ended {rule : Rule} {ts : List Token} {e : Expr} (h : Derives rule ts e)
    (before : Bool) : Token.ended before ts = true := by
  obtain ⟨front, t, rfl⟩ := (List.eq_nil_or_concat ts).resolve_left h.joined.ne_nil
  rw [List.concat_eq_append, ended_append_cons]
  exact h.joined.ends t (by simp)

/-- Of two tokens in a text one comes first, or they are the same. -/
theorem eq_or_of_append_cons_eq {ts us front rest : List Token} {t u : Token}
    (h : ts ++ u :: us = front ++ t :: rest) :
    (∃ back, ts = front ++ t :: back ∧ rest = back ++ u :: us)
      ∨ (front = ts ∧ t = u ∧ rest = us)
      ∨ ∃ back, front = ts ++ u :: back ∧ us = back ++ t :: rest := by
  rcases List.append_eq_append_iff.1 h with ⟨back, rfl, hback⟩ | ⟨back, rfl, hback⟩
  · cases back with
    | nil =>
      obtain ⟨rfl, rfl⟩ := List.cons.inj hback
      exact .inr (.inl ⟨by simp, rfl, rfl⟩)
    | cons v back =>
      obtain ⟨rfl, rfl⟩ := List.cons.inj hback
      exact .inr (.inr ⟨back, rfl, rfl⟩)
  · cases back with
    | nil =>
      obtain ⟨rfl, rfl⟩ := List.cons.inj hback
      exact .inr (.inl ⟨by simp, rfl, rfl⟩)
    | cons v back =>
      obtain ⟨rfl, rfl⟩ := List.cons.inj hback
      exact .inl ⟨back, rfl, rfl⟩

/-- **A minus sign that is no operator can be taken away.** -/
theorem Derives.without_sign {rule : Rule} {ts : List Token} {e : Expr} (h : Derives rule ts e)
    {front rest : List Token} (hts : ts = front ++ .minus :: rest)
    (hfront : Token.ended false front = false) : ∃ e', Derives rule (front ++ rest) e' := by
  induction h generalizing front rest with
  | integer n =>
    have hmem : Token.minus ∈ [Token.integer n] := by simp [hts]
    simp at hmem
  | decimal x =>
    have hmem : Token.minus ∈ [Token.decimal x] := by simp [hts]
    simp at hmem
  | @group ts e inner ih =>
    have hts : [] ++ .leftParen :: (ts ++ [.rightParen]) = front ++ .minus :: rest := hts
    rcases eq_or_of_append_cons_eq hts with
      ⟨back, hback, -⟩ | ⟨-, ht, -⟩ | ⟨front, rfl, hback⟩
    · simp at hback
    · cases ht
    rcases eq_or_of_append_cons_eq hback with ⟨back, rfl, rfl⟩ | ⟨-, ht, -⟩ | ⟨back, -, hnil⟩
    · rw [ended_append_cons] at hfront
      obtain ⟨e', he'⟩ := ih rfl hfront
      exact ⟨_, by simpa using he'.group⟩
    · cases ht
    · simp at hnil
  | atom _ ih =>
    obtain ⟨e', he'⟩ := ih hts hfront
    exact ⟨e', .atom he'⟩
  | @signed t ts sign e ht h ih =>
    have hts : [] ++ t :: ts = front ++ .minus :: rest := hts
    rcases eq_or_of_append_cons_eq hts with
      ⟨back, hback, -⟩ | ⟨rfl, -, rfl⟩ | ⟨front, rfl, hback⟩
    · simp at hback
    -- The sign itself: what is left is the operand that it stood in front of.
    · exact ⟨e, h⟩
    · rw [ended_append_cons, ends_of_sign ht] at hfront
      obtain ⟨e', he'⟩ := ih hback hfront
      exact ⟨_, .signed ht he'⟩
  | first _ ih =>
    obtain ⟨e', he'⟩ := ih hts hfront
    exact ⟨e', .first he'⟩
  | @join s t op ts us l r ht hl hr ihl ihr =>
    rcases eq_or_of_append_cons_eq hts with
      ⟨back, rfl, rfl⟩ | ⟨rfl, -, -⟩ | ⟨back, rfl, hback⟩
    · obtain ⟨l', hl'⟩ := ihl rfl hfront
      exact ⟨_, by simpa using Derives.join ht hl' hr⟩
    -- Between two operands the minus sign would be the operator, behind the end of the first.
    · rw [hl.ended] at hfront
      cases hfront
    · rw [ended_append_cons, ends_of_join ht] at hfront
      obtain ⟨r', hr'⟩ := ihr hback hfront
      exact ⟨_, by simpa using Derives.join ht hl hr'⟩
  | plain _ ih =>
    obtain ⟨e', he'⟩ := ih hts hfront
    exact ⟨e', .plain he'⟩
  | @choice ts us vs c t f hc ht hf ihc iht ihf =>
    rcases eq_or_of_append_cons_eq hts with
      ⟨back, rfl, rfl⟩ | ⟨-, hquestion, -⟩ | ⟨back, rfl, hback⟩
    · obtain ⟨c', hc'⟩ := ihc rfl hfront
      exact ⟨_, by simpa using Derives.choice hc' ht hf⟩
    · cases hquestion
    rw [ended_append_cons] at hfront
    rcases eq_or_of_append_cons_eq hback with
      ⟨back, rfl, rfl⟩ | ⟨-, hcolon, -⟩ | ⟨back, rfl, helse⟩
    · obtain ⟨t', ht'⟩ := iht rfl hfront
      exact ⟨_, by simpa using Derives.choice hc ht' hf⟩
    · cases hcolon
    · rw [ended_append_cons] at hfront
      obtain ⟨f', hf'⟩ := ihf helse hfront
      exact ⟨_, by simpa using Derives.choice hc ht hf'⟩

end Expr

end DiceRoll
