/-
Pools in the place of numbers.

A roll is arithmetic with pools in it, and a pool is an operand. The outline of a roll is
the same arithmetic with a zero in the place of every pool, and this file says what the
two have to do with each other: the tree of the roll is the tree of the outline with the
trees of the pools grafted onto the zeros (`derives_graft`). So no operator around a pool
takes a part of it away, although a single negative value stands there without
parentheses.

What the grafts are makes no difference to the value of the whole beyond their own
values (`eval_graft`), and they make it no deeper than they are (`nesting_graft_le`).
-/

import DiceRoll.Proofs.Arithmetic.Grammar
import Mathlib.Order.Nat

set_option autoImplicit false

namespace DiceRoll

/-! ## Grafts -/

namespace Expr

/-- How many literals an expression has. -/
def literals : Expr → Nat
  | .literal _ => 1
  | .group e => e.literals
  | .signed _ e => e.literals
  | .binary l _ r => l.literals + r.literals
  | .choice c t f => c.literals + t.literals + f.literals

/-- The expression with others in the place of its literals, taken from left to right.
A literal for which there is none stays. -/
def graft : Expr → List (Option Expr) → Expr
  | .literal x, gs => gs.head?.join.getD (.literal x)
  | .group e, gs => .group (e.graft gs)
  | .signed sign e, gs => .signed sign (e.graft gs)
  | .binary l op r, gs => .binary (l.graft gs) op (r.graft (gs.drop l.literals))
  | .choice c t f, gs =>
    .choice (c.graft gs) (t.graft (gs.drop c.literals))
      (f.graft (gs.drop (c.literals + t.literals)))

/-- Grafts beyond the literals are left over. -/
theorem graft_append {e : Expr} {gs : List (Option Expr)} (h : e.literals ≤ gs.length)
    (hs : List (Option Expr)) : e.graft (gs ++ hs) = e.graft gs := by
  induction e generalizing gs with
  | literal x =>
    obtain ⟨g, gs, rfl⟩ := List.exists_cons_of_length_pos h
    rfl
  | group e ih => rw [graft, graft, ih h]
  | signed sign e ih => rw [graft, graft, ih h]
  | binary l op r ihl ihr =>
    rw [literals] at h
    rw [graft, graft, ihl (by omega), List.drop_append_of_le_length (by omega),
      ihr (by rw [List.length_drop]; omega)]
  | choice c t f ihc iht ihf =>
    rw [literals] at h
    rw [graft, graft, ihc (by omega), List.drop_append_of_le_length (by omega),
      iht (by rw [List.length_drop]; omega), List.drop_append_of_le_length (by omega),
      ihf (by rw [List.length_drop]; omega)]

/-- The left operand takes the grafts that it has literals for. -/
theorem graft_binary {l r : Expr} {gs : List (Option Expr)} (hl : l.literals = gs.length)
    (op : Operation) (hs : List (Option Expr)) :
    (Expr.binary l op r).graft (gs ++ hs) = .binary (l.graft gs) op (r.graft hs) := by
  rw [graft, graft_append hl.le, hl, List.drop_left]

theorem graft_choice {c t f : Expr} {gs hs : List (Option Expr)} (hc : c.literals = gs.length)
    (ht : t.literals = hs.length) (ks : List (Option Expr)) :
    (Expr.choice c t f).graft (gs ++ (hs ++ ks))
      = .choice (c.graft gs) (t.graft hs) (f.graft ks) := by
  rw [graft, graft_append hc.le, hc, ht, List.drop_left, graft_append ht.le,
    ← List.length_append, ← List.append_assoc, List.drop_left]

theorem map_eval_drop {gs hs : List (Option Expr)}
    (h : gs.map (Option.map eval) = hs.map (Option.map eval)) (n : Nat) :
    (gs.drop n).map (Option.map eval) = (hs.drop n).map (Option.map eval) := by
  rw [List.map_drop, List.map_drop, h]

/-- **Only the values of grafts count.** -/
theorem eval_graft (e : Expr) {gs hs : List (Option Expr)}
    (h : gs.map (Option.map eval) = hs.map (Option.map eval)) :
    (e.graft gs).eval = (e.graft hs).eval := by
  induction e generalizing gs hs with
  | literal x =>
    rw [graft, graft]
    match gs, hs, h with
    | [], [], _ => rfl
    | none :: _, none :: _, _ => rfl
    | some g :: _, some k :: _, h => exact Option.some.inj (List.cons.inj h).1
  | group e ih => simp only [graft, eval, ih h]
  | signed sign e ih => simp only [graft, eval, ih h]
  | binary l op r ihl ihr => simp only [graft, eval, ihl h, ihr (map_eval_drop h _)]
  | choice c t f ihc iht ihf =>
    simp only [graft, eval, ihc h, iht (map_eval_drop h _), ihf (map_eval_drop h _)]

theorem nesting_graft_le (e : Expr) {gs : List (Option Expr)} {k : Nat}
    (h : ∀ g ∈ gs, ∀ t ∈ g, t.nesting ≤ k) : (e.graft gs).nesting ≤ e.nesting + k := by
  induction e generalizing gs with
  | literal x =>
    rw [graft]
    match gs, h with
    | [], _ => exact Nat.zero_le _
    | none :: _, _ => exact Nat.zero_le _
    | some g :: _, h => exact (h _ List.mem_cons_self g rfl).trans (Nat.le_add_left _ _)
  | group e ih =>
    have := ih h
    simp only [graft, nesting]
    omega
  | signed sign e ih =>
    have := ih h
    simp only [graft, nesting]
    omega
  | binary l op r ihl ihr =>
    have hleft := ihl h
    have hright := ihr fun g hg => h g (List.mem_of_mem_drop (i := l.literals) hg)
    simp only [graft, nesting]
    omega
  | choice c t f ihc iht ihf =>
    have hcond := ihc h
    have hthen := iht fun g hg => h g (List.mem_of_mem_drop (i := c.literals) hg)
    have helse := ihf fun g hg => h g (List.mem_of_mem_drop (i := c.literals + t.literals) hg)
    simp only [graft, nesting]
    omega

end Expr

/-! ## Outlines

A slot of a roll is a token of the arithmetic or a pool of dice. -/

/-- A token of the arithmetic in a roll, or a pool with its tokens and its tree. -/
inductive Slot where
  | token (t : Token)
  | pool (ts : List Token) (tree : Expr)

/-- Whether a token is a number, and so a literal. -/
def Token.isNumber : Token → Bool
  | .integer _ => true
  | .decimal _ => true
  | _ => false

namespace Slot

open DiceRoll.Expr

/-- The token of the outline: a zero in the place of a pool. -/
def outline : Slot → Token
  | .token t => t
  | .pool _ _ => .integer 0

/-- The tokens of the roll. -/
def tokens : Slot → List Token
  | .token t => [t]
  | .pool ts _ => ts

/-- The grafts for the literals of the outline. -/
def grafts : Slot → List (Option Expr)
  | .token t => if t.isNumber then [none] else []
  | .pool _ tree => [some tree]

/-- A token, or a pool that is an operand. -/
def IsProper : Slot → Prop
  | .token _ => True
  | .pool ts tree => Derives .operand ts tree

/-- A token that is no number stands for itself. -/
theorem eq_token_of_outline {slot : Slot} {t : Token} (h : slot.outline = t)
    (ht : t.isNumber = false) : slot = .token t := by
  cases slot with
  | token t' => exact congrArg _ h
  | pool ts tree =>
    rw [← h] at ht
    cases ht

/-! Tokens by themselves. -/

@[simp] theorem flatMap_tokens_token (ts : List Token) :
    (ts.map Slot.token).flatMap tokens = ts := by
  induction ts with
  | nil => rfl
  | cons t ts ih => rw [List.map_cons, List.flatMap_cons, ih, tokens, List.singleton_append]

@[simp] theorem map_outline_token (ts : List Token) : (ts.map Slot.token).map outline = ts := by
  rw [List.map_map]
  exact List.map_id ts

@[simp] theorem flatMap_grafts_token (ts : List Token) :
    (ts.map Slot.token).flatMap grafts = (ts.filter Token.isNumber).map fun _ => none := by
  induction ts with
  | nil => rfl
  | cons t ts ih =>
    rw [List.map_cons, List.flatMap_cons, ih, List.filter_cons]
    cases ht : t.isNumber <;> simp [grafts, ht]

theorem length_grafts (slots : List Slot) :
    (slots.flatMap grafts).length = (slots.map outline).countP Token.isNumber := by
  induction slots with
  | nil => rfl
  | cons slot slots ih =>
    rw [List.flatMap_cons, List.length_append, ih, List.map_cons, List.countP_cons, Nat.add_comm]
    cases slot with
    | token t => by_cases ht : t.isNumber <;> simp [grafts, outline, ht]
    | pool ts tree => rfl

end Slot

/-! ## The tree of a roll -/

namespace Expr

open Slot

theorem isNumber_of_join {s : Strength} {t : Token} {op : Operation} (ht : s.join? t = some op) :
    t.isNumber = false := by
  cases s <;> cases t <;> first | rfl | cases ht

theorem isNumber_of_sign {t : Token} {sign : Sign} (ht : t.sign? = some sign) :
    t.isNumber = false := by
  cases t <;> first | rfl | cases ht

/-- The literals of a tree are the numbers among its tokens. -/
theorem Derives.literals_eq {rule : Rule} {ts : List Token} {e : Expr} (h : Derives rule ts e) :
    e.literals = ts.countP Token.isNumber := by
  induction h with
  | integer n => rfl
  | decimal x => rfl
  | group _ ih => simpa [literals, Token.isNumber] using ih
  | atom _ ih => exact ih
  | signed ht _ ih => simpa [literals, isNumber_of_sign ht] using ih
  | first _ ih => exact ih
  | join ht _ _ ihl ihr => simp [literals, isNumber_of_join ht, ihl, ihr]
  | plain _ ih => exact ih
  | choice _ _ _ ihc iht ihf =>
    simp [literals, Token.isNumber, ihc, iht, ihf, Nat.add_assoc]

/-- The rule for a number whose place a pool may take. -/
def Rule.loosened : Rule → Rule
  | .atom => .operand
  | rule => rule

theorem Rule.loosened_operands (s : Strength) : s.operands.loosened = s.operands := by
  cases s <;> rfl

/-- **Pools take the place of numbers.** Where the outline is derived the roll is
derived, and its tree is the tree of the outline with the pools grafted on. -/
theorem derives_graft {rule : Rule} {ts : List Token} {e : Expr} (h : Derives rule ts e)
    {slots : List Slot} (hts : slots.map outline = ts) (hslots : ∀ slot ∈ slots, slot.IsProper) :
    Derives rule.loosened (slots.flatMap tokens) (e.graft (slots.flatMap grafts)) := by
  -- A part of the tree has a literal for each graft of its slots, so each part takes its own.
  have hfits : ∀ {rule ts e} {slots : List Slot}, Derives rule ts e → slots.map outline = ts →
      e.literals = (slots.flatMap grafts).length := by
    intro rule ts e slots h hts
    rw [length_grafts, hts, h.literals_eq]
  induction h generalizing slots with
  | integer n =>
    obtain ⟨slot, rfl, hslot⟩ := List.map_eq_singleton_iff.1 hts
    cases slot with
    | token t =>
      cases hslot
      exact .atom (.integer n)
    | pool ts tree =>
      have hpool : Derives .operand ts tree := hslots (.pool ts tree) List.mem_cons_self
      simpa [tokens, grafts, graft, Rule.loosened] using hpool
  | decimal x =>
    obtain ⟨slot, rfl, hslot⟩ := List.map_eq_singleton_iff.1 hts
    cases slot with
    | token t =>
      cases hslot
      exact .atom (.decimal x)
    | pool ts tree => cases hslot
  | group _ ih =>
    obtain ⟨opening, slots, rfl, hopening, hrest⟩ := List.map_eq_cons_iff.1 hts
    obtain ⟨inner, last, rfl, hinner, hlast⟩ := List.map_eq_append_iff.1 hrest
    obtain ⟨closing, rfl, hclosing⟩ := List.map_eq_singleton_iff.1 hlast
    rw [eq_token_of_outline hopening rfl, eq_token_of_outline hclosing rfl]
    have hinnerSlots := (List.forall_mem_append.1 (List.forall_mem_cons.1 hslots).2).1
    have hgroup := Derives.group (ih hinner hinnerSlots)
    refine .atom ?_
    simpa [tokens, grafts, graft, Token.isNumber] using hgroup
  | atom _ ih => exact ih hts hslots
  | signed ht _ ih =>
    obtain ⟨slot, slots, rfl, hslot, hrest⟩ := List.map_eq_cons_iff.1 hts
    rw [eq_token_of_outline hslot (isNumber_of_sign ht)]
    have hsigned := Derives.signed ht (ih hrest (List.forall_mem_cons.1 hslots).2)
    simpa [tokens, grafts, graft, Rule.loosened, isNumber_of_sign ht] using hsigned
  | @first s ts e _ ih =>
    have hfirst := ih hts hslots
    rw [Rule.loosened_operands] at hfirst
    exact .first hfirst
  | @join s t op ts us l r ht hl hr ihl ihr =>
    obtain ⟨left, rest, rfl, hleft, hrest⟩ := List.map_eq_append_iff.1 hts
    obtain ⟨slot, right, rfl, hslot, hright⟩ := List.map_eq_cons_iff.1 hrest
    rw [eq_token_of_outline hslot (isNumber_of_join ht)]
    obtain ⟨hleftSlots, hrestSlots⟩ := List.forall_mem_append.1 hslots
    have hr' := ihr hright (List.forall_mem_cons.1 hrestSlots).2
    rw [Rule.loosened_operands] at hr'
    have hjoin := Derives.join ht (ihl hleft hleftSlots) hr'
    simpa [tokens, grafts, isNumber_of_join ht, graft_binary (hfits hl hleft), Rule.loosened]
      using hjoin
  | plain _ ih => exact .plain (ih hts hslots)
  | @choice ts us vs c t f hc ht hf ihc iht ihf =>
    obtain ⟨cond, rest, rfl, hcond, hrest⟩ := List.map_eq_append_iff.1 hts
    obtain ⟨question, rest, rfl, hquestion, hrest⟩ := List.map_eq_cons_iff.1 hrest
    obtain ⟨thenSlots, rest, rfl, hthen, hrest⟩ := List.map_eq_append_iff.1 hrest
    obtain ⟨colon, elseSlots, rfl, hcolon, helse⟩ := List.map_eq_cons_iff.1 hrest
    rw [eq_token_of_outline hquestion rfl, eq_token_of_outline hcolon rfl]
    obtain ⟨hcondSlots, hrestSlots⟩ := List.forall_mem_append.1 hslots
    obtain ⟨hthenSlots, helseSlots⟩ :=
      List.forall_mem_append.1 (List.forall_mem_cons.1 hrestSlots).2
    have hchoice := Derives.choice (ihc hcond hcondSlots) (iht hthen hthenSlots)
      (ihf helse (List.forall_mem_cons.1 helseSlots).2)
    have hgraft := graft_choice (f := f) (hfits hc hcond) (hfits ht hthen)
    simpa [tokens, grafts, Token.isNumber, hgraft, Rule.loosened] using hchoice

end Expr

end DiceRoll
