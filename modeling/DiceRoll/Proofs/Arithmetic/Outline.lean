/-
The outline of a derived roll.

A pool that stands as an atom, one number or a sum in parentheses, is as good as any
other atom in its place. So a roll whose pools are atoms is derived if and only if its
outline is. The one direction is substitution; this file is about the other
(`derives_outline`): a derivation over the tokens of the roll never splits a pool.

What keeps pools whole is that parentheses balance. Every part of a derivation ends
where no parenthesis is open, and inside a pool one is.

A negative number is no atom. It is a minus sign and an atom, and whether the sign is
there makes a difference to the outline only behind an operand
(`exists_derives_minus_iff`).
-/

import DiceRoll.Proofs.Arithmetic.Neighbours
import DiceRoll.Proofs.Arithmetic.Substitution
import Mathlib.Algebra.Ring.Int.Defs

set_option autoImplicit false

namespace DiceRoll

/-! ## Balance -/

namespace Token

/-- How many more parentheses a token opens than it closes. -/
def opening : Token → Int
  | .leftParen => 1
  | .rightParen => -1
  | _ => 0

/-- How many parentheses are open behind these tokens. -/
def opened (ts : List Token) : Int := (ts.map opening).sum

@[simp] theorem opened_cons (t : Token) (ts : List Token) :
    opened (t :: ts) = t.opening + opened ts := List.sum_cons

@[simp] theorem opened_append (ts us : List Token) :
    opened (ts ++ us) = opened ts + opened us := by
  rw [opened, List.map_append, List.sum_append]
  rfl

/-- Tokens that close no parenthesis but their own, and all of their own. -/
structure Balanced (ts : List Token) : Prop where
  prefixes : ∀ us, us <+: ts → 0 ≤ opened us
  closed : opened ts = 0

theorem prefix_or_of_prefix_append {p a b : List Token} (h : p <+: a ++ b) :
    p <+: a ∨ ∃ q, p = a ++ q ∧ q <+: b := by
  obtain ⟨r, hr⟩ := h
  rcases List.append_eq_append_iff.1 hr with ⟨q, rfl, -⟩ | ⟨q, rfl, rfl⟩
  · exact .inl ⟨q, rfl⟩
  · exact .inr ⟨q, rfl, r, rfl⟩

theorem Balanced.append {ts us : List Token} (hts : Balanced ts) (hus : Balanced us) :
    Balanced (ts ++ us) := by
  constructor
  · intro p hp
    rcases prefix_or_of_prefix_append hp with hp | ⟨q, rfl, hq⟩
    · exact hts.prefixes p hp
    · rw [opened_append, hts.closed, Int.zero_add]
      exact hus.prefixes q hq
  · rw [opened_append, hts.closed, hus.closed]
    rfl

/-- A token that is no parenthesis is balanced. -/
theorem balanced_singleton {t : Token} (ht : t.opening = 0) : Balanced [t] := by
  constructor
  · intro p hp
    rcases List.prefix_cons_iff.1 hp with rfl | ⟨q, rfl, hq⟩
    · exact Int.le_refl 0
    · rw [List.prefix_nil.1 hq, opened_cons, ht]
      decide
  · rw [opened_cons, ht]
    rfl

theorem Balanced.cons {t : Token} (ht : t.opening = 0) {ts : List Token} (hts : Balanced ts) :
    Balanced (t :: ts) :=
  (balanced_singleton ht).append hts

/-- Inside parentheses around balanced tokens one is open. -/
theorem Balanced.one_le_opened {ts : List Token} (hts : Balanced ts) {p : List Token}
    (hp : p <+: .leftParen :: (ts ++ [.rightParen])) (hne : p ≠ [])
    (hproper : p ≠ .leftParen :: (ts ++ [.rightParen])) : 1 ≤ opened p := by
  rcases List.prefix_cons_iff.1 hp with rfl | ⟨q, rfl, hq⟩
  · exact absurd rfl hne
  · have hinside : 0 ≤ opened q := by
      rcases List.prefix_concat_iff.1 hq with rfl | hq
      · exact absurd rfl hproper
      · exact hts.prefixes q hq
    rw [opened_cons]
    simp only [opening]
    omega

theorem Balanced.group {ts : List Token} (hts : Balanced ts) :
    Balanced (.leftParen :: (ts ++ [.rightParen])) := by
  have hclosed : opened (.leftParen :: (ts ++ [.rightParen])) = 0 := by
    rw [opened_cons, opened_append, hts.closed]
    rfl
  constructor
  · intro p hp
    by_cases hne : p = []
    · rw [hne]
      exact Int.le_refl 0
    by_cases hproper : p = .leftParen :: (ts ++ [.rightParen])
    · exact Int.le_of_eq (by rw [hproper, hclosed])
    · exact Int.le_trans (by decide) (hts.one_le_opened hp hne hproper)
  · exact hclosed

end Token

namespace Expr

open Token

theorem opening_of_join {s : Strength} {t : Token} {op : Operation} (ht : s.join? t = some op) :
    t.opening = 0 := by
  cases s <;> cases t <;> first | rfl | cases ht

theorem opening_of_sign {t : Token} {sign : Sign} (ht : t.sign? = some sign) : t.opening = 0 := by
  cases t <;> first | rfl | cases ht

/-- **What is derived is balanced.** -/
theorem Derives.balanced {rule : Rule} {ts : List Token} {e : Expr} (h : Derives rule ts e) :
    Balanced ts := by
  induction h with
  | integer n => exact balanced_singleton rfl
  | decimal x => exact balanced_singleton rfl
  | group _ ih => exact ih.group
  | atom _ ih => exact ih
  | signed ht _ ih => exact ih.cons (opening_of_sign ht)
  | first _ ih => exact ih
  | join ht _ _ ihl ihr => exact ihl.append (ihr.cons (opening_of_join ht))
  | plain _ ih => exact ih
  | choice _ _ _ ihc iht ihf => exact ihc.append ((iht.append (ihf.cons rfl)).cons rfl)

/-- Inside an atom a parenthesis is open. -/
theorem Derives.one_le_opened {ts : List Token} {e : Expr} (h : Derives .atom ts e)
    {p : List Token} (hp : p <+: ts) (hne : p ≠ []) (hproper : p ≠ ts) : 1 ≤ opened p := by
  have hsingle : ∀ t, p <+: [t] → p ≠ [t] → 1 ≤ opened p := by
    intro t hp hproper
    rcases List.prefix_cons_iff.1 hp with rfl | ⟨q, rfl, hq⟩
    · exact absurd rfl hne
    · exact absurd (by rw [List.prefix_nil.1 hq]) hproper
  cases h with
  | integer n => exact hsingle _ hp hproper
  | decimal x => exact hsingle _ hp hproper
  | group inner => exact inner.balanced.one_le_opened hp hne hproper

end Expr

/-! ## Pools as atoms -/

namespace Slot

open DiceRoll.Expr Token

/-- A token, or a pool that is an atom. -/
def IsAtom : Slot → Prop
  | .token _ => True
  | .pool ts tree => Derives .atom ts tree

theorem IsAtom.isProper {slot : Slot} (h : slot.IsAtom) : slot.IsProper := by
  cases slot with
  | token t => trivial
  | pool ts tree => exact .atom h

theorem ne_nil_of_derives_atom {ts : List Token} {e : Expr} (h : Derives .atom ts e) : ts ≠ [] := by
  cases h <;> exact List.cons_ne_nil _ _

theorem tokens_ne_nil {slot : Slot} (h : slot.IsAtom) : slot.tokens ≠ [] := by
  cases slot with
  | token t => exact List.cons_ne_nil _ _
  | pool ts tree => exact ne_nil_of_derives_atom h

theorem eq_nil_of_flatMap_tokens {slots : List Slot} (hslots : ∀ slot ∈ slots, slot.IsAtom)
    (h : slots.flatMap tokens = []) : slots = [] := by
  cases slots with
  | nil => rfl
  | cons slot slots =>
    rw [List.flatMap_cons, List.append_eq_nil_iff] at h
    exact absurd h.1 (tokens_ne_nil (hslots slot List.mem_cons_self))

/-- The slot at the front of tokens begins with the first of them. -/
theorem exists_cons_of_flatMap_tokens {slots : List Slot} (hslots : ∀ slot ∈ slots, slot.IsAtom)
    {t : Token} {ts : List Token} (h : slots.flatMap tokens = t :: ts) :
    ∃ slot rest us, slots = slot :: rest ∧ slot.tokens = t :: us
      ∧ ts = us ++ rest.flatMap tokens := by
  cases slots with
  | nil => cases h
  | cons slot slots =>
    obtain ⟨t', us, hus⟩ := List.exists_cons_of_ne_nil
      (tokens_ne_nil (hslots slot List.mem_cons_self))
    rw [List.flatMap_cons, hus, List.cons_append] at h
    obtain ⟨rfl, rfl⟩ := List.cons.inj h
    exact ⟨slot, slots, us, rfl, hus, rfl⟩

/-- A token that begins no atom stands for itself. -/
theorem exists_token_of_flatMap_tokens {slots : List Slot} (hslots : ∀ slot ∈ slots, slot.IsAtom)
    {t : Token} {ts : List Token} (h : slots.flatMap tokens = t :: ts)
    (hnumber : t.isNumber = false) (hparen : t ≠ .leftParen) :
    ∃ rest, slots = .token t :: rest ∧ ts = rest.flatMap tokens := by
  obtain ⟨slot, rest, us, rfl, hslot, rfl⟩ := exists_cons_of_flatMap_tokens hslots h
  cases slot with
  | token t' =>
    obtain ⟨rfl, rfl⟩ := List.cons.inj hslot
    exact ⟨rest, rfl, rfl⟩
  | pool us tree =>
    have hatom : Derives .atom us tree := hslots (.pool us tree) List.mem_cons_self
    rw [tokens] at hslot
    rw [hslot] at hatom
    cases hatom <;> first | exact absurd rfl hparen | cases hnumber

/-- **Balanced tokens end between slots.** Where the tokens so far are balanced, a split
behind them goes through no pool. -/
theorem split_of_balanced (before : List Token) {slots : List Slot}
    (hslots : ∀ slot ∈ slots, slot.IsAtom) {ts rest : List Token}
    (hbalanced : Balanced (before ++ ts)) (h : slots.flatMap tokens = ts ++ rest) :
    ∃ front back, slots = front ++ back ∧ front.flatMap tokens = ts
      ∧ back.flatMap tokens = rest := by
  induction slots generalizing before ts with
  | nil =>
    obtain ⟨rfl, rfl⟩ := List.append_eq_nil_iff.1 h.symm
    exact ⟨[], [], rfl, rfl, rfl⟩
  | cons slot slots ih =>
    have htail : ∀ s ∈ slots, s.IsAtom := fun s hs => hslots s (List.mem_cons_of_mem slot hs)
    rw [List.flatMap_cons] at h
    rcases List.append_eq_append_iff.1 h with ⟨us, rfl, hus⟩ | ⟨us, hslot, rfl⟩
    · rw [← List.append_assoc] at hbalanced
      obtain ⟨front, back, rfl, rfl, rfl⟩ := ih _ htail hbalanced hus
      exact ⟨slot :: front, back, rfl, rfl, rfl⟩
    · by_cases hnil : ts = []
      · subst hnil
        exact ⟨[], slot :: slots, rfl, rfl, by rw [List.flatMap_cons, hslot, List.nil_append]⟩
      by_cases hwhole : us = []
      · subst hwhole
        rw [List.append_nil] at hslot
        exact ⟨[slot], slots, rfl, by simpa using hslot, rfl⟩
      -- The split would be inside the slot, where more is open than was before it.
      have hinside : 1 ≤ opened ts := by
        cases slot with
        | token t =>
          have hlength := congrArg List.length hslot
          rw [tokens, List.length_append, List.length_singleton] at hlength
          have := List.length_pos_iff.2 hnil
          have := List.length_pos_iff.2 hwhole
          omega
        | pool vs tree =>
          rw [tokens] at hslot
          have hatom : Derives .atom vs tree := hslots (.pool vs tree) List.mem_cons_self
          refine hatom.one_le_opened ⟨us, hslot.symm⟩ hnil fun hts => hwhole ?_
          rw [← hts] at hslot
          simpa using hslot
      have hbefore := hbalanced.prefixes before (List.prefix_append _ _)
      have hclosed := hbalanced.closed
      rw [opened_append] at hclosed
      omega

/-- A slot that stands alone as an atom is an atom of the outline. -/
theorem derives_outline_of_singleton {slot : Slot} {e : Expr} (h : Derives .atom slot.tokens e) :
    ∃ e₀, Derives .atom [slot.outline] e₀ := by
  cases slot with
  | token t => exact ⟨e, h⟩
  | pool ts tree => exact ⟨_, .integer 0⟩

/-- Slots with a single token are a single slot. -/
theorem eq_singleton_of_flatMap_tokens {slots : List Slot} (hslots : ∀ slot ∈ slots, slot.IsAtom)
    {t : Token} (h : slots.flatMap tokens = [t]) : ∃ slot, slots = [slot] ∧ slot.tokens = [t] := by
  obtain ⟨slot, rest, us, rfl, hslot, hrest⟩ := exists_cons_of_flatMap_tokens hslots h
  obtain ⟨rfl, hnothing⟩ := List.append_eq_nil_iff.1 hrest.symm
  rw [eq_nil_of_flatMap_tokens (List.forall_mem_cons.1 hslots).2 hnothing]
  exact ⟨slot, rfl, hslot⟩

/-- A group is a pool, or it holds the slots between its parentheses. -/
theorem slots_of_group {slots : List Slot} (hslots : ∀ slot ∈ slots, slot.IsAtom)
    {ts : List Token} (hts : Balanced ts)
    (h : slots.flatMap tokens = .leftParen :: (ts ++ [.rightParen])) :
    (∃ us tree, slots = [.pool us tree])
      ∨ ∃ inner, slots = .token .leftParen :: (inner ++ [.token .rightParen])
          ∧ inner.flatMap tokens = ts := by
  obtain ⟨slot, rest, us, rfl, hslot, hrest⟩ := exists_cons_of_flatMap_tokens hslots h
  obtain ⟨hhead, htail⟩ := List.forall_mem_cons.1 hslots
  cases slot with
  | pool vs tree =>
    refine .inl ⟨vs, tree, ?_⟩
    have hatom : Derives .atom vs tree := hhead
    have hclosed := hatom.balanced.closed
    have hprefix : vs <+: .leftParen :: (ts ++ [.rightParen]) := ⟨rest.flatMap tokens, h⟩
    -- The pool closes its parenthesis, which is that of the group, so it is all of the group.
    have hwhole : vs = .leftParen :: (ts ++ [.rightParen]) := by
      by_contra hne
      have := hts.one_le_opened hprefix (tokens_ne_nil hhead) hne
      omega
    rw [List.flatMap_cons, tokens, hwhole, List.append_right_eq_self] at h
    rw [eq_nil_of_flatMap_tokens htail h]
  | token t =>
    obtain ⟨rfl, rfl⟩ := List.cons.inj hslot
    obtain ⟨inner, last, rfl, hinner, hlast⟩ := split_of_balanced [] htail hts hrest.symm
    obtain ⟨-, hlastAtoms⟩ := List.forall_mem_append.1 htail
    obtain ⟨nothing, rfl, hnothing⟩ :=
      exists_token_of_flatMap_tokens hlastAtoms hlast rfl (by decide)
    rw [eq_nil_of_flatMap_tokens (List.forall_mem_cons.1 hlastAtoms).2 hnothing.symm]
    exact .inr ⟨inner, rfl, hinner⟩

end Slot

namespace Expr

open Slot Token

/-- **The outline of what is derived is derived.** -/
theorem derives_outline {rule : Rule} {ts : List Token} {e : Expr} (h : Derives rule ts e)
    {slots : List Slot} (hslots : ∀ slot ∈ slots, slot.IsAtom) (hts : slots.flatMap tokens = ts) :
    ∃ e₀, Derives rule (slots.map outline) e₀ := by
  induction h generalizing slots with
  | integer n =>
    obtain ⟨slot, rfl, hslot⟩ := eq_singleton_of_flatMap_tokens hslots hts
    exact derives_outline_of_singleton (by rw [hslot]; exact .integer n)
  | decimal x =>
    obtain ⟨slot, rfl, hslot⟩ := eq_singleton_of_flatMap_tokens hslots hts
    exact derives_outline_of_singleton (by rw [hslot]; exact .decimal x)
  | group hinner ih =>
    rcases slots_of_group hslots hinner.balanced hts with
      ⟨us, tree, rfl⟩ | ⟨inner, rfl, hinside⟩
    -- A pool that is the whole group is one zero of the outline.
    · exact ⟨_, .integer 0⟩
    · have hinnerAtoms := (List.forall_mem_append.1 (List.forall_mem_cons.1 hslots).2).1
      obtain ⟨e₀, he₀⟩ := ih hinnerAtoms hinside
      exact ⟨_, by simpa [outline] using he₀.group⟩
  | atom _ ih =>
    obtain ⟨e₀, he₀⟩ := ih hslots hts
    exact ⟨e₀, .atom he₀⟩
  | signed ht _ ih =>
    obtain ⟨rest, rfl, hrest⟩ := exists_token_of_flatMap_tokens hslots hts (isNumber_of_sign ht)
      (by rintro rfl; cases ht)
    obtain ⟨e₀, he₀⟩ := ih (List.forall_mem_cons.1 hslots).2 hrest.symm
    exact ⟨_, .signed ht he₀⟩
  | first _ ih =>
    obtain ⟨e₀, he₀⟩ := ih hslots hts
    exact ⟨e₀, .first he₀⟩
  | join ht hl _ ihl ihr =>
    obtain ⟨left, rest, rfl, hleft, hrest⟩ := split_of_balanced [] hslots hl.balanced hts
    obtain ⟨hleftAtoms, hrestAtoms⟩ := List.forall_mem_append.1 hslots
    obtain ⟨right, rfl, hright⟩ := exists_token_of_flatMap_tokens hrestAtoms hrest
      (isNumber_of_join ht) (by rintro rfl; cases opening_of_join ht)
    obtain ⟨l₀, hl₀⟩ := ihl hleftAtoms hleft
    obtain ⟨r₀, hr₀⟩ := ihr (List.forall_mem_cons.1 hrestAtoms).2 hright.symm
    exact ⟨_, by simpa [outline] using Derives.join ht hl₀ hr₀⟩
  | plain _ ih =>
    obtain ⟨e₀, he₀⟩ := ih hslots hts
    exact ⟨e₀, .plain he₀⟩
  | choice hc ht _ ihc iht ihf =>
    obtain ⟨cond, rest, rfl, hcond, hrest⟩ := split_of_balanced [] hslots hc.balanced hts
    obtain ⟨hcondAtoms, hrestAtoms⟩ := List.forall_mem_append.1 hslots
    obtain ⟨branches, rfl, hbranches⟩ :=
      exists_token_of_flatMap_tokens hrestAtoms hrest rfl (by decide)
    have hbranchesAtoms := (List.forall_mem_cons.1 hrestAtoms).2
    obtain ⟨thenSlots, rest, rfl, hthen, hrest⟩ :=
      split_of_balanced [] hbranchesAtoms ht.balanced hbranches.symm
    obtain ⟨hthenAtoms, hrestAtoms⟩ := List.forall_mem_append.1 hbranchesAtoms
    obtain ⟨elseSlots, rfl, helse⟩ :=
      exists_token_of_flatMap_tokens hrestAtoms hrest rfl (by decide)
    obtain ⟨c₀, hc₀⟩ := ihc hcondAtoms hcond
    obtain ⟨t₀, ht₀⟩ := iht hthenAtoms hthen
    obtain ⟨f₀, hf₀⟩ := ihf (List.forall_mem_cons.1 hrestAtoms).2 helse.symm
    exact ⟨_, by simpa [outline] using Derives.choice hc₀ ht₀ hf₀⟩

/-- **A sign in front of a pool makes no difference**, unless an operand has ended there
and the sign is an operator. -/
theorem exists_derives_minus_iff {front : List Token} (hfront : ended false front = false)
    (rest : List Token) :
    (∃ e, Derives .conditional (front ++ .minus :: .integer 0 :: rest) e)
      ↔ ∃ e, Derives .conditional (front ++ .integer 0 :: rest) e := by
  constructor
  · rintro ⟨e, he⟩
    exact he.without_sign rfl hfront
  · rintro ⟨e, he⟩
    -- The other way round the zero with its sign is a pool in the place of the zero.
    let pool : Slot := .pool [.minus, .integer 0] (.signed .minus (.literal (.int 0)))
    have hpool : pool.IsProper := .signed rfl (.atom (.integer 0))
    have houtline : (front.map Slot.token ++ pool :: rest.map Slot.token).map outline
        = front ++ .integer 0 :: rest := by
      rw [List.map_append, List.map_cons, map_outline_token, map_outline_token]
      rfl
    have hproper : ∀ slot ∈ front.map Slot.token ++ pool :: rest.map Slot.token,
        slot.IsProper := by
      intro slot hslot
      rw [List.mem_append, List.mem_cons, List.mem_map, List.mem_map] at hslot
      rcases hslot with ⟨t, -, rfl⟩ | rfl | ⟨t, -, rfl⟩
      · trivial
      · exact hpool
      · trivial
    have hgraft := derives_graft he houtline hproper
    exact ⟨_, by simpa [pool, tokens, Rule.loosened] using hgraft⟩

end Expr

end DiceRoll
