/-
How high a tree can be.

The reader counts levels. Parentheses, signs and the branches of a conditional cost one
each, and it refuses what needs too many. The operations of a chain cost none: its loop
puts each operation above the chain read so far, and the tree grows to the left by one
node a turn (`spine`).

So the height has a bound in one direction and none in the other. Off the spines every
way down a tree goes through levels, of which there are few, and whatever bounds the
spines bounds the height (`height_le_of_read`). But a text can make a spine as long as
it likes, and no bound holds for the trees of all texts (`not_exists_height_le`): a sum
of ones is read with every level to spare.
-/

import DiceRoll.Proofs.Arithmetic.Exact
import DiceRoll.Proofs.Arithmetic.Sum
import Mathlib

set_option autoImplicit false

namespace DiceRoll.Expr

/-- How many operations stand one inside the other at the left of a tree, from its root
down. -/
def spine : Expr → Nat
  | .binary l _ _ => l.spine + 1
  | _ => 0

/-- A spine is a way down the tree. -/
theorem spine_lt_height (e : Expr) : e.spine < e.height := by
  induction e with
  | binary l op r ihl ihr =>
    simp only [spine, height]
    omega
  | _ => simp [spine, height]

/-! ## Above the spines -/

/-- No spine in the tree is longer. -/
def SpinesWithin (w : Nat) (e : Expr) : Prop := ∀ f ∈ e.subterms, f.spine ≤ w

instance (w : Nat) (e : Expr) : Decidable (SpinesWithin w e) :=
  inferInstanceAs (Decidable (∀ f ∈ e.subterms, f.spine ≤ w))

namespace SpinesWithin

variable {w : Nat}

theorem spine_le {e : Expr} (h : SpinesWithin w e) : e.spine ≤ w := h e e.self_mem_subterms

theorem group {e : Expr} (h : SpinesWithin w (.group e)) : SpinesWithin w e :=
  (List.forall_mem_cons.1 h).2

theorem signed {sign : Sign} {e : Expr} (h : SpinesWithin w (.signed sign e)) :
    SpinesWithin w e := (List.forall_mem_cons.1 h).2

theorem binary {l r : Expr} {op : Operation} (h : SpinesWithin w (.binary l op r)) :
    SpinesWithin w l ∧ SpinesWithin w r :=
  List.forall_mem_append.1 (List.forall_mem_cons.1 h).2

theorem choice {c t f : Expr} (h : SpinesWithin w (.choice c t f)) :
    SpinesWithin w c ∧ SpinesWithin w t ∧ SpinesWithin w f := by
  obtain ⟨hc, hbranches⟩ := List.forall_mem_append.1 (List.forall_mem_cons.1 h).2
  exact ⟨hc, List.forall_mem_append.1 hbranches⟩

end SpinesWithin

/-- How high a tree can be whose literals are nested in so many levels and whose spines
are no longer than `w`. Each level adds three chains, one inside the other, and two more
nodes: a literal or what costs the level, and a conditional. -/
def heightWithin (w levels : Nat) : Nat := levels * (3 * w + 2)

theorem heightWithin_succ (w levels : Nat) :
    heightWithin w (levels + 1) = heightWithin w levels + (3 * w + 2) :=
  Nat.succ_mul levels (3 * w + 2)

/-- How high an instance of a rule can stand on the levels inside it. A chain adds its own
spine to what its operands can reach. -/
def Rule.reach (w : Nat) (e : Expr) : Rule → Nat
  | .conditional => 3 * w + 2
  | .chain .comparison => 2 * w + e.spine + 1
  | .chain .sum => w + e.spine + 1
  | .chain .product => e.spine + 1
  | .operand | .atom => 1

/-- A chain reaches at least as high as its first operand alone. -/
theorem Strength.reach_operands_le (s : Strength) (w : Nat) (e : Expr) :
    s.operands.reach w e ≤ (Rule.chain s).reach w e := by
  cases s <;> simp only [Strength.operands, Rule.reach] <;> omega

/-- The chain on the left of an operation is one node lower than the chain with it. -/
theorem Strength.reach_left (s : Strength) (w : Nat) (l r : Expr) (op : Operation) :
    (Rule.chain s).reach w (.binary l op r) = (Rule.chain s).reach w l + 1 := by
  cases s <;> simp only [Rule.reach, spine] <;> omega

/-- The operand on the right of an operation lies below what the chain can reach. -/
theorem Strength.reach_right_lt (s : Strength) {w : Nat} {r : Expr} (hr : r.spine ≤ w) (l : Expr)
    (op : Operation) : s.operands.reach w r < (Rule.chain s).reach w (.binary l op r) := by
  cases s <;> simp only [Strength.operands, Rule.reach, spine] <;> omega

/-- **Every way to grow a tree costs a level or lengthens a spine.** -/
theorem height_le_of_derives {w : Nat} {rule : Rule} {ts : List Token} {e : Expr}
    (h : Derives rule ts e) (hw : SpinesWithin w e) {levels : Nat} (hn : e.nesting ≤ levels) :
    e.height ≤ heightWithin w levels + rule.reach w e := by
  induction h generalizing levels with
  | integer n => exact Nat.le_add_left _ _
  | decimal x => exact Nat.le_add_left _ _
  | group _ ih =>
    obtain ⟨n, rfl⟩ : ∃ n, levels = n + 1 := ⟨levels - 1, by simp only [nesting] at hn; omega⟩
    have hinner := ih hw.group (Nat.le_of_succ_le_succ hn)
    simp only [height, Rule.reach, heightWithin_succ] at hinner ⊢
    omega
  | atom _ ih => exact ih hw hn
  | signed _ _ ih =>
    obtain ⟨n, rfl⟩ : ∃ n, levels = n + 1 := ⟨levels - 1, by simp only [nesting] at hn; omega⟩
    have hinner := ih hw.signed (Nat.le_of_succ_le_succ hn)
    simp only [height, Rule.reach, heightWithin_succ] at hinner ⊢
    omega
  | @first s ts e _ ih =>
    have hoperand := ih hw hn
    have hreach := s.reach_operands_le w e
    omega
  | @join s t op ts us l r _ _ _ ihl ihr =>
    simp only [nesting] at hn
    have hleft := ihl hw.binary.1 (show l.nesting ≤ levels by omega)
    have hright := ihr hw.binary.2 (show r.nesting ≤ levels by omega)
    have hreachl := s.reach_left w l r op
    have hreachr := s.reach_right_lt hw.binary.2.spine_le l op
    simp only [height]
    omega
  | plain _ ih =>
    have hchain := ih hw hn
    have hspine := hw.spine_le
    simp only [Rule.reach] at hchain ⊢
    omega
  | @choice ts us vs c t f _ _ _ ihc iht ihf =>
    simp only [nesting] at hn
    obtain ⟨n, rfl⟩ : ∃ n, levels = n + 1 := ⟨levels - 1, by omega⟩
    obtain ⟨hwc, hwt, hwf⟩ := hw.choice
    -- The condition is on this level, and the branches are on the one inside.
    have hcondition := ihc hwc (show c.nesting ≤ n + 1 by omega)
    have hthen := iht hwt (show t.nesting ≤ n by omega)
    have helse := ihf hwf (show f.nesting ≤ n by omega)
    have hspine := hwc.spine_le
    simp only [height, Rule.reach, heightWithin_succ] at hcondition hthen helse ⊢
    omega

/-- **What bounds the spines bounds the height.** A tree that was read is nested in at most
a hundred levels, and spines are all that can make it higher than these allow. -/
theorem height_le_of_read {ts : List Token} {e : Expr} (h : ofTokens? ts = .ok e) {w : Nat}
    (hw : SpinesWithin w e) : e.height ≤ heightWithin w (maxNesting + 1) := by
  obtain ⟨hderives, hnesting⟩ := ofTokens?_eq_ok_iff.1 h
  rw [heightWithin_succ]
  exact height_le_of_derives hderives hw hnesting

/-- A difference of a sum and a product in parentheses. -/
theorem height_le_of_read_difference :
    let e : Expr := .binary (.binary (.literal (.int 1)) .add (.literal (.int 2))) .sub
      (.group (.binary (.literal (.int 3)) .mul (.literal (.int 4))))
    ofTokens? (Token.ofText ['1', '+', '2', '-', '(', '3', '*', '4', ')']) = .ok e
      ∧ SpinesWithin 2 e ∧ e.height ≤ heightWithin 2 (maxNesting + 1) := by
  intro e
  have hread : ofTokens? (Token.ofText ['1', '+', '2', '-', '(', '3', '*', '4', ')']) = .ok e := by
    cbv
  have hspines : SpinesWithin 2 e := by decide
  exact ⟨hread, hspines, height_le_of_read hread hspines⟩

/-! ## Along a spine -/

/-- Each integer that is added lengthens the spine. -/
theorem spine_addAll (e : Expr) (vs : List Int) : (addAll e vs).spine = e.spine + vs.length := by
  induction vs generalizing e with
  | nil => rfl
  | cons v vs ih =>
    rw [addAll, List.foldl_cons, ← addAll, ih, spine, List.length_cons]
    omega

/-- A sum is at least as high as it has summands. -/
theorem length_le_height_sumTree (values : List Int) : values.length ≤ (sumTree values).height := by
  cases values with
  | nil => exact Nat.zero_le _
  | cons v vs =>
    have hspine := spine_addAll (ofInt v) vs
    have hheight := (addAll (ofInt v) vs).spine_lt_height
    rw [sumTree, List.length_cons]
    omega

/-- **Sums of any length are read.** -/
theorem ofTokens?_sum {values : List Int} (hne : values ≠ [])
    (hv : ∀ v ∈ values, Number.Readable v) :
    ofTokens? (Token.ofText (['+'].intercalate (values.map Text.ofInt)))
      = .ok (sumTree values) := by
  rw [ofText_sum hv, ofTokens?_eq_ok_iff]
  exact ⟨.plain (.first (derives_sum hne)), (nesting_sum_le values).trans (by decide)⟩

/-- **No bound holds for the trees of all texts.** -/
theorem not_exists_height_le :
    ¬ ∃ bound, ∀ (s : Text) (e : Expr), ofTokens? (Token.ofText s) = .ok e → e.height ≤ bound := by
  rintro ⟨bound, hall⟩
  let ones : List Int := List.replicate (bound + 1) 1
  have hreadable : ∀ v ∈ ones, Number.Readable v := by
    intro v hv
    rw [List.eq_of_mem_replicate hv]
    decide
  have hne : ones ≠ [] := List.cons_ne_nil 1 (List.replicate bound 1)
  have hlength : ones.length = bound + 1 := List.length_replicate
  have hheight := length_le_height_sumTree ones
  have hbound := hall _ _ (ofTokens?_sum hne hreadable)
  omega

end DiceRoll.Expr
