/-
Comparing integers.

A comparison asks for a relation between two integers (`Operation.relates`), and the
evaluation answers for the two integers that their nearest floating-point values hold
(`Operation.apply_comparison`). Rounding keeps the order, so the answer can only be wrong
where two different integers are rounded to the same one, and there it is the answer for
equal integers. That settles when a comparison is exact (`Expr.eval_comparison_eq_iff`):
all of them are as long as rounding keeps the two integers apart, and beyond `2 ^ 53`
there are neighbours that it does not (`Expr.not_forall_eval_comparison_eq`).
-/

import DiceRoll.Proofs.Arithmetic.Exact
import DiceRoll.Proofs.Number.Nearest

set_option autoImplicit false

namespace DiceRoll

open Binary (nearestInt)

namespace Operation

/-- Whether the relation that a comparison asks for holds between two integers. The
operations that compute ask for none. -/
def relates : Operation → Int → Int → Bool
  | .less, a, b => a < b
  | .greater, a, b => b < a
  | .atMost, a, b => a ≤ b
  | .atLeast, a, b => b ≤ a
  | .equal, a, b => a = b
  | _, _, _ => false

/-! ## What decides a relation

Every comparison depends on the order of the two integers and on nothing else about
them, so there are three cases and a lemma for each. -/

theorem relates_of_lt (op : Operation) {a b m n : Int} (hab : a < b) (hmn : m < n) :
    op.relates a b = op.relates m n := by
  cases op <;> simp only [relates, decide_eq_decide] <;> omega

theorem relates_of_gt (op : Operation) {a b m n : Int} (hab : b < a) (hmn : n < m) :
    op.relates a b = op.relates m n := by
  cases op <;> simp only [relates, decide_eq_decide] <;> omega

theorem relates_self (op : Operation) (a b : Int) : op.relates a a = op.relates b b := by
  cases op <;> simp [relates]

/-- **Rounding gives the right answer unless it makes different integers equal.** Where
it makes the two equal, the answer is the one for equal integers. -/
theorem relates_nearestInt_eq_iff (op : Operation) (a b : Int) :
    op.relates (nearestInt a) (nearestInt b) = op.relates a b
      ↔ (nearestInt a = nearestInt b → op.relates a b = op.relates a a) := by
  have horder : ∀ {m n : Int}, nearestInt m < nearestInt n → m < n := by
    intro m n hlt
    by_contra hle
    exact absurd (Binary.nearestInt_mono (Int.not_lt.1 hle)) (Int.not_le.2 hlt)
  rcases Int.lt_trichotomy (nearestInt a) (nearestInt b) with hlt | heq | hgt
  · simp only [op.relates_of_lt hlt (horder hlt), Int.ne_of_lt hlt, false_imp_iff]
  · rw [heq, op.relates_self (nearestInt b) a]
    exact ⟨fun h _ => h.symm, fun h => (h rfl).symm⟩
  · simp only [op.relates_of_gt hgt (horder hgt), Int.ne_of_gt hgt, false_imp_iff]

/-- A small integer is compared exactly with every integer. -/
theorem relates_nearestInt_of_small (op : Operation) {v : Int} (hv : v.natAbs + 1 < 2 ^ 53)
    (n : Int) : op.relates (nearestInt v) (nearestInt n) = op.relates v n := by
  rw [relates_nearestInt_eq_iff]
  intro h
  rw [Binary.eq_of_nearestInt_eq hv h]

/-! ## What a comparison evaluates to -/

/-- **A comparison of integers is one of the integers next to them** that a
floating-point number can hold. It never fails. -/
theorem apply_comparison {op : Operation} (hop : op.isArithmetic = false) (a b : Int) :
    op.apply (.int a) (.int b) = .ok (.ofBool (op.relates (nearestInt a) (nearestInt b))) := by
  have hlt : (compare (nearestInt a) (nearestInt b) == .lt)
      = decide (nearestInt a < nearestInt b) := by
    rw [beq_eq_decide, decide_eq_decide, compare_lt_iff_lt]
  have hgt : (compare (nearestInt a) (nearestInt b) == .gt)
      = decide (nearestInt b < nearestInt a) := by
    rw [beq_eq_decide, decide_eq_decide, compare_gt_iff_gt]
  have heq : (compare (nearestInt a) (nearestInt b) == .eq)
      = decide (nearestInt a = nearestInt b) := by
    rw [beq_eq_decide, decide_eq_decide, compare_eq_iff_eq]
  cases op with
  | less => simp [apply, Number.compare?, relates, hlt]
  | greater => simp [apply, Number.compare?, relates, hgt]
  | atMost => simp [apply, Number.compare?, relates, hlt, heq, Int.le_iff_lt_or_eq]
  | atLeast => simp [apply, Number.compare?, relates, hgt, heq, Int.le_iff_lt_or_eq, eq_comm]
  | equal => simp [apply, Number.compare?, relates, heq]
  | add => cases hop
  | sub => cases hop
  | mul => cases hop
  | div => cases hop

end Operation

namespace Number

theorem ofBool_injective {x y : Bool} (h : ofBool x = ofBool y) : x = y := by
  cases x <;> cases y <;> first | rfl | cases h

@[simp] theorem isTrue_ofBool (x : Bool) : (ofBool x).isTrue = x := by
  cases x <;> rfl

end Number

namespace Expr

/-- **A comparison of integers is exact unless rounding makes different ones equal.** The
operands are any expressions whose values are integers. The comparison gives one where
the relation holds and zero where it does not, if and only if the two integers are
rounded to different ones or the relation says of them what it says of equal ones. -/
theorem eval_comparison_eq_iff {op : Operation} (hop : op.isArithmetic = false) {l r : Expr}
    {a b : Int} (hl : l.eval = .ok (.int a)) (hr : r.eval = .ok (.int b)) :
    (binary l op r).eval = .ok (.ofBool (op.relates a b))
      ↔ (nearestInt a = nearestInt b → op.relates a b = op.relates a a) := by
  have heval : (binary l op r).eval
      = .ok (.ofBool (op.relates (nearestInt a) (nearestInt b))) :=
    eval_binary_eq_ok_iff.2 ⟨_, _, hl, hr, op.apply_comparison hop a b⟩
  rw [heval, ← op.relates_nearestInt_eq_iff a b]
  constructor
  · intro h
    exact Number.ofBool_injective (Except.ok.inj h)
  · intro h
    rw [h]

/-- A sum and a number beyond the fifty-third bit that rounding keeps apart. -/
theorem eval_comparison_of_sum :
    let sum : Expr := .binary (.literal (.int 9007199254740992)) .add (.literal (.int 1))
    sum.eval = .ok (.int 9007199254740993)
      ∧ (binary sum .less (.literal (.int 9007199254740995))).eval
        = .ok (.ofBool (Operation.relates .less 9007199254740993 9007199254740995)) := by
  intro sum
  have hsum : sum.eval = .ok (.int 9007199254740993) := rfl
  exact ⟨hsum, (eval_comparison_eq_iff rfl hsum rfl).2 fun h => absurd h (by decide)⟩

/-- **Beyond the fifty-third bit equality is not exact.** Two integers that differ by one
are compared as equal. -/
theorem not_forall_eval_comparison_eq :
    ¬ ∀ (op : Operation) (a b : Int), op.isArithmetic = false →
        Number.inRange a = true → Number.inRange b = true →
        (binary (.literal (.int a)) op (.literal (.int b))).eval
          = .ok (.ofBool (op.relates a b)) := by
  intro hall
  have heq := hall .equal 9007199254740993 9007199254740992 rfl (by decide) (by decide)
  have heval : (binary (.literal (.int 9007199254740993)) .equal
      (.literal (.int 9007199254740992))).eval = .ok (.int 1) := by rfl
  rw [heval] at heq
  cases heq

end Expr

end DiceRoll
