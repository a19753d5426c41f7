/-
Integer results are exact.

A value of arithmetic is an integer until a division leaves a remainder, and from there
on a floating-point number, about whose operations nothing is known here. So exactness
is a statement about the results that are still integers, and it is made against the
rational numbers (`Expr.rational?`), where a sum, a difference, a product or a quotient
is what it is and only a division by zero has no result.

The step is one operation. It gives an integer only on two integers, and then exactly if
the rational result is an integer in the range (`Operation.apply_int_iff`). What is left
is an induction over the expression in each direction. An integer result says more than
its own value: every expression in it had an exact integer in the range as its value,
since no way leads back from a floating-point number (`whole_of_eval_eq_int`). And where
all values on the way are such integers, the evaluation finds them
(`eval_eq_int_of_whole`).
-/

import DiceRoll.Arithmetic.Expr
import Mathlib.Algebra.Field.Rat
import Mathlib.Data.Int.CharZero

set_option autoImplicit false

namespace DiceRoll

/-! ## Exact values -/

/-- The operations that compute; the others compare. -/
def Operation.isArithmetic : Operation → Bool
  | .add | .sub | .mul | .div => true
  | _ => false

/-- The exact result of an operation. A division by zero has none, and neither has a
comparison, whose result is no quantity. -/
def Operation.rational? : Operation → ℚ → ℚ → Option ℚ
  | .add, a, b => some (a + b)
  | .sub, a, b => some (a - b)
  | .mul, a, b => some (a * b)
  | .div, a, b => if b = 0 then none else some (a / b)
  | _, _, _ => none

/-- The exact value of a signed operand. -/
def Sign.rational : Sign → ℚ → ℚ
  | .plus, a => a
  | .minus, a => -a

namespace Expr

/-- Whether an expression is built from integer literals by operations that compute,
signs and parentheses. A literal is in the range, as every integer value is. -/
def isArithmetic : Expr → Bool
  | .literal (.int n) => Number.inRange n
  | .literal (.float _) => false
  | .group e => e.isArithmetic
  | .signed _ e => e.isArithmetic
  | .binary l op r => op.isArithmetic && l.isArithmetic && r.isArithmetic
  | .choice _ _ _ => false

/-- The exact rational value of an expression, if no division by zero is in the way. -/
def rational? : Expr → Option ℚ
  | .literal (.int n) => some n
  | .literal (.float _) => none
  | .group e => e.rational?
  | .signed sign e => e.rational?.map sign.rational
  | .binary l op r => do
    let a ← l.rational?
    let b ← r.rational?
    op.rational? a b
  | .choice _ _ _ => none

/-- The expressions that an expression is made of, itself included: those whose values
come up on the way to its own. -/
def subterms : Expr → List Expr
  | .literal x => [.literal x]
  | .group e => .group e :: e.subterms
  | .signed sign e => .signed sign e :: e.subterms
  | .binary l op r => .binary l op r :: (l.subterms ++ r.subterms)
  | .choice c t f => .choice c t f :: (c.subterms ++ (t.subterms ++ f.subterms))

/-- The exact value of an expression is an integer in the range. -/
def IsWhole (e : Expr) : Prop := ∃ n : Int, e.rational? = some (n : ℚ) ∧ Number.inRange n = true

theorem self_mem_subterms (e : Expr) : e ∈ e.subterms := by
  cases e <;> simp [subterms]

end Expr

/-! ## One operation -/

open Number

theorem Number.ofInt?_eq_int_iff {n v : Int} :
    ofInt? n = .ok (.int v) ↔ n = v ∧ inRange v = true := by
  unfold ofInt?
  constructor
  · intro h
    split at h
    · rename_i hn
      cases h
      exact ⟨rfl, hn⟩
    · cases h
  · rintro ⟨rfl, hn⟩
    rw [if_pos hn]

/-- A floating-point result is no integer. -/
theorem Number.ofFloat?_ne_int (x : Float) (v : Int) : ofFloat? x ≠ .ok (.int v) := by
  intro h
  unfold ofFloat? at h
  split at h <;> cases h

/-- A quotient of two integers is an integer exactly if the division leaves nothing. -/
theorem cast_div_eq_iff {m n v : Int} (hn : n ≠ 0) :
    (m : ℚ) / n = v ↔ m % n = 0 ∧ m / n = v := by
  have hn' : (n : ℚ) ≠ 0 := Int.cast_ne_zero.2 hn
  rw [div_eq_iff hn']
  constructor
  · intro h
    have hm : m = v * n := by exact_mod_cast h
    rw [hm]
    exact ⟨Int.mul_emod_left v n, Int.mul_ediv_cancel v hn⟩
  · rintro ⟨hmod, rfl⟩
    have hm : m = m / n * n := (Int.ediv_mul_cancel (Int.dvd_of_emod_eq_zero hmod)).symm
    exact_mod_cast hm

theorem Number.div_int_iff {m n v : Int} :
    (Number.int m).div (.int n) = .ok (.int v)
      ↔ Operation.rational? .div m n = some (v : ℚ) ∧ inRange v = true := by
  by_cases hn : n = 0
  · subst hn
    simp [Number.div, isTrue, Operation.rational?]
  · have htrue : (Number.int n).isTrue = true := bne_iff_ne.2 hn
    have hn' : (n : ℚ) ≠ 0 := Int.cast_ne_zero.2 hn
    rw [Number.div, if_pos htrue, Operation.rational?, if_neg hn', Option.some.injEq,
      cast_div_eq_iff hn]
    simp only [Bool.and_eq_true, decide_eq_true_eq]
    by_cases hwhole : m % n = 0 ∧ inRange (m / n) = true
    · rw [if_pos hwhole]
      constructor
      · intro h
        cases h
        exact ⟨⟨hwhole.1, rfl⟩, hwhole.2⟩
      · rintro ⟨⟨-, rfl⟩, -⟩
        rfl
    · rw [if_neg hwhole]
      constructor
      · intro h
        exact absurd h (ofFloat?_ne_int _ v)
      · rintro ⟨⟨hmod, rfl⟩, hrange⟩
        exact absurd ⟨hmod, hrange⟩ hwhole

/-- **An operation on integers is exact.** It gives an integer exactly if its rational
result is that integer and in the range. -/
theorem Operation.apply_int_iff {op : Operation} (hop : op.isArithmetic = true) {m n v : Int} :
    op.apply (.int m) (.int n) = .ok (.int v)
      ↔ op.rational? m n = some (v : ℚ) ∧ inRange v = true := by
  cases op with
  | add =>
    rw [apply, Number.add, ofInt?_eq_int_iff, rational?, Option.some.injEq]
    norm_cast
  | sub =>
    rw [apply, Number.sub, ofInt?_eq_int_iff, rational?, Option.some.injEq]
    norm_cast
  | mul =>
    rw [apply, Number.mul, ofInt?_eq_int_iff, rational?, Option.some.injEq]
    norm_cast
  | div => exact div_int_iff
  | less => cases hop
  | greater => cases hop
  | atMost => cases hop
  | atLeast => cases hop
  | equal => cases hop

/-- An operation on two values that are not both integers is one of floating-point
numbers, or a division by zero. -/
theorem Operation.apply_of_not_int {op : Operation} (hop : op.isArithmetic = true) {a b : Number}
    (hab : ¬ ∃ m n, a = .int m ∧ b = .int n) :
    op.apply a b = .error .zeroDivision ∨ ∃ x, op.apply a b = ofFloat? x := by
  rcases a with m | x <;> rcases b with n | y
  · exact absurd ⟨m, n, rfl, rfl⟩ hab
  all_goals
    cases op with
    | add => exact .inr ⟨_, rfl⟩
    | sub => exact .inr ⟨_, rfl⟩
    | mul => exact .inr ⟨_, rfl⟩
    | div =>
      simp only [apply, Number.div]
      split
      · exact .inr ⟨_, rfl⟩
      · exact .inl rfl
    | _ => cases hop

/-- **No operation leads back to the integers.** -/
theorem Operation.int_of_apply {op : Operation} (hop : op.isArithmetic = true) {a b : Number}
    {v : Int} (h : op.apply a b = .ok (.int v)) : ∃ m n, a = .int m ∧ b = .int n := by
  by_contra hab
  rcases apply_of_not_int hop hab with hzero | ⟨x, hfloat⟩
  · rw [hzero] at h
    cases h
  · rw [hfloat] at h
    exact ofFloat?_ne_int x v h

theorem Sign.int_of_apply {sign : Sign} {a : Number} {v : Int}
    (h : sign.apply a = .ok (.int v)) : ∃ m, a = .int m := by
  cases a with
  | int m => exact ⟨m, rfl⟩
  | float x => cases sign <;> cases h

/-- A sign keeps an integer exact. -/
theorem Sign.apply_int_iff {sign : Sign} {m v : Int} (hm : inRange m = true) :
    sign.apply (.int m) = .ok (.int v) ↔ sign.rational m = (v : ℚ) ∧ inRange v = true := by
  cases sign with
  | plus =>
    rw [apply, rational]
    constructor
    · intro h
      cases h
      exact ⟨rfl, hm⟩
    · rintro ⟨h, -⟩
      rw [Int.cast_injective h]
  | minus =>
    rw [apply, Number.neg, ofInt?_eq_int_iff, rational]
    norm_cast

/-! ## One expression -/

namespace Expr

theorem eval_signed_eq_ok_iff {sign : Sign} {e : Expr} {y : Number} :
    (signed sign e).eval = .ok y ↔ ∃ x, e.eval = .ok x ∧ sign.apply x = .ok y := by
  rw [eval]
  cases e.eval with
  | error cause => simp [bind, Except.bind]
  | ok x => simp [bind, Except.bind]

theorem eval_binary_eq_ok_iff {op : Operation} {l r : Expr} {y : Number} :
    (binary l op r).eval = .ok y
      ↔ ∃ a b, l.eval = .ok a ∧ r.eval = .ok b ∧ op.apply a b = .ok y := by
  rw [eval]
  cases l.eval with
  | error cause => simp [bind, Except.bind]
  | ok a =>
    cases r.eval with
    | error cause => simp [bind, Except.bind]
    | ok b => simp [bind, Except.bind]

/-- The exact value of an expression whose operands have these. -/
theorem rational?_binary {op : Operation} {l r : Expr} {a b : ℚ} (hl : l.rational? = some a)
    (hr : r.rational? = some b) : (binary l op r).rational? = op.rational? a b := by
  rw [rational?, hl, hr]
  rfl

theorem rational?_signed {sign : Sign} {e : Expr} {a : ℚ} (he : e.rational? = some a) :
    (signed sign e).rational? = some (sign.rational a) := by
  rw [rational?, he]
  rfl

/-- **An integer result is exact, and so was every value on the way.** -/
theorem whole_of_eval_eq_int {e : Expr} (he : e.isArithmetic = true) {v : Int}
    (h : e.eval = .ok (.int v)) :
    e.rational? = some (v : ℚ) ∧ inRange v = true ∧ ∀ f ∈ e.subterms, f.IsWhole := by
  -- What holds of the expression itself goes in front of what holds of its operands.
  have hself : ∀ {e : Expr} {rest : List Expr} {v : Int}, e.rational? = some (v : ℚ) →
      inRange v = true → (∀ f ∈ rest, f.IsWhole) → ∀ f ∈ e :: rest, f.IsWhole :=
    fun hv hrange hrest => List.forall_mem_cons.2 ⟨⟨_, hv, hrange⟩, hrest⟩
  induction e generalizing v with
  | literal x =>
    cases h
    exact ⟨rfl, he, hself rfl he (List.forall_mem_nil _)⟩
  | group e ih =>
    obtain ⟨hv, hrange, hsub⟩ := ih he h
    exact ⟨hv, hrange, hself hv hrange hsub⟩
  | signed sign e ih =>
    obtain ⟨x, hx, happly⟩ := eval_signed_eq_ok_iff.1 h
    obtain ⟨m, rfl⟩ := Sign.int_of_apply happly
    obtain ⟨hm, hmrange, hsub⟩ := ih he hx
    obtain ⟨hrational, hrange⟩ := (Sign.apply_int_iff hmrange).1 happly
    have hv : (signed sign e).rational? = some (v : ℚ) := by
      rw [rational?_signed hm, hrational]
    exact ⟨hv, hrange, hself hv hrange hsub⟩
  | binary l op r ihl ihr =>
    simp only [isArithmetic, Bool.and_eq_true] at he
    obtain ⟨⟨hop, hl⟩, hr⟩ := he
    obtain ⟨a, b, ha, hb, happly⟩ := eval_binary_eq_ok_iff.1 h
    obtain ⟨m, n, rfl, rfl⟩ := Operation.int_of_apply hop happly
    obtain ⟨hm, -, hsubl⟩ := ihl hl ha
    obtain ⟨hn, -, hsubr⟩ := ihr hr hb
    obtain ⟨hrational, hrange⟩ := (Operation.apply_int_iff hop).1 happly
    have hv : (binary l op r).rational? = some (v : ℚ) := by
      rw [rational?_binary hm hn, hrational]
    exact ⟨hv, hrange, hself hv hrange (List.forall_mem_append.2 ⟨hsubl, hsubr⟩)⟩
  | choice c t f => cases he

/-- **Where every value on the way is an integer in the range, the evaluation finds
them.** -/
theorem eval_eq_int_of_whole {e : Expr} (he : e.isArithmetic = true)
    (hwhole : ∀ f ∈ e.subterms, f.IsWhole) :
    ∃ v : Int, e.rational? = some (v : ℚ) ∧ e.eval = .ok (.int v) := by
  obtain ⟨v, hv, hrange⟩ := hwhole e e.self_mem_subterms
  refine ⟨v, hv, ?_⟩
  induction e generalizing v with
  | literal x =>
    cases x with
    | int n =>
      rw [rational?, Option.some.injEq] at hv
      rw [eval, Int.cast_injective hv]
    | float x => cases he
  | group e ih =>
    have hsub := (List.forall_mem_cons.1 hwhole).2
    exact ih he hsub v hv hrange
  | signed sign e ih =>
    have hsub := (List.forall_mem_cons.1 hwhole).2
    obtain ⟨m, hm, hmrange⟩ := hsub e e.self_mem_subterms
    rw [rational?_signed hm, Option.some.injEq] at hv
    have happly := (Sign.apply_int_iff hmrange).2 ⟨hv, hrange⟩
    exact eval_signed_eq_ok_iff.2 ⟨_, ih he hsub m hm hmrange, happly⟩
  | binary l op r ihl ihr =>
    simp only [isArithmetic, Bool.and_eq_true] at he
    obtain ⟨⟨hop, hl⟩, hr⟩ := he
    obtain ⟨hsubl, hsubr⟩ := List.forall_mem_append.1 (List.forall_mem_cons.1 hwhole).2
    obtain ⟨m, hm, hmrange⟩ := hsubl l l.self_mem_subterms
    obtain ⟨n, hn, hnrange⟩ := hsubr r r.self_mem_subterms
    rw [rational?_binary hm hn] at hv
    have happly := (Operation.apply_int_iff hop).2 ⟨hv, hrange⟩
    exact eval_binary_eq_ok_iff.2
      ⟨_, _, ihl hl hsubl m hm hmrange, ihr hr hsubr n hn hnrange, happly⟩
  | choice c t f => cases he

/-- **Integer results are exact.** For an expression built from integers by sums,
differences, products, quotients, signs and parentheses: an integer that the evaluation
reports is the exact value of the expression, so none was wrapped or rounded; and if no
division by zero is in the way and every value that comes up is an integer in the range,
the evaluation reports the exact value as an integer. -/
theorem eval_exact (e : Expr) (he : e.isArithmetic = true) :
    (∀ v : Int, e.eval = .ok (.int v) → e.rational? = some (v : ℚ))
      ∧ ((∀ f ∈ e.subterms, f.IsWhole) →
        ∃ v : Int, e.rational? = some (v : ℚ) ∧ e.eval = .ok (.int v)) :=
  ⟨fun _ h => (whole_of_eval_eq_int he h).1, eval_eq_int_of_whole he⟩

/-- The least integer is no literal, but it can be reached and divided by minus two. -/
theorem eval_exact_of_least :
    let e : Expr := .binary
      (.group (.binary (.signed .minus (.literal (.int maxInt))) .sub (.literal (.int 1)))) .div
      (.signed .minus (.literal (.int 2)))
    e.isArithmetic = true ∧ e.eval = .ok (.int 4611686018427387904)
      ∧ e.rational? = some ((4611686018427387904 : Int) : ℚ)
      ∧ (∀ f ∈ e.subterms, f.IsWhole)
      ∧ ∃ v : Int, e.rational? = some (v : ℚ) ∧ e.eval = .ok (.int v) := by
  intro e
  have he : e.isArithmetic = true := by decide
  have heval : e.eval = .ok (.int 4611686018427387904) := rfl
  have hwhole := (whole_of_eval_eq_int he heval).2.2
  obtain ⟨hsound, hcomplete⟩ := eval_exact e he
  exact ⟨he, heval, hsound _ heval, hwhole, hcomplete hwhole⟩

end Expr

end DiceRoll
