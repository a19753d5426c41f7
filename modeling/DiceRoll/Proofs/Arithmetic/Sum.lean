/-
Integers and sums of integers as arithmetic.

What dice add to a roll is the text of an integer, or the texts of several integers
joined by plus signs in parentheses. This file follows such a text through the
tokens, the grammar and the evaluation: it is one operand (`derives_pool`), it is
nested at most two levels deep, and its value is the sum (`eval_pool`) as long as
no sum on the way leaves the range.

A negative integer is a sign and a numeral, so the least integer is no text that
can be read back: its numeral alone is out of range.
-/

import DiceRoll.Proofs.Arithmetic.Finalize
import Mathlib.Algebra.Ring.Int.Defs
import Mathlib.Data.List.Perm.Subperm

set_option autoImplicit false

namespace DiceRoll

open Text DiceRoll.Expr

/-! ## One integer -/

/-- The integers whose text is read back. -/
def Number.Readable (v : Int) : Prop := Number.minInt < v ∧ v ≤ Number.maxInt

instance (v : Int) : Decidable (Number.Readable v) := inferInstanceAs (Decidable (_ ∧ _))

open Number

theorem Number.Readable.inRange {v : Int} (hv : Readable v) : inRange v = true := by
  simp only [Number.inRange, Bool.and_eq_true, decide_eq_true_eq]
  exact ⟨Int.le_of_lt hv.1, hv.2⟩

theorem Number.ofInt?_of_inRange {v : Int} (hv : Number.inRange v = true) :
    ofInt? v = .ok (.int v) := by
  rw [ofInt?, if_pos hv]

namespace Expr

/-- The tokens of an integer. -/
def intTokens : Int → List Token
  | .ofNat n => [.integer n]
  | .negSucc n => [.minus, .integer (n + 1 : Nat)]

/-- The tree of an integer. -/
def ofInt : Int → Expr
  | .ofNat n => .literal (.int n)
  | .negSucc n => .signed .minus (.literal (.int (n + 1 : Nat)))

theorem ofText_ofInt_append {v : Int} (hv : Readable v) {b : Text}
    (hb : ∀ c ∈ b.head?, c.isDigit = false ∧ c ≠ '.') :
    Token.ofText (Text.ofInt v ++ b) = intTokens v ++ Token.ofText b := by
  cases v with
  | ofNat n => exact Token.ofText_ofNat_append hv.2 hb
  | negSucc n =>
    have hn : ((n + 1 : Nat) : Int) ≤ maxInt := by
      have := hv.1
      simp only [minInt, maxInt] at this ⊢
      omega
    rw [Text.ofInt, List.cons_append, Token.ofText_symbol (t := .minus) rfl,
      Token.ofText_ofNat_append hn hb]
    rfl

theorem ofText_ofInt {v : Int} (hv : Readable v) : Token.ofText (Text.ofInt v) = intTokens v := by
  have h := ofText_ofInt_append hv (b := []) (fun c hc => by cases hc)
  rwa [List.append_nil, Token.ofText_nil, List.append_nil] at h

theorem derives_ofInt (v : Int) : Derives .operand (intTokens v) (ofInt v) := by
  cases v with
  | ofNat n => exact .atom (.integer n)
  | negSucc n => exact .signed rfl (.atom (.integer _))

theorem nesting_ofInt_le (v : Int) : (ofInt v).nesting ≤ 1 := by
  cases v with
  | ofNat n => exact Nat.zero_le 1
  | negSucc n => exact Nat.le_refl 1

theorem eval_signed_minus {e : Expr} {x : Number} (he : e.eval = .ok x) :
    (Expr.signed .minus e).eval = x.neg := by
  rw [eval, he]
  rfl

theorem eval_ofInt {v : Int} (hv : Readable v) : (ofInt v).eval = .ok (.int v) := by
  cases v with
  | ofNat n => rfl
  | negSucc n =>
    have hneg : -((n + 1 : Nat) : Int) = .negSucc n := rfl
    rw [ofInt, eval_signed_minus (x := .int (n + 1 : Nat)) (by rw [eval]), Number.neg, hneg,
      ofInt?_of_inRange hv.inRange]

/-! ## A sum -/

/-- The tokens of integers joined by plus signs. -/
def sumTokens : List Int → List Token
  | [] => []
  | v :: vs => intTokens v ++ vs.flatMap fun w => .plus :: intTokens w

/-- A tree with integers added to it, one after the other. -/
def addAll (e : Expr) (vs : List Int) : Expr :=
  vs.foldl (fun e v => .binary e .add (ofInt v)) e

/-- The tree of a sum. -/
def sumTree : List Int → Expr
  | [] => .literal (.int 0)
  | v :: vs => addAll (ofInt v) vs

theorem ofText_sum {values : List Int} (hv : ∀ v ∈ values, Readable v) :
    Token.ofText (['+'].intercalate (values.map Text.ofInt)) = sumTokens values := by
  induction values with
  | nil => simp [sumTokens]
  | cons v vs ih =>
    have hhead := ofText_ofInt (hv v List.mem_cons_self)
    have htail := ih fun w hw => hv w (List.mem_cons_of_mem v hw)
    cases vs with
    | nil => simpa [sumTokens] using hhead
    | cons w vs =>
      rw [List.map_cons] at htail
      rw [List.map_cons, List.map_cons, List.intercalate_cons_cons, List.append_assoc,
        List.singleton_append, Token.ofText_append_symbol (t := .plus) rfl, htail, hhead]
      rfl

theorem derives_addAll {ts : List Token} {e : Expr} (h : Derives (.chain .sum) ts e)
    (vs : List Int) :
    Derives (.chain .sum) (ts ++ vs.flatMap fun w => .plus :: intTokens w) (addAll e vs) := by
  induction vs generalizing ts e with
  | nil => simpa [addAll] using h
  | cons v vs ih =>
    have hjoin : Derives (.chain .sum) (ts ++ .plus :: intTokens v) (.binary e .add (ofInt v)) :=
      .join rfl h (.first (derives_ofInt v))
    simpa [addAll] using ih hjoin

/-- **A sum of integers is derived**, as a chain of the middle strength. -/
theorem derives_sum {values : List Int} (hne : values ≠ []) :
    Derives (.chain .sum) (sumTokens values) (sumTree values) := by
  obtain ⟨v, vs, rfl⟩ := List.exists_cons_of_ne_nil hne
  exact derives_addAll (.first (.first (derives_ofInt v))) vs

theorem nesting_addAll_le {e : Expr} (he : e.nesting ≤ 1) (vs : List Int) :
    (addAll e vs).nesting ≤ 1 := by
  induction vs generalizing e with
  | nil => exact he
  | cons v vs ih =>
    refine ih ?_
    have := nesting_ofInt_le v
    simp only [nesting]
    omega

theorem nesting_sum_le (values : List Int) : (sumTree values).nesting ≤ 1 := by
  cases values with
  | nil => exact Nat.zero_le 1
  | cons v vs => exact nesting_addAll_le (nesting_ofInt_le v) vs

/-- Integers that can be added up from the left without leaving the range. -/
structure Addable (values : List Int) : Prop where
  readable : ∀ v ∈ values, Readable v
  sums : ∀ p, p <+: values → inRange p.sum = true

theorem eval_addAll {e : Expr} {a : Int} (he : e.eval = .ok (.int a)) {vs : List Int}
    (hv : ∀ v ∈ vs, Readable v) (hsums : ∀ p, p <+: vs → inRange (a + p.sum) = true) :
    (addAll e vs).eval = .ok (.int (a + vs.sum)) := by
  induction vs generalizing e a with
  | nil => simpa [addAll] using he
  | cons v vs ih =>
    have hadd : inRange (a + v) = true := by
      simpa using hsums [v] ⟨vs, rfl⟩
    have hstep : (Expr.binary e .add (ofInt v)).eval = .ok (.int (a + v)) := by
      rw [eval, he, eval_ofInt (hv v List.mem_cons_self)]
      exact ofInt?_of_inRange hadd
    -- The sum so far is the value that the rest is added to.
    have hrest := ih hstep (fun w hw => hv w (List.mem_cons_of_mem v hw)) fun p hp => by
      simpa [Int.add_assoc] using hsums (v :: p) (List.cons_prefix_cons.2 ⟨rfl, hp⟩)
    rw [List.sum_cons, ← Int.add_assoc]
    exact hrest

theorem eval_sum {values : List Int} (h : Addable values) :
    (sumTree values).eval = .ok (.int values.sum) := by
  cases values with
  | nil => rfl
  | cons v vs =>
    rw [List.sum_cons]
    refine eval_addAll (eval_ofInt (h.readable v List.mem_cons_self))
      (fun w hw => h.readable w (List.mem_cons_of_mem v hw)) fun p hp => ?_
    simpa using h.sums (v :: p) (List.cons_prefix_cons.2 ⟨rfl, hp⟩)

/-! ## The sum of a pool

A single integer stands as it is, and more than one stand in parentheses. -/

/-- The tokens of a pool with these values. -/
def poolTokens (values : List Int) : List Token :=
  if 1 < values.length then .leftParen :: (sumTokens values ++ [.rightParen])
  else sumTokens values

/-- The tree of a pool with these values. -/
def poolTree (values : List Int) : Expr :=
  if 1 < values.length then .group (sumTree values) else sumTree values

theorem ofText_pool {values : List Int} (hv : ∀ v ∈ values, Readable v) :
    Token.ofText (Markup.group ['+'] (values.map Text.ofInt)) = poolTokens values := by
  rw [Markup.group, poolTokens, List.length_map]
  split
  · rw [List.cons_append, Token.ofText_symbol (t := .leftParen) rfl,
      Token.ofText_append_symbol (t := .rightParen) rfl, ofText_sum hv, Token.ofText_nil]
  · exact ofText_sum hv

/-- More than one integer, or one that is not negative, stand as an atom. -/
theorem derives_pool_atom {values : List Int} (hne : values ≠ [])
    (hatom : 1 < values.length ∨ ∀ v ∈ values, 0 ≤ v) :
    Derives .atom (poolTokens values) (poolTree values) := by
  rw [poolTokens, poolTree]
  split
  · exact .group (.plain (.first (derives_sum hne)))
  · rename_i hlength
    match values, hatom with
    | [v], hatom =>
      have hv : 0 ≤ v := hatom.elim (fun h => absurd h hlength) fun h => h v List.mem_cons_self
      obtain ⟨n, rfl⟩ := Int.eq_ofNat_of_zero_le hv
      exact .integer n
    | v :: w :: vs, _ => exact absurd (by simp) hlength

/-- **A pool is one operand**, whatever its values are. -/
theorem derives_pool {values : List Int} (hne : values ≠ []) :
    Derives .operand (poolTokens values) (poolTree values) := by
  by_cases hlength : 1 < values.length
  · exact .atom (derives_pool_atom hne (.inl hlength))
  · rw [poolTokens, poolTree, if_neg hlength, if_neg hlength]
    match values with
    | [v] => simpa [sumTokens, sumTree, addAll] using derives_ofInt v
    | v :: w :: vs => exact absurd (by simp) hlength

theorem nesting_pool_le (values : List Int) : (poolTree values).nesting ≤ 2 := by
  have := nesting_sum_le values
  rw [poolTree]
  split
  · simp only [nesting]
    omega
  · omega

theorem eval_pool {values : List Int} (h : Addable values) :
    (poolTree values).eval = .ok (.int values.sum) := by
  rw [poolTree]
  split
  · exact eval_sum h
  · exact eval_sum h

end Expr

/-! ## The whole text of a pool -/

/-- An operand is an expression. -/
theorem Expr.Derives.conditional {ts : List Token} {e : Expr} (h : Derives .operand ts e) :
    Derives .conditional ts e :=
  .plain (.first (.first (.first h)))

/-- **A pool has the sum of its values as its value.** -/
theorem finalize_of_plain_eq_group {s : Text} {values : List Int}
    (hs : Markup.plain s = Markup.group ['+'] (values.map Text.ofInt)) (hne : values ≠ [])
    (h : Addable values) : Arithmetic.finalize s = .ok (.int values.sum) := by
  have htokens : Derives .conditional (Token.ofText (Markup.plain s)) (poolTree values) := by
    rw [hs, ofText_pool h.readable]
    exact (derives_pool hne).conditional
  have hnesting : (poolTree values).nesting ≤ maxNesting :=
    (nesting_pool_le values).trans (by decide)
  rw [Arithmetic.finalize_of_derives htokens hnesting, eval_pool h]
  rfl

/-! ## Bounds -/

theorem abs_sum_le {values : List Int} {bound : Int} (hv : ∀ v ∈ values, -bound ≤ v ∧ v ≤ bound) :
    -(values.length * bound) ≤ values.sum ∧ values.sum ≤ values.length * bound := by
  induction values with
  | nil => simp
  | cons v vs ih =>
    have hhead := hv v List.mem_cons_self
    have htail := ih fun w hw => hv w (List.mem_cons_of_mem v hw)
    have hlength : ((v :: vs).length : Int) * bound = vs.length * bound + bound := by
      rw [List.length_cons, Int.natCast_succ, Int.add_mul, Int.one_mul]
    rw [List.sum_cons, hlength]
    omega

/-- Few enough integers that are small enough: they can be added up in any order, all
of them or some. -/
def Modest (values : List Int) : Prop :=
  ∃ bound : Int, 0 ≤ bound ∧ (∀ v ∈ values, -bound ≤ v ∧ v ≤ bound)
    ∧ values.length * bound ≤ maxInt

namespace Modest

theorem of_subperm {part values : List Int} (h : Modest values) (hpart : part.Subperm values) :
    Modest part := by
  obtain ⟨bound, hbound, hv, hlength⟩ := h
  have hle : (part.length : Int) * bound ≤ values.length * bound :=
    Int.mul_le_mul_of_nonneg_right (by exact_mod_cast hpart.length_le) hbound
  exact ⟨bound, hbound, fun v hmem => hv v (hpart.subset hmem), by omega⟩

theorem readable_sum {values : List Int} (h : Modest values) : Readable values.sum := by
  obtain ⟨bound, -, hv, hlength⟩ := h
  have := abs_sum_le hv
  simp only [Readable, minInt, maxInt] at hlength ⊢
  omega

theorem addable {values : List Int} (h : Modest values) : Addable values := by
  constructor
  · intro v hmem
    have hone : Modest [v] := h.of_subperm (List.singleton_subperm_iff.2 hmem)
    simpa using hone.readable_sum
  · exact fun p hp => (h.of_subperm hp.sublist.subperm).readable_sum.inRange

end Modest

theorem addable_singleton {v : Int} (hv : Readable v) : Addable [v] := by
  constructor
  · simpa using hv
  · intro p hp
    rcases List.prefix_cons_iff.1 hp with rfl | ⟨q, rfl, hq⟩
    · rfl
    · rw [List.prefix_nil.1 hq]
      simpa using hv.inRange

end DiceRoll
