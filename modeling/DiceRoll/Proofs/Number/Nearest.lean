/-
Rounding an integer to the nearest floating-point value.

Integers are compared as the integers that their nearest floating-point values hold, so
what a comparison can still tell apart is a question about this rounding. Two facts
answer it. Rounding keeps the order (`nearestInt_mono`), so it can make two integers
equal and never turns them around. And below `2 ^ 53` it changes nothing, so a small
integer is never made equal to another one, however large that is
(`eq_of_nearestInt_eq`).

The grid of an integer depends on its number of bits, and that is where the work is. On
one grid rounding is a quotient. From one grid to the next the powers of two lie on
both, and a rounded number does not cross them (`pow_log2_le_nearest`,
`nearest_le_pow`).

A product is rounded as well, where a sample is scaled by a number of faces. It moves by half
a unit of its grid at most, and that is too little to reach the next multiple of the faces
(`nearest_mul_lt`).
-/

import DiceRoll.Number.Binary
import Mathlib.Algebra.Ring.Nat

set_option autoImplicit false

namespace DiceRoll.Binary

/-! ## One grid -/

/-- A multiple below a number is below the rounded number. -/
theorem le_roundQuotient {n d q : Nat} (hd : 0 < d) (h : q * d ≤ n) : q ≤ roundQuotient n d := by
  have hq : q ≤ n / d := (Nat.le_div_iff_mul_le hd).2 h
  unfold roundQuotient
  split
  · exact hq
  · exact Nat.le_succ_of_le hq

/-- A multiple above a number is above the rounded number. -/
theorem roundQuotient_le {n d q : Nat} (hd : 0 < d) (h : n ≤ q * d) : roundQuotient n d ≤ q := by
  have hq : n / d ≤ q := Nat.div_le_of_le_mul (by rwa [Nat.mul_comm])
  have hsplit := Nat.div_add_mod n d
  unfold roundQuotient
  split
  · exact hq
  · rename_i hup
    -- Rounding up leaves a remainder, so the number is no multiple and lies below `q * d`.
    have hmod : 0 < n % d := by omega
    rcases Nat.lt_or_eq_of_le hq with hlt | rfl
    · exact hlt
    · rw [Nat.mul_comm d] at hsplit
      omega

theorem roundQuotient_mono {n m d : Nat} (h : n ≤ m) : roundQuotient n d ≤ roundQuotient m d := by
  have hq : n / d ≤ m / d := Nat.div_le_div_right h
  have hn := Nat.div_add_mod n d
  have hm := Nat.div_add_mod m d
  rcases Nat.lt_or_eq_of_le hq with hlt | heq
  · unfold roundQuotient
    split <;> split <;> omega
  · rw [heq] at hn
    unfold roundQuotient
    rw [heq]
    split <;> split <;> omega

/-! ## From one grid to the next -/

theorem nearest_eq (n : Nat) :
    nearest n = roundQuotient n (2 ^ (n.log2 + 1 - 53)) * 2 ^ (n.log2 + 1 - 53) := rfl

@[simp] theorem nearest_zero : nearest 0 = 0 := nearest_of_lt 0 (by decide)

/-- A number is not rounded below the greatest power of two in it. -/
theorem pow_log2_le_nearest {n : Nat} (hn : n ≠ 0) : 2 ^ n.log2 ≤ nearest n := by
  have hpow : 2 ^ n.log2 = 2 ^ (n.log2 - (n.log2 + 1 - 53)) * 2 ^ (n.log2 + 1 - 53) := by
    rw [← Nat.pow_add]
    congr 1
    omega
  rw [nearest_eq, hpow]
  refine Nat.mul_le_mul_right _ (le_roundQuotient (Nat.two_pow_pos _) ?_)
  rw [← hpow]
  exact Nat.log2_self_le hn

/-- A number is not rounded above the next power of two. -/
theorem nearest_le_pow (n : Nat) : nearest n ≤ 2 ^ (n.log2 + 1) := by
  have hpow : 2 ^ (n.log2 + 1) = 2 ^ (n.log2 + 1 - (n.log2 + 1 - 53)) * 2 ^ (n.log2 + 1 - 53) := by
    rw [← Nat.pow_add]
    congr 1
    omega
  rw [nearest_eq, hpow]
  refine Nat.mul_le_mul_right _ (roundQuotient_le (Nat.two_pow_pos _) ?_)
  rw [← hpow]
  exact Nat.le_of_lt Nat.lt_log2_self

theorem nearest_mono {n m : Nat} (h : n ≤ m) : nearest n ≤ nearest m := by
  rcases Nat.eq_zero_or_pos n with rfl | hn
  · rw [nearest_zero]
    exact Nat.zero_le _
  have hm : m ≠ 0 := by omega
  have hlog : n.log2 ≤ m.log2 :=
    (Nat.le_log2 hm).2 (Nat.le_trans (Nat.log2_self_le (Nat.ne_of_gt hn)) h)
  rcases Nat.lt_or_eq_of_le hlog with hlt | heq
  · calc nearest n ≤ 2 ^ (n.log2 + 1) := nearest_le_pow n
      _ ≤ 2 ^ m.log2 := Nat.pow_le_pow_right (by decide) hlt
      _ ≤ nearest m := pow_log2_le_nearest hm
  · rw [nearest_eq, nearest_eq, heq]
    exact Nat.mul_le_mul_right _ (roundQuotient_mono h)

/-! ## How far a number is rounded -/

/-- A quotient is rounded up by half a unit at most. -/
theorem two_mul_roundQuotient_le (n d : Nat) : 2 * (roundQuotient n d * d) ≤ 2 * n + d := by
  have hsplit := Nat.div_add_mod n d
  rw [Nat.mul_comm] at hsplit
  unfold roundQuotient
  split
  · omega
  · rename_i hup
    rw [Nat.succ_mul (n / d)]
    omega

/-- **A product by a mantissa is not rounded up to the next one.** The grid of the product
may be coarser than the other factor, but its half is not. -/
theorem nearest_mul_lt {m f : Nat} (hm : m < 2 ^ 53) (hf : 0 < f) :
    nearest (m * f) < (m + 1) * f := by
  rw [Nat.succ_mul m, nearest_eq]
  have hround := two_mul_roundQuotient_le (m * f) (2 ^ ((m * f).log2 + 1 - 53))
  generalize hexponent : (m * f).log2 + 1 - 53 = exponent at hround ⊢
  have hgrid : 2 ^ exponent < 2 * f := by
    by_cases hfine : exponent = 0
    · rw [hfine]
      omega
    · have hne : m * f ≠ 0 := by
        intro hzero
        rw [hzero] at hexponent
        exact hfine hexponent.symm
      have hlog : (m * f).log2 = exponent + 52 := by omega
      have hleast := Nat.log2_self_le hne
      rw [hlog, Nat.pow_add] at hleast
      have hmost : m * f < 2 ^ 53 * f := Nat.mul_lt_mul_of_pos_right hm hf
      omega
  omega

/-! ## Integers -/

/-- **Rounding keeps the order.** -/
theorem nearestInt_mono {a b : Int} (h : a ≤ b) : nearestInt a ≤ nearestInt b := by
  rcases a with n | n <;> rcases b with m | m
  · have hnm : n ≤ m := Int.ofNat_le.1 h
    exact Int.ofNat_le.2 (nearest_mono hnm)
  · exact absurd (Int.le_trans (Int.natCast_nonneg n) h) (Int.not_le.2 (Int.negSucc_lt_zero m))
  · simp only [nearestInt]
    omega
  · have hmn : m + 1 ≤ n + 1 := by omega
    have hnearest := nearest_mono hmn
    simp only [nearestInt]
    omega

/-- **Small integers are held exactly.** -/
theorem nearestInt_of_natAbs_lt {a : Int} (ha : a.natAbs < 2 ^ 53) : nearestInt a = a := by
  cases a with
  | ofNat n => exact congrArg Int.ofNat (nearest_of_lt n ha)
  | negSucc n =>
    rw [nearestInt, nearest_of_lt (n + 1) ha]
    rfl

/-- **No other integer is rounded to a small one.** -/
theorem eq_of_nearestInt_eq {v n : Int} (hv : v.natAbs + 1 < 2 ^ 53)
    (h : nearestInt v = nearestInt n) : v = n := by
  have hself : nearestInt v = v := nearestInt_of_natAbs_lt (by omega)
  rcases Int.lt_trichotomy n v with hlt | rfl | hgt
  · have hbelow := nearestInt_mono (Int.le_sub_one_of_lt hlt)
    rw [nearestInt_of_natAbs_lt (a := v - 1) (by omega)] at hbelow
    omega
  · rfl
  · have habove := nearestInt_mono (Int.add_one_le_of_lt hgt)
    rw [nearestInt_of_natAbs_lt (a := v + 1) (by omega)] at habove
    omega

end DiceRoll.Binary
