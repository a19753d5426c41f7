/-
Decimals as floating-point values.

A decimal is read as the floating-point number nearest to it. What the reader of decimals does is
an integer division with some bits to spare, and a rounding of the quotient that looks at two
more bits and no further. The invariant of the rounding is `Represents`: a mantissa with its two
further bits says where the exact value lies between this mantissa and the next one. The quotient
has it (`represents_quotient`), each shift keeps it (`Represents.shiftRight`), and at the end it
says whether the mantissa is rounded out of its fifty-three bits
(`Represents.le_roundedMantissa_iff`).

That is all one needs to know at the greatest exponent, where a mantissa rounded out of its bits
has no exponent left to go to. So a quotient is finite exactly below `limit`, half a unit above
the greatest finite value (`isFinite_pack_roundWithAccuracy`), and so is a decimal
(`isFinite_ofScientific`).
-/

import DiceRoll.Proofs.Number.Finite

set_option autoImplicit false

namespace DiceRoll

namespace Binary

open Float.Model
open Float.Model.UnpackedFloat

/-! ## The bits that rounding looks at -/

/-- What a mantissa and its two further bits say of the exact value: whether it is the
mantissa, below the half to the next one, the half, or above it. -/
def Represents (em : ExtendedMantissa) (x : ℚ) : Prop :=
  match em.roundBit, em.stickyBit with
  | false, false => x = em.mantissa
  | false, true => em.mantissa < x ∧ x < em.mantissa + 1 / 2
  | true, false => x = em.mantissa + 1 / 2
  | true, true => em.mantissa + 1 / 2 < x ∧ x < em.mantissa + 1

theorem represents_exact (m : Nat) :
    Represents (ExtendedMantissa.ofMantissaAndAccuracy m .exact) m := rfl

/-- A quotient is cut to a whole number, and the remainder says where it lies. -/
theorem represents_quotient {n d : Nat} (hd : 0 < d) :
    Represents (ExtendedMantissa.ofMantissaAndAccuracy (n / d) (accuracyOfFraction (n % d) d))
      (n / d) := by
  have hd' : (0 : ℚ) < d := by exact_mod_cast hd
  have hsplit : (n : ℚ) = d * (n / d : Nat) + (n % d : Nat) := by
    exact_mod_cast (Nat.div_add_mod n d).symm
  have hlt : ((n % d : Nat) : ℚ) < d := by exact_mod_cast Nat.mod_lt n hd
  have hvalue : (n : ℚ) / d = (n / d : Nat) + (n % d : Nat) / d := by
    rw [hsplit]
    field_simp
  rw [hvalue]
  generalize n / d = q
  generalize hr : n % d = r at hlt
  unfold accuracyOfFraction
  split
  · rename_i h0
    simp [Represents, ExtendedMantissa.ofMantissaAndAccuracy, h0]
  · rename_i h0
    have hpos : (0 : ℚ) < r := by exact_mod_cast Nat.pos_of_ne_zero h0
    have hfraction : (0 : ℚ) < r / d := by positivity
    rcases lt_trichotomy (2 * r) d with h | h | h
    · have h' : (2 : ℚ) * r < d := by exact_mod_cast h
      have : (r : ℚ) / d < 1 / 2 := by rw [div_lt_iff₀ hd']; linarith
      rw [Nat.compare_eq_lt.2 h]
      simp only [ExtendedMantissa.ofMantissaAndAccuracy, Represents]
      constructor <;> linarith
    · have h' : (2 : ℚ) * r = d := by exact_mod_cast h
      have : (r : ℚ) / d = 1 / 2 := by rw [div_eq_iff hd'.ne']; linarith
      rw [Nat.compare_eq_eq.2 h]
      simp only [ExtendedMantissa.ofMantissaAndAccuracy, Represents]
      linarith
    · have h' : (d : ℚ) < 2 * r := by exact_mod_cast h
      have : 1 / 2 < (r : ℚ) / d := by rw [lt_div_iff₀ hd']; linarith
      have : (r : ℚ) / d < 1 := by rw [div_lt_iff₀ hd']; linarith
      rw [Nat.compare_eq_gt.2 h]
      simp only [ExtendedMantissa.ofMantissaAndAccuracy, Represents]
      constructor <;> linarith

namespace Represents

variable {em : ExtendedMantissa} {x : ℚ}

/-- A bit less of the mantissa is a bit more of the two. -/
theorem shiftRightOne (h : Represents em x) : Represents em.shiftRightOne (x / 2) := by
  obtain ⟨m, r, s⟩ := em
  have hm : (m : ℚ) = 2 * (m / 2 : Nat) + (m % 2 : Nat) := by
    exact_mod_cast (Nat.div_add_mod m 2).symm
  have hodd : (1 != 0) = true := rfl
  -- The bit that is shifted out says in which half of the new unit the value lies, and the two
  -- old bits only whether it lies at the beginning of that half.
  rcases Nat.mod_two_eq_zero_or_one m with hbit | hbit <;> rw [hbit] at hm <;>
    cases r <;> cases s <;>
    simp only [Represents, ExtendedMantissa.shiftRightOne, hbit, bne_self_eq_false, hodd,
      Bool.or_self, Bool.or_true, Bool.or_false, Nat.cast_zero, Nat.cast_one] at h hm ⊢
  all_goals first | linarith | exact ⟨by linarith, by linarith⟩

theorem shiftRight (h : Represents em x) (n : Nat) : Represents (em >>> n) (x / 2 ^ n) := by
  change Represents (n.repeat ExtendedMantissa.shiftRightOne em) _
  induction n with
  | zero => simpa [Nat.repeat] using h
  | succ n ih =>
    rw [Nat.repeat, pow_succ, ← div_div]
    exact ih.shiftRightOne

theorem bounds (h : Represents em x) : em.mantissa ≤ x ∧ x < em.mantissa + 1 := by
  obtain ⟨m, r, s⟩ := em
  cases r <;> cases s <;> simp only [Represents] at h ⊢ <;> constructor <;> linarith

/-- A mantissa of fifty-three bits is rounded out of them from half a unit below the bound
on. The mantissa below the bound is odd, so the half itself is rounded up. -/
theorem le_roundedMantissa_iff (h : Represents em x) (hm : em.mantissa < 2 ^ 53) :
    2 ^ 53 ≤ em.roundedMantissa ↔ 2 ^ 53 - 1 / 2 ≤ x := by
  obtain ⟨m, r, s⟩ := em
  have hle : (m : ℚ) + 1 ≤ 2 ^ 53 := by exact_mod_cast hm
  have hlast : 2 ^ 53 ≤ m + 1 ↔ (2 : ℚ) ^ 53 ≤ m + 1 := by exact_mod_cast Iff.rfl
  simp only at hm
  cases r <;> cases s <;>
    simp only [Represents, ExtendedMantissa.roundedMantissa, ExtendedMantissa.accuracy,
      Accuracy.roundToNearestEven] at h ⊢
  · exact iff_of_false (by omega) (by linarith)
  · exact iff_of_false (by omega) (by linarith)
  · have heven : 2 ^ 53 ≤ m + m % 2 ↔ 2 ^ 53 ≤ m + 1 := by omega
    rw [heven, hlast, h]
    constructor <;> intro <;> linarith
  · rw [hlast]
    constructor
    · intro
      linarith
    · intro hx
      by_contra hlt
      have hlt : m + 2 ≤ 2 ^ 53 := by
        rw [← hlast] at hlt
        omega
      have hlt : (m : ℚ) + 2 ≤ 2 ^ 53 := by exact_mod_cast hlt
      linarith

end Represents

theorem mantissa_shiftRight (em : ExtendedMantissa) (n : Nat) :
    (em >>> n).mantissa = em.mantissa / 2 ^ n := by
  change (n.repeat ExtendedMantissa.shiftRightOne em).mantissa = _
  induction n with
  | zero => simp [Nat.repeat]
  | succ n ih =>
    rw [Nat.repeat, pow_succ, ← Nat.div_div_eq_div_mul, ← ih]
    rfl

theorem mantissa_ofMantissaAndAccuracy (m : Nat) (acc : Accuracy) :
    (ExtendedMantissa.ofMantissaAndAccuracy m acc).mantissa = m := by
  rcases acc with _ | o
  · rfl
  · cases o <;> rfl

theorem roundedMantissa_bounds (em : ExtendedMantissa) :
    em.mantissa ≤ em.roundedMantissa ∧ em.roundedMantissa ≤ em.mantissa + 1 := by
  obtain ⟨m, r, s⟩ := em
  cases r <;> cases s <;>
    simp only [ExtendedMantissa.roundedMantissa, ExtendedMantissa.accuracy,
      Accuracy.roundToNearestEven] <;> omega

/-! ## Rounding -/

/-- The least number that is rounded to infinity: half a unit above the greatest finite value. -/
def limit : ℚ := 2 ^ 1024 - 2 ^ 970

theorem limit_eq : limit = (2 ^ 53 - 1 / 2) * 2 ^ maxExponent := by
  have hpow : (2 : ℚ) ^ 1024 = 2 ^ 53 * 2 ^ 971 := by rw [← pow_add]
  have hhalf : (2 : ℚ) ^ 971 = 2 * 2 ^ 970 := by rw [← pow_succ']
  have hmax : (2 : ℚ) ^ maxExponent = 2 ^ 971 := zpow_natCast 2 971
  rw [limit, hmax, hpow, hhalf]
  generalize (2 : ℚ) ^ 970 = a
  ring

theorem zpow_lt_limit {t : Int} (ht : t ≤ 1023) : (2 : ℚ) ^ t < limit := by
  calc (2 : ℚ) ^ t ≤ 2 ^ (52 + maxExponent) := zpow_le_zpow_right₀ one_le_two ht
    _ = 2 ^ 52 * 2 ^ maxExponent := by
        rw [zpow_add₀ two_ne_zero]
        rfl
    _ < limit := by
        rw [limit_eq]
        refine mul_lt_mul_of_pos_right ?_ (by positivity)
        norm_num

theorem limit_le_zpow {t : Int} (ht : 1024 ≤ t) : limit ≤ 2 ^ t :=
  calc limit ≤ 2 ^ (1024 : Int) := sub_le_self _ (by positivity)
    _ ≤ 2 ^ t := zpow_le_zpow_right₀ one_le_two ht

/-! Of the value that a mantissa of fifty-three bits represents, the exponent says whether it is
below the limit, except at the greatest exponent. There it is for the rounded mantissa to say. -/

namespace Represents

variable {em : ExtendedMantissa} {x : ℚ} {e : Int}

theorem lt_limit (h : Represents em x) (hm : em.mantissa < 2 ^ 53) (he : e < maxExponent) :
    x * 2 ^ e < limit := by
  have hx : x < 2 ^ (53 : Int) := by
    have hm : (em.mantissa : ℚ) + 1 ≤ 2 ^ (53 : Int) := by exact_mod_cast hm
    linarith [h.bounds]
  rw [maxExponent] at he
  calc x * 2 ^ e < 2 ^ (53 : Int) * 2 ^ e := mul_lt_mul_of_pos_right hx (by positivity)
    _ = 2 ^ (53 + e) := (zpow_add₀ two_ne_zero _ _).symm
    _ < limit := zpow_lt_limit (by omega)

theorem limit_le (h : Represents em x) (hm : 2 ^ 52 ≤ em.mantissa) (he : maxExponent < e) :
    limit ≤ x * 2 ^ e := by
  have hx : (2 : ℚ) ^ (52 : Int) ≤ x := by
    have hm : (2 : ℚ) ^ (52 : Int) ≤ em.mantissa := by exact_mod_cast hm
    linarith [h.bounds]
  rw [maxExponent] at he
  calc limit ≤ 2 ^ (52 + e) := limit_le_zpow (by omega)
    _ = 2 ^ (52 : Int) * 2 ^ e := zpow_add₀ two_ne_zero _ _
    _ ≤ x * 2 ^ e := mul_le_mul_of_nonneg_right hx (by positivity)

theorem lt_limit_iff (h : Represents em x) (hm : em.mantissa < 2 ^ 53) :
    x * 2 ^ maxExponent < limit ↔ em.roundedMantissa < 2 ^ 53 := by
  rw [limit_eq, mul_lt_mul_iff_left₀ (by positivity), ← not_le, ← h.le_roundedMantissa_iff hm,
    not_le]

end Represents

theorem targetExponent_eq (t : Int) : Format.binary64.targetExponent t = max (t - 53) (-1074) := rfl

/-- A rounded mantissa is shifted again exactly if it was rounded out of its bits. -/
theorem shiftToTargetExponent_rounded {r : Nat} {e : Int} (hr : r ≤ 2 ^ 53) (he : -1074 ≤ e) :
    shiftToTargetExponent .binary64 r e .exact
      = if r = 2 ^ 53 then (⟨2 ^ 52, false, false⟩, e + 1) else (⟨r, false, false⟩, e) := by
  unfold shiftToTargetExponent shiftToExponent totalExponent
  rw [targetExponent_eq]
  split
  · rename_i h
    subst h
    have hlog : (2 ^ 53 : Nat).log2 = 53 := Nat.log2_two_pow
    have hshift : (max (((2 ^ 53 : Nat).log2 : Int) + 1 + e - 53) (-1074) - e).toNat = 1 := by
      omega
    dsimp only
    rw [hshift]
    rfl
  · have hlog : r.log2 < 53 := by
      rcases Nat.eq_zero_or_pos r with rfl | hpos
      · decide
      · exact (Nat.log2_lt hpos.ne').2 (by omega)
    have hshift : (max ((r.log2 : Int) + 1 + e - 53) (-1074) - e).toNat = 0 := by omega
    dsimp only
    rw [hshift]
    simp
    rfl

/-- What the last steps of rounding make of a mantissa: it is finite up to the greatest exponent,
and there only if the mantissa was not rounded out of its bits. -/
theorem isFinite_pack_rounded (s : UnpackedFloat.Sign) {r : Nat} {e : Int} (hr : r ≤ 2 ^ 53)
    (he : -1074 ≤ e) :
    (Float.Model.pack (
      let (em, e') := shiftToTargetExponent .binary64 r e .exact
      if h : em.mantissa = 0 then .zero s
      else .finite s em.mantissa e' (Nat.pos_of_ne_zero h))).isFinite
      = decide (r = 0 ∨ e < maxExponent ∨ e = maxExponent ∧ r < 2 ^ 53) := by
  rw [shiftToTargetExponent_rounded hr he]
  by_cases hfull : r = 2 ^ 53
  · simp only [if_pos hfull]
    rw [dif_neg (by decide), isFinite_pack_finite]
    exact decide_eq_decide.2 (by omega)
  · simp only [if_neg hfull]
    by_cases hzero : r = 0
    · rw [dif_pos hzero, isFinite_pack_zero, decide_eq_true (.inl hzero)]
    · rw [dif_neg hzero, isFinite_pack_finite]
      exact decide_eq_decide.2 (by omega)

theorem isNaN_pack_rounded (s : UnpackedFloat.Sign) (m : Nat) (e : Int) :
    (Float.Model.pack
      (if h : m = 0 then .zero s else .finite s m e (Nat.pos_of_ne_zero h))).isNaN = false := by
  split
  · exact isNaN_pack_zero s
  · exact isNaN_pack_finite s e _

section Rounding

variable {m : Nat} {T : Int} {acc : Accuracy} {x : ℚ}

/-- The first shift brings the mantissa into fifty-three bits, and lengthens none: the exponent
is the target's or the one that there was. -/
theorem shiftToTargetExponent_bounds (m : Nat) (T : Int) (acc : Accuracy) :
    ∃ n : Nat,
      shiftToTargetExponent .binary64 m T acc
        = (ExtendedMantissa.ofMantissaAndAccuracy m acc >>> n, T + n)
      ∧ m / 2 ^ n < 2 ^ 53 ∧ -1074 ≤ T + n ∧ (0 < n → -1074 < T + n → 2 ^ 52 ≤ m / 2 ^ n) := by
  unfold shiftToTargetExponent shiftToExponent totalExponent
  rw [targetExponent_eq]
  dsimp only
  generalize hn : (max ((m.log2 : Int) + 1 + T - 53) (-1074) - T).toNat = n
  refine ⟨n, rfl, ?_, by omega, ?_⟩
  · rw [Nat.div_lt_iff_lt_mul (Nat.two_pow_pos n), ← Nat.pow_add]
    calc m < 2 ^ (m.log2 + 1) := Nat.lt_log2_self
      _ ≤ 2 ^ (53 + n) := Nat.pow_le_pow_right (by decide) (by omega)
  · intro hpos hmin
    have hm : m ≠ 0 := by
      rintro rfl
      rw [Nat.log2_zero] at hn
      omega
    rw [Nat.le_div_iff_mul_le (Nat.two_pow_pos n), ← Nat.pow_add]
    calc 2 ^ (52 + n) ≤ 2 ^ m.log2 := Nat.pow_le_pow_right (by decide) (by omega)
      _ ≤ m := Nat.log2_self_le hm

/-- **A rounded value is finite exactly below the limit.** -/
theorem isFinite_pack_roundWithAccuracy (s : UnpackedFloat.Sign)
    (hx : Represents (ExtendedMantissa.ofMantissaAndAccuracy m acc) x) (hT : T ≤ maxExponent) :
    (Float.Model.pack (roundWithAccuracy .binary64 s m T acc)).isFinite
      = decide (x * 2 ^ T < limit) := by
  obtain ⟨n, hshift, hlt, hmin, hfull⟩ := shiftToTargetExponent_bounds m T acc
  have hy := hx.shiftRight n
  have hmantissa := mantissa_shiftRight (ExtendedMantissa.ofMantissaAndAccuracy m acc) n
  rw [mantissa_ofMantissaAndAccuracy] at hmantissa
  -- The shift changes the unit and not the value.
  have hvalue : x * 2 ^ T = x / 2 ^ n * 2 ^ (T + n) := by
    rw [zpow_add₀ two_ne_zero, zpow_natCast]
    field_simp
  have hfull : maxExponent < T + n → 2 ^ 52 ≤ m / 2 ^ n := by
    rw [maxExponent] at *
    exact fun h => hfull (by omega) (by omega)
  rw [hvalue]
  unfold roundWithAccuracy
  rw [hshift]
  dsimp only
  rw [← hmantissa] at hlt hfull
  generalize ExtendedMantissa.ofMantissaAndAccuracy m acc >>> n = em at *
  generalize x / 2 ^ n = y at *
  generalize T + n = e at *
  have hrounded := roundedMantissa_bounds em
  rw [isFinite_pack_rounded s (by omega) hmin, decide_eq_decide]
  rcases lt_trichotomy e maxExponent with he | rfl | he
  · exact iff_of_true (.inr (.inl he)) (hy.lt_limit hlt he)
  · rw [hy.lt_limit_iff hlt]
    omega
  · have hfull := hfull he
    exact iff_of_false (by omega) (not_lt.2 (hy.limit_le hfull he))

theorem isNaN_pack_roundWithAccuracy (s : UnpackedFloat.Sign) (m : Nat) (T : Int) (acc : Accuracy) :
    (Float.Model.pack (roundWithAccuracy .binary64 s m T acc)).isNaN = false :=
  isNaN_pack_rounded ..

end Rounding

/-! ## Integers and quotients -/

/-- An integer of fifty-three bits is finite as a floating-point value. -/
theorem isFinite_pack_ofNat {n : Nat} (hn : n < 2 ^ 53) :
    (Float.Model.pack (UnpackedFloat.ofNat .binary64 n)).isFinite = true := by
  unfold UnpackedFloat.ofNat UnpackedFloat.ofInt UnpackedFloat.normalize
  split
  · rename_i hneg
    rw [compare_lt_iff_lt] at hneg
    omega
  · exact isFinite_pack_zero _
  · unfold UnpackedFloat.round decreaseExponent
    rw [targetExponent_eq]
    dsimp only
    generalize (0 - max (totalExponent (n : Int).toNat 0 - 53) (-1074)).toNat = k
    rw [isFinite_pack_roundWithAccuracy .positive (represents_exact _) (by rw [maxExponent]; omega),
      decide_eq_true_eq, Int.toNat_natCast, Nat.shiftLeft_eq]
    have hn : (n : ℚ) < 2 ^ (53 : Int) := by exact_mod_cast hn
    calc ((n * 2 ^ k : Nat) : ℚ) * 2 ^ (0 - (k : Int)) = n := by
          rw [zero_sub, zpow_neg, zpow_natCast]
          push_cast
          field_simp
      _ < 2 ^ (53 : Int) := hn
      _ < limit := zpow_lt_limit (by decide)

/-- **A quotient of finite values is finite exactly below the limit.** -/
theorem isFinite_pack_div (s₁ s₂ : UnpackedFloat.Sign) {m₁ m₂ : Nat} {e₁ e₂ : Int} (h₁ : 0 < m₁)
    (h₂ : 0 < m₂)
    (h : e₁ - e₂ ≤ maxExponent ∨ totalExponent m₁ e₁ - totalExponent m₂ e₂ ≤ 1024) :
    (Float.Model.pack
      (UnpackedFloat.div .binary64 (.finite s₁ m₁ e₁ h₁) (.finite s₂ m₂ e₂ h₂))).isFinite
      = decide ((m₁ * 2 ^ e₁ / (m₂ * 2 ^ e₂) : ℚ) < limit) := by
  simp only [UnpackedFloat.div, divCore, targetExponent_eq]
  generalize hT : min (e₁ - e₂) (max (totalExponent m₁ e₁ - totalExponent m₂ e₂ - 53) (-1074)) = T
  have hmax : T ≤ maxExponent := by
    rw [maxExponent] at *
    omega
  rw [isFinite_pack_roundWithAccuracy _ (represents_quotient h₂) hmax, Nat.shiftLeft_eq]
  have hshift : ((e₁ - e₂ - T).toNat : Int) = e₁ - e₂ - T := by omega
  have hpow : (2 : ℚ) ^ (e₁ - e₂ - T).toNat = 2 ^ e₁ / 2 ^ e₂ / 2 ^ T := by
    rw [← zpow_natCast, hshift, zpow_sub₀ two_ne_zero, zpow_sub₀ two_ne_zero]
  push_cast
  rw [hpow]
  congr 2
  field_simp

theorem isNaN_pack_div (s₁ s₂ : UnpackedFloat.Sign) {m₁ m₂ : Nat} {e₁ e₂ : Int} (h₁ : 0 < m₁)
    (h₂ : 0 < m₂) :
    (Float.Model.pack
      (UnpackedFloat.div .binary64 (.finite s₁ m₁ e₁ h₁) (.finite s₂ m₂ e₂ h₂))).isNaN
      = false :=
  isNaN_pack_roundWithAccuracy ..

/-- A value lies between the powers of two that its total exponent tells. -/
theorem value_bounds {m : Nat} (e : Int) (hm : 0 < m) :
    (2 : ℚ) ^ (totalExponent m e - 1) ≤ m * 2 ^ e ∧ (m * 2 ^ e : ℚ) < 2 ^ totalExponent m e := by
  have hlow : (2 : ℚ) ^ m.log2 ≤ m := by exact_mod_cast Nat.log2_self_le hm.ne'
  have hhigh : (m : ℚ) < 2 ^ (m.log2 + 1) := by exact_mod_cast Nat.lt_log2_self
  have hpos : (0 : ℚ) < 2 ^ e := by positivity
  constructor
  · calc (2 : ℚ) ^ (totalExponent m e - 1) = 2 ^ m.log2 * 2 ^ e := by
          rw [← zpow_natCast, ← zpow_add₀ two_ne_zero, totalExponent]
          congr 1
          omega
      _ ≤ m * 2 ^ e := mul_le_mul_of_nonneg_right hlow hpos.le
  · calc (m * 2 ^ e : ℚ) < 2 ^ (m.log2 + 1) * 2 ^ e := mul_lt_mul_of_pos_right hhigh hpos
      _ = 2 ^ totalExponent m e := by
          rw [← zpow_natCast, ← zpow_add₀ two_ne_zero, totalExponent]
          rfl

/-! ## Decimals -/

theorem totalExponent_le_of_unpack {b : BitVec Format.binary64.numBits} {s : UnpackedFloat.Sign}
    {m : Nat} {e : Int} {hm : 0 < m} (hb : UnpackedFloat.unpack .binary64 b = .finite s m e hm) :
    totalExponent m e ≤ 1024 := by
  obtain ⟨hmantissa, hexponent⟩ := bounds_of_unpack hb
  have hlog : m.log2 < 53 := (Nat.log2_lt hm.ne').2 hmantissa
  rw [totalExponent]
  rw [maxExponent] at hexponent
  omega

/-- Whether a value is two or more in size and finite. -/
def isAtLeastTwo (x : Float) : Bool :=
  match x.toModel.unpack with
  | .finite _ m e _ => 2 ≤ totalExponent m e
  | _ => false

/-- The powers of ten in the table are, all but the first. -/
theorem isAtLeastTwo_powerOfTen (k : Fin Float.exactlyRepresentablePowersOfTen.size)
    (hk : 1 ≤ k.val) : isAtLeastTwo Float.exactlyRepresentablePowersOfTen[k] = true := by
  revert k
  decide +kernel

theorem exists_of_isAtLeastTwo {x : Float} (hx : isAtLeastTwo x = true) :
    ∃ s m e hm, x.toModel.unpack = .finite s m e hm ∧ 2 ≤ totalExponent m e := by
  unfold isAtLeastTwo at hx
  split at hx
  · rename_i s m e hm hunpack
    exact ⟨s, m, e, hm, hunpack, of_decide_eq_true hx⟩
  · cases hx

/-- A finite value divided by two or more is finite. -/
theorem isFinite_div {x y : Float} (hx : x.isFinite = true) (hy : isAtLeastTwo y = true) :
    (x / y).isFinite = true := by
  obtain ⟨s, m, e, hm, hy, he⟩ := exists_of_isAtLeastTwo hy
  change (Float.Model.pack
    (UnpackedFloat.div .binary64 x.toModel.unpack y.toModel.unpack)).isFinite = true
  change x.toModel.unpack.isFinite = true at hx
  rw [hy]
  cases hmodel : x.toModel.unpack with
  | infinity =>
    rw [hmodel] at hx
    cases hx
  | notANumber =>
    rw [hmodel] at hx
    cases hx
  | zero s' => exact isFinite_pack_zero _
  | finite s₁ m₁ e₁ h₁ =>
    have htotal := totalExponent_le_of_unpack hmodel
    rw [isFinite_pack_div s₁ s h₁ hm (.inr (by omega)), decide_eq_true_eq]
    have htwo : (2 : ℚ) ^ (1 : Int) ≤ m * 2 ^ e :=
      (zpow_le_zpow_right₀ one_le_two (by omega)).trans (value_bounds e hm).1
    have hnumerator : (m₁ * 2 ^ e₁ : ℚ) ≤ 2 ^ (1024 : Int) :=
      (value_bounds e₁ h₁).2.le.trans (zpow_le_zpow_right₀ one_le_two htotal)
    calc (m₁ * 2 ^ e₁ / (m * 2 ^ e) : ℚ) ≤ 2 ^ (1024 : Int) / 2 ^ (1 : Int) :=
          div_le_div₀ (by positivity) hnumerator (by positivity) htwo
      _ = 2 ^ (1023 : Int) := by rw [← zpow_sub₀ two_ne_zero]; rfl
      _ < limit := zpow_lt_limit (by decide)

/-- A decimal of few digits is the quotient of its digits by an exact power of ten. -/
theorem isFinite_ofScientific_of_short {m k : Nat} (hk : 1 ≤ k) (hm : m < 2 ^ 53) (hk' : k ≤ 22) :
    (Float.ofScientific m true k).isFinite = true := by
  have hsize : k < Float.exactlyRepresentablePowersOfTen.size := Nat.lt_succ_of_le hk'
  rw [Float.ofScientific, dif_pos ⟨hm, hk'⟩]
  refine isFinite_div ?_ (isAtLeastTwo_powerOfTen ⟨k, hsize⟩ hk)
  change (Float.Model.pack (UnpackedFloat.ofNat .binary64 m.toUInt64.toNat)).isFinite = true
  refine isFinite_pack_ofNat ?_
  rw [UInt64.toNat_ofNat']
  omega

/-- A longer decimal is zero, where its power of ten is too great to be computed, or the
quotient by it. -/
theorem ofScientific_neg (m : Nat) {k : Nat} (hk : 1 ≤ k) :
    UnpackedFloat.ofScientific .binary64 m (.negOfNat k) = .zero .positive
        ∧ (m / 10 ^ k : ℚ) < limit
      ∨ ∃ h₁ h₂, UnpackedFloat.ofScientific .binary64 m (.negOfNat k)
          = UnpackedFloat.div .binary64 (.finite .positive m 0 h₁)
              (.finite .positive (10 ^ k) 0 h₂) := by
  have hexponent : Int.negOfNat k = -(k : Int) := by cases k <;> rfl
  have hbits : (2 : Int) ^ Format.binary64.exponentBits = 2048 := rfl
  have hpos : (0 : ℚ) < 10 ^ k := by positivity
  unfold UnpackedFloat.ofScientific
  rw [hexponent]
  split
  · rename_i hm
    subst hm
    refine .inl ⟨rfl, ?_⟩
    calc ((0 : Nat) / 10 ^ k : ℚ) < 2 ^ (0 : Int) := by simp
      _ < limit := zpow_lt_limit (by decide)
  · rename_i hm
    rw [if_neg (by omega)]
    split
    · rename_i hsmall
      refine .inl ⟨rfl, ?_⟩
      have hlog : m.log2 + 1 ≤ k := by omega
      have hle : (m : ℚ) ≤ 10 ^ k := by
        have : m ≤ 10 ^ k :=
          calc m ≤ 2 ^ (m.log2 + 1) := Nat.lt_log2_self.le
            _ ≤ 2 ^ k := Nat.pow_le_pow_right (by decide) hlog
            _ ≤ 10 ^ k := Nat.pow_le_pow_left (by decide) k
        exact_mod_cast this
      calc (m / 10 ^ k : ℚ) ≤ 2 ^ (0 : Int) := by simpa using div_le_one_of_le₀ hle hpos.le
        _ < limit := zpow_lt_limit (by decide)
    · rw [if_neg (by omega)]
      exact .inr ⟨Nat.pos_of_ne_zero hm, Nat.pow_pos (by decide), by simp⟩

/-- **A decimal is finite exactly below the limit.** -/
theorem isFinite_ofScientific (m : Nat) {k : Nat} (hk : 1 ≤ k) :
    (Float.ofScientific m true k).isFinite = decide ((m / 10 ^ k : ℚ) < limit) := by
  -- A short decimal goes through the table of powers and is far below the limit, so both sides
  -- hold. Only the division in integers can meet the limit.
  by_cases hfast : m < 2 ^ 53 ∧ k ≤ 22
  · rw [isFinite_ofScientific_of_short hk hfast.1 hfast.2, eq_comm, decide_eq_true_eq]
    have hm : (m : ℚ) < 2 ^ (53 : Int) := by exact_mod_cast hfast.1
    have hpower : (1 : ℚ) ≤ 10 ^ k := one_le_pow₀ (by norm_num)
    calc (m / 10 ^ k : ℚ) ≤ m := div_le_self (Nat.cast_nonneg m) hpower
      _ < 2 ^ (53 : Int) := hm
      _ < limit := zpow_lt_limit (by decide)
  · rw [Float.ofScientific, dif_neg hfast]
    change (Float.Model.pack (UnpackedFloat.ofScientific .binary64 m (.negOfNat k))).isFinite = _
    obtain ⟨hzero, hlt⟩ | ⟨h₁, h₂, hdiv⟩ := ofScientific_neg m hk
    · rw [hzero, isFinite_pack_zero, decide_eq_true hlt]
    · rw [hdiv, isFinite_pack_div _ _ h₁ h₂ (.inl (by decide))]
      simp

/-- No decimal is undefined. -/
theorem isNaN_ofScientific (m : Nat) {k : Nat} (hk : 1 ≤ k) :
    (Float.ofScientific m true k).isNaN = false := by
  by_cases hfast : m < 2 ^ 53 ∧ k ≤ 22
  · exact isNaN_of_isFinite (isFinite_ofScientific_of_short hk hfast.1 hfast.2)
  · rw [Float.ofScientific, dif_neg hfast]
    change (Float.Model.pack (UnpackedFloat.ofScientific .binary64 m (.negOfNat k))).isNaN = _
    obtain ⟨hzero, -⟩ | ⟨h₁, h₂, hdiv⟩ := ofScientific_neg m hk
    · rw [hzero, isNaN_pack_zero]
    · rw [hdiv, isNaN_pack_div]

end Binary

end DiceRoll
