/-
Finite floating-point values.

The language keeps a floating-point value as its bits, and works on it by unpacking them,
computing, and packing the result. Whether a value is finite is in the exponent field alone,
so what packing makes of a result is told from its exponent: it is finite up to the greatest
exponent that a mantissa of fifty-three bits can have, and infinite above
(`isFinite_pack_finite`). The undefined value is packed from itself only.

The opposite of a value is finite if the value is (`isFinite_neg`), because what was unpacked has
an exponent that can be packed again (`bounds_of_unpack`).
-/

import DiceRoll.Number.Basic
import Mathlib

set_option autoImplicit false

namespace DiceRoll

namespace Binary

open Float.Model

/-! ## Fields -/

/-- The greatest exponent of a finite value, with a mantissa of fifty-three bits. -/
def maxExponent : Int := 971

theorem unpack_pack (f : UnpackedFloat) :
    (Float.Model.pack f).unpack = .unpack .binary64 (f.pack .binary64) := rfl

/-- A value is finite unless its exponent field is full. -/
theorem isFinite_unpack (b : BitVec Format.binary64.numBits) :
    (UnpackedFloat.unpack .binary64 b).isFinite
      = decide (UnpackedFloat.unpackExponent b ≠ -1#_) := by
  unfold UnpackedFloat.unpack
  dsimp only
  split
  · rename_i h
    rw [h]
    split <;> simp [UnpackedFloat.isFinite]
  · rename_i h
    rw [decide_eq_true h]
    split
    · split <;> rfl
    · rfl

theorem isNaN_unpack (b : BitVec Format.binary64.numBits) :
    (UnpackedFloat.unpack .binary64 b).isNaN = UnpackedFloat.isNaNBits b := by
  unfold UnpackedFloat.unpack UnpackedFloat.isNaNBits
  dsimp only
  split
  · rename_i h
    rw [h]
    split <;> simp_all [UnpackedFloat.isNaN]
  · rename_i h
    rw [decide_eq_false fun h' => h h'.1]
    split
    · split <;> rfl
    · rfl

/-- What is unpacked fits: the mantissa has fifty-three bits, and the exponent can be packed
again. -/
theorem bounds_of_unpack {b : BitVec Format.binary64.numBits} {s : UnpackedFloat.Sign} {m : Nat}
    {e : Int} {hm : 0 < m} (hb : UnpackedFloat.unpack .binary64 b = .finite s m e hm) :
    m < 2 ^ 53 ∧ e ≤ maxExponent := by
  have hbias : (Format.binary64.exponentBias : Int)
      + (Format.binary64.mantissaBitsWithoutImplicit : Int) = 1075 := rfl
  have hfull : (-1#_ : BitVec Format.binary64.exponentBits).toNat = 2047 := rfl
  have hmantissa : (UnpackedFloat.unpackMantissa b).toNat < 2 ^ 52 :=
    (UnpackedFloat.unpackMantissa b).isLt
  have hfield : (UnpackedFloat.unpackExponent b).toNat < 2 ^ 11 :=
    (UnpackedFloat.unpackExponent b).isLt
  unfold UnpackedFloat.unpack at hb
  dsimp only at hb
  rw [hbias] at hb
  split at hb
  · split at hb <;> cases hb
  · rename_i hexponent
    rw [← BitVec.toNat_inj, hfull] at hexponent
    split at hb
    · rename_i hzero
      have hzero : (UnpackedFloat.unpackExponent b).toNat = 0 := by rw [hzero]; rfl
      split at hb
      · cases hb
      · cases hb
        rw [maxExponent]
        omega
    · cases hb
      have hone : (1#1 ++ UnpackedFloat.unpackMantissa b).toNat < 2 ^ 53 :=
        (1#1 ++ UnpackedFloat.unpackMantissa b).isLt
      rw [maxExponent]
      omega

/-! ## Packing -/

theorem isFinite_pack_finite (s : UnpackedFloat.Sign) {m : Nat} (e : Int) (hm : 0 < m) :
    (Float.Model.pack (.finite s m e hm)).isFinite = decide (e ≤ maxExponent) := by
  have hbias : Format.binary64.exponentBias = 1023 := rfl
  rw [Float.Model.isFinite, unpack_pack, isFinite_unpack, maxExponent]
  unfold UnpackedFloat.pack
  dsimp only
  rw [hbias]
  split
  · simp [UnpackedFloat.packedInfinity]
    omega
  · split
    · rw [UnpackedFloat.unpackExponent_packComponents]
      congr 1
      rw [ne_eq, ← BitVec.toNat_inj]
      simp
      omega
    · simp
      omega

theorem isNaN_pack_finite (s : UnpackedFloat.Sign) {m : Nat} (e : Int) (hm : 0 < m) :
    (Float.Model.pack (.finite s m e hm)).isNaN = false := by
  have hbias : Format.binary64.exponentBias = 1023 := rfl
  rw [Float.Model.isNaN, unpack_pack, isNaN_unpack]
  unfold UnpackedFloat.pack UnpackedFloat.isNaNBits
  dsimp only
  rw [hbias]
  split
  · simp [UnpackedFloat.packedInfinity]
  · rw [decide_eq_false_iff_not, not_and_or]
    left
    split
    · rw [UnpackedFloat.unpackExponent_packComponents, ← BitVec.toNat_inj]
      simp
      omega
    · simp

theorem isFinite_pack_zero (s : UnpackedFloat.Sign) :
    (Float.Model.pack (.zero s)).isFinite = true := by
  cases s <;> rfl

theorem isNaN_pack_zero (s : UnpackedFloat.Sign) :
    (Float.Model.pack (.zero s)).isNaN = false := by
  cases s <;> rfl

/-! ## The opposite value -/

theorem isFinite_neg (x : Float) : (-x).isFinite = x.isFinite := by
  change (Float.Model.pack x.toModel.unpack.neg).isFinite = x.toModel.unpack.isFinite
  cases hx : x.toModel.unpack with
  | infinity s => cases s <;> rfl
  | notANumber => rfl
  | zero s => cases s <;> rfl
  | finite s m e hm =>
    rw [UnpackedFloat.neg, isFinite_pack_finite]
    exact decide_eq_true (bounds_of_unpack hx).2

theorem isNaN_neg (x : Float) : (-x).isNaN = x.isNaN := by
  change (Float.Model.pack x.toModel.unpack.neg).isNaN = x.toModel.unpack.isNaN
  cases x.toModel.unpack with
  | infinity s => cases s <;> rfl
  | notANumber => rfl
  | zero s => cases s <;> rfl
  | finite s m e hm =>
    rw [UnpackedFloat.neg, isNaN_pack_finite]
    rfl

/-- A finite value is defined. -/
theorem isNaN_of_isFinite {x : Float} (hx : x.isFinite = true) : x.isNaN = false := by
  change x.toModel.unpack.isNaN = false
  change x.toModel.unpack.isFinite = true at hx
  cases hmodel : x.toModel.unpack with
  | notANumber =>
    rw [hmodel] at hx
    cases hx
  | infinity | zero | finite => rfl

end Binary

end DiceRoll
