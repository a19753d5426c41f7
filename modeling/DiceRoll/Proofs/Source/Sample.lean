/-
Faces from samples.

A sample of the unit interval passes over some of the faces of a die, and the face that it
selects is the next one. Both are counted in words of thirty-two bits, and a face beyond the
last is cut down to the last, if it can be counted. This file settles for which samples and
which dice there is a face.

A sample below one does not pass over all the faces, so nothing is cut down and no word is
left (`facesPassed_lt`). That is not plain: the product of the sample and the faces is
rounded, and the greatest sample below one is so close to one that the product is within a
unit of its grid of the number of faces. It is rounded by half a unit at most, though, and
the distance is more than that.

A sample of one or above passes over all the faces. The next face is then one too many, and
it is cut down, on every die but one: the number of faces of that die is the greatest number
of a word, and the next face cannot be counted (`faceOfSample_inRange_iff`). No other die
stops a run (`Replay.isStopped_drawMany`).
-/

import DiceRoll.Proofs.Number.Nearest
import DiceRoll.Source.Replay
import DiceRoll.Text.Numeral

set_option autoImplicit false

namespace DiceRoll

/-! ## Samples taken apart -/

namespace Binary

/-- Whether a value is a number that is at least one. -/
def IsAtLeastOne : Binary → Prop
  | .finite false mantissa exponent => 2 ^ (-exponent).toNat ≤ mantissa * 2 ^ exponent.toNat
  | _ => False

instance (b : Binary) : Decidable b.IsAtLeastOne :=
  match b with
  | .finite false _ _ => inferInstanceAs (Decidable (_ ≤ _))
  | .finite true _ _ | .infinite _ | .nan => inferInstanceAs (Decidable False)

/-- A mantissa has fifty-three bits. -/
theorem mantissa_lt_of_ofFloat {x : Float} {negative : Bool} {mantissa : Nat} {exponent : Int}
    (h : ofFloat x = .finite negative mantissa exponent) : mantissa < 2 ^ 53 := by
  have hfraction : x.toBits.toNat % Nat.pow 2 52 < 2 ^ 52 := Nat.mod_lt _ (by decide)
  have himplicit : Nat.pow 2 52 = 2 ^ 52 := rfl
  unfold ofFloat at h
  simp only at h
  split at h
  · split at h <;> cases h
  split at h
  · cases h
    omega
  · cases h
    omega

end Binary

open Binary

/-! ## The faces that a sample passes over -/

/-- A sample that is at least one passes over all the faces. -/
theorem facesPassed_of_isAtLeastOne {b : Binary} (h : b.IsAtLeastOne) (faces : Nat) :
    facesPassed faces b = faces := by
  unfold IsAtLeastOne at h
  split at h
  · exact if_pos h
  · exact h.elim

/-- **A sample below one does not pass over all the faces**, nor does one that is no finite
number. -/
theorem facesPassed_lt {x : Float} (h : ¬ (ofFloat x).IsAtLeastOne) {faces : Nat}
    (hfaces : 1 ≤ faces) : facesPassed faces (ofFloat x) < faces := by
  generalize hparts : ofFloat x = b at h ⊢
  unfold facesPassed
  split
  · rename_i mantissa exponent
    have hmantissa := mantissa_lt_of_ofFloat hparts
    simp only [IsAtLeastOne] at h
    simp only [Nat.pow_eq, if_neg h]
    have hbelow : mantissa * 2 ^ exponent.toNat < 2 ^ (-exponent).toNat := Nat.lt_of_not_le h
    rw [Nat.div_lt_iff_lt_mul (Nat.two_pow_pos _)]
    by_cases hexponent : 0 ≤ exponent
    -- A whole number below one is zero.
    · have hwhole : (-exponent).toNat = 0 := by omega
      have hstep := Nat.two_pow_pos exponent.toNat
      rw [hwhole] at hbelow ⊢
      have hzero : mantissa = 0 := by
        by_contra hne
        have := Nat.mul_le_mul (Nat.one_le_iff_ne_zero.2 hne) hstep
        omega
      rw [hzero, Nat.zero_mul, nearest_zero, Nat.zero_mul]
      omega
    · have hstep : exponent.toNat = 0 := by omega
      rw [hstep] at hbelow ⊢
      rw [Nat.pow_zero, Nat.mul_one] at hbelow ⊢
      calc nearest (mantissa * faces) < (mantissa + 1) * faces := nearest_mul_lt hmantissa hfaces
        _ ≤ 2 ^ (-exponent).toNat * faces := Nat.mul_le_mul_right faces hbelow
        _ = faces * 2 ^ (-exponent).toNat := Nat.mul_comm _ _
  · exact hfaces

/-! ## The face that it selects -/

/-- A face that can be counted is a face of the die. -/
theorem faceOfSample_of_lt {sample : Float} {faces : Nat}
    (h : 1 + facesPassed faces (ofFloat sample) < 2 ^ 32) :
    faceOfSample sample faces = some (min (1 + facesPassed faces (ofFloat sample)) faces) :=
  if_pos h

/-- Where the next face is beyond a word there is none. -/
theorem faceOfSample_eq_none {sample : Float} {faces : Nat}
    (h : 2 ^ 32 ≤ 1 + facesPassed faces (ofFloat sample)) : faceOfSample sample faces = none :=
  if_neg (Nat.not_lt.2 h)

/-- The next face is counted, with one exception. -/
theorem one_add_facesPassed_lt {sample : Float} {faces : Nat} (hpos : 1 ≤ faces)
    (hmax : faces ≤ maxCount) (h : ¬ (faces = maxCount ∧ (ofFloat sample).IsAtLeastOne)) :
    1 + facesPassed faces (ofFloat sample) < 2 ^ 32 := by
  have hwords : maxCount + 1 = 2 ^ 32 := by decide
  by_cases hone : (ofFloat sample).IsAtLeastOne
  -- The face behind the last is still counted, and it is cut down to the last.
  · have hne : faces ≠ maxCount := fun hfaces => h ⟨hfaces, hone⟩
    rw [facesPassed_of_isAtLeastOne hone]
    omega
  · have hlt := facesPassed_lt hone hpos
    omega

/-- **A sample selects a face of the die, and its count does not leave a word**, with one
exception: a sample of one or above on the die with the most faces that a word can count.
There the face behind the last is counted before it is cut down, and nothing is selected. -/
theorem faceOfSample_inRange_iff (sample : Float) {faces : Nat} (hpos : 1 ≤ faces)
    (hmax : faces ≤ maxCount) :
    ((∃ face, faceOfSample sample faces = some face ∧ 1 ≤ face ∧ face ≤ faces)
        ∧ 1 + facesPassed faces (ofFloat sample) < 2 ^ 32
      ↔ ¬ (faces = maxCount ∧ (ofFloat sample).IsAtLeastOne))
      ∧ (faces = maxCount → (ofFloat sample).IsAtLeastOne →
          faceOfSample sample faces = none) := by
  have hwords : maxCount + 1 = 2 ^ 32 := by decide
  have hexception :
      faces = maxCount → (ofFloat sample).IsAtLeastOne → faceOfSample sample faces = none := by
    intro hfaces hone
    refine faceOfSample_eq_none ?_
    rw [facesPassed_of_isAtLeastOne hone]
    omega
  refine ⟨⟨?_, fun hregular => ?_⟩, hexception⟩
  · rintro ⟨⟨face, hface, -⟩, -⟩ ⟨hfaces, hone⟩
    rw [hexception hfaces hone] at hface
    cases hface
  have hword := one_add_facesPassed_lt hpos hmax hregular
  refine ⟨⟨_, faceOfSample_of_lt hword, ?_, Nat.min_le_right _ _⟩, hword⟩
  omega

/-- The greatest sample below one, on the die with the most faces. -/
theorem faceOfSample_inRange_of_greatest :
    1 ≤ maxCount ∧ maxCount ≤ maxCount
      ∧ (∃ face, faceOfSample 0.9999999999999999 maxCount = some face
        ∧ 1 ≤ face ∧ face ≤ maxCount)
      ∧ 1 + facesPassed maxCount (ofFloat 0.9999999999999999) < 2 ^ 32 := by
  have hone : ¬ (ofFloat 0.9999999999999999).IsAtLeastOne := by
    have hparts : ofFloat 0.9999999999999999 = .finite false (2 ^ 53 - 1) (-53) := by decide
    rw [hparts]
    decide
  have hpos : 1 ≤ maxCount := by decide
  have hface := faceOfSample_inRange_iff 0.9999999999999999 hpos (Nat.le_refl _)
  exact ⟨hpos, Nat.le_refl _, hface.1.2 fun h => hone h.2⟩

/-- On the die with the most faces that a word can count, the upper end of the interval
selects no face. -/
theorem not_forall_faceOfSample_inRange :
    ¬ ∀ (sample : Float) (faces : Nat), 1 ≤ faces → faces ≤ maxCount →
      (∃ face, faceOfSample sample faces = some face ∧ 1 ≤ face ∧ face ≤ faces)
        ∧ 1 + facesPassed faces (ofFloat sample) < 2 ^ 32 := by
  intro hall
  have hparts : ofFloat 1.0 = .finite false (2 ^ 52) (-52) := by decide
  have hnone : faceOfSample 1.0 maxCount = none := by
    rw [faceOfSample, hparts]
    decide
  obtain ⟨face, hface, -⟩ := (hall 1.0 maxCount (by decide) (Nat.le_refl _)).1
  rw [hnone] at hface
  cases hface

/-! ## Runs -/

namespace Replay

/-- A replay is stopped by the draw for which its script has no face, and stays stopped. -/
theorem isStopped_draw (faces : Nat) (r : Replay) :
    (Source.draw faces r).2.isStopped = (r.script.face? r.drawn faces).isNone := by
  obtain ⟨script, drawn⟩ := r
  cases script with
  | draws xs => rfl
  | samples xs =>
    simp only [Source.draw, Script.face?]
    split
    · rename_i hface
      rw [hface]
      rfl
    · rename_i hface
      rw [hface]
      rfl
  | stopped => rfl

/-- A replay that is not stopped has a face for every die but the one with the most faces
that a word can count. -/
theorem isNone_face? {r : Replay} {faces : Nat} (hpos : 1 ≤ faces) (hmax : faces < maxCount) :
    (r.script.face? r.drawn faces).isNone = r.isStopped := by
  obtain ⟨script, drawn⟩ := r
  cases script with
  | draws xs => rfl
  | samples xs =>
    have hword : 1 + facesPassed faces (ofFloat (xs.getD (drawn % xs.length) 0)) < 2 ^ 32 :=
      one_add_facesPassed_lt hpos (Nat.le_of_lt hmax) fun h => Nat.ne_of_lt hmax h.1
    rw [Script.face?, faceOfSample_of_lt hword]
    rfl
  | stopped => rfl

/-- **Runs on other dice are never stopped.** -/
theorem isStopped_drawMany {faces : Nat} (hpos : 1 ≤ faces) (hmax : faces < maxCount) (n : Nat)
    (r : Replay) : (drawMany (Source.draw faces) n r).2.isStopped = r.isStopped := by
  induction n generalizing r with
  | zero => rfl
  | succ n ih =>
    rw [drawMany, ih, isStopped_draw, isNone_face? hpos hmax]

end Replay

end DiceRoll
