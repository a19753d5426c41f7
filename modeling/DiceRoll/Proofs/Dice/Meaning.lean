/-
What a dice token means.

The notation of a token says which number it stands for on the faces it drew
(`DiceToken.value`), and what the token writes into the roll, finalized, is that
number. What a face is worth and what it scores is said here once more as the notation
says it, so that the number does not depend on what the dice are rolled with.

This needs limits. Two sums are compared as words of sixty-four bits, and so are the
scores of a success pool, so that a token of some billions of dice can mean one thing
and come to another. Under the usual limits nothing comes near the end of a word.
-/

import DiceRoll.Proofs.Arithmetic.Sum
import DiceRoll.Proofs.Dice.Summands

set_option autoImplicit false

namespace DiceRoll

open DiceRoll.Expr

/-! ## What a token stands for -/

/-- The number that a pool stands for. -/
def PoolSpec.value (p : PoolSpec) (faces : List Nat) : Int :=
  let values := p.values faces
  match p.modifier with
  | .plain | .explode _ => values.sum
  | .advantage => max (values.take p.count).sum (values.drop p.count).sum
  | .disadvantage => min (values.take p.count).sum (values.drop p.count).sum
  | .keep n => (largest n values).sum
  | .lose n => (smallest n values).sum
  | .flat n => values.sum + n

/-- What a face of a success pool scores. A one costs a success, and any other face scores
from the value of the pool on: one success, two where the threshold for double ones holds, and
three where the one for triple ones holds. -/
def SuccessSpec.score (p : SuccessSpec) (face : Nat) : Int :=
  if face = 1 then -1
  else if p.success ≤ face then
    if p.triple.any (·.holds face) then 3 else if p.double.any (·.holds face) then 2 else 1
  else 0

/-- The number that a token stands for. -/
def DiceToken.value : DiceToken → List Nat → Int
  | .pool p, faces => p.value faces
  | .successes p, faces => (faces.map p.score).sum

/-- A face counts for what it scores. -/
theorem SuccessSpec.points_eq_score (p : SuccessSpec) : p.points = p.score := by
  funext face
  by_cases hone : face = 1
  · rw [points, score, if_pos hone, if_pos hone]
  · simp only [points, score, if_neg hone, meets, Threshold.isMet_eq_holds]
    by_cases hlow : face < p.success
    · rw [if_pos hlow, if_neg (Nat.not_le.2 hlow)]
    · rw [if_neg hlow, if_pos (Nat.not_lt.1 hlow)]

/-! ## The usual limits

A hundred dice of a thousand sides, fifty rounds of explosions: nothing that a token
adds up under these limits comes near the end of a word. -/

/-- Whether a token stays within the limits. -/
def DiceToken.isWithin (limits : Limits) : DiceToken → Bool
  | .pool p => p.isWithin limits
  | .successes p => p.isWithin limits

theorem DiceToken.isWithin_of_roll {σ : Type} [Source σ] {token : DiceToken} {limits : Limits}
    {s s' : σ} {r : Resolved} (h : token.roll limits s = (.ok r, s')) :
    token.isWithin limits = true := by
  cases token with
  | pool p =>
    rw [roll] at h
    split at h
    · assumption
    · cases h
  | successes p =>
    rw [roll] at h
    split at h
    · assumption
    · cases h

theorem Sides.worth_bounds (sides : Sides) {face : Nat} (hface : 1 ≤ face ∧ face ≤ sides.faces) :
    -(sides.faces : Int) ≤ sides.worth face ∧ sides.worth face ≤ sides.faces := by
  cases sides with
  | numbered n =>
    simp only [← valueOf_eq_worth, valueOf, faces] at hface ⊢
    omega
  | fate =>
    simp only [← valueOf_eq_worth, valueOf, faces] at hface ⊢
    omega

theorem SuccessSpec.score_bounds (p : SuccessSpec) (face : Nat) :
    -3 ≤ p.score face ∧ p.score face ≤ 3 := by
  unfold score
  split_ifs <;> decide

/-- The dice of a pool and an amount. -/
theorem PoolSpec.modest_values {p : PoolSpec} (hsides : p.sides.faces ≤ 1000) {faces : List Nat}
    (hfaces : ∀ face ∈ faces, 1 ≤ face ∧ face ≤ p.sides.faces) (hlength : faces.length ≤ 5200)
    {n : Nat} (hn : n ≤ maxCount) : Modest (p.values faces ++ [(n : Int)]) := by
  refine ⟨maxCount, by decide, fun v hv => ?_, ?_⟩
  · have hmax : (1000 : Int) ≤ maxCount := by decide
    rw [List.mem_append, List.mem_singleton] at hv
    rcases hv with hv | rfl
    · obtain ⟨face, hface, rfl⟩ := List.mem_map.1 hv
      have := p.sides.worth_bounds (hfaces face hface)
      omega
    · omega
  · rw [List.length_append, values, List.length_map, List.length_singleton]
    have hle : ((faces.length + 1 : Nat) : Int) ≤ 5201 := by omega
    have hmul := Int.mul_le_mul_of_nonneg_right hle (show (0 : Int) ≤ maxCount by decide)
    exact hmul.trans (by decide)

/-- The scores of a success pool. -/
theorem SuccessSpec.modest_scores (p : SuccessSpec) {faces : List Nat}
    (hlength : faces.length ≤ 1000000) : Modest (faces.map p.score) := by
  refine ⟨3, by decide, fun v hv => ?_, ?_⟩
  · obtain ⟨face, -, rfl⟩ := List.mem_map.1 hv
    exact p.score_bounds face
  · rw [List.length_map]
    simp only [Number.maxInt]
    omega

theorem wordSum_of_inRange {values : List Int} (h : Number.inRange values.sum = true) :
    wordSum values = values.sum := by
  simp only [Number.inRange, Bool.and_eq_true, decide_eq_true_eq] at h
  simp only [Number.minInt, Number.maxInt] at h
  rw [wordSum, ← List.sum_eq_foldr, wordSize]
  exact Int.bmod_eq_of_le (by omega) (by omega)

theorem wordSum_of_readable {values : List Int} (h : Number.Readable values.sum) :
    wordSum values = values.sum :=
  wordSum_of_inRange h.inRange

theorem readable_max {v w : Int} (hv : Number.Readable v) (hw : Number.Readable w) :
    Number.Readable (max v w) := by
  simp only [Number.Readable] at hv hw ⊢
  omega

theorem readable_min {v w : Int} (hv : Number.Readable v) (hw : Number.Readable w) :
    Number.Readable (min v w) := by
  simp only [Number.Readable] at hv hw ⊢
  omega

/-- Under the usual limits the integers of a pool can be added up, and their sum is what
the pool stands for. -/
theorem PoolSpec.sum_summands {p : PoolSpec} (hp : (DiceToken.pool p).IsProper)
    (hwithin : p.isWithin Limits.usual = true) {faces : List Nat}
    (hfaces : ∀ face ∈ faces, 1 ≤ face ∧ face ≤ p.sides.faces)
    (hlength : faces.length ≤ (DiceToken.pool p).mostDice Limits.usual) :
    Addable (p.summands faces) ∧ (p.summands faces).sum = p.value faces := by
  obtain ⟨count, sides, modifier⟩ := p
  obtain ⟨-, -, hmodifier⟩ := hp
  obtain ⟨hdice, hsides⟩ := (Bool.and_eq_true _ _).mp hwithin
  have hdice : count ≤ 100 := of_decide_eq_true hdice
  have hlength : faces.length ≤ 5200 :=
    hlength.trans (Nat.mul_le_mul_left 52 hdice)
  -- Whatever is written is a part of the values and an amount, and in all of them together
  -- there is not enough to leave a word.
  have hmodest : ∀ m n, n ≤ maxCount → Modest (values ⟨count, sides, m⟩ faces ++ [(n : Int)]) :=
    fun m n hn => modest_values (of_decide_eq_true hsides) hfaces hlength hn
  have hvalues : ∀ m, Modest (values ⟨count, sides, m⟩ faces) := fun m =>
    (hmodest m 0 (Nat.zero_le _)).of_subperm (List.sublist_append_left _ _).subperm
  have hfirst : ∀ m, Number.Readable ((values ⟨count, sides, m⟩ faces).take count).sum := fun m =>
    ((hvalues m).of_subperm (List.take_sublist _ _).subperm).readable_sum
  have hsecond : ∀ m, Number.Readable ((values ⟨count, sides, m⟩ faces).drop count).sum := fun m =>
    ((hvalues m).of_subperm (List.drop_sublist _ _).subperm).readable_sum
  cases modifier with
  | plain => exact ⟨(hvalues _).addable, rfl⟩
  | advantage =>
    simp only [summands, value, wordSum_of_readable (hfirst _), wordSum_of_readable (hsecond _)]
    exact ⟨addable_singleton (readable_max (hfirst _) (hsecond _)), by simp⟩
  | disadvantage =>
    simp only [summands, value, wordSum_of_readable (hfirst _), wordSum_of_readable (hsecond _)]
    exact ⟨addable_singleton (readable_min (hfirst _) (hsecond _)), by simp⟩
  | keep n => exact ⟨((hvalues _).of_subperm (largest_subperm n _)).addable, rfl⟩
  | lose n => exact ⟨((hvalues _).of_subperm (smallest_subperm n _)).addable, rfl⟩
  | explode t => exact ⟨(hvalues _).addable, rfl⟩
  | flat n => exact ⟨(hmodest _ n hmodifier.2).addable, by simp [summands, value]⟩

/-- Under the usual limits the integers of a token can be added up, and their sum is
what the token stands for, as long as the faces are those of its dice. -/
theorem DiceToken.sum_summands_of_faces {token : DiceToken} (htoken : token.IsProper)
    (hwithin : token.isWithin Limits.usual = true) {faces : List Nat}
    (hfaces : ∀ face ∈ faces, 1 ≤ face ∧ face ≤ token.faces)
    (hlength : faces.length ≤ token.mostDice Limits.usual) :
    Addable (token.summands faces) ∧ (token.summands faces).sum = token.value faces := by
  cases token with
  | pool p =>
    rw [faces_pool] at hfaces
    exact p.sum_summands htoken hwithin hfaces hlength
  | successes p =>
    have hcount : p.count ≤ 100 := of_decide_eq_true hwithin
    have hlength : faces.length ≤ 1000000 := by
      have hrounds : p.rounds Limits.usual ≤ 5000 := by
        simp only [SuccessSpec.rounds, Limits.usual]
        omega
      have hmul : (p.rounds Limits.usual + 1) * p.count ≤ 5001 * 100 :=
        Nat.mul_le_mul (by omega) hcount
      simp only [mostDice] at hlength
      omega
    have hreadable := (p.modest_scores hlength).readable_sum
    have htotal : p.total faces = (faces.map p.score).sum := by
      rw [SuccessSpec.total, p.points_eq_score, wordSum_of_readable hreadable]
    simp only [summands, value, htotal]
    exact ⟨addable_singleton hreadable, by simp⟩

theorem DiceToken.IsProper.one_le_faces {token : DiceToken} (h : token.IsProper) :
    1 ≤ token.faces := by
  cases token with
  | pool p =>
    rw [faces_pool]
    exact h.2.1.one_le_faces
  | successes p => exact (by decide : 1 ≤ SuccessSpec.faces)

/-- The faces that a token drew from a source in range are those of its dice. -/
theorem DiceToken.sum_summands {σ : Type} [Source σ] (hσ : Source.InRange σ) {token : DiceToken}
    (htoken : token.IsProper) (hwithin : token.isWithin Limits.usual = true) {faces : List Nat}
    {s s' : σ} (hdrew : token.Drew Limits.usual faces s s') :
    Addable (token.summands faces) ∧ (token.summands faces).sum = token.value faces :=
  sum_summands_of_faces htoken hwithin
    (mem_drawMany_inRange hσ htoken.one_le_faces hdrew.drawn) hdrew.length_le

/-- **Every token means what its notation says.** Under the usual limits, with faces in
range, a token that is resolved drew some faces, and its expression finalizes to the
number that the notation stands for on these faces. -/
theorem finalize_expression_of_resolve {σ : Type} [Source σ] (hσ : Source.InRange σ) {word : Text}
    {token : DiceToken} (htoken : DiceToken.ofText? word = .ok token) {s s' : σ} {r : Resolved}
    (h : resolve Limits.usual word s = (.ok r, s')) :
    ∃ faces, token.Drew Limits.usual faces s s'
      ∧ Arithmetic.finalize r.expression = .ok (.int (token.value faces)) := by
  have hproper := DiceToken.isProper_of_ofText? htoken
  have hroll : token.roll Limits.usual s = (.ok r, s') := by
    rw [← h, resolve, Part.ofWord?, htoken]
  obtain ⟨faces, hdrew, hr⟩ := DiceToken.roll_eq_ok hproper hroll
  obtain ⟨haddable, hsum⟩ :=
    DiceToken.sum_summands hσ hproper (DiceToken.isWithin_of_roll hroll) hdrew
  refine ⟨faces, hdrew, ?_⟩
  rw [← hsum]
  exact finalize_of_plain_eq_group hr (DiceToken.summands_ne_nil hproper hdrew.rolls) haddable

/-- Two dice that explode once. -/
theorem finalize_expression_of_exploded :
    ∃ faces, (DiceToken.pool ⟨2, .numbered 6, .explode (.atLeast 6)⟩).Drew Limits.usual faces
        (⟨[6, 3, 2], 0⟩ : Recording) ⟨[6, 3, 2], 3⟩
      ∧ Arithmetic.finalize "(__**6**__+3+2)".toList
        = .ok (.int ((DiceToken.pool ⟨2, .numbered 6, .explode (.atLeast 6)⟩).value faces)) := by
  have htoken : DiceToken.ofText? "2d6e".toList
      = .ok (.pool ⟨2, .numbered 6, .explode (.atLeast 6)⟩) := by rfl
  have hresolve : resolve Limits.usual "2d6e".toList (⟨[6, 3, 2], 0⟩ : Recording)
      = (.ok ⟨"(__**6**__+3+2)".toList, "(__**6**__+3+2)".toList⟩, ⟨[6, 3, 2], 3⟩) := by rfl
  exact finalize_expression_of_resolve Recording.inRange htoken hresolve

end DiceRoll
