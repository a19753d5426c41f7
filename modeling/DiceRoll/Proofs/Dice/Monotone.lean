/-
Better dice never hurt.

A token that does not explode draws the same number of faces whatever they are, so two
rolls of it can be compared face by face. Where no face of the one is above the face of
the other in its place, the number that the one comes to is not above that of the other
(`DiceToken.value_le_value`).

The dice that count are not the same in the two rolls: a die may be among the highest in
one and not in the other. What carries over is the order of the values, place by place:
sorting keeps two lists below one another that were so before (`forall₂_insertionSort`),
so that the k-th highest of the one is at most the k-th highest of the other.
-/

import DiceRoll.Proofs.Dice.Meaning
import Mathlib

set_option autoImplicit false

namespace DiceRoll

/-! ## Sorting place by place

Stated for any total order, since the highest dice are sorted downwards and the lowest
upwards. -/

section Sorting

variable {α : Type} (r : α → α → Prop) [DecidableRel r]

/-- A value that stands in front of all others is inserted in front of them. -/
theorem orderedInsert_eq_cons {a : α} {as : List α} (h : (a :: as).Pairwise r) :
    as.orderedInsert r a = a :: as := by
  cases as with
  | nil => rfl
  | cons b bs => exact List.orderedInsert_cons_of_le r bs (List.rel_of_pairwise_cons h (.head _))

variable [Std.Total r] [IsTrans α r]

/-- Inserting a value keeps sorted lists in relation, place by place. -/
theorem forall₂_orderedInsert {a b : α} (hab : r a b) {as bs : List α} (has : as.Pairwise r)
    (hbs : bs.Pairwise r) (h : List.Forall₂ r as bs) :
    List.Forall₂ r (as.orderedInsert r a) (bs.orderedInsert r b) := by
  induction h generalizing a b with
  | nil => exact .cons hab .nil
  | @cons x y xs ys hxy htail ih =>
    have hxs := has.of_cons
    have hys := hbs.of_cons
    by_cases hax : r a x <;> by_cases hby : r b y
    · rw [List.orderedInsert_cons_of_le r xs hax, List.orderedInsert_cons_of_le r ys hby]
      exact .cons hab (.cons hxy htail)
    -- One value goes in front and the other further behind: what it passes moves up by
    -- a place, and may be taken as inserted itself.
    · rw [List.orderedInsert_cons_of_le r xs hax, List.orderedInsert_of_not_le r ys hby,
        ← orderedInsert_eq_cons r has]
      have hyb : r y b := (Std.Total.total b y).resolve_left hby
      exact .cons (IsTrans.trans _ _ _ hax hxy) (ih (IsTrans.trans _ _ _ hxy hyb) hxs hys)
    · rw [List.orderedInsert_of_not_le r xs hax, List.orderedInsert_cons_of_le r ys hby,
        ← orderedInsert_eq_cons r hbs]
      have hxa : r x a := (Std.Total.total a x).resolve_left hax
      exact .cons (IsTrans.trans _ _ _ hxa hab) (ih (IsTrans.trans _ _ _ hab hby) hxs hys)
    · rw [List.orderedInsert_of_not_le r xs hax, List.orderedInsert_of_not_le r ys hby]
      exact .cons hxy (ih hab hxs hys)

/-- **Sorting keeps two lists in relation, place by place.** -/
theorem forall₂_insertionSort {as bs : List α} (h : List.Forall₂ r as bs) :
    List.Forall₂ r (as.insertionSort r) (bs.insertionSort r) := by
  induction h with
  | nil => exact .nil
  | @cons a b as bs hab _ ih =>
    exact forall₂_orderedInsert r hab (as.pairwise_insertionSort r)
      (bs.pairwise_insertionSort r) ih

end Sorting

/-! ## What the faces come to -/

/-- The smallest of lower values have the lower sum. -/
theorem sum_smallest_le {vs ws : List Int} (n : Nat) (h : List.Forall₂ (· ≤ ·) vs ws) :
    (smallest n vs).sum ≤ (smallest n ws).sum :=
  (List.forall₂_take n (forall₂_insertionSort (· ≤ ·) h)).sum_le_sum

/-- The largest of lower values have the lower sum. -/
theorem sum_largest_le {vs ws : List Int} (n : Nat) (h : List.Forall₂ (· ≤ ·) vs ws) :
    (largest n vs).sum ≤ (largest n ws).sum :=
  -- Downwards the lists change places.
  (List.forall₂_take n (forall₂_insertionSort (· ≥ ·) h.flip)).flip.sum_le_sum

theorem Sides.worth_le (sides : Sides) {face face' : Nat} (h : face ≤ face') :
    sides.worth face ≤ sides.worth face' := by
  unfold worth
  split <;> omega

theorem PoolSpec.values_le (p : PoolSpec) {faces faces' : List Nat}
    (h : List.Forall₂ (· ≤ ·) faces faces') :
    List.Forall₂ (· ≤ ·) (p.values faces) (p.values faces') := by
  rw [values, values, List.forall₂_map_left_iff, List.forall₂_map_right_iff]
  exact h.imp fun _ _ => p.sides.worth_le

/-- **A pool comes to no less on higher faces.** -/
theorem PoolSpec.value_le_value (p : PoolSpec) {faces faces' : List Nat}
    (h : List.Forall₂ (· ≤ ·) faces faces') : p.value faces ≤ p.value faces' := by
  obtain ⟨count, sides, modifier⟩ := p
  have hvalues := values_le ⟨count, sides, modifier⟩ h
  have hfirst := (List.forall₂_take count hvalues).sum_le_sum
  have hsecond := (List.forall₂_drop count hvalues).sum_le_sum
  cases modifier with
  | plain => exact hvalues.sum_le_sum
  | advantage => exact max_le_max hfirst hsecond
  | disadvantage => exact min_le_min hfirst hsecond
  | keep n => exact sum_largest_le n hvalues
  | lose n => exact sum_smallest_le n hvalues
  | explode t => exact hvalues.sum_le_sum
  | flat n => exact Int.add_le_add_right hvalues.sum_le_sum n

/-! ## Success pools

A comparison can be met by low faces only, so a success pool is compared where its
thresholds are bare numbers. -/

/-- Whether a threshold is a bare number. -/
def Threshold.IsBare : Threshold → Prop
  | .atLeast _ => True
  | .comparison _ => False

/-- Whether a flag is unset or has a bare number as its threshold. -/
def SuccessSpec.IsBare (t : Option Threshold) : Prop := ∀ u ∈ t, u.IsBare

theorem SuccessSpec.meets_of_le {t : Option Threshold} (ht : IsBare t) {face face' : Nat}
    (hle : face ≤ face') (h : meets t face = true) : meets t face' = true := by
  cases t with
  | none => cases h
  | some u =>
    cases u with
    | atLeast n =>
      simp only [meets, Option.any_some, Threshold.isMet, decide_eq_true_eq] at h ⊢
      omega
    | comparison suffix => exact (ht _ rfl).elim

/-- Nothing scores less than a one. -/
theorem SuccessSpec.neg_one_le_points (p : SuccessSpec) (face : Nat) : -1 ≤ p.points face := by
  unfold points
  split_ifs <;> decide

/-- **A face scores no less than a lower one.** -/
theorem SuccessSpec.points_le {p : SuccessSpec} (hdouble : IsBare p.double)
    (htriple : IsBare p.triple) {face face' : Nat} (hface : 1 ≤ face) (hle : face ≤ face') :
    p.points face ≤ p.points face' := by
  by_cases hone : face = 1
  · rw [points, if_pos hone]
    exact p.neg_one_le_points face'
  · have hone' : face' ≠ 1 := by omega
    have htriple' := meets_of_le htriple hle
    have hdouble' := meets_of_le hdouble hle
    rw [points, points, if_neg hone, if_neg hone']
    -- Each threshold that the lower face meets is met by the higher one.
    split_ifs <;> first | omega | simp_all

/-! ## Tokens -/

/-- Whether a token draws the same number of faces whatever they are, and no threshold
favours the low ones: it does not explode, and its further thresholds are bare numbers. -/
def DiceToken.IsSteady : DiceToken → Prop
  | .pool p => ∀ t, p.modifier ≠ .explode t
  | .successes p => p.explode = none ∧ SuccessSpec.IsBare p.double ∧ SuccessSpec.IsBare p.triple

/-- How many faces a token draws that does not explode. -/
def DiceToken.steadyDraws : DiceToken → Nat
  | .pool ⟨count, _, .advantage⟩ | .pool ⟨count, _, .disadvantage⟩ => count + count
  | .pool ⟨count, _, _⟩ => count
  | .successes p => p.count

/-- A chain in which no die calls for another is its first round. -/
theorem Chained.length_eq_of_never {α : Type} {again : α → Bool} {n : Nat} {dice : List α}
    (hnever : ∀ a, again a = false) (h : Chained again n dice) : dice.length = n := by
  cases h with
  | nil => rfl
  | @round round rest hne hrest =>
    have hcount : round.countP again = 0 := List.countP_eq_zero.2 fun a _ => by simp [hnever a]
    rw [hcount] at hrest
    generalize hzero : 0 = m at hrest
    cases hrest with
    | nil => rw [List.append_nil]
    | round hne _ => exact absurd hzero.symm (by simpa using hne)

theorem DiceToken.length_of_rolls {token : DiceToken} (hsteady : token.IsSteady)
    {faces : List Nat} (h : token.Rolls faces) : faces.length = token.steadyDraws := by
  cases token with
  | pool p =>
    obtain ⟨count, sides, modifier⟩ := p
    cases modifier with
    | explode t => exact (hsteady t rfl).elim
    | _ => exact h
  | successes p =>
    refine h.length_eq_of_never fun face => ?_
    rw [SuccessSpec.calls, hsteady.1]
    rfl

/-- **Better dice never hurt.** Where each face is at most the face in its place in another
roll, a token that does not explode stands for no more than it does there. -/
theorem DiceToken.value_le_value {token : DiceToken} (hsteady : token.IsSteady)
    {faces faces' : List Nat} (hfaces : ∀ face ∈ faces, 1 ≤ face)
    (h : List.Forall₂ (· ≤ ·) faces faces') : token.value faces ≤ token.value faces' := by
  cases token with
  | pool p => exact p.value_le_value h
  | successes p =>
    have hpoints : List.Forall₂ (· ≤ ·) (faces.map p.points) (faces'.map p.points) := by
      rw [List.forall₂_map_left_iff, List.forall₂_map_right_iff]
      refine (List.forall₂_and_left _ _).2 ⟨hfaces, h⟩ |>.imp ?_
      exact fun _ _ hle => SuccessSpec.points_le hsteady.2.1 hsteady.2.2 hle.1 hle.2
    rw [value, value, ← p.points_eq_score]
    exact hpoints.sum_le_sum

/-! ## Two runs

A source is a sequence of faces, once it is only asked for faces of one die. -/

section Sources

variable {σ τ : Type} [Source σ] [Source τ] {faces : Nat}

/-- The next faces of a die that a source gives. -/
def upcoming (faces n : Nat) (s : σ) : List Nat := (drawMany (Source.draw faces) n s).1

/-- Whether all that comes from a source, asked for faces of a die, is faces of that die. -/
def InRangeFrom (faces : Nat) (s : σ) : Prop :=
  ∀ n, ∀ face ∈ upcoming faces n s, 1 ≤ face ∧ face ≤ faces

/-- Whether no face of a die that comes from the one source is above the face that comes
from the other in its place. -/
def DrawsBelow (faces : Nat) (s : σ) (t : τ) : Prop :=
  ∀ n, List.Forall₂ (· ≤ ·) (upcoming faces n s) (upcoming faces n t)

/-- A source in range is in range from every state on. -/
theorem Source.InRange.inRangeFrom (hσ : Source.InRange σ) (hfaces : 1 ≤ faces) (s : σ) :
    InRangeFrom faces s :=
  fun _ => mem_drawMany_inRange hσ hfaces rfl

/-- One source draws below another as long as each draw is no higher and leaves states
that do the same. -/
theorem drawsBelow_of_invariant (R : σ → τ → Prop)
    (hle : ∀ s t, R s t → (Source.draw faces s).1 ≤ (Source.draw faces t).1)
    (hnext : ∀ s t, R s t → R (Source.draw faces s).2 (Source.draw faces t).2) {s : σ} {t : τ}
    (h : R s t) : DrawsBelow faces s t := by
  intro n
  induction n generalizing s t with
  | zero => exact .nil
  | succ n ih => exact .cons (hle s t h) (ih (hnext s t h))

/-- A token that draws from a source in range finalizes to what it stands for on the faces
that were to come. -/
theorem DiceToken.finalize_of_resolve {word : Text} {token : DiceToken}
    (htoken : DiceToken.ofText? word = .ok token) (hsteady : token.IsSteady) {s s' : σ}
    (hs : InRangeFrom token.faces s) {r : Resolved}
    (h : resolve Limits.usual word s = (.ok r, s')) :
    Arithmetic.finalize r.expression
      = .ok (.int (token.value (upcoming token.faces token.steadyDraws s))) := by
  have hproper := isProper_of_ofText? htoken
  have hroll : token.roll Limits.usual s = (.ok r, s') := by
    rw [← h, resolve, Part.ofWord?, htoken]
  obtain ⟨faces, hdrew, hr⟩ := roll_eq_ok hproper hroll
  have hfaces : upcoming token.faces token.steadyDraws s = faces := by
    rw [upcoming, ← length_of_rolls hsteady hdrew.rolls, hdrew.drawn]
  have hrange : ∀ face ∈ faces, 1 ≤ face ∧ face ≤ token.faces := hfaces ▸ hs _
  obtain ⟨haddable, hsum⟩ :=
    sum_summands_of_faces hproper (isWithin_of_roll hroll) hrange hdrew.length_le
  rw [hfaces, ← hsum]
  exact finalize_of_plain_eq_group hr (summands_ne_nil hproper hdrew.rolls) haddable

/-- **Better dice never hurt.** Under the usual limits, where a token that does not explode
is resolved on faces from one source and on faces from another, each in range and none of
the first above that of the second in its place, its expression finalizes to an integer
both times, and to no more the first time. -/
theorem finalize_le_of_drawsBelow {word : Text} {token : DiceToken}
    (htoken : DiceToken.ofText? word = .ok token) (hsteady : token.IsSteady)
    {s s' : σ} {t t' : τ} (hs : InRangeFrom token.faces s) (ht : InRangeFrom token.faces t)
    (hbelow : DrawsBelow token.faces s t) {r q : Resolved}
    (hr : resolve Limits.usual word s = (.ok r, s'))
    (hq : resolve Limits.usual word t = (.ok q, t')) :
    ∃ m n, Arithmetic.finalize r.expression = .ok (.int m)
      ∧ Arithmetic.finalize q.expression = .ok (.int n) ∧ m ≤ n := by
  refine ⟨_, _, DiceToken.finalize_of_resolve htoken hsteady hs hr,
    DiceToken.finalize_of_resolve htoken hsteady ht hq, ?_⟩
  exact DiceToken.value_le_value hsteady (fun face hface => (hs _ face hface).1) (hbelow _)

end Sources

/-- A recording of higher draws draws above one of lower ones. -/
theorem Recording.drawsBelow {faces : Nat} {draws draws' : List Nat}
    (hlength : draws.length = draws'.length) (hpos : 0 < draws.length)
    (h : ∀ i < draws.length,
      faceOfDraw (draws.getD i 0) faces ≤ faceOfDraw (draws'.getD i 0) faces) :
    DrawsBelow faces (⟨draws, 0⟩ : Recording) (⟨draws', 0⟩ : Recording) := by
  refine drawsBelow_of_invariant
    (fun s t => s.draws = draws ∧ t.draws = draws' ∧ s.drawn = t.drawn) ?_ ?_ ⟨rfl, rfl, rfl⟩
  · rintro ⟨xs, i⟩ ⟨ys, j⟩ ⟨rfl, rfl, rfl⟩
    have hface := h (i % xs.length) (Nat.mod_lt i hpos)
    simp only [Source.draw, replay, Script.face?, ← hlength]
    exact hface
  · rintro ⟨_, i⟩ ⟨_, j⟩ ⟨rfl, rfl, rfl⟩
    exact ⟨rfl, rfl, rfl⟩

/-- Four dice of which the three highest count. The die that is struck out is another one
in the second roll. -/
theorem finalize_le_of_highest_three :
    ∃ m n, Arithmetic.finalize "(6+3+2)".toList = .ok (.int m)
      ∧ Arithmetic.finalize "(6+5+4)".toList = .ok (.int n) ∧ m ≤ n := by
  have htoken : DiceToken.ofText? "4d6k3".toList = .ok (.pool ⟨4, .numbered 6, .keep 3⟩) := by
    rfl
  have hsteady : (DiceToken.pool ⟨4, .numbered 6, .keep 3⟩).IsSteady := by simp [DiceToken.IsSteady]
  have hbelow : DrawsBelow 6 (⟨[1, 6, 3, 2], 0⟩ : Recording) (⟨[4, 6, 3, 5], 0⟩ : Recording) :=
    Recording.drawsBelow rfl (by decide) (by decide)
  have hr : resolve Limits.usual "4d6k3".toList (⟨[1, 6, 3, 2], 0⟩ : Recording)
      = (.ok ⟨"(6+3+2)".toList, "(6+3+2+~~1~~)".toList⟩, ⟨[1, 6, 3, 2], 4⟩) := by cbv
  have hq : resolve Limits.usual "4d6k3".toList (⟨[4, 6, 3, 5], 0⟩ : Recording)
      = (.ok ⟨"(6+5+4)".toList, "(6+5+4+~~3~~)".toList⟩, ⟨[4, 6, 3, 5], 4⟩) := by cbv
  exact finalize_le_of_drawsBelow htoken hsteady (Recording.inRange.inRangeFrom (by decide) _)
    (Recording.inRange.inRangeFrom (by decide) _) hbelow hr hq

end DiceRoll
