/-
Chains of explosions, round by round.

What a chain ends with is all of its dice, or nothing when its rounds are used up. This
file looks at the rounds themselves. Behind a round that calls for no further die every
round is empty, so one sequence of rounds describes a chain whatever its cap, and the cap
only says where the sequence is cut off (`chain_eq`). The chain fails exactly if each
round up to the cap calls for another die, the round at the cap included.

A round has a die for each die of the round before that called for one, and so it never
has more dice than the round before. That bounds what is drawn, and it does so for a
chain that fails as for one that ends.

Pools and success pools chain in the same way. They differ in the cap and in how a die is
shown, and what holds of both is one statement (`RunsToCap`). That all dice are shown in the
order in which they were rolled is said twice: by the text itself, and by the numbers that
are read off it.
-/

import DiceRoll.Dice.Modify
import DiceRoll.Dice.Success
import DiceRoll.Proofs.Dice.Summands
import DiceRoll.Proofs.Dice.Trace
import DiceRoll.Proofs.Source.Draws
import Mathlib.Algebra.BigOperators.Group.Finset.Basic

set_option autoImplicit false

namespace DiceRoll

open Finset (range sum_range_succ)

/-! ## Rounds -/

section Rounds

variable {σ α : Type} (draw : σ → α × σ) (again : α → Bool)

/-- The dice of a round, and the source behind them. Round zero is the first, and every
later round has a die for each one of the round before that calls for another. -/
def chainRound (first : List α) (s : σ) : Nat → List α × σ
  | 0 => (first, s)
  | r + 1 =>
    let (dice, s) := chainRound first s r
    drawMany draw (dice.countP again) s

/-- How many dice of a round call for another. -/
def chainCalls (first : List α) (s : σ) (r : Nat) : Nat :=
  (chainRound draw again first s r).1.countP again

/-- The dice of so many rounds, in the order in which they are rolled. -/
def chainDice (first : List α) (s : σ) (n : Nat) : List α :=
  (List.range n).flatMap fun r => (chainRound draw again first s r).1

variable (first : List α) (s : σ)

theorem chainRound_succ (r : Nat) :
    chainRound draw again first s (r + 1)
      = drawMany draw (chainCalls draw again first s r) (chainRound draw again first s r).2 := rfl

/-- Behind the first round the chain is the one that begins with the second. -/
theorem chainRound_succ_eq (r : Nat) :
    chainRound draw again first s (r + 1)
      = chainRound draw again (drawMany draw (first.countP again) s).1
          (drawMany draw (first.countP again) s).2 r := by
  induction r with
  | zero => rfl
  | succ r ih => rw [chainRound_succ, chainCalls, ih, chainRound_succ, chainCalls]

theorem chainCalls_succ_eq (r : Nat) :
    chainCalls draw again first s (r + 1)
      = chainCalls draw again (drawMany draw (first.countP again) s).1
          (drawMany draw (first.countP again) s).2 r := by
  rw [chainCalls, chainRound_succ_eq, chainCalls]

theorem chainDice_succ (n : Nat) :
    chainDice draw again first s (n + 1)
      = chainDice draw again first s n ++ (chainRound draw again first s n).1 := by
  rw [chainDice, List.range_succ, List.flatMap_append, List.flatMap_singleton, chainDice]

theorem chainDice_succ_eq (n : Nat) :
    chainDice draw again first s (n + 1)
      = first ++ chainDice draw again (drawMany draw (first.countP again) s).1
          (drawMany draw (first.countP again) s).2 n := by
  induction n with
  | zero =>
    rw [chainDice_succ]
    simp [chainDice, chainRound]
  | succ n ih => rw [chainDice_succ, ih, chainRound_succ_eq, chainDice_succ, List.append_assoc]

/-! ## How many dice there are -/

/-- **No round has more dice than the first.** -/
theorem length_chainRound_le (r : Nat) :
    (chainRound draw again first s r).1.length ≤ first.length := by
  induction r with
  | zero => exact Nat.le_refl _
  | succ r ih =>
    rw [chainRound_succ, length_drawMany]
    exact List.countP_le_length.trans ih

theorem sum_chainCalls_le (n : Nat) :
    ∑ r ∈ range n, chainCalls draw again first s r ≤ first.length * n := by
  induction n with
  | zero => exact Nat.zero_le _
  | succ n ih =>
    have hcalls : chainCalls draw again first s n ≤ first.length :=
      List.countP_le_length.trans (length_chainRound_le draw again first s n)
    rw [sum_range_succ, Nat.mul_succ]
    omega

/-- Behind a round that calls for no die no round calls for one. -/
theorem chainCalls_eq_zero {k r : Nat} (hk : chainCalls draw again first s k = 0) (hkr : k ≤ r) :
    chainCalls draw again first s r = 0 := by
  induction r, hkr using Nat.le_induction with
  | base => exact hk
  | succ r _ ih =>
    rw [chainCalls, chainRound_succ, ih]
    rfl

/-- **The dice of a chain are those of its first round and one run of draws**, with one
die for each die that called for another. -/
theorem chainDice_succ_eq_append (n : Nat) :
    chainDice draw again first s (n + 1)
        = first ++ (drawMany draw (∑ r ∈ range n, chainCalls draw again first s r) s).1
      ∧ (chainRound draw again first s n).2
        = (drawMany draw (∑ r ∈ range n, chainCalls draw again first s r) s).2 := by
  induction n with
  | zero =>
    rw [chainDice_succ]
    simp [chainDice, chainRound]
  | succ n ih =>
    obtain ⟨hdice, hsource⟩ := ih
    rw [sum_range_succ, drawMany_append, ← hsource, ← chainRound_succ, chainDice_succ, hdice,
      List.append_assoc]
    exact ⟨rfl, rfl⟩

theorem countP_chainDice (n : Nat) :
    (chainDice draw again first s n).countP again
      = ∑ r ∈ range n, chainCalls draw again first s r := by
  induction n with
  | zero => rfl
  | succ n ih => rw [chainDice_succ, List.countP_append, ih, sum_range_succ, chainCalls]

/-! ## The cap -/

/-- A chain whose first round calls for no die is that round. -/
theorem chain_eq_of_settled (hfirst : first.countP again = 0) (rounds : Nat) :
    chain draw again rounds first s = (some first, s)
      ∧ chainDice draw again first s (rounds + 1) = first
      ∧ (chainRound draw again first s rounds).2 = s := by
  obtain ⟨hdice, hsource⟩ := chainDice_succ_eq_append draw again first s rounds
  have hsum : ∑ r ∈ range rounds, chainCalls draw again first s r = 0 :=
    Finset.sum_eq_zero fun r _ => chainCalls_eq_zero draw again first s (k := 0) hfirst
      (Nat.zero_le r)
  rw [hsum, drawMany_zero] at hdice hsource
  refine ⟨?_, by rw [hdice, List.append_nil], hsource⟩
  cases rounds <;> rw [chain, if_pos hfirst]

/-- **A chain is its rounds up to the cap**, and it fails if each of them calls for
another die. In either case the source is left behind the round at the cap. -/
theorem chain_eq (rounds : Nat) :
    chain draw again rounds first s
      = (if ∀ r ≤ rounds, 0 < chainCalls draw again first s r then none
          else some (chainDice draw again first s (rounds + 1)),
        (chainRound draw again first s rounds).2) := by
  induction rounds generalizing first s with
  | zero =>
    by_cases hfirst : first.countP again = 0
    · obtain ⟨hchain, hdice, hsource⟩ := chain_eq_of_settled draw again first s hfirst 0
      rw [hchain, hdice, hsource, if_neg fun hall => (hall 0 (Nat.le_refl 0)).ne' hfirst]
    · have hall : ∀ r ≤ 0, 0 < chainCalls draw again first s r := by
        intro r hr
        rw [Nat.le_zero.1 hr]
        exact Nat.pos_of_ne_zero hfirst
      rw [chain, if_neg hfirst, if_pos hall]
      rfl
  | succ rounds ih =>
    by_cases hfirst : first.countP again = 0
    · obtain ⟨hchain, hdice, hsource⟩ :=
        chain_eq_of_settled draw again first s hfirst (rounds + 1)
      rw [hchain, hdice, hsource, if_neg fun hall => (hall 0 (Nat.zero_le _)).ne' hfirst]
    · -- The rounds behind the first are a chain of their own, with one round less.
      have hshift : (∀ r ≤ rounds + 1, 0 < chainCalls draw again first s r)
          ↔ ∀ r ≤ rounds, 0 < chainCalls draw again (drawMany draw (first.countP again) s).1
              (drawMany draw (first.countP again) s).2 r := by
        constructor
        · intro hall r hr
          rw [← chainCalls_succ_eq]
          exact hall (r + 1) (Nat.succ_le_succ hr)
        · intro hall r hr
          cases r with
          | zero => exact Nat.pos_of_ne_zero hfirst
          | succ r =>
            rw [chainCalls_succ_eq]
            exact hall r (Nat.le_of_succ_le_succ hr)
      rw [chain, if_neg hfirst]
      simp only [ih, hshift, chainDice_succ_eq draw again first s (rounds + 1),
        chainRound_succ_eq draw again first s rounds]
      split <;> rfl

end Rounds

/-! ## Pools and success pools -/

section Caps

variable {σ α : Type}

/-- What holds of dice that are rolled and explode up to a cap, with `first` the dice of
the first round and `s` the source behind them. Write `e r` for `chainCalls`, the number
of dice of round `r` that call for another. A die has a value, and it is `shown` somehow. -/
structure RunsToCap (draw : σ → α × σ) (again : α → Bool) (cap : Nat) (first : List α) (s : σ)
    (value : α → Int) (separator : Text) (shown : α → Text)
    (result : Except Problem Resolved × σ) : Prop where
  /-- The cap is reported exactly if `e 0`, ..., `e cap` are all positive. -/
  limit_iff : result.1 = .error (.explosionLimit cap)
    ↔ ∀ r ≤ cap, 0 < chainCalls draw again first s r
  /-- Otherwise there is a result. The numbers in its trace are the values of all dice in the
  order in which they were rolled, the first round and `e 0 + e 1 + ...` others, which is one
  for each die that met the threshold; from the cap on `e` is zero. -/
  trace : ¬ (∀ r ≤ cap, 0 < chainCalls draw again first s r) →
    ∃ resolved dice, result.1 = .ok resolved
      ∧ shownNumbers resolved.pretty = dice.map value
      ∧ resolved.pretty = Markup.group separator (dice.map shown)
      ∧ dice = first ++ (drawMany draw (∑ r ∈ range cap, chainCalls draw again first s r) s).1
      ∧ (∀ r, cap ≤ r → chainCalls draw again first s r = 0)
      ∧ dice.length = first.length + dice.countP again
  /-- In either case this is what was drawn behind the first round. -/
  drawn : result.2 = (drawMany draw (∑ r ∈ range cap, chainCalls draw again first s r) s).2
  /-- In either case this is how many dice were rolled in total. -/
  length_le : first.length + ∑ r ∈ range cap, chainCalls draw again first s r
    ≤ first.length * (cap + 1)

theorem chainCalls_cap_eq_zero {draw : σ → α × σ} {again : α → Bool} {cap : Nat} {first : List α}
    {s : σ} (h : ¬ ∀ r ≤ cap, 0 < chainCalls draw again first s r) :
    chainCalls draw again first s cap = 0 := by
  push Not at h
  obtain ⟨k, hk, hcalls⟩ := h
  exact chainCalls_eq_zero draw again first s (Nat.le_zero.1 hcalls) hk

/-- **What is made of a chain runs to its cap**, if it reports the cap where the chain
fails and otherwise shows all the dice. -/
theorem runsToCap_of_chain (resolve : List α → Resolved) {draw : σ → α × σ} {again : α → Bool}
    {cap : Nat} {first : List α} {s : σ} {value : α → Int} {separator : Text}
    {shown : α → Text} {result : Except Problem Resolved × σ} (hseparator : separator ≠ [])
    (hmarks : separator.all isTraceMark = true) (hvalue : ∀ x, shownNumbers (shown x) = [value x])
    (hshown : ∀ dice, (resolve dice).pretty = Markup.group separator (dice.map shown))
    (hfails : ∀ s', chain draw again cap first s = (none, s') →
      result = (.error (.explosionLimit cap), s'))
    (hends : ∀ dice s', chain draw again cap first s = (some dice, s') →
      result = (.ok (resolve dice), s')) :
    RunsToCap draw again cap first s value separator shown result := by
  obtain ⟨hdice, hsource⟩ := chainDice_succ_eq_append draw again first s cap
  have hchain := chain_eq draw again first s cap
  rw [hsource] at hchain
  have hle : first.length + ∑ r ∈ range cap, chainCalls draw again first s r
      ≤ first.length * (cap + 1) := by
    have hsum := sum_chainCalls_le draw again first s cap
    rw [Nat.mul_succ]
    omega
  by_cases hall : ∀ r ≤ cap, 0 < chainCalls draw again first s r
  · rw [if_pos hall] at hchain
    rw [hfails _ hchain]
    exact ⟨⟨fun _ => hall, fun _ => rfl⟩, fun h => absurd hall h, rfl, hle⟩
  · rw [if_neg hall] at hchain
    rw [hends _ _ hchain]
    refine ⟨⟨?_, fun h => absurd h hall⟩, fun _ => ?_, rfl, hle⟩
    · intro h
      cases h
    · have hcap := chainCalls_cap_eq_zero hall
      have hcount : (chainDice draw again first s (cap + 1)).countP again
          = ∑ r ∈ range cap, chainCalls draw again first s r := by
        rw [countP_chainDice, sum_range_succ, hcap, Nat.add_zero]
      refine ⟨_, chainDice draw again first s (cap + 1), rfl, ?_, hshown _, hdice, ?_, ?_⟩
      · rw [hshown, shownNumbers_group hseparator hmarks hvalue]
      · exact fun r hr => chainCalls_eq_zero draw again first s hcap hr
      · rw [hcount, hdice, List.length_append, length_drawMany]

end Caps

/-- A threshold that the highest value of a die meets is not above the die. -/
theorem Pool.isAbove_eq_false {t : Threshold} {sides : Sides}
    (h : ∀ n, t = .atLeast n → n ≤ sides.worth sides.faces) : isAbove t sides = false := by
  cases t with
  | atLeast n =>
    rw [isAbove, Sides.maxValue, sides.valueOf_eq_worth]
    simpa using h n rfl
  | comparison suffix => rfl

theorem Sides.faces_ne_one {sides : Sides} (h : sides ≠ .numbered 1) : sides.faces ≠ 1 := by
  cases sides with
  | numbered n => simpa [faces] using h
  | fate => decide

theorem Die.roll_eq_map {σ : Type} [Source σ] (sides : Sides) :
    (roll sides : σ → Die × σ) = fun s => (Source.draw sides.faces s).map sides.dieOn id := by
  rw [← Die.ofFace_eq_dieOn]
  rfl

/-- **Both explosion loops run the chain exactly to its cap.** A pool whose threshold one
of its dice can meet, with more than one side, explodes for as many rounds as the limits
allow, and a success pool for as many rounds for each of its dice, within a word of
sixty-four bits. The dice of the pool are its first round, and a success pool draws its
first round itself. -/
theorem explosions_run_to_cap {σ : Type} [Source σ] (limits : Limits) (s : σ) :
    (∀ (t : Threshold) (p : Pool), (∀ n, t = .atLeast n → n ≤ p.sides.worth p.sides.faces) →
      p.sides ≠ .numbered 1 →
      RunsToCap (fun s => (Source.draw p.sides.faces s).map p.sides.dieOn id)
        (fun d => t.holds d.value) limits.maxExplosions p.dice s Die.value ['+']
        (fun d => (Pool.markExploding t d).text) ((Modifier.explode t).apply limits p s))
    ∧ ∀ p : SuccessSpec,
      (drawMany (Source.draw 10) p.count s).1.length = p.count
      ∧ RunsToCap (Source.draw 10) p.calls (min (limits.maxExplosions * p.count) (wordSize - 1))
        (drawMany (Source.draw 10) p.count s).1 (drawMany (Source.draw 10) p.count s).2
        Nat.cast [',', ' '] p.shown (p.roll limits s) := by
  constructor
  · intro t p hreach hsides
    have habove := Pool.isAbove_eq_false hreach
    have hone := Sides.faces_ne_one hsides
    simp only [← Die.roll_eq_map, ← t.isMet_eq_holds]
    refine runsToCap_of_chain
      (fun dice => Resolved.sum (dice.map (Pool.markExploding t))) (by simp) rfl ?_ ?_ ?_ ?_
    · intro d
      rw [Die.shownNumbers_text, Pool.value_markExploding]
    · intro dice
      rw [Resolved.sum, Resolved.literal, Resolved.sumText, List.map_map]
      rfl
    · intro s' hchain
      rw [Modifier.apply, Pool.explode, habove, if_neg Bool.false_ne_true, if_neg hone, hchain]
    · intro dice s' hchain
      rw [Modifier.apply, Pool.explode, habove, if_neg Bool.false_ne_true, if_neg hone, hchain]
  · intro p
    rw [p.calls_eq]
    refine ⟨length_drawMany _ _ _,
      runsToCap_of_chain p.resolved (by simp) rfl p.shownNumbers_shown ?_ ?_ ?_⟩
    · exact fun _ => rfl
    · intro s' hchain
      simp only [SuccessSpec.roll, SuccessSpec.rounds, SuccessSpec.faces, hchain]
    · intro dice s' hchain
      simp only [SuccessSpec.roll, SuccessSpec.rounds, SuccessSpec.faces, hchain]

/-- Two dice and a single round of explosions, in which the one that explodes does so again;
the same dice with a second round, and a success pool with its chain. -/
theorem explosions_run_to_cap_of_six :
    ((Modifier.explode (.atLeast 6)).apply { Limits.usual with maxExplosions := 1 }
        ⟨.numbered 6, [.ofValue 6, .ofValue 3]⟩ (⟨.draws [6], 0⟩ : Replay)).1
      = .error (.explosionLimit 1)
    ∧ (∃ resolved, ((Modifier.explode (.atLeast 6)).apply { Limits.usual with maxExplosions := 2 }
          ⟨.numbered 6, [.ofValue 6, .ofValue 3]⟩ (⟨.draws [6, 2], 0⟩ : Replay)).1 = .ok resolved
        ∧ shownNumbers resolved.pretty = [6, 3, 6, 2])
    ∧ ∃ resolved, (SuccessSpec.roll ⟨2, 5, none, none, some (.atLeast 10)⟩
          { Limits.usual with maxExplosions := 1 } (⟨.draws [10, 1, 7], 0⟩ : Replay)).1
            = .ok resolved
        ∧ shownNumbers resolved.pretty = [10, 1, 7] := by
  refine ⟨?_, ?_, ?_⟩
  · exact ((explosions_run_to_cap _ _).1 (.atLeast 6) _ (by simp; decide) (by decide)).limit_iff.2
      (by decide)
  · obtain ⟨resolved, dice, hok, hnumbers, -, rfl, -⟩ :=
      ((explosions_run_to_cap { Limits.usual with maxExplosions := 2 }
        (⟨.draws [6, 2], 0⟩ : Replay)).1 (.atLeast 6)
        ⟨.numbered 6, [.ofValue 6, .ofValue 3]⟩ (by simp; decide) (by decide)).trace (by decide)
    exact ⟨resolved, hok, hnumbers⟩
  · obtain ⟨resolved, dice, hok, hnumbers, -, rfl, -⟩ :=
      ((explosions_run_to_cap { Limits.usual with maxExplosions := 1 }
        (⟨.draws [10, 1, 7], 0⟩ : Replay)).2
        ⟨2, 5, none, none, some (.atLeast 10)⟩).2.trace (by decide)
    exact ⟨resolved, hok, hnumbers⟩

end DiceRoll
