/-
Draws in a row.

Every token draws faces of one kind of die only, so all that a token draws is one
run of `drawMany`, and the faces it drew say everything about where it left the
source. This file splits such runs, and says which runs a chain of explosions can
be: round after round, each with one die for every die of the round before that
called for another (`Chained`, `chain_eq_some`).
-/

import DiceRoll.Dice.Chain
import DiceRoll.Dice.Pool
import DiceRoll.Source.Replay
import Mathlib.Data.List.Basic

set_option autoImplicit false

namespace DiceRoll

/-! ## Runs of draws -/

section Draws

variable {σ α β : Type} (draw : σ → α × σ)

@[simp] theorem drawMany_zero (s : σ) : drawMany draw 0 s = ([], s) := rfl

theorem drawMany_succ (n : Nat) (s : σ) :
    drawMany draw (n + 1) s
      = ((draw s).1 :: (drawMany draw n (draw s).2).1, (drawMany draw n (draw s).2).2) := rfl

@[simp] theorem length_drawMany (n : Nat) (s : σ) : (drawMany draw n s).1.length = n := by
  induction n generalizing s with
  | zero => rfl
  | succ n ih => rw [drawMany_succ, List.length_cons, ih]

/-- One run after another is one run. -/
theorem drawMany_append (m n : Nat) (s : σ) :
    drawMany draw (m + n) s
      = ((drawMany draw m s).1 ++ (drawMany draw n (drawMany draw m s).2).1,
        (drawMany draw n (drawMany draw m s).2).2) := by
  induction m generalizing s with
  | zero => simp
  | succ m ih =>
    rw [Nat.add_right_comm, drawMany_succ, ih, drawMany_succ, List.cons_append]

/-- What is made of each draw does not change what is drawn. -/
theorem drawMany_map (f : α → β) (n : Nat) (s : σ) :
    drawMany (fun s => (f (draw s).1, (draw s).2)) n s
      = ((drawMany draw n s).1.map f, (drawMany draw n s).2) := by
  induction n generalizing s with
  | zero => rfl
  | succ n ih => rw [drawMany_succ, ih, drawMany_succ, List.map_cons]

/-- A run that drew these, as one equation. -/
theorem drawMany_eq {n : Nat} {s s' : σ} {drawn : List α} (h : drawMany draw n s = (drawn, s')) :
    drawMany draw drawn.length s = (drawn, s') := by
  have hlength := length_drawMany draw n s
  rw [h] at hlength
  rw [hlength, h]

theorem drawMany_append_eq {s s₁ s₂ : σ} {first second : List α}
    (h₁ : drawMany draw first.length s = (first, s₁))
    (h₂ : drawMany draw second.length s₁ = (second, s₂)) :
    drawMany draw (first ++ second).length s = (first ++ second, s₂) := by
  rw [List.length_append, drawMany_append, h₁, h₂]

end Draws

/-! ## Faces in range -/

section Faces

variable {σ : Type} [Source σ]

/-- A run of draws from a source in range holds faces of the die only. -/
theorem mem_drawMany_inRange (hσ : Source.InRange σ) {faces : Nat} (hfaces : 1 ≤ faces) {n : Nat}
    {s s' : σ} {drawn : List Nat} (h : drawMany (Source.draw faces) n s = (drawn, s')) :
    ∀ face ∈ drawn, 1 ≤ face ∧ face ≤ faces := by
  induction n generalizing s drawn with
  | zero =>
    cases h
    simp
  | succ n ih =>
    rw [drawMany_succ] at h
    cases h
    intro face hface
    rcases List.mem_cons.1 hface with rfl | hface
    · exact hσ faces s hfaces
    · exact ih rfl face hface

/-- Dice are rolled by drawing faces. -/
theorem drawMany_roll (sides : Sides) (n : Nat) (s : σ) :
    drawMany (Die.roll sides) n s
      = ((drawMany (Source.draw sides.faces) n s).1.map (Die.ofFace sides),
        (drawMany (Source.draw sides.faces) n s).2) :=
  drawMany_map (Source.draw sides.faces) (Die.ofFace sides) n s

end Faces

/-! ## A source in range

Recorded draws wrap around the die that asks for them, so a replay of them is in range
whatever was recorded. A replay of samples is stopped where a face cannot be counted, and
what it gives from there on is no answer. -/

/-- Recorded draws, and how many of them were replayed. -/
structure Recording where
  draws : List Nat
  drawn : Nat

namespace Recording

/-- The replay of a recording. -/
def replay (r : Recording) : Replay := ⟨.draws r.draws, r.drawn⟩

instance : Source Recording where
  draw faces r := ((Source.draw faces r.replay).1, { r with drawn := r.drawn + 1 })

theorem inRange_faceOfDraw (draw : Nat) {faces : Nat} (hfaces : 1 ≤ faces) :
    1 ≤ faceOfDraw draw faces ∧ faceOfDraw draw faces ≤ faces := by
  unfold faceOfDraw
  split
  · exact ⟨hfaces, Nat.le_refl faces⟩
  · exact ⟨Nat.succ_pos _, Nat.mod_lt _ hfaces⟩

theorem inRange : Source.InRange Recording :=
  fun _ _ hfaces => inRange_faceOfDraw _ hfaces

end Recording

/-! ## Chains -/

/-- The dice of the rounds that follow, when the first of them has so many dice:
in each round one for every die of the round before that called for another, until
a round calls for none. -/
inductive Chained {α : Type} (again : α → Bool) : Nat → List α → Prop where
  | nil : Chained again 0 []
  | round {round rest : List α} (hne : round ≠ [])
      (hrest : Chained again (round.countP again) rest) :
      Chained again round.length (round ++ rest)

theorem Chained.length_le {α : Type} {again : α → Bool} {n : Nat} {dice : List α}
    (h : Chained again n dice) : n ≤ dice.length := by
  cases h with
  | nil => exact Nat.le_refl 0
  | round hne hrest =>
    rw [List.length_append]
    exact Nat.le_add_right _ _

/-- A chain of what is made of dice is a chain of the dice. -/
theorem Chained.of_map {α β : Type} {again : β → Bool} {f : α → β} {n : Nat} {dice : List α}
    (h : Chained again n (dice.map f)) : Chained (again ∘ f) n dice := by
  generalize hmap : dice.map f = made at h
  induction h generalizing dice with
  | nil =>
    rw [List.map_eq_nil_iff.1 hmap]
    exact .nil
  | @round round rest hne _ ih =>
    obtain ⟨a, b, rfl, rfl, rfl⟩ := List.map_eq_append_iff.1 hmap
    rw [List.length_map]
    refine .round (fun ha => hne (by rw [ha, List.map_nil])) ?_
    have hrest := ih rfl
    rwa [List.countP_map] at hrest

/-- **A chain that ends draws one die for each that called for another**, and at
most so many rounds of them. -/
theorem chain_eq_some {σ α : Type} {draw : σ → α × σ} {again : α → Bool} {rounds : Nat}
    {first all : List α} {s s' : σ} (h : chain draw again rounds first s = (some all, s')) :
    ∃ more, all = first ++ more ∧ drawMany draw more.length s = (more, s')
      ∧ Chained again (first.countP again) more ∧ more.length ≤ rounds * first.length := by
  induction rounds generalizing first all s with
  | zero =>
    rw [chain] at h
    split at h
    · rename_i hnone
      cases h
      exact ⟨[], by simp, rfl, hnone ▸ .nil, by simp⟩
    · cases h
  | succ rounds ih =>
    rw [chain] at h
    split at h
    · rename_i hnone
      cases h
      exact ⟨[], by simp, rfl, hnone ▸ .nil, by simp⟩
    · rename_i hsome
      have hround : ((drawMany draw (first.countP again) s).1).length = first.countP again :=
        length_drawMany draw _ s
      generalize hnext : drawMany draw (first.countP again) s = next at h hround
      obtain ⟨round, s₁⟩ := next
      simp only at h hround
      generalize hchain : chain draw again rounds round s₁ = result at h
      obtain ⟨tail, s₂⟩ := result
      cases tail with
      | none => cases h
      | some tail =>
        cases h
        obtain ⟨more, rfl, hmore, hchained, hlength⟩ := ih hchain
        have hne : round ≠ [] := by
          rintro rfl
          exact hsome hround.symm
        refine ⟨round ++ more, rfl, ?_, ?_, ?_⟩
        · exact drawMany_append_eq draw (drawMany_eq draw hnext) hmore
        · rw [← hround]
          exact .round hne hchained
        -- A round is no longer than the one before it, so none is longer than the first.
        · have hcount := List.countP_le_length (p := again) (l := first)
          have hle : rounds * round.length ≤ rounds * first.length :=
            Nat.mul_le_mul_left rounds (hround ▸ hcount)
          rw [List.length_append, Nat.succ_mul]
          omega

end DiceRoll
