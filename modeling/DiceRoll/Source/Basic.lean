/-
Sources of faces.

All chance comes from a source. A source is a state from which faces are drawn
one at a time: asked for a face of a die, it gives one and the state to draw the
next from. Everything that rolls dice is a function of that state, so two runs
that begin in the same state are the same run.
-/

set_option autoImplicit false

namespace DiceRoll

/-- A state from which faces can be drawn. -/
class Source (σ : Type) where
  /-- Draws a face of a die with so many faces. -/
  draw : (faces : Nat) → σ → Nat × σ

/-- A source is fair game when every face it draws is a face of the die. -/
def Source.InRange (σ : Type) [Source σ] : Prop :=
  ∀ (faces : Nat) (s : σ), 1 ≤ faces →
    1 ≤ (Source.draw faces s).1 ∧ (Source.draw faces s).1 ≤ faces

/-- Pseudo-random numbers as a source. -/
instance : Source StdGen where
  draw faces g := randNat g 1 faces

/-- Draws several things, one after the other, in the order in which they are drawn. -/
def drawMany {σ α : Type} (draw : σ → α × σ) : Nat → σ → List α × σ
  | 0, s => ([], s)
  | n + 1, s =>
    let (a, s) := draw s
    let (as, s) := drawMany draw n s
    (a :: as, s)

/-- Goes through a list in order, where each member may draw from the source. -/
def drawEach {σ α β : Type} (f : α → σ → β × σ) : List α → σ → List β × σ
  | [], s => ([], s)
  | a :: as, s =>
    let (b, s) := f a s
    let (bs, s) := drawEach f as s
    (b :: bs, s)

end DiceRoll
