/-
What a dice token draws and what it writes.

A token that is rolled draws faces of one die, and the faces alone say what it adds to
the roll. This file names the two things there are to say: which lists of faces a token
can draw (`DiceToken.Rolls`), and which integers it then writes
(`DiceToken.summands`). The integers are written out as a sum, some of them with
emphasis (`DiceToken.roll_eq_ok`). All of it holds under every limits.

How many faces a die has, what a face is worth and when it calls for another die is said
here as the notation says it, and not by what rolls the dice.
-/

import DiceRoll.Proofs.Dice.Proper
import DiceRoll.Proofs.Markup
import DiceRoll.Proofs.Source.Draws
import DiceRoll.Dice.Resolve
import Mathlib.Data.List.Sort

set_option autoImplicit false

namespace DiceRoll

/-! ## What a face says -/

/-- What a face is worth: the faces of a Fate die are worth two less than their numbers, and
all others their numbers. -/
def Sides.worth (sides : Sides) (face : Nat) : Int := if sides = .fate then face - 2 else face

/-- Whether a threshold holds of a value: a number holds from there on, and a comparison
where it finalizes, behind the value, to what counts as true. -/
def Threshold.holds (t : Threshold) (v : Int) : Bool :=
  match t with
  | .atLeast n => n ≤ v
  | .comparison suffix => (Arithmetic.finalize (Text.ofInt v ++ suffix)).toOption.any Number.isTrue

/-- Whether a face of a pool calls for another die under a threshold. -/
def PoolSpec.calls (p : PoolSpec) (t : Threshold) (face : Nat) : Bool :=
  t.holds (p.sides.worth face)

/-- Whether a face of a success pool calls for another die. -/
def SuccessSpec.calls (p : SuccessSpec) (face : Nat) : Bool := p.explode.any fun t => t.holds face

theorem Sides.valueOf_eq_worth (sides : Sides) : sides.valueOf = sides.worth := by
  funext face
  cases sides <;> rfl

/-- The die that lies on a face. By itself only the twenty of a die with twenty sides stands
out. -/
def Sides.dieOn (sides : Sides) (face : Nat) : Die :=
  ⟨sides.worth face, sides = .numbered 20 ∧ face = 20⟩

theorem Die.ofFace_eq_dieOn (sides : Sides) : ofFace sides = sides.dieOn := by
  funext face
  cases sides with
  | numbered n =>
    by_cases hn : n = 20
    · have hface : ((face : Int) == 20) = decide (face = 20) := by
        rw [Bool.eq_iff_iff, beq_iff_eq, decide_eq_true_iff]
        omega
      simp [ofFace, Sides.dieOn, Sides.worth, Sides.valueOf, Sides.isTwenty, Sides.twenty,
        Sides.maxValue, Sides.faces, hn, hface]
    · simp [ofFace, Sides.dieOn, Sides.worth, Sides.valueOf, Sides.isTwenty, Sides.twenty, hn]
  | fate => rfl

theorem Threshold.isMet_eq_holds (t : Threshold) (v : Int) : t.isMet v = t.holds v := by
  cases t with
  | atLeast n => rfl
  | comparison suffix =>
    rw [isMet, holds, Arithmetic.finalizeOrZero]
    cases Arithmetic.finalize (Text.ofInt v ++ suffix) <;> rfl

theorem PoolSpec.calls_eq (p : PoolSpec) (t : Threshold) :
    p.calls t = fun face => t.isMet (p.sides.valueOf face) := by
  funext face
  rw [calls, t.isMet_eq_holds, p.sides.valueOf_eq_worth]

theorem SuccessSpec.calls_eq (p : SuccessSpec) : p.calls = meets p.explode := by
  funext face
  simp only [calls, meets, Threshold.isMet_eq_holds]

/-! ## What a token draws -/

/-- How many faces the dice of a token have: three if they are Fate dice, and ten in a
success pool. -/
def DiceToken.faces : DiceToken → Nat
  | .pool ⟨_, .numbered n, _⟩ => n
  | .pool ⟨_, .fate, _⟩ => 3
  | .successes _ => 10

theorem DiceToken.faces_pool (p : PoolSpec) : (DiceToken.pool p).faces = p.sides.faces := by
  obtain ⟨count, sides, modifier⟩ := p
  cases sides <;> rfl

/-- The faces that a pool can draw: a round of dice, two rounds where there is another
pool to compare with, and a chain where dice explode. -/
def PoolSpec.Rolls (p : PoolSpec) (faces : List Nat) : Prop :=
  match p.modifier with
  | .advantage | .disadvantage => faces.length = p.count + p.count
  | .explode t => Chained (p.calls t) p.count faces
  | _ => faces.length = p.count

/-- The faces that a token can draw. -/
def DiceToken.Rolls : DiceToken → List Nat → Prop
  | .pool p, faces => p.Rolls faces
  | .successes p, faces => Chained p.calls p.count faces

/-- How many dice a token rolls at most. -/
def DiceToken.mostDice (limits : Limits) : DiceToken → Nat
  | .pool p => (limits.maxExplosions + 2) * p.count
  | .successes p => (p.rounds limits + 1) * p.count

/-- The token drew these faces on the way from one state of a source to another. -/
structure DiceToken.Drew {σ : Type} [Source σ] (token : DiceToken) (limits : Limits)
    (faces : List Nat) (s s' : σ) : Prop where
  drawn : drawMany (Source.draw token.faces) faces.length s = (faces, s')
  rolls : token.Rolls faces
  length_le : faces.length ≤ token.mostDice limits

/-! ## What it comes to -/

/-- The `n` largest of these values, the largest first. -/
def largest (n : Nat) (values : List Int) : List Int := (values.insertionSort (· ≥ ·)).take n

/-- The `n` smallest of these values, the smallest first. -/
def smallest (n : Nat) (values : List Int) : List Int := (values.insertionSort (· ≤ ·)).take n

/-- What the faces of a pool are worth. -/
def PoolSpec.values (p : PoolSpec) (faces : List Nat) : List Int := faces.map p.sides.worth

/-- The integers that a pool adds to the roll. -/
def PoolSpec.summands (p : PoolSpec) (faces : List Nat) : List Int :=
  let values := p.values faces
  match p.modifier with
  | .plain | .explode _ => values
  | .advantage => [max (wordSum (values.take p.count)) (wordSum (values.drop p.count))]
  | .disadvantage => [min (wordSum (values.take p.count)) (wordSum (values.drop p.count))]
  | .keep n => largest n values
  | .lose n => smallest n values
  | .flat n => values ++ [(n : Int)]

/-- The integers that a token adds to the roll. -/
def DiceToken.summands : DiceToken → List Nat → List Int
  | .pool p, faces => p.summands faces
  | .successes p, faces => [p.total faces]

/-! ## The integers that are written

Each modifier is followed from the faces of its first round on. -/

theorem map_value_ofFace (sides : Sides) (faces : List Nat) :
    (faces.map (Die.ofFace sides)).map Die.value = faces.map sides.worth := by
  rw [List.map_map, ← sides.valueOf_eq_worth]
  rfl

theorem plain_sumText_of_values {dice : List Die} {values : List Int}
    (h : dice.map Die.value = values) :
    Markup.plain (Resolved.sumText dice) = Markup.group ['+'] (values.map Text.ofInt) := by
  rw [Markup.plain_sumText, ← h, List.map_map]
  rfl

/-- Dice in descending order show their values in descending order. -/
theorem Pool.map_value_descending (p : Pool) :
    p.descending.map Die.value = (p.dice.map Die.value).insertionSort (· ≥ ·) := by
  rw [Pool.descending, List.map_mergeSort (s := fun a b => decide (a ≥ b)) fun _ _ _ _ => rfl,
    List.mergeSort_eq_insertionSort]

/-- Dice in ascending order show their values in ascending order. -/
theorem Pool.map_value_ascending (p : Pool) :
    p.ascending.map Die.value = (p.dice.map Die.value).insertionSort (· ≤ ·) := by
  rw [Pool.ascending, List.map_mergeSort (s := fun a b => decide (a ≤ b)) fun _ _ _ _ => rfl,
    List.mergeSort_eq_insertionSort]

/-- Where a die counts, the dice that count are added up. -/
theorem Pool.plain_select {dice : List Die} {n : Nat} {values : List Int}
    (h : (dice.take n).map Die.value = values) (hne : values ≠ []) :
    Markup.plain (Pool.select dice n).expression
      = Markup.group ['+'] (values.map Text.ofInt) := by
  have hkept : (dice.take n).isEmpty = false := by
    rw [← h] at hne
    simpa using hne
  rw [Pool.select, hkept]
  exact plain_sumText_of_values h

theorem Pool.value_markExploding (t : Threshold) (d : Die) :
    (Pool.markExploding t d).value = d.value := by
  unfold Pool.markExploding
  split <;> rfl

/-- Marking the dice that explode changes no value. -/
theorem Pool.map_value_markExploding (t : Threshold) (dice : List Die) :
    (dice.map (Pool.markExploding t)).map Die.value = dice.map Die.value := by
  rw [List.map_map]
  exact List.map_congr_left fun d _ => Pool.value_markExploding t d

theorem largest_ne_nil {n : Nat} {values : List Int} (hn : 1 ≤ n) (hne : values ≠ []) :
    largest n values ≠ [] := by
  rw [← List.length_pos_iff] at hne ⊢
  rw [largest, List.length_take, List.length_insertionSort]
  omega

theorem smallest_ne_nil {n : Nat} {values : List Int} (hn : 1 ≤ n) (hne : values ≠ []) :
    smallest n values ≠ [] := by
  rw [← List.length_pos_iff] at hne ⊢
  rw [smallest, List.length_take, List.length_insertionSort]
  omega

theorem largest_subperm (n : Nat) (values : List Int) : (largest n values).Subperm values :=
  (List.take_sublist _ _).subperm.trans (List.perm_insertionSort _ _).subperm

theorem smallest_subperm (n : Nat) (values : List Int) : (smallest n values).Subperm values :=
  (List.take_sublist _ _).subperm.trans (List.perm_insertionSort _ _).subperm

/-! ## Modifiers

The pool that a modifier is given shows the faces of the first round, and the faces
that it draws come behind them. -/

section Modifiers

variable {σ : Type} [Source σ] {limits : Limits} {first : List Nat} {s s' : σ} {r : Resolved}

/-- The pool with these faces. -/
def Pool.ofFaces (sides : Sides) (faces : List Nat) : Pool := ⟨sides, faces.map (Die.ofFace sides)⟩

theorem Pool.roll_eq (n : Nat) (sides : Sides) (s : σ) :
    Pool.roll n sides s
      = (Pool.ofFaces sides (drawMany (Source.draw sides.faces) n s).1,
        (drawMany (Source.draw sides.faces) n s).2) := by
  rw [Pool.roll, drawMany_roll]
  rfl

theorem Pool.total_ofFaces (sides : Sides) (faces : List Nat) :
    (Pool.ofFaces sides faces).total = wordSum (faces.map sides.worth) := by
  rw [Pool.total, Pool.ofFaces, map_value_ofFace]

/-- The second pool has as many dice as the first, and the better total is written. -/
theorem Pool.withSecond_eq (higher : Bool) (sides : Sides) (first : List Nat) (s : σ) :
    ∃ second s', second.length = first.length
      ∧ drawMany (Source.draw sides.faces) second.length s = (second, s')
      ∧ (Pool.ofFaces sides first).withSecond higher s
          = (Pool.better higher (Pool.ofFaces sides first) (Pool.ofFaces sides second), s') := by
  have hlength : (Pool.ofFaces sides first).dice.length = first.length := List.length_map _
  have hsecond := length_drawMany (Source.draw sides.faces) first.length s
  refine ⟨_, _, hsecond, drawMany_eq _ rfl, ?_⟩
  rw [Pool.withSecond, Pool.reroll, hlength, Pool.roll_eq]
  rfl

/-- What the better of two pools adds to the roll. -/
theorem Pool.plain_better (higher : Bool) (sides : Sides) (first second : List Nat) :
    Markup.plain (Pool.better higher (Pool.ofFaces sides first)
        (Pool.ofFaces sides second)).expression
      = Markup.group ['+'] [Text.ofInt (if higher
          then max (wordSum (first.map sides.worth)) (wordSum (second.map sides.worth))
          else min (wordSum (first.map sides.worth)) (wordSum (second.map sides.worth)))] := by
  rw [Pool.better, Markup.plain_ofInt, Pool.total_ofFaces, Pool.total_ofFaces]
  simp [Markup.group]

/-- A pool that explodes draws the chain of its dice. -/
theorem Pool.explode_eq_ok {t : Threshold} {rounds : Nat} {sides : Sides}
    (h : (Pool.ofFaces sides first).explode t rounds s = (.ok r, s')) :
    ∃ more, drawMany (Source.draw sides.faces) more.length s = (more, s')
      ∧ Chained (fun face => t.isMet (sides.valueOf face))
          (first.countP fun face => t.isMet (sides.valueOf face)) more
      ∧ more.length ≤ rounds * first.length
      ∧ Markup.plain r.expression
          = Markup.group ['+'] (((first ++ more).map sides.worth).map Text.ofInt) := by
  -- What is refused before the first explosion, and at the limit of rounds, is no result.
  unfold Pool.explode at h
  split at h
  · cases h
  split at h
  · cases h
  split at h
  · cases h
  rename_i dice s₁ hchain
  cases h
  obtain ⟨moreDice, rfl, hdrawn, hchained, hlength⟩ := chain_eq_some hchain
  rw [Pool.ofFaces] at hchained hlength hdrawn
  -- The chain is one of dice, and every die in it is a face that was drawn.
  rw [drawMany_roll] at hdrawn
  obtain ⟨hdice, rfl⟩ := Prod.mk.inj hdrawn
  generalize hdraw : drawMany (Source.draw sides.faces) moreDice.length s = drawn at hdice
  obtain ⟨more, s₁⟩ := drawn
  subst hdice
  rw [List.countP_map] at hchained
  rw [List.length_map] at hlength
  refine ⟨more, drawMany_eq _ hdraw, hchained.of_map, ?_, ?_⟩
  · rwa [List.length_map] at hlength
  · refine plain_sumText_of_values ?_
    rw [Pool.map_value_markExploding, Pool.ofFaces, List.map_append, List.map_append,
      map_value_ofFace, map_value_ofFace]

/-- Behind the first round a modifier drew these faces, and it wrote the integers of all
of them. -/
structure PoolSpec.Applied (p : PoolSpec) (limits : Limits) (first more : List Nat) (s s' : σ)
    (r : Resolved) : Prop where
  drawn : drawMany (Source.draw p.sides.faces) more.length s = (more, s')
  rolls : p.Rolls (first ++ more)
  length_le : more.length ≤ (limits.maxExplosions + 1) * p.count
  written : Markup.plain r.expression
    = Markup.group ['+'] ((p.summands (first ++ more)).map Text.ofInt)

/-- A modifier that draws nothing writes the integers of the first round. -/
theorem PoolSpec.applied_of_no_draw {p : PoolSpec} (hrolls : p.Rolls first)
    (hwritten : Markup.plain r.expression
      = Markup.group ['+'] ((p.summands first).map Text.ofInt)) :
    p.Applied limits first [] s s r := by
  constructor
  · rfl
  · rwa [List.append_nil]
  · exact Nat.zero_le _
  · rwa [List.append_nil]

/-- A modifier that rolls the pool again writes one integer for both pools. -/
theorem PoolSpec.applied_of_withSecond {p : PoolSpec} (higher : Bool)
    (hfirst : first.length = p.count)
    (hrolls : ∀ faces, p.Rolls faces ↔ faces.length = p.count + p.count)
    (hsummands : ∀ faces, p.summands faces
      = [if higher then max (wordSum ((p.values faces).take p.count))
            (wordSum ((p.values faces).drop p.count))
          else min (wordSum ((p.values faces).take p.count))
            (wordSum ((p.values faces).drop p.count))])
    (h : (Pool.ofFaces p.sides first).withSecond higher s = (r, s')) :
    ∃ second, p.Applied limits first second s s' r := by
  obtain ⟨second, s₁, hsecond, hdrawn, hwith⟩ := Pool.withSecond_eq higher p.sides first s
  rw [hwith] at h
  cases h
  have hlength : (first.map p.sides.worth).length = p.count := by rw [List.length_map, hfirst]
  refine ⟨second, hdrawn, ?_, ?_, ?_⟩
  · rw [hrolls, List.length_append, hsecond, hfirst]
  · rw [hsecond, hfirst]
    exact Nat.le_mul_of_pos_left _ (Nat.succ_pos _)
  · rw [Pool.plain_better, hsummands, PoolSpec.values, List.map_append, List.take_left' hlength,
      List.drop_left' hlength]
    rfl

/-- **What a modifier draws and writes.** -/
theorem PoolSpec.apply_eq_ok {p : PoolSpec} (hp : (DiceToken.pool p).IsProper)
    (hfirst : first.length = p.count)
    (h : p.modifier.apply limits (Pool.ofFaces p.sides first) s = (.ok r, s')) :
    ∃ more, p.Applied limits first more s s' r := by
  obtain ⟨count, sides, modifier⟩ := p
  obtain ⟨hcount, -, hmodifier⟩ := hp
  simp only at hfirst h hmodifier hcount
  have hne : first ≠ [] := List.length_pos_iff.1 (hfirst ▸ hcount.1)
  have hvalues : first.map sides.worth ≠ [] := mt List.map_eq_nil_iff.1 hne
  cases modifier with
  | plain =>
    cases h
    exact ⟨[], applied_of_no_draw hfirst
      (plain_sumText_of_values (map_value_ofFace sides first))⟩
  | advantage =>
    rw [Modifier.apply, Prod.mk.injEq] at h
    obtain ⟨hr, hs⟩ := h
    refine applied_of_withSecond true hfirst (fun _ => Iff.rfl) (fun _ => rfl) ?_
    exact Prod.ext (Except.ok.inj hr) hs
  | disadvantage =>
    rw [Modifier.apply, Prod.mk.injEq] at h
    obtain ⟨hr, hs⟩ := h
    refine applied_of_withSecond false hfirst (fun _ => Iff.rfl) (fun _ => rfl) ?_
    exact Prod.ext (Except.ok.inj hr) hs
  | keep n =>
    rw [Modifier.apply, Pool.keep] at h
    split at h
    · cases h
    cases h
    refine ⟨[], applied_of_no_draw hfirst
      (Pool.plain_select ?_ (largest_ne_nil hmodifier.1 hvalues))⟩
    rw [List.map_take, Pool.map_value_descending, Pool.ofFaces, map_value_ofFace]
    rfl
  | lose n =>
    rw [Modifier.apply, Pool.lose] at h
    split at h
    · cases h
    cases h
    refine ⟨[], applied_of_no_draw hfirst
      (Pool.plain_select ?_ (smallest_ne_nil hmodifier.1 hvalues))⟩
    rw [List.map_take, Pool.map_value_ascending, Pool.ofFaces, map_value_ofFace]
    rfl
  | explode t =>
    obtain ⟨more, hdrawn, hchained, hlength, hwritten⟩ := Pool.explode_eq_ok h
    refine ⟨more, hdrawn, ?_, ?_, hwritten⟩
    · simp only [Rolls]
      rw [← hfirst, calls_eq]
      exact .round hne hchained
    · rw [hfirst] at hlength
      exact hlength.trans (Nat.mul_le_mul_right _ (Nat.le_succ _))
  | flat n =>
    cases h
    refine ⟨[], applied_of_no_draw hfirst (plain_sumText_of_values ?_)⟩
    rw [Pool.push, List.map_append, Pool.ofFaces, map_value_ofFace]
    rfl

/-- **What a success pool draws and writes.** -/
theorem SuccessSpec.roll_eq_ok {p : SuccessSpec} (hcount : 1 ≤ p.count)
    (h : p.roll limits s = (.ok r, s')) :
    ∃ faces, (DiceToken.successes p).Drew limits faces s s'
      ∧ r.expression = Text.ofInt (p.total faces) := by
  rw [roll] at h
  have hfirst := length_drawMany (Source.draw SuccessSpec.faces) p.count s
  generalize hdraw : drawMany (Source.draw SuccessSpec.faces) p.count s = drawn at h hfirst
  obtain ⟨first, s₁⟩ := drawn
  simp only at h hfirst
  split at h
  · cases h
  · rename_i rolled s₂ hchain
    cases h
    obtain ⟨more, rfl, hmore, hchained, hlength⟩ := chain_eq_some hchain
    refine ⟨first ++ more, ⟨drawMany_append_eq _ (drawMany_eq _ hdraw) hmore, ?_, ?_⟩, rfl⟩
    · simp only [DiceToken.Rolls]
      rw [← hfirst, calls_eq]
      exact .round (List.length_pos_iff.1 (hfirst ▸ hcount)) hchained
    · rw [hfirst] at hlength
      rw [DiceToken.mostDice, List.length_append, hfirst, Nat.succ_mul]
      omega

end Modifiers

/-! ## Tokens -/

/-- **What a token draws and writes.** It draws faces that its dice can roll, and it
writes their integers as a sum. -/
theorem DiceToken.roll_eq_ok {σ : Type} [Source σ] {token : DiceToken} (htoken : token.IsProper)
    {limits : Limits} {s s' : σ} {r : Resolved} (h : token.roll limits s = (.ok r, s')) :
    ∃ faces, token.Drew limits faces s s'
      ∧ Markup.plain r.expression
          = Markup.group ['+'] ((token.summands faces).map Text.ofInt) := by
  cases token with
  | pool p =>
    rw [roll] at h
    split at h
    · rw [Pool.roll_eq] at h
      have hfirst := length_drawMany (Source.draw p.sides.faces) p.count s
      generalize hdraw : drawMany (Source.draw p.sides.faces) p.count s = drawn at h hfirst
      obtain ⟨first, s₁⟩ := drawn
      obtain ⟨more, happlied⟩ := PoolSpec.apply_eq_ok htoken hfirst h
      have hdrawn := drawMany_append_eq _ (drawMany_eq _ hdraw) happlied.drawn
      rw [← faces_pool] at hdrawn
      have hlength := happlied.length_le
      refine ⟨first ++ more, ⟨hdrawn, happlied.rolls, ?_⟩, happlied.written⟩
      rw [mostDice, List.length_append, hfirst, Nat.succ_mul]
      omega
    · cases h
  | successes p =>
    rw [roll] at h
    split at h
    · obtain ⟨faces, hdrew, hr⟩ := SuccessSpec.roll_eq_ok htoken.1.1 h
      refine ⟨faces, hdrew, ?_⟩
      rw [hr, Markup.plain_ofInt]
      simp [Markup.group, summands]
    · cases h

/-- A token writes an integer at least. -/
theorem DiceToken.summands_ne_nil {token : DiceToken} (htoken : token.IsProper)
    {faces : List Nat} (hrolls : token.Rolls faces) : token.summands faces ≠ [] := by
  cases token with
  | successes p => exact List.cons_ne_nil _ _
  | pool p =>
    obtain ⟨count, sides, modifier⟩ := p
    obtain ⟨hcount, -, hmodifier⟩ := htoken
    have hvalues : count ≤ faces.length → faces.map sides.worth ≠ [] := by
      intro hle
      rw [← List.length_pos_iff, List.length_map]
      exact hcount.1.trans hle
    cases modifier with
    | plain => exact hvalues (Nat.le_of_eq hrolls.symm)
    | advantage => exact List.cons_ne_nil _ _
    | disadvantage => exact List.cons_ne_nil _ _
    | keep n => exact largest_ne_nil hmodifier.1 (hvalues (Nat.le_of_eq hrolls.symm))
    | lose n => exact smallest_ne_nil hmodifier.1 (hvalues (Nat.le_of_eq hrolls.symm))
    | explode t => exact hvalues hrolls.length_le
    | flat n => simp [summands, PoolSpec.summands]

end DiceRoll
