/-
What the leaves of a roll come to.

A text may be a list of lists, and each of its entries is written out anew. Where all of its
iterations have parts of their own, the way the text takes to its leaves makes no difference:
what the leaves come to, from left to right, is what the texts come to that it unrolls to,
each rolled as it stands and one after the other (`Setup.outcomes_roll`).

The leaves that are meant are those with anything in them. Cutting drops blank entries, and
an entry of separators only is a failure with no words; neither draws from the source.
-/

import DiceRoll.Proofs.Roll.Title
import DiceRoll.Proofs.Shorthand.Unrolling

set_option autoImplicit false

namespace DiceRoll

open Text

/-! ## Outcomes -/

/-- What a leaf comes to: its words, what each of them came to, and the value. -/
structure Outcome where
  parts : List Text
  expressions : List Text
  result : Except MathError Number

namespace Roll

/-- What a leaf comes to. A list comes to nothing by itself. -/
def outcome? : Roll → Option Outcome
  | .leaf _ _ l => some ⟨l.parts, l.expressions, l.result⟩
  | .list _ _ _ _ => none

/-- What the leaves of a roll come to, from left to right. -/
def outcomes (r : Roll) : List Outcome := r.nodes.filterMap outcome?

/-- What the leaves come to in which there is more than blanks and separators. -/
def solidOutcomes (r : Roll) : List Outcome :=
  (r.nodes.filter fun node => node.raw.any isContent).filterMap outcome?

theorem solidOutcomes_leaf (raw : Text) (problems : List Problem) (l : Leaf) :
    (leaf raw problems l).solidOutcomes
      = if raw.any isContent then [⟨l.parts, l.expressions, l.result⟩] else [] := by
  by_cases hraw : raw.any isContent = true
  · simp [solidOutcomes, nodes, Roll.raw, hraw, outcome?]
  · simp [solidOutcomes, nodes, Roll.raw, hraw]

theorem solidOutcomes_list (raw : Text) (problems : List Problem) (sep : Separator)
    (rolls : List Roll) :
    (list raw problems sep rolls).solidOutcomes = rolls.flatMap solidOutcomes := by
  have hrolls : ∀ rolls : List Roll,
      ((nodesOf rolls).filter fun node => node.raw.any isContent).filterMap outcome?
        = rolls.flatMap solidOutcomes := by
    intro rolls
    induction rolls with
    | nil => rfl
    | cons r rolls ih =>
      rw [nodesOf, List.filter_append, List.filterMap_append, ih]
      rfl
  rw [← hrolls, solidOutcomes, nodes, List.filter_cons]
  split
  · rfl
  · rfl

end Roll

variable {σ : Type} [Source σ]

/-- What texts come to when each of them is rolled as it stands, one after the other. -/
def Setup.outcomesOf (u : Setup) (xs : List Text) (s : σ) : List Outcome × σ :=
  let drawn := drawEach (fun x s => u.rollLeaf x [] s) xs s
  (drawn.1.flatMap Roll.solidOutcomes, drawn.2)

theorem drawEach_append {α β ρ : Type} (f : α → ρ → β × ρ) (as bs : List α) (p : ρ) :
    drawEach f (as ++ bs) p = ((drawEach f as p).1 ++ (drawEach f bs (drawEach f as p).2).1,
      (drawEach f bs (drawEach f as p).2).2) := by
  induction as generalizing p with
  | nil => rfl
  | cons a as ih => simp only [List.cons_append, drawEach, ih]

theorem Setup.outcomesOf_append (u : Setup) (xs ys : List Text) (s : σ) :
    u.outcomesOf (xs ++ ys) s = ((u.outcomesOf xs s).1 ++ (u.outcomesOf ys (u.outcomesOf xs s).2).1,
      (u.outcomesOf ys (u.outcomesOf xs s).2).2) := by
  simp only [outcomesOf, drawEach_append, List.flatMap_append]

/-! ## Leaves -/

/-- Blanks around a text are no part of its words. -/
theorem wordsOf_bodyOf_trim (escape s : Text) :
    wordsOf escape (bodyOf (trim s)) = wordsOf escape (bodyOf s) := by
  obtain ⟨front, back, hs, hfront, hback⟩ := exists_eq_trim s
  have hmark {gap : Text} (hgap : IsGap gap) : '#' ∉ gap := fun hmem =>
    absurd (hgap '#' hmem) (by decide)
  have hplain (gap : Text) (hgap : IsGap gap) : ∀ c ∈ gap, isSetApart c = false :=
    fun c hc => isSetApart_of_isBlank (hgap c hc)
  have hfirst : bodyOf s = front ++ bodyOf (trim s ++ back) := by
    nth_rewrite 1 [hs]
    rw [bodyOf, List.append_assoc, List.takeWhile_append_of_pos (bne_of_not_mem (hmark hfront))]
    rfl
  -- Blanks at the end belong to the title, if there is one.
  have hlast : ∃ gap, IsGap gap ∧ bodyOf (trim s ++ back) = bodyOf (trim s) ++ gap := by
    by_cases hmem : '#' ∈ trim s
    · obtain ⟨body, title, htrim, hbody⟩ := List.eq_append_cons_of_mem hmem
      refine ⟨[], .nil, ?_⟩
      rw [htrim, List.append_assoc, List.cons_append, bodyOf_append hbody, bodyOf_append hbody,
        List.append_nil]
    · refine ⟨back, hback, ?_⟩
      rw [bodyOf, bodyOf, List.takeWhile_append_of_pos (bne_of_not_mem hmem),
        List.takeWhile_eq_self_iff.2 (bne_of_not_mem hmem),
        List.takeWhile_eq_self_iff.2 (bne_of_not_mem (hmark hback))]
  obtain ⟨gap, hgap, hbody⟩ := hlast
  rw [hfirst, hbody, ← List.append_assoc, wordsOf_append_gap hgap, wordsOf, wordsOf,
    List.flatMap_append, flatMap_spaced_of_not (hplain front hfront), words_gap_append hfront]

/-- What words come to when they are resolved one after the other. -/
def Setup.outcomeOfWords (u : Setup) (words : List Text) (s : σ) : Outcome × σ :=
  let drawn := drawEach (resolve u.limits) words s
  let expressions := (drawn.1.filterMap Except.toOption).map Resolved.expression
  (⟨words, expressions, Arithmetic.finalize ([' '].intercalate expressions)⟩, drawn.2)

/-- What a leaf comes to is a matter of its words, if there is anything in it. -/
theorem Setup.rollLeaf_eq_outcomeOfWords (u : Setup) (raw : Text) (problems : List Problem)
    (s : σ) :
    (u.rollLeaf raw problems s).1.solidOutcomes
        = (if raw.any isContent then [(u.outcomeOfWords (wordsOf u.escape (bodyOf raw)) s).1]
          else [])
      ∧ (u.rollLeaf raw problems s).2 = (u.outcomeOfWords (wordsOf u.escape (bodyOf raw)) s).2 :=
  ⟨Roll.solidOutcomes_leaf _ _ _, rfl⟩

/-- **A leaf comes to what its text comes to without the blanks around it**, whatever
problems it has. -/
theorem Setup.outcomes_rollLeaf (u : Setup) {s : Text} (hs : firstSeparator? s = none)
    (problems : List Problem) (source : σ) :
    ((u.rollLeaf s problems source).1.solidOutcomes, (u.rollLeaf s problems source).2)
      = u.outcomesOf (segments s) source := by
  have hnone := isSeparator_of_firstSeparator? hs
  have hcontent := any_isContent_of_none hnone
  obtain ⟨hrolled, hsource⟩ := u.rollLeaf_eq_outcomeOfWords s problems source
  rw [segments_of_none hnone] at hcontent ⊢
  by_cases hempty : (trim s).isEmpty = true
  · -- A blank text has no words, and nothing is drawn.
    have hblank : wordsOf u.escape (bodyOf s) = [] := by
      rw [← wordsOf_bodyOf_trim, List.isEmpty_iff.1 hempty]
      rfl
    rw [if_pos hempty] at hcontent ⊢
    rw [hrolled, hsource, hcontent, hblank]
    rfl
  · obtain ⟨hrolled', hsource'⟩ := u.rollLeaf_eq_outcomeOfWords (trim s) [] source
    have hinside : (trim s).any isContent = true := by
      rw [any_isContent, segments_trim, segments_of_none hnone, if_neg hempty]
      rfl
    rw [wordsOf_bodyOf_trim] at hrolled' hsource'
    rw [if_neg hempty] at hcontent ⊢
    rw [hinside] at hrolled'
    rw [hrolled, hsource, hcontent]
    simp only [outcomesOf, drawEach, List.flatMap_singleton, hrolled', hsource']
    rfl

/-! ## Lists -/

/-- **What is rolled text by text comes to what the texts come to**, one after the other. -/
theorem Setup.outcomes_drawEach {ρ : Type} (source : ρ → σ) {u : Setup} {f : Text → ρ → Roll × ρ}
    {es : List Text} {xss : List (List Text)}
    (h : List.Forall₂ (fun e xs => ∀ p, (∀ node ∈ (f e p).1.nodes, node.isRefused = false) →
      ((f e p).1.solidOutcomes, source (f e p).2) = u.outcomesOf xs (source p)) es xss) (p : ρ)
    (hallowed : ∀ r ∈ (drawEach f es p).1, ∀ node ∈ r.nodes, node.isRefused = false) :
    ((drawEach f es p).1.flatMap Roll.solidOutcomes, source (drawEach f es p).2)
      = u.outcomesOf xss.flatten (source p) := by
  induction h generalizing p with
  | nil => rfl
  | @cons e xs es xss hfirst _ ih =>
    simp only [drawEach, List.forall_mem_cons] at hallowed ⊢
    rw [List.flatten_cons, outcomesOf_append, List.flatMap_cons, ← hfirst p hallowed.1]
    simp only [← ih (f e p).2 hallowed.2]

/-- A list without entries has nothing in it. -/
theorem Roll.solidOutcomes_failed {sep : Separator} {raw : Text} (h : sep.entries raw = [])
    (problems : List Problem) : (failed raw problems).solidOutcomes = [] := by
  have hcontent : raw.any isContent = false := by
    rw [any_isContent, segments_eq_flatMap_entries sep, h]
    rfl
  rw [failed, solidOutcomes_leaf, hcontent]
  rfl

/-- A roll that failed for a refusal is refused. -/
theorem Roll.not_forall_nodes_failed {raw : Text} {problems : List Problem} {cause : Problem}
    (hcause : cause.isRefusal = true) (hmem : cause ∈ problems) :
    ¬ ∀ node ∈ (failed raw problems).nodes, node.isRefused = false := by
  intro hall
  have hnone : (failed raw problems).isRefused = false := hall _ List.mem_cons_self
  exact List.any_eq_false.1 hnone cause hmem hcause

/-- **A roll comes to what its text unrolls to.** Where the text of a roll unrolls within two
rounds, and a text that is no list has nothing left to unroll, its leaves come to what the
texts come to that it unrolls to, and leave the source where these leave it, if nothing is
refused on the way. -/
theorem Setup.outcomes_roll {u : Setup} (hmacros : u.macros.macros = []) {depth : Nat}
    {input : Text} {xs : List Text} {p : Progress σ}
    (hunrolls : UnrollsTo u.limits.maxIterations 2 (written u.limits.maxIterations input) xs)
    (hleaf : firstSeparator? (written u.limits.maxIterations input) = none →
      xs = segments (written u.limits.maxIterations input))
    (hallowed : ∀ node ∈ (u.roll depth input p).1.nodes, node.isRefused = false) :
    ((u.roll depth input p).1.solidOutcomes, (u.roll depth input p).2.source)
      = u.outcomesOf xs p.source := by
  induction depth using Nat.strongRecOn generalizing input xs p with
  | ind depth ih =>
    have hwritten := MacroBook.writeOut_eq_written hmacros u.limits.maxIterations input
    by_cases hrolls : p.rolls = u.limits.maxRolls
    · rw [roll, if_pos hrolls] at hallowed
      exact absurd hallowed (Roll.not_forall_nodes_failed rfl List.mem_cons_self)
    cases hseparator : firstSeparator? (written u.limits.maxIterations input) with
    | none =>
      rw [u.roll_eq_rollLeaf depth hrolls hwritten hseparator, hleaf hseparator]
      exact u.outcomes_rollLeaf hseparator _ p.source
    | some sep =>
      cases depth with
      | zero =>
        rw [roll, if_neg hrolls, hwritten] at hallowed
        simp only [hseparator] at hallowed
        exact absurd hallowed
          (Roll.not_forall_nodes_failed (show Problem.tooDeep.isRefusal = true from rfl) (by simp))
      | succ n =>
        -- The entries unroll to what the list does, and are written out once more.
        obtain ⟨xss, hentries, rfl⟩ := hunrolls.entries sep
        have hdrawn := outcomes_drawEach Progress.source (u := u) (f := u.roll n)
          (hentries.imp fun e xs hxs q => ih n (Nat.lt_succ_self n) hxs.written hxs.eq_segments)
          ⟨p.rolls + 1, p.source⟩
        have hlength := length_drawEach (u.roll n)
          (sep.entries (written u.limits.maxIterations input)) ⟨p.rolls + 1, p.source⟩
        rw [u.roll_eq_list n hrolls hwritten hseparator] at hallowed ⊢
        simp only at hallowed ⊢
        generalize drawEach (u.roll n) (sep.entries (written u.limits.maxIterations input))
          ⟨p.rolls + 1, p.source⟩ = drawn at hdrawn hlength hallowed ⊢
        obtain ⟨rolls, p'⟩ := drawn
        by_cases hempty : rolls = []
        · subst hempty
          have hfailed := Roll.solidOutcomes_failed (List.length_eq_zero_iff.1 hlength.symm)
            ((u.macros.writeOut u.limits.maxIterations input).2 ++ [.empty])
          rw [← hdrawn (List.forall_mem_nil _)]
          simp only [List.isEmpty_nil, if_true]
          exact Prod.ext hfailed rfl
        · have hlist : rolls.isEmpty = false := List.isEmpty_eq_false_iff.2 hempty
          simp only [hlist, Bool.false_eq_true, if_false] at hallowed ⊢
          rw [Roll.solidOutcomes_list]
          refine hdrawn fun r hr node hnode => hallowed node ?_
          exact List.mem_cons_of_mem _ (Roll.mem_nodesOf hr hnode)

end DiceRoll
