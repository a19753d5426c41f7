/-
The budget of an input.

A list may bring in lists of its own without end, since every entry is written out
anew and a macro may name itself. What bounds a reading is its two caps alone, and this
file says exactly how. Read as a tree, from the root down and from left to right, a
roll has a first part with as many nodes as the cap allows, all of them looked at, and
a rest in which every node was refused for the number of rolls and holds nothing else
(`Budgeted`). On no way down stand more lists than the cap allows. And the dice drawn
are those of the words that the nodes show, node by node in the same order, which for
a refused node is none.

The count of rolls is one number for the whole walk. So the invariant speaks of a run
of nodes that begins at some count, and two runs are put together where the second
begins at the count which the first has reached.
-/

import DiceRoll.Proofs.Roll.Leaf
import DiceRoll.Proofs.Roll.Reading

set_option autoImplicit false

namespace DiceRoll

/-! ## A roll as a tree -/

namespace Roll

mutual

/-- The nodes of a roll: itself, and behind it those of its entries from left to
right. -/
def nodes : Roll → List Roll
  | .leaf raw problems l => [.leaf raw problems l]
  | .list raw problems separator rolls => .list raw problems separator rolls :: nodesOf rolls

/-- The nodes of rolls, one roll after the other. -/
def nodesOf : List Roll → List Roll
  | [] => []
  | r :: rs => r.nodes ++ nodesOf rs

end

mutual

/-- The greatest number of lists on a way from the root to a node. -/
def listDepth : Roll → Nat
  | .leaf _ _ _ => 0
  | .list _ _ _ rolls => listDepthOf rolls + 1

/-- The greatest such number among rolls. -/
def listDepthOf : List Roll → Nat
  | [] => 0
  | r :: rs => max r.listDepth (listDepthOf rs)

end

/-- The words that a node shows. A list has none of its own. -/
def parts : Roll → List Text
  | .leaf _ _ l => l.parts
  | .list _ _ _ _ => []

/-- Whether a node was refused for depth or for the number of rolls. -/
def isRefused (r : Roll) : Bool := r.problems.any Problem.isRefusal

/-- The source behind the dice of the words that a node shows. -/
def drawn {σ : Type} [Source σ] (limits : Limits) (s : σ) (r : Roll) : σ :=
  (drawEach (resolve limits) r.parts s).2

end Roll

variable {σ : Type}

/-! ## Runs of nodes within a budget -/

/-- A node that was refused for the number of rolls, and holds nothing else. -/
def Roll.IsSpent (limit : Nat) (r : Roll) : Prop :=
  ∃ raw leaf, r = .leaf raw [.tooManyRolls limit] leaf ∧ leaf.parts = []

/-- A node that was not refused for the number of rolls. -/
def Roll.IsCounted (r : Roll) : Prop := ∀ n, .tooManyRolls n ∉ r.problems

/-- A run of nodes, begun when so many rolls were used, keeps to the limit: as many
nodes as are left are counted, and all behind them are spent. -/
structure Budgeted (limit used : Nat) (nodes : List Roll) : Prop where
  counted : ∀ node ∈ nodes.take (limit - used), node.IsCounted
  spent : ∀ node ∈ nodes.drop (limit - used), node.IsSpent limit

theorem Roll.isCounted_of_noRefusal {r : Roll} (h : NoRefusal r.problems) : r.IsCounted := by
  intro n hmem
  have hrefusal := h _ hmem
  cases hrefusal

theorem Roll.isSpent_failed (limit : Nat) (raw : Text) :
    (Roll.failed raw [.tooManyRolls limit]).IsSpent limit := ⟨raw, _, rfl, rfl⟩

namespace Budgeted

variable {limit used : Nat}

theorem nil : Budgeted limit used [] := ⟨by simp, by simp⟩

theorem spent_singleton {node : Roll} (h : node.IsSpent limit) : Budgeted limit limit [node] := by
  constructor <;> simp [h]

/-- A second run begins at the count that the first has reached. -/
theorem append {first second : List Roll} (hfirst : Budgeted limit used first)
    (hsecond : Budgeted limit (min limit (used + first.length)) second) :
    Budgeted limit used (first ++ second) := by
  have hleft : limit - min limit (used + first.length) = limit - used - first.length := by omega
  constructor
  · rw [List.take_append, List.forall_mem_append]
    exact ⟨hfirst.counted, hleft ▸ hsecond.counted⟩
  · rw [List.drop_append, List.forall_mem_append]
    exact ⟨hfirst.spent, hleft ▸ hsecond.spent⟩

/-- A counted node takes one of the rolls that are left. -/
theorem cons {node : Roll} {nodes : List Roll} (hused : used < limit) (hnode : node.IsCounted)
    (hnodes : Budgeted limit (used + 1) nodes) : Budgeted limit used (node :: nodes) := by
  obtain ⟨left, hleft⟩ : ∃ left, limit - used = left + 1 := ⟨limit - used - 1, by omega⟩
  have hbehind : limit - (used + 1) = left := by omega
  constructor
  · rw [hleft, List.take_succ_cons, List.forall_mem_cons]
    exact ⟨hnode, hbehind ▸ hnodes.counted⟩
  · rw [hleft, List.drop_succ_cons]
    exact hbehind ▸ hnodes.spent

end Budgeted

/-! ## What a reading makes of its budget -/

/-- A reading that begins within the limit makes a run of nodes that keeps to it, and
counts each of them as long as the limit is not reached. -/
def KeepsBudget (limit : Nat) (p : Progress σ) (nodes : List Roll) (p' : Progress σ) : Prop :=
  p.rolls ≤ limit → Budgeted limit p.rolls nodes ∧ p'.rolls = min limit (p.rolls + nodes.length)

theorem KeepsBudget.of_threaded {limit : Nat} {p p' : Progress σ} {rolls : List Roll}
    (h : Threaded (fun p r p' => KeepsBudget limit p r.nodes p') p rolls p') :
    KeepsBudget limit p (Roll.nodesOf rolls) p' := by
  induction h with
  | nil p =>
    intro hp
    rw [Roll.nodesOf]
    exact ⟨.nil, by simp [hp]⟩
  | @cons p p₁ p' r rs hr _ ih =>
    intro hp
    obtain ⟨hfirst, hcount⟩ := hr hp
    obtain ⟨hsecond, hcount'⟩ := ih (by omega)
    rw [Roll.nodesOf, List.length_append]
    exact ⟨hfirst.append (hcount ▸ hsecond), by omega⟩

/-- **A reading keeps to the number of rolls**, wherever in an input it begins. -/
theorem Setup.keepsBudget_roll [Source σ] (u : Setup) (depth : Nat) (input : Text)
    (p : Progress σ) :
    KeepsBudget u.limits.maxRolls p (u.roll depth input p).1.nodes (u.roll depth input p).2 := by
  -- A single node that is looked at takes one roll.
  have hone : ∀ (p : Progress σ) (node : Roll) (s : σ), p.rolls ≠ u.limits.maxRolls →
      node.IsCounted → KeepsBudget u.limits.maxRolls p [node] ⟨p.rolls + 1, s⟩ := by
    intro p node s hrolls hnode hp
    have hlt := Nat.lt_of_le_of_ne hp hrolls
    exact ⟨.cons hlt hnode .nil, (Nat.min_eq_right hlt).symm⟩
  refine Setup.roll_induct (motive := fun _ p r p' => KeepsBudget u.limits.maxRolls p r.nodes p')
    ?spent ?leaf ?failed ?list depth input p
  case spent =>
    intro depth p raw hrolls hp
    rw [hrolls]
    exact ⟨.spent_singleton (Roll.isSpent_failed _ raw), by simp⟩
  case leaf =>
    intro depth p raw problems hrolls hproblems
    exact hone p _ _ hrolls (Roll.isCounted_of_noRefusal (u.noRefusal_rollLeaf raw hproblems _))
  case failed =>
    intro depth p raw problems cause hrolls hproblems hcause
    refine hone p _ _ hrolls fun n hmem => ?_
    rcases List.mem_append.1 hmem with hmem | hmem
    · exact Roll.isCounted_of_noRefusal (r := .failed raw problems) hproblems n hmem
    · rw [← List.mem_singleton.1 hmem] at hcause
      rcases hcause with h | h <;> cases h
  case list =>
    intro n p p' raw problems separator rolls hrolls hproblems hentries hp
    have hlt := Nat.lt_of_le_of_ne hp hrolls
    obtain ⟨hbudget, hcount⟩ := KeepsBudget.of_threaded hentries hlt
    rw [Roll.nodes, List.length_cons]
    refine ⟨.cons hlt (Roll.isCounted_of_noRefusal hproblems) hbudget, ?_⟩
    rw [hcount, Nat.add_right_comm, Nat.add_assoc]

/-! ## How deep the lists stand -/

theorem Roll.listDepthOf_le {n : Nat} {p p' : Progress σ} {rolls : List Roll}
    (h : Threaded (fun _ r _ => r.listDepth ≤ n) p rolls p') : Roll.listDepthOf rolls ≤ n := by
  induction h with
  | nil p => exact Nat.zero_le n
  | cons hr _ ih => exact Nat.max_le.2 ⟨hr, ih⟩

/-- **No more lists stand inside each other than may be opened.** -/
theorem Setup.listDepth_roll_le [Source σ] (u : Setup) (depth : Nat) (input : Text)
    (p : Progress σ) :
    (u.roll depth input p).1.listDepth ≤ depth := by
  refine Setup.roll_induct (motive := fun depth _ r _ => r.listDepth ≤ depth)
    ?spent ?leaf ?failed ?list depth input p
  -- Everything but a list is a leaf, and by itself a leaf stands in no list.
  case spent => exact fun depth _ _ _ => Nat.zero_le depth
  case leaf => exact fun depth _ _ _ _ _ => Nat.zero_le depth
  case failed => exact fun depth _ _ _ _ _ _ _ => Nat.zero_le depth
  case list =>
    intro n p p' raw problems separator rolls _ _ hentries
    exact Nat.succ_le_succ (Roll.listDepthOf_le hentries)

/-! ## Whose dice were drawn -/

theorem Roll.foldl_drawn_nodesOf [Source σ] {limits : Limits} {p p' : Progress σ}
    {rolls : List Roll}
    (h : Threaded (fun p r p' => p'.source = r.nodes.foldl (Roll.drawn limits) p.source)
      p rolls p') :
    p'.source = (Roll.nodesOf rolls).foldl (Roll.drawn limits) p.source := by
  induction h with
  | nil p => rfl
  | cons hr _ ih => rw [ih, hr, Roll.nodesOf, List.foldl_append]

/-- **All dice drawn are those of the words that the nodes show**, node by node. -/
theorem Setup.source_roll [Source σ] (u : Setup) (depth : Nat) (input : Text) (p : Progress σ) :
    (u.roll depth input p).2.source
      = (u.roll depth input p).1.nodes.foldl (Roll.drawn u.limits) p.source := by
  refine Setup.roll_induct
    (motive := fun _ p r p' => p'.source = r.nodes.foldl (Roll.drawn u.limits) p.source)
    ?spent ?leaf ?failed ?list depth input p
  case spent => exact fun _ _ _ _ => rfl
  case leaf => exact fun _ _ _ _ _ _ => rfl
  case failed => exact fun _ _ _ _ _ _ _ _ => rfl
  case list =>
    intro n p p' raw problems separator rolls _ _ hentries
    have hsource := Roll.foldl_drawn_nodesOf hentries
    -- The list itself is the first of its nodes, and it has no words to draw for.
    exact hsource

/-- A node without words draws nothing. -/
theorem Roll.drawn_of_parts_eq_nil [Source σ] {r : Roll} (h : r.parts = []) (limits : Limits)
    (s : σ) : r.drawn limits s = s := by
  rw [drawn, h, drawEach]

theorem Roll.parts_of_threaded {p p' : Progress σ} {rolls : List Roll}
    (h : Threaded (fun _ r _ => ∀ node ∈ r.nodes, node.isRefused = true → node.parts = [])
      p rolls p') : ∀ node ∈ Roll.nodesOf rolls, node.isRefused = true → node.parts = [] := by
  induction h with
  | nil p => exact List.forall_mem_nil _
  | cons hr _ ih => exact List.forall_mem_append.2 ⟨hr, ih⟩

/-- **A refused node shows no words.** -/
theorem Setup.parts_of_isRefused [Source σ] (u : Setup) (depth : Nat) (input : Text)
    (p : Progress σ) :
    ∀ node ∈ (u.roll depth input p).1.nodes, node.isRefused = true → node.parts = [] := by
  refine Setup.roll_induct
    (motive := fun _ _ r _ => ∀ node ∈ r.nodes, node.isRefused = true → node.parts = [])
    ?spent ?leaf ?failed ?list depth input p
  case spent => exact fun _ _ _ _ => List.forall_mem_singleton.2 fun _ => rfl
  case leaf =>
    intro depth p raw problems _ hproblems
    refine List.forall_mem_singleton.2 fun hrefused => ?_
    obtain ⟨problem, hmem, hrefusal⟩ := List.any_eq_true.1 hrefused
    rw [u.noRefusal_rollLeaf raw hproblems p.source problem hmem] at hrefusal
    cases hrefusal
  case failed => exact fun _ _ _ _ _ _ _ _ => List.forall_mem_singleton.2 fun _ => rfl
  case list =>
    intro n p p' raw problems separator rolls _ _ hentries
    exact List.forall_mem_cons.2 ⟨fun _ => rfl, Roll.parts_of_threaded hentries⟩

/-! ## An input -/

/-- **One input never evaluates more than its budget, whatever the macros.** Among the
nodes of its roll, as many as the limit allows are counted, and every later one is a
leaf without words whose one problem is the limit. On no way down stand more lists
than the limit allows. The dice drawn are those of the words that the nodes show, in
the order of the nodes, and a node refused for its depth or for the number of rolls
draws none. Nothing is asked of the source, so it may be one that keeps a log of all
that is drawn from it. -/
theorem Session.parse_within_budget [Source σ] (t : Session σ) (input : Text) :
    (∀ node ∈ (t.parse input).1.nodes.take t.setup.limits.maxRolls,
        ∀ n, .tooManyRolls n ∉ node.problems)
      ∧ (∀ node ∈ (t.parse input).1.nodes.drop t.setup.limits.maxRolls,
        ∃ raw leaf, node = .leaf raw [.tooManyRolls t.setup.limits.maxRolls] leaf
          ∧ leaf.parts = [])
      ∧ (t.parse input).1.listDepth ≤ t.setup.limits.maxDepth
      ∧ (t.parse input).2.source
          = (t.parse input).1.nodes.foldl (Roll.drawn t.setup.limits) t.source
      ∧ ∀ node ∈ (t.parse input).1.nodes, node.isRefused = true →
          ∀ s : σ, node.drawn t.setup.limits s = s := by
  let u := t.setup.told
  obtain ⟨hbudget, -⟩ := u.keepsBudget_roll u.limits.maxDepth input ⟨0, t.source⟩ (Nat.zero_le _)
  refine ⟨hbudget.counted, hbudget.spent, u.listDepth_roll_le _ input _, u.source_roll _ input _,
    ?_⟩
  intro node hnode hrefused s
  exact Roll.drawn_of_parts_eq_nil (u.parts_of_isRefused _ input _ node hnode hrefused) _ s

end DiceRoll
