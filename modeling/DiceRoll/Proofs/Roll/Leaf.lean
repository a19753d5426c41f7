/-
Leaves without problems.

A leaf that found nothing wrong resolved every word of its body, in order, and its text
is what the words came to, joined by blanks (`rollLeaf_eq_leaf`). Emphasis and tokens
respect the blanks, so that text can be spelled out word by word (`Spelled`): each word
adds slots of its own to the roll, and what holds of the slots of every word holds of
the whole.
-/

import DiceRoll.Proofs.Arithmetic.Substitution
import DiceRoll.Proofs.Arithmetic.Sum
import DiceRoll.Proofs.Markup
import DiceRoll.Proofs.Roll.Reading
import DiceRoll.Proofs.Roll.Words
import DiceRoll.Proofs.Shorthand
import DiceRoll.Session
import Mathlib.Data.List.Forall2

set_option autoImplicit false

namespace DiceRoll

open Text

/-! ## Words -/

/-- A member of a list drew from the source where the members before it left it. -/
theorem forall₂_drawEach {σ α β : Type} {f : α → σ → β × σ} {as : List α} {bs : List β} {s s' : σ}
    (h : drawEach f as s = (bs, s')) :
    List.Forall₂ (fun a b => ∃ s s', f a s = (b, s')) as bs := by
  induction as generalizing bs s with
  | nil =>
    cases h
    exact .nil
  | cons a as ih =>
    cases h
    exact .cons ⟨_, _, rfl⟩ (ih rfl)

variable {σ : Type} [Source σ]

/-- A word that is resolved is arithmetic that stands for itself, or dice. -/
theorem resolve_eq_ok {limits : Limits} {word : Text} {s s' : σ} {r : Resolved}
    (h : resolve limits word s = (.ok r, s')) :
    (Part.ofWord? word = .ok .math ∧ r = Resolved.literal word)
      ∨ ∃ token, DiceToken.ofText? word = .ok token ∧ token.roll limits s = (.ok r, s') := by
  rw [resolve] at h
  split at h
  · cases h
  · rename_i hmath
    cases h
    exact .inl ⟨hmath, rfl⟩
  · rename_i token htoken
    refine .inr ⟨token, ?_, h⟩
    unfold Part.ofWord? at htoken
    split at htoken
    · rename_i htext
      cases htoken
      exact htext
    · split at htoken <;> cases htoken
    · cases htoken
    · cases htoken
    · cases htoken

/-- The words that are dice. -/
def isDice (word : Text) : Bool := (DiceToken.ofText? word).isOk

theorem isDice_of_ofText? {word : Text} {token : DiceToken}
    (h : DiceToken.ofText? word = .ok token) : isDice word = true := by
  rw [isDice, h]
  rfl

theorem isDice_of_math {word : Text} (h : Part.ofWord? word = .ok .math) : isDice word = false := by
  unfold Part.ofWord? at h
  rw [isDice]
  split at h
  · cases h
  all_goals rename_i htext; rw [htext]; rfl

/-- No word of a body holds emphasis. -/
theorem plain_of_mem_wordsOf {escape body word : Text} (hword : word ∈ wordsOf escape body) :
    Markup.plain word = word := by
  refine Markup.plain_of_not_mem ?_
  by_cases hstar : '*' ∈ word
  · rw [eq_star_of_mem_wordsOf hword hstar]
    exact .inl (by decide)
  · exact .inr hstar

/-! ## Leaves -/

/-- The words were resolved to these, one by one. -/
def ResolvedTo (σ : Type) [Source σ] (limits : Limits) (words : List Text)
    (resolved : List Resolved) : Prop :=
  List.Forall₂ (fun word r => ∃ s s' : σ, resolve limits word s = (.ok r, s')) words resolved

/-- Where nothing went wrong everything was resolved. -/
theorem eq_map_ok {results : List (Except Problem Resolved)}
    (h : (results.filterMap fun
      | .ok _ => none
      | .error p => some p) = []) :
    results = (results.filterMap Except.toOption).map .ok := by
  induction results with
  | nil => rfl
  | cons result results ih =>
    cases result with
    | ok r => exact congrArg (.ok r :: ·) (ih h)
    | error p => cases h

/-- **A leaf without problems of its own resolved all its words.** -/
theorem rollLeaf_eq_leaf {u : Setup} {raw : Text} {problems : List Problem} {s : σ} {leaf : Leaf}
    (h : (u.rollLeaf raw problems s).1 = .leaf raw problems leaf) :
    ∃ resolved, ResolvedTo σ u.limits (wordsOf u.escape (bodyOf raw)) resolved
      ∧ leaf = Leaf.ofResolved (wordsOf u.escape (bodyOf raw)) (titleOf raw) resolved := by
  simp only [Setup.rollLeaf, Roll.leaf.injEq, true_and, List.append_assoc,
    List.append_right_eq_self, List.append_eq_nil_iff] at h
  obtain ⟨⟨-, hproblems⟩, rfl⟩ := h
  refine ⟨_, ?_, rfl⟩
  have hall := forall₂_drawEach (f := resolve u.limits)
    (Prod.eta (drawEach (resolve u.limits) (wordsOf u.escape (bodyOf raw)) s)).symm
  rwa [eq_map_ok hproblems, List.forall₂_map_right_iff] at hall

/-- A leaf keeps the problems that were found before it. -/
theorem rollLeaf_fst_eq {u : Setup} {raw raw' : Text} {problems : List Problem} {s : σ}
    {leaf : Leaf} (h : (u.rollLeaf raw problems s).1 = .leaf raw' [] leaf) :
    raw' = raw ∧ problems = [] := by
  simp only [Setup.rollLeaf, Roll.leaf.injEq, List.append_eq_nil_iff] at h
  exact ⟨h.1.symm, h.2.1.1.1⟩

/-- **A text without problems that is no list is one leaf**, rolled from the source as it
stands. -/
theorem Setup.roll_eq_leaf {u : Setup} {depth : Nat} {input raw : Text} {p : Progress σ}
    {leaf : Leaf} (h : (u.roll depth input p).1 = .leaf raw [] leaf) :
    raw = (u.macros.writeOut u.limits.maxIterations input).1
      ∧ (u.rollLeaf raw [] p.source).1 = .leaf raw [] leaf := by
  by_cases hrolls : p.rolls = u.limits.maxRolls
  · rw [Setup.roll, if_pos hrolls] at h
    cases h
  cases hseparator : firstSeparator? (u.macros.writeOut u.limits.maxIterations input).1 with
  | none =>
    rw [u.roll_eq_rollLeaf depth hrolls rfl hseparator] at h
    obtain ⟨hraw, hproblems⟩ := rollLeaf_fst_eq h
    rw [← hraw, hproblems] at h
    exact ⟨hraw, h⟩
  | some separator =>
    rw [Setup.roll, if_neg hrolls] at h
    simp only [hseparator] at h
    -- A list that failed says so, and any other list is no leaf.
    cases depth with
    | zero => simp [Roll.failed] at h
    | succ n =>
      simp only at h
      split at h
      · simp [Roll.failed] at h
      · cases h

/-- The setup as it is when an input is read: the macro book was told the escape. -/
def Setup.told (u : Setup) : Setup := { u with macros := u.macros.withEscape u.escape }

@[simp] theorem Setup.macros_told (u : Setup) : u.told.macros.macros = u.macros.macros :=
  u.macros.macros_withEscape u.escape

theorem Session.parse_eq (u : Setup) (s : σ) (input : Text) :
    (⟨u, s⟩ : Session σ).parse input = ((u.told.roll u.limits.maxDepth input ⟨0, s⟩).1,
      ⟨u.told, (u.told.roll u.limits.maxDepth input ⟨0, s⟩).2.source⟩) := rfl

/-- **An input that is no list** once it is written out is one leaf. -/
theorem Session.parse_eq_rollLeaf {u : Setup} (hrolls : 1 ≤ u.limits.maxRolls)
    {input raw : Text} {problems : List Problem}
    (hwritten : u.told.macros.writeOut u.limits.maxIterations input = (raw, problems))
    (hseparator : firstSeparator? raw = none) (s : σ) :
    (⟨u, s⟩ : Session σ).parse input
      = ((u.told.rollLeaf raw problems s).1, ⟨u.told, (u.told.rollLeaf raw problems s).2⟩) := by
  have hfirst : (0 : Nat) ≠ u.told.limits.maxRolls := Nat.ne_of_lt hrolls
  have hroll := u.told.roll_eq_rollLeaf u.limits.maxDepth (p := ⟨0, s⟩) hfirst hwritten hseparator
  rw [parse_eq, hroll]

theorem Session.parse_fst (t : Session σ) (input : Text) :
    (t.parse input).1
      = (t.setup.told.roll t.setup.told.limits.maxDepth input ⟨0, t.source⟩).1 := rfl

/-- **A text without shorthand is rolled as it stands**, if there are no macros and it is
no list. -/
theorem Session.parse_of_holdsNoShorthand {u : Setup} (hmacros : u.macros.macros = [])
    (hrolls : 1 ≤ u.limits.maxRolls) {input : Text} (hinput : HoldsNoShorthand input)
    (hseparator : firstSeparator? input = none) (s : σ) :
    ((⟨u, s⟩ : Session σ).parse input).1 = (u.told.rollLeaf input [] s).1 := by
  have htold : u.told.macros.macros = [] := u.macros_told.trans hmacros
  have hwritten : u.told.macros.writeOut u.limits.maxIterations input = (input, []) :=
    MacroBook.writeOut_eq_self htold hinput _
  rw [parse_eq_rollLeaf hrolls hwritten hseparator]

/-- The tokens of a leaf are those of what its words came to. -/
theorem ofText_plain_expressions (expressions : List Text) :
    Token.ofText (Markup.plain ([' '].intercalate expressions))
      = expressions.flatMap fun expression => Token.ofText (Markup.plain expression) := by
  rw [Markup.plain_intercalate (c := ' ') rfl, Token.ofText_intercalate, List.flatMap_map]

/-! ## Spelling -/

/-- The slot of dice that write these values. -/
def Slot.ofValues (values : List Int) : Slot :=
  .pool (Expr.poolTokens values) (Expr.poolTree values)

/-- The slots spell out the words and what they came to. Word by word they have the
tokens of the expression, and the relation holds between the three. -/
inductive Spelled (R : Text → Text → List Slot → Prop) :
    List Text → List Text → List Slot → Prop where
  | nil : Spelled R [] [] []
  | cons {word expression : Text} {words expressions : List Text} {slots rest : List Slot}
      (htokens : slots.flatMap Slot.tokens = Token.ofText (Markup.plain expression))
      (hword : R word expression slots) (hrest : Spelled R words expressions rest) :
      Spelled R (word :: words) (expression :: expressions) (slots ++ rest)

namespace Spelled

variable {R : Text → Text → List Slot → Prop} {words expressions : List Text} {slots : List Slot}

/-- Words that can be spelled out one by one can be spelled out together. -/
theorem exists_of_resolved {limits : Limits} {resolved : List Resolved}
    (hall : ResolvedTo σ limits words resolved)
    (hword : ∀ word ∈ words, ∀ (r : Resolved) (s s' : σ), r ∈ resolved →
      resolve limits word s = (.ok r, s') →
      ∃ slots, slots.flatMap Slot.tokens = Token.ofText (Markup.plain r.expression)
        ∧ R word r.expression slots) :
    ∃ slots, Spelled R words (resolved.map Resolved.expression) slots := by
  induction hall with
  | nil => exact ⟨[], .nil⟩
  | @cons word r words resolved hhead _ ih =>
    obtain ⟨s, s', hresolve⟩ := hhead
    obtain ⟨slots, htokens, hslots⟩ :=
      hword word List.mem_cons_self r s s' List.mem_cons_self hresolve
    obtain ⟨rest, hrest⟩ := ih fun word hmem r s s' hr =>
      hword word (List.mem_cons_of_mem _ hmem) r s s' (List.mem_cons_of_mem _ hr)
    exact ⟨slots ++ rest, .cons htokens hslots hrest⟩

/-- The slots have the tokens of the text of the leaf. -/
theorem tokens (h : Spelled R words expressions slots) :
    slots.flatMap Slot.tokens = Token.ofText (Markup.plain ([' '].intercalate expressions)) := by
  rw [ofText_plain_expressions]
  induction h with
  | nil => rfl
  | cons htokens _ _ ih => rw [List.flatMap_append, htokens, ih, List.flatMap_cons]

/-- What holds of each word and what it came to. -/
theorem forall₂ {P : Text → Text → Prop} (h : Spelled R words expressions slots)
    (hword : ∀ word expression slots, R word expression slots → P word expression) :
    List.Forall₂ P words expressions := by
  induction h with
  | nil => exact .nil
  | cons _ hslots _ ih => exact .cons (hword _ _ _ hslots) ih

/-- What holds of the slots of each word holds of all of them. -/
theorem forall_mem {P : Slot → Prop} (h : Spelled R words expressions slots)
    (hword : ∀ word expression slots, R word expression slots → ∀ slot ∈ slots, P slot) :
    ∀ slot ∈ slots, P slot := by
  induction h with
  | nil => exact List.forall_mem_nil P
  | cons _ hslots _ ih => exact List.forall_mem_append.2 ⟨hword _ _ _ hslots, ih⟩

end Spelled

end DiceRoll
