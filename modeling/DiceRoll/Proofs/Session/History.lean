/-
A session does not remember what was done with it.

A session can be asked to read inputs and messages, and its escape, its limits and its
macros can be changed, all in any order. The macro book may lag behind: it learns of a
new escape only when an input is read, and until then macros are saved under the old
one. This file shows that nothing of that is ever seen. Whatever the history, the next
input is read as in a new session that was given the same escape, the same limits, the
same source and the same macros, saved anew in the order in which they are listed
(`Session.parse_eq_parse_refilled`).

The invariant is the one of the macro book. It does not mention the escape of the
session, so a change of that escape has nothing to restore, and reading tells the book
the escape before it looks at any pattern. The count of rolls belongs to an input: it
begins at zero with each, so what an earlier input has used up is not missing later.
-/

import DiceRoll.Inline
import DiceRoll.Proofs.Macro.Book
import DiceRoll.Proofs.Roll.Leaf
import DiceRoll.Source.Replay

set_option autoImplicit false

namespace DiceRoll

/-! ## What can have happened -/

/-- A change of a macro book. It is told an escape when a session that has it reads an
input. -/
inductive MacroBook.Change where
  | insert (name text : Text)
  | erase (name : Text)
  | withEscape (escape : Text)
deriving DecidableEq, Repr

/-- The book after a change. -/
def MacroBook.change (b : MacroBook) : Change → MacroBook
  | .insert name text => b.insert name text
  | .erase name => b.erase name
  | .withEscape escape => b.withEscape escape

/-- The book that these changes make of an empty one. -/
def MacroBook.ofChanges (changes : List Change) : MacroBook := changes.foldl change empty

theorem MacroBook.WellFormed.ofChanges (changes : List Change) :
    (MacroBook.ofChanges changes).WellFormed := by
  refine List.foldlRecOn changes change .empty fun b hb change _ => ?_
  cases change with
  | insert name text => exact hb.insert name text
  | erase name => exact hb.erase name
  | withEscape escape => exact hb.withEscape escape

namespace Session

/-- What a session can be asked to do. A book that is handed to it brings a history of
its own. -/
inductive Action where
  | parse (input : Text)
  | inline (message : Text)
  | resolve (word : Text)
  | insert (name text : Text)
  | erase (name : Text)
  | withEscape (escape : Text)
  | withMacros (history : List MacroBook.Change)
  | withLimits (limits : Limits)
deriving DecidableEq, Repr

variable {σ : Type} [Source σ]

/-- The session after an action. -/
def perform (t : Session σ) : Action → Session σ
  | .parse input => (t.parse input).2
  | .inline message => (t.inline message).2
  | .resolve word => (t.resolve word).2
  | .insert name text => t.insert name text
  | .erase name => t.erase name
  | .withEscape escape => t.withEscape escape
  | .withMacros history => t.withMacros (MacroBook.ofChanges history)
  | .withLimits limits => t.withLimits limits

/-- The session after a history of actions. -/
def performAll (t : Session σ) (history : List Action) : Session σ := history.foldl perform t

/-! ## The book of a session is in order -/

theorem setup_parse (t : Session σ) (input : Text) : (t.parse input).2.setup = t.setup.told := rfl

/-- A message without rolls changes nothing, and any other is read as one input. -/
theorem setup_inline (t : Session σ) (message : Text) :
    (t.inline message).2.setup = t.setup ∨ (t.inline message).2.setup = t.setup.told := by
  unfold Session.inline
  simp only
  split
  · exact .inl rfl
  · exact .inr (t.setup_parse _)

/-- Each action keeps the macro book in order. -/
theorem wellFormed_perform {t : Session σ} (ht : t.setup.macros.WellFormed) (action : Action) :
    (t.perform action).setup.macros.WellFormed := by
  have htold : t.setup.told.macros.WellFormed := ht.withEscape t.setup.escape
  cases action with
  | parse input => exact htold
  | inline message =>
    rw [perform]
    rcases t.setup_inline message with h | h
    · rw [h]
      exact ht
    · rw [h]
      exact htold
  | resolve word => exact ht
  | insert name text => exact ht.insert name text
  | erase name => exact ht.erase name
  | withEscape escape => exact ht
  | withMacros history => exact .ofChanges history
  | withLimits limits => exact ht

/-- **The macro book of a session stays in order**, whatever is done with the session. -/
theorem wellFormed_performAll {t : Session σ} (ht : t.setup.macros.WellFormed)
    (history : List Action) : (t.performAll history).setup.macros.WellFormed := by
  induction history generalizing t with
  | nil => exact ht
  | cons action history ih => exact ih (wellFormed_perform ht action)

/-! ## Reading without a past -/

/-- A new session that was given the escape, the limits and the source of this one, and
a new book filled with the macros that this one lists. -/
def refilled (t : Session σ) : Session σ :=
  (((ofSource t.source).withEscape t.setup.escape).withLimits t.setup.limits).withMacros
    (MacroBook.ofList t.setup.macros.pairs)

/-- Reading an input looks at the setup as it is once the book was told the escape, and
at the source. -/
theorem parse_congr {t t' : Session σ} (hsetup : t.setup.told = t'.setup.told)
    (hsource : t.source = t'.source) (input : Text) : t.parse input = t'.parse input := by
  have hparse : ∀ t : Session σ, t.parse input
      = ((t.setup.told.roll t.setup.told.limits.maxDepth input ⟨0, t.source⟩).1,
        ⟨t.setup.told,
          (t.setup.told.roll t.setup.told.limits.maxDepth input ⟨0, t.source⟩).2.source⟩) :=
    fun _ => rfl
  rw [hparse, hparse, hsetup, hsource]

omit [Source σ] in
theorem told_refilled {t : Session σ} (ht : t.setup.macros.WellFormed) :
    t.refilled.setup.told = t.setup.told := by
  have hmacros := ht.withEscape_ofList_pairs t.setup.escape
  exact congrArg (fun macros => Setup.mk t.setup.escape macros t.setup.limits) hmacros

/-- **Parsing is independent of the session's history.** After any actions on a new
session, an input is read as in a new session with the same escape, limits and source,
whose book was filled with the listed macros in their order: the roll is the same, and
so is the session that is left, its source included, so the same dice were drawn. The
setup that the whole of the input is read under has for each macro the pattern of the
macro's own name under the escape of the session. -/
theorem parse_eq_parse_refilled (s : σ) (history : List Action) (input : Text) :
    let t := (ofSource s).performAll history
    t.parse input = t.refilled.parse input
      ∧ (t.parse input).1
          = (t.setup.told.roll t.setup.limits.maxDepth input ⟨0, t.source⟩).1
      ∧ ∀ e ∈ t.setup.told.macros.entries,
          e.pattern = Pattern.ofName? t.setup.escape e.name := by
  intro t
  have hbook : t.setup.macros.WellFormed := wellFormed_performAll .empty history
  have hcurrent := (hbook.withEscape t.setup.escape).current
  rw [MacroBook.escape_withEscape] at hcurrent
  exact ⟨parse_congr (told_refilled hbook).symm rfl input, parse_fst t input, hcurrent⟩

/-- A macro that is saved after the escape has changed has the pattern of the old escape,
until an input is read. -/
example :
    let t := ((ofSource (⟨.draws [], 0⟩ : Replay)).withEscape ['!']).insert ['a'] ['1']
    t.setup.macros.entries.map Entry.pattern = [Pattern.ofName? ['/'] ['a']]
      ∧ t.setup.told.macros.entries.map Entry.pattern = [Pattern.ofName? ['!'] ['a']] :=
  ⟨rfl, rfl⟩

end Session

end DiceRoll
