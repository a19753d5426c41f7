/-
A macro book is a dictionary that keeps its order.

What a book is after a history of changes can be read off the history. A macro that was
saved is still there exactly if no later change concerned its name, and the macros that are
still there stand in the order in which they were saved (`surviving`). So what a book lists
depends on the last change of each name alone, while the name itself is kept as it was typed
then. Looking a name up finds the one survivor of that name (`get?_ofChanges_eq_some_iff`),
and since no two survivors share a name but for case, it does not matter that the book is
searched from the front.

The step lemma is `macros_change`: a change takes away what it concerns and puts what it
saves at the end. The history does the same to what survives (`surviving_append`), and the
two are joined by induction on the history from its end.
-/

import DiceRoll.Proofs.Session.History
import Mathlib.Data.List.Induction

set_option autoImplicit false

namespace DiceRoll

namespace MacroBook

/-! ## What a history leaves -/

/-- Whether a change is about the macro of a key. -/
def Change.concerns (key : Text) : Change → Bool
  | .insert name _ => Text.lowercase name == key
  | .erase name => Text.lowercase name == key
  | .withEscape _ => false

/-- The macros that a history leaves: what was saved and what no later change concerns,
in the order in which it was saved. -/
def surviving : List Change → List Macro
  | [] => []
  | .insert name text :: later =>
    if later.any (Change.concerns (Text.lowercase name)) then surviving later
    else ⟨name, text⟩ :: surviving later
  | .erase _ :: later => surviving later
  | .withEscape _ :: later => surviving later

/-- **Later changes take away what they concern**, and what they save stands behind what is
left. -/
theorem surviving_append (before after : List Change) :
    surviving (before ++ after)
      = (surviving before).filter (fun m => !after.any (Change.concerns m.key))
        ++ surviving after := by
  induction before with
  | nil => rfl
  | cons change before ih =>
    cases change with
    | insert name text =>
      rw [List.cons_append, surviving, surviving, List.any_append, ih]
      cases hbefore : before.any (Change.concerns (Text.lowercase name)) with
      | true => simp
      | false =>
        cases hafter : after.any (Change.concerns (Text.lowercase name)) <;>
          simp [Macro.key, hafter]
    | erase name => exact ih
    | withEscape escape => exact ih

/-- A macro survives if it was saved once and then left alone. -/
theorem mem_surviving_iff {changes : List Change} {name text : Text} :
    ⟨name, text⟩ ∈ surviving changes ↔
      ∃ before after, changes = before ++ .insert name text :: after
        ∧ ∀ change ∈ after, change.concerns (Text.lowercase name) = false := by
  constructor
  -- A survivor is the first change itself, or it survives the changes behind the first.
  · induction changes with
    | nil => exact fun h => absurd h List.not_mem_nil
    | cons change changes ih =>
      intro h
      have hlater (hmem : ⟨name, text⟩ ∈ surviving changes) :
          ∃ before after, change :: changes = before ++ .insert name text :: after
            ∧ ∀ change ∈ after, change.concerns (Text.lowercase name) = false := by
        obtain ⟨before, after, rfl, hafter⟩ := ih hmem
        exact ⟨change :: before, after, rfl, hafter⟩
      cases change with
      | insert name' text' =>
        rw [surviving] at h
        split at h
        · exact hlater h
        · rename_i hany
          rcases List.mem_cons.1 h with heq | hmem
          · cases heq
            rw [Bool.not_eq_true, List.any_eq_false] at hany
            exact ⟨[], changes, rfl, fun change hchange => by simpa using hany change hchange⟩
          · exact hlater hmem
      | erase name' => exact hlater h
      | withEscape escape => exact hlater h
  · rintro ⟨before, after, rfl, hafter⟩
    have hany : after.any (Change.concerns (Text.lowercase name)) = false := by
      rw [List.any_eq_false]
      intro change hchange
      simpa using hafter change hchange
    rw [surviving_append, surviving, hany]
    exact List.mem_append_right _ List.mem_cons_self

/-! ## The book after a history -/

/-- **What a change does to the macros**: those that it concerns go, and what it saves
stands at the end. -/
theorem macros_change {b : MacroBook} (hb : b.WellFormed) (change : Change) :
    (b.change change).macros
      = b.macros.filter (fun m => !change.concerns m.key) ++ surviving [change] := by
  have hkey (name : Text) : (fun m : Macro => m.key != Text.lowercase name)
      = fun m => !(Text.lowercase name == m.key) := by
    funext m
    rw [bne, Bool.beq_comm]
  cases change with
  | insert name text =>
    rw [MacroBook.change, macros_insert, macros_erase hb.distinct, hkey]
    rfl
  | erase name =>
    rw [MacroBook.change, macros_erase hb.distinct, hkey]
    exact (List.append_nil _).symm
  | withEscape escape =>
    rw [MacroBook.change, macros_withEscape]
    simp [Change.concerns, surviving]

/-- **A book lists what its history leaves.** -/
theorem macros_ofChanges (changes : List Change) :
    (ofChanges changes).macros = surviving changes := by
  -- From the end, since a change acts on what all changes before it have left.
  induction changes using List.reverseRecOn with
  | nil => rfl
  | append_singleton changes change ih =>
    have hstep : ofChanges (changes ++ [change]) = (ofChanges changes).change change := by
      rw [ofChanges, List.foldl_append]
      rfl
    rw [hstep, macros_change (WellFormed.ofChanges changes), ih, surviving_append]
    simp

/-! ## Looking up -/

/-- Whether a book is searched for a macro or for its entry makes no difference. -/
theorem find?_entries (b : MacroBook) (name : Text) :
    (b.entries.find? (·.key == Text.lowercase name)).map Entry.toMacro = b.get? name := by
  rw [get?, macros, List.find?_map]
  rfl

namespace WellFormed

variable {b : MacroBook}

/-- In a book in order the macro of a name is the only one, wherever it stands. -/
theorem get?_eq_some_iff (hb : b.WellFormed) {q : Text} {m : Macro} :
    b.get? q = some m ↔ m ∈ b.macros ∧ m.key = Text.lowercase q := by
  constructor
  · intro h
    exact ⟨List.mem_of_find?_eq_some h, by simpa using List.find?_some h⟩
  · rintro ⟨hmem, hkey⟩
    obtain ⟨found, hfound⟩ : ∃ found, b.get? q = some found := by
      rw [← Option.isSome_iff_exists, get?, List.find?_isSome]
      exact ⟨m, hmem, by simpa using hkey⟩
    -- What is found may be another macro of that key, but keys are distinct.
    have hother : found ∈ b.macros ∧ found.key = Text.lowercase q :=
      ⟨List.mem_of_find?_eq_some hfound, by simpa using List.find?_some hfound⟩
    rw [hfound, List.inj_on_of_nodup_map hb.distinct hother.1 hmem (hother.2.trans hkey.symm)]

/-- **Saving hands back what was found before**, and leaves the book with the macro. -/
theorem save_eq (hb : b.WellFormed) (name text : Text) :
    b.save name text = (b.get? name, b.insert name text) := by
  refine Prod.ext ?_ rfl
  rw [save, takeOut_entries hb.distinct, ← find?_entries]

/-- **Removing hands back what was found before**, and leaves the book without it. -/
theorem remove_eq (hb : b.WellFormed) (name : Text) :
    b.remove name = (b.get? name, b.erase name) := by
  refine Prod.ext ?_ rfl
  rw [remove, takeOut_entries hb.distinct, ← find?_entries]

end WellFormed

/-- **Looking a name up finds what was saved last under it**, in whatever case, unless it
was removed since. -/
theorem get?_ofChanges_eq_some_iff {changes : List Change} {q name text : Text} :
    (ofChanges changes).get? q = some ⟨name, text⟩ ↔
      ∃ before after, changes = before ++ .insert name text :: after
        ∧ Text.lowercase name = Text.lowercase q
        ∧ ∀ change ∈ after, change.concerns (Text.lowercase q) = false := by
  rw [(WellFormed.ofChanges changes).get?_eq_some_iff, macros_ofChanges, mem_surviving_iff]
  constructor
  · rintro ⟨⟨before, after, hchanges, hafter⟩, hkey⟩
    exact ⟨before, after, hchanges, hkey, fun change hchange => hkey ▸ hafter change hchange⟩
  · rintro ⟨before, after, hchanges, hkey, hafter⟩
    exact ⟨⟨before, after, hchanges, fun change hchange => hkey ▸ hafter change hchange⟩, hkey⟩

/-- **A macro book is an ordered dictionary without regard to case**, whatever changes an
empty one has gone through. No two macros have the same name in lower case. A name finds
the macro that was saved last under it, as it was typed then, unless a later change removed
it. The macros are listed in the order in which the survivors were saved, so one that is
saved again moves to the end. Saving and removing hand back what the name found just
before. And a new escape changes no name, no text and no place. -/
theorem ordered_dictionary_ofChanges (changes : List Change) :
    let b := ofChanges changes
    (b.macros.map fun m => Text.lowercase m.name).Nodup
      ∧ (∀ q name text, b.get? q = some ⟨name, text⟩ ↔
          ∃ before after, changes = before ++ .insert name text :: after
            ∧ Text.lowercase name = Text.lowercase q
            ∧ ∀ change ∈ after, change.concerns (Text.lowercase q) = false)
      ∧ b.macros = surviving changes
      ∧ (∀ name text, b.save name text = (b.get? name, b.change (.insert name text)))
      ∧ (∀ name, b.remove name = (b.get? name, b.change (.erase name)))
      ∧ ∀ escape, (b.change (.withEscape escape)).macros = b.macros := by
  intro b
  have hb : b.WellFormed := .ofChanges changes
  exact ⟨hb.distinct, fun _ _ _ => get?_ofChanges_eq_some_iff, macros_ofChanges changes,
    hb.save_eq, hb.remove_eq, macros_withEscape b⟩

/-- A macro that is saved again under its name in other letters moves to the end. -/
example : surviving [.insert ['A', 'x'] ['1'], .insert ['b'] ['2'], .withEscape ['!'],
    .insert ['a', 'X'] ['3'], .erase ['c']] = [⟨['b'], ['2']⟩, ⟨['a', 'X'], ['3']⟩] := by
  decide

end MacroBook

end DiceRoll
