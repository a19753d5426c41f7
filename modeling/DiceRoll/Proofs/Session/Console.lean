/-
Which lines of the console change the macro book.

The console is meant to save a macro on a line whose first word is the command that saves,
with a name and a text behind it (`Console.definition?`). It recognises the command by the
characters that a line begins with, though, and does not ask whether a word ends behind
them. So a longer word that begins with the command saves as well, and what the word has
beyond the command is the name (`Console.glued?`); the command that lists, with anything
behind it, is such a word. This file shows that these two kinds of lines are all that there
are (`Console.saved?_request`), and that the book after any lines is the one in which their
macros were saved, in order (`Console.macros_run`).

Rolls are read in the same session in between. Reading tells the book the escape, which is
the one it knows, so it leaves the book as it is.
-/

import DiceRoll.Console
import DiceRoll.Proofs.Macro.Book
import DiceRoll.Proofs.Text.Words
import DiceRoll.Source.Replay

set_option autoImplicit false

namespace DiceRoll.Console

open Text

/-! ## Lines that save a macro -/

/-- The macro that a line saves whose first word is the command: the second word is the
name, and the text is what stands behind it. There has to be something. -/
def definition? (line : Text) : Option (Text × Text) :=
  match words line with
  | command :: name :: _ :: _ =>
    if command = saveCommand then some (name, trim (behindWord (behindWord line))) else none
  | _ => none

/-- The macro that a line saves whose first word is longer than the command that it begins
with: the name is the rest of that word, and the text is what stands behind it. -/
def glued? (line : Text) : Option (Text × Text) :=
  match words line with
  | command :: _ :: _ =>
    match after? saveCommand command with
    | some (c :: name) => some (c :: name, trim (behindWord line))
    | _ => none
  | _ => none

/-- The macro that a line saves, if it saves one. -/
def saved? (line : Text) : Option (Text × Text) := (definition? line).or (glued? line)

/-- The macro that a request saves. -/
def Request.saved? : Request → Option (Text × Text)
  | .save name text => some (name, text)
  | _ => none

/-! ## What is read behind the command -/

/-- The first word as a name and what stands behind it as a text, if both are there. -/
def nameAndText? (s : Text) : Option (Text × Text) :=
  match words s with
  | name :: _ :: _ => some (name, trim (behindWord s))
  | _ => none

/-- Blanks around a name and a text do not matter. -/
theorem nameAndText?_trim (s : Text) : nameAndText? (trim s) = nameAndText? s := by
  rw [nameAndText?, nameAndText?, words_trim, trim_behindWord_trim]

/-- A trimmed text has further words wherever its first word ends before it. -/
theorem words_behindWord_ne_nil {s : Text} (hs : IsTrimmed s) (hne : behindWord s ≠ []) :
    words (behindWord s) ≠ [] := by
  have hleft : firstWord s ++ behindWord s = s := by
    rw [firstWord_append_behindWord, trimLeft_of_head? hs.1]
  obtain ⟨c, hlast⟩ := Option.isSome_iff_exists.1 (List.getLast?_isSome.2 hne)
  have hinked : isBlank c = false := by
    refine hs.2 c ?_
    rw [← hleft, List.getLast?_append_of_ne_nil _ hne]
    exact hlast
  have hgap : ¬ IsGap (behindWord s) := by
    intro hblank
    rw [hblank c (List.mem_of_getLast? hlast)] at hinked
    cases hinked
  rw [words_eq_cons hgap]
  exact List.cons_ne_nil _ _

/-- **What the command that saves is given is a name and a text**, if it is complete. -/
theorem saved?_saveRequest (arguments : Text) :
    (saveRequest arguments).saved? = nameAndText? arguments := by
  rw [← nameAndText?_trim]
  have htrimmed := isTrimmed_trim arguments
  generalize hmiddle : trim arguments = s at htrimmed
  have hleft : trimLeft s = s := trimLeft_of_head? htrimmed.1
  have hname : (s.takeWhile fun c => !isBlank c) = firstWord s := by
    rw [firstWord, hleft]
    rfl
  have hbehind : (s.dropWhile fun c => !isBlank c) = behindWord s := by
    rw [behindWord, hleft]
    rfl
  unfold saveRequest nameAndText?
  simp only [hmiddle, hname, hbehind]
  by_cases hgap : IsGap s
  · rw [hgap.words_eq, behindWord, hgap.trimLeft_eq]
    rfl
  rw [words_eq_cons hgap]
  cases hrest : behindWord s with
  | nil => rfl
  | cons c text =>
    have hblank : isBlank c = true := isBlank_of_head?_behindWord (s := s) (by rw [hrest]; rfl)
    have hmore := words_behindWord_ne_nil htrimmed (by rw [hrest]; exact List.cons_ne_nil _ _)
    rw [hrest] at hmore
    obtain ⟨word, more, hwords⟩ := List.exists_cons_of_ne_nil hmore
    rw [hwords]
    simp only [Request.saved?, trim_cons_blank hblank]

/-! ## The whole line -/

theorem isInked_of_mem_saveCommand : ∀ c ∈ saveCommand, isInked c = true :=
  List.all_eq_true.1 (by decide)

/-- The first word of a line that begins with the command is the command and what stands
at it without a blank. -/
theorem words_of_command {line arguments : Text}
    (h : after? saveCommand (trim line) = some arguments) :
    firstWord line = saveCommand ++ arguments.takeWhile isInked
      ∧ trim (behindWord line) = trim (arguments.dropWhile isInked)
      ∧ words line = firstWord line :: words (arguments.dropWhile isInked) := by
  have hline := after?_eq_some_iff.1 h
  have hgap : ¬ IsGap line := by
    intro hblank
    rw [hblank.trim_eq] at hline
    cases hline
  have hleft : trimLeft (saveCommand ++ arguments) = saveCommand ++ arguments := by
    rw [← hline]
    exact trimLeft_of_head? (isTrimmed_trim line).1
  have hbehind : behindWord (trim line) = arguments.dropWhile isInked := by
    rw [hline, behindWord, hleft, List.dropWhile_append_of_pos isInked_of_mem_saveCommand]
  refine ⟨?_, ?_, ?_⟩
  · rw [← firstWord_trim, hline, firstWord, hleft,
      List.takeWhile_append_of_pos isInked_of_mem_saveCommand]
  · rw [← trim_behindWord_trim, hbehind]
  · rw [words_eq_cons hgap, ← words_behindWord_trim, hbehind]

/-- A line that begins with the command saves the name and the text behind it, whether or not
a word ends there. -/
theorem saved?_of_command {line arguments : Text}
    (h : after? saveCommand (trim line) = some arguments) :
    saved? line = nameAndText? arguments := by
  obtain ⟨hfirst, hbehind, hwords⟩ := words_of_command h
  have hsplit := List.takeWhile_append_dropWhile (p := isInked) (l := arguments)
  cases hname : arguments.takeWhile isInked with
  -- The word ends behind the command, so the arguments are the words behind the first one.
  | nil =>
    rw [hname, List.nil_append] at hsplit
    rw [hname, List.append_nil] at hfirst
    rw [hsplit] at hbehind hwords
    have htext : trim (behindWord (behindWord line)) = trim (behindWord arguments) := by
      rw [← trim_behindWord_trim, hbehind, trim_behindWord_trim]
    unfold saved? definition? glued? nameAndText?
    rw [hwords, hfirst, htext]
    rcases words arguments with _ | ⟨name, _ | ⟨word, more⟩⟩ <;> rfl
  -- The word goes on, so the first of the arguments is the rest of it.
  | cons c name =>
    have hinked : isInked c = true :=
      List.mem_takeWhile_imp (l := arguments) (by rw [hname]; exact List.mem_cons_self)
    have hhead : ∀ d ∈ arguments.head?, isBlank d = false := by
      intro d hd
      rw [← hsplit, hname] at hd
      cases hd
      simpa [isInked] using hinked
    have hleft := trimLeft_of_head? hhead
    have hgap : ¬ IsGap arguments := by
      intro hblank
      rw [← hsplit, hname] at hblank
      rw [isInked, hblank c List.mem_cons_self] at hinked
      cases hinked
    have harguments : words arguments = (c :: name) :: words (arguments.dropWhile isInked) := by
      rw [words_eq_cons hgap, firstWord, behindWord, hleft, hname]
    have htext : trim (behindWord line) = trim (behindWord arguments) := by
      rw [hbehind, behindWord, hleft]
    have hlonger : saveCommand ++ c :: name ≠ saveCommand := by simp
    unfold saved? definition? glued? nameAndText?
    rw [harguments, hwords, hfirst, hname, htext]
    rcases words (arguments.dropWhile isInked) with _ | ⟨word, more⟩
    · rfl
    · cases more <;> simp [hlonger, after?_eq_some_iff.2]

/-- A line that does not begin with the command saves nothing. -/
theorem saved?_of_no_command {line : Text} (h : after? saveCommand (trim line) = none) :
    saved? line = none := by
  by_cases hgap : IsGap line
  · unfold saved? definition? glued?
    rw [hgap.words_eq]
    rfl
  have hfirst : after? saveCommand (firstWord line) = none := by
    cases hword : after? saveCommand (firstWord line) with
    | none => rfl
    | some name =>
      have hline : trim line = saveCommand ++ (name ++ behindWord (trim line)) := by
        rw [← List.append_assoc, ← after?_eq_some_iff.1 hword, ← firstWord_trim,
          firstWord_append_behindWord, trimLeft_of_head? (isTrimmed_trim line).1]
      rw [after?_eq_some_iff.2 hline] at h
      cases h
  have hne : firstWord line ≠ saveCommand := by
    intro hcommand
    rw [hcommand] at hfirst
    cases hfirst
  unfold saved? definition? glued?
  rw [words_eq_cons hgap]
  rcases words (behindWord line) with _ | ⟨name, _ | ⟨word, more⟩⟩ <;> simp [hne, hfirst]

/-- **A line asks for a macro to be saved if and only if it is one of the two kinds**, and
for the macro that these say. -/
theorem saved?_request (line : Text) : (request line).saved? = saved? line := by
  unfold request
  simp only
  cases hcommand : after? saveCommand (trim line) with
  | none =>
    rw [saved?_of_no_command hcommand]
    simp only
    split
    · rfl
    · split <;> rfl
  | some arguments =>
    rw [saved?_of_command hcommand]
    split
    -- The command that lists has nothing behind it that could be a text.
    · rename_i hlist
      rw [hlist] at hcommand
      cases hcommand
      decide
    · exact saved?_saveRequest arguments

/-- A line of the first kind. -/
example : definition? " :macro fire  2d6 + 1 ".toList = some ("fire".toList, "2d6 + 1".toList) := by
  decide

/-- Two lines of the second kind. -/
example : glued? ":macrofoo 2d1".toList = some ("foo".toList, "2d1".toList)
    ∧ glued? ":macros foo 2d1".toList = some ("s".toList, "foo 2d1".toList) := by
  decide

/-! ## Sessions -/

section Sessions

variable {σ : Type} [Source σ]

/-- A session whose macro book was told its escape. -/
def IsTold (t : Session σ) : Prop := t.setup.macros.escape = t.setup.escape

/-- A book with another macro saved, if there is one. -/
def saveIn (b : MacroBook) : Option (Text × Text) → MacroBook
  | some m => b.insert m.1 m.2
  | none => b

/-- **A step saves the macro of its line**, and otherwise leaves the book as it is. Reading a
roll tells the book the escape, which it knows. -/
theorem macros_step {t : Session σ} (ht : IsTold t) (line : Text) :
    (step t line).2.setup.macros = saveIn t.setup.macros (saved? line)
      ∧ IsTold (step t line).2 := by
  rw [step, ← saved?_request]
  cases request line with
  | nothing | list | incomplete => exact ⟨rfl, ht⟩
  | save name text => exact ⟨rfl, ht⟩
  | roll input =>
    have htold : t.setup.macros.withEscape t.setup.escape = t.setup.macros := if_pos ht
    refine ⟨htold, ?_⟩
    exact MacroBook.escape_withEscape _ _

/-- A line that saves nothing changes no name and no text, whatever the book was told. -/
theorem macros_step_of_none (t : Session σ) {line : Text} (h : saved? line = none) :
    (step t line).2.setup.macros.macros = t.setup.macros.macros := by
  rw [← saved?_request] at h
  rw [step]
  cases hrequest : request line with
  | nothing | list | incomplete => rfl
  | save name text =>
    rw [hrequest] at h
    cases h
  | roll input => exact MacroBook.macros_withEscape _ _

/-- The book after a run is the one before it with the macros of the lines saved in order. -/
theorem macros_run_of_isTold {t : Session σ} (ht : IsTold t) (lines : List Text) :
    (run t lines).2.setup.macros
      = (lines.filterMap saved?).foldl (fun b m => b.insert m.1 m.2) t.setup.macros := by
  induction lines generalizing t with
  | nil => rfl
  | cons line lines ih =>
    obtain ⟨hstep, hnext⟩ := macros_step ht line
    have hrest := ih hnext
    rw [hstep] at hrest
    cases hsaved : saved? line with
    | none =>
      rw [hsaved] at hrest
      rw [List.filterMap_cons_none hsaved]
      exact hrest
    | some m =>
      rw [hsaved] at hrest
      rw [List.filterMap_cons_some hsaved]
      exact hrest

/-- **The console changes the macro book on two kinds of lines only.** After any lines the
book of a new session is an empty one in which the macros were saved, in order, of the lines
whose first word is the command and of those whose first word begins with it and is longer.
Any other line leaves all names and texts as they are, in any session. -/
theorem macros_run (s : σ) (lines : List Text) :
    (run (Session.ofSource s) lines).2.setup.macros
        = MacroBook.ofList (lines.filterMap fun line => (definition? line).or (glued? line))
      ∧ ∀ (t : Session σ) (line : Text), definition? line = none → glued? line = none →
          (step t line).2.setup.macros.macros = t.setup.macros.macros := by
  constructor
  · exact macros_run_of_isTold (t := Session.ofSource s) rfl lines
  · intro t line hdefinition hglued
    refine macros_step_of_none t ?_
    rw [saved?, hdefinition, hglued]
    rfl

end Sessions

/-- A line of either kind, and a roll between the two. -/
theorem macros_run_of_three :
    (run (Session.ofSource (⟨.draws [3, 5], 0⟩ : Replay))
        [":macro fire 2d6".toList, "fire".toList, ":macrofoo 2d1".toList]).2.setup.macros
      = MacroBook.ofList [("fire".toList, "2d6".toList), ("foo".toList, "2d1".toList)]
    ∧ (step (Session.ofSource (⟨.draws [3, 5], 0⟩ : Replay)) "fire".toList).2.setup.macros.macros
      = [] := by
  obtain ⟨hrun, hstep⟩ := macros_run (⟨.draws [3, 5], 0⟩ : Replay)
    [":macro fire 2d6".toList, "fire".toList, ":macrofoo 2d1".toList]
  constructor
  · rw [hrun]
    rfl
  · exact hstep _ "fire".toList (by decide) (by decide)

/-- A word that only begins with the command saves a macro too. -/
theorem not_forall_macros_run :
    ¬ ∀ lines : List Text,
      (run (Session.ofSource (⟨.draws [], 0⟩ : Replay)) lines).2.setup.macros
        = MacroBook.ofList (lines.filterMap definition?) := by
  intro h
  have hglued := congrArg MacroBook.macros (h [":macrofoo 2d1".toList])
  exact absurd hglued (by decide)

end DiceRoll.Console
