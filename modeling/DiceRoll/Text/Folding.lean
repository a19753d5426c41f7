/-
Comparing characters without regard to case.

Two characters are the same but for case when they fold to one character. The
fold is mostly the lower-case form; a short table holds the characters where it
is not, such as the final sigma, which folds to the ordinary one, or the long s,
which folds to `s`. A fold never changes the number of characters, so comparing
two texts is comparing them character by character.
-/

import DiceRoll.Text.Lowercase

set_option autoImplicit false

namespace DiceRoll.Text

/-- The characters whose fold is not their lower-case form. -/
def foldRuns : List CaseRun :=
  [⟨0xB5, 0xB5, 1, 775⟩, ⟨0x130, 0x130, 1, 0⟩, ⟨0x17F, 0x17F, 1, -268⟩, ⟨0x345, 0x345, 1, 116⟩,
    ⟨0x3C2, 0x3C2, 1, 1⟩, ⟨0x3D0, 0x3D0, 1, -30⟩, ⟨0x3D1, 0x3D1, 1, -25⟩, ⟨0x3D5, 0x3D5, 1, -15⟩,
    ⟨0x3D6, 0x3D6, 1, -22⟩, ⟨0x3F0, 0x3F0, 1, -54⟩, ⟨0x3F1, 0x3F1, 1, -48⟩,
    ⟨0x3F5, 0x3F5, 1, -64⟩, ⟨0x13A0, 0x13F5, 1, 0⟩, ⟨0x13F8, 0x13FD, 1, -8⟩,
    ⟨0x1C80, 0x1C80, 1, -6222⟩, ⟨0x1C81, 0x1C81, 1, -6221⟩, ⟨0x1C82, 0x1C82, 1, -6212⟩,
    ⟨0x1C83, 0x1C84, 1, -6210⟩, ⟨0x1C85, 0x1C85, 1, -6211⟩, ⟨0x1C86, 0x1C86, 1, -6204⟩,
    ⟨0x1C87, 0x1C87, 1, -6180⟩, ⟨0x1C88, 0x1C88, 1, 35267⟩, ⟨0x1E9B, 0x1E9B, 1, -58⟩,
    ⟨0x1FBE, 0x1FBE, 1, -7173⟩, ⟨0x1FD3, 0x1FD3, 1, -7235⟩, ⟨0x1FE3, 0x1FE3, 1, -7219⟩,
    ⟨0xAB70, 0xABBF, 1, -38864⟩, ⟨0xFB05, 0xFB05, 1, 1⟩]

/-- The character that stands for all those which differ from this one in case only. -/
def foldChar (c : Char) : Char :=
  if c.toNat < 128 then c.toLower else (moveByRuns foldRuns c).getD (lowerChar c)

/-- What follows `lead`, in any case, in a text that begins with it. -/
def afterFolded? : Text → Text → Option Text
  | [], s => some s
  | _ :: _, [] => none
  | a :: lead, b :: s => if foldChar a = foldChar b then afterFolded? lead s else none

end DiceRoll.Text
