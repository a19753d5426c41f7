/-
What an iteration is written out as.

An iteration is the first number in brackets on a line, with the body behind it up to the
next semicolon (`IsFirstIteration`). Writing it out leaves what stands in front of the
brackets and what stands behind the body, and puts the copies of the body in between.

The copies are told by their parts. The placeholder cuts the body into parts in which it
does not occur, and the copy with a number is these parts with the number between them. So
the same parts stand in every copy, and no placeholder is left out or made up by what stands
around it.
-/

import DiceRoll.Proofs.Shorthand.Backtracking

set_option autoImplicit false

namespace DiceRoll.Iteration

open Text

/-- The first iteration of a text: no number in brackets stands in front of its own, the
body ends at the first semicolon, and the others go on from there. -/
structure IsFirstIteration (s before digits body others : Text) : Prop where
  number : IsNumbered s before digits (body ++ others)
  first : ∀ before' digits' rest', IsNumbered s before' digits' rest' →
    before.length ≤ before'.length
  body : ';' ∉ body
  others : ∀ c ∈ others.head?, c = ';'

/-- A body cut at every placeholder. -/
structure IsCut (body : Text) (parts : List Text) : Prop where
  joined : body = placeholder.intercalate parts
  clear : ∀ part ∈ parts, ¬ placeholder <:+: part

/-- Copies with these parts, numbered from one, as the entries of a list. -/
def numbered (count : Nat) (parts : List Text) : Text :=
  [';'].intercalate ((List.range count).map fun i => (Text.ofNat (i + 1)).intercalate parts)

theorem exists_isCut (body : Text) : ∃ parts, IsCut body parts := by
  have hword : placeholder ≠ [] := List.cons_ne_nil _ _
  obtain ⟨part, parts, hbody, hparts⟩ := exists_eq_intercalate hword body
  exact ⟨part :: parts, hbody, hparts⟩

/-- **Each copy has the parts of the body**, with its number between them. -/
theorem IsCut.copies_eq {body : Text} {parts : List Text} (h : IsCut body parts) (count : Nat) :
    copies count body = numbered count parts := by
  have hcopy (i : Nat) :
      replace placeholder (Text.ofNat i) body = (Text.ofNat i).intercalate parts := by
    rw [h.joined]
    exact replace_intercalate (by decide) h.clear (Text.ofNat i)
  simp only [copies, numbered, hcopy]

variable {s : Text}

/-- A number in brackets makes an iteration, its own or one in front of it. -/
theorem exists_isFirstIteration (hline : '\n' ∉ s) {before digits rest : Text}
    (hnumber : IsNumbered s before digits rest) :
    ∃ before digits body others, IsFirstIteration s before digits body others := by
  obtain ⟨⟨before, digits, rest⟩, hfound, -⟩ := exists_find?_of_isNumbered hline hnumber
  obtain ⟨hnumber, hfirst⟩ := (find?_eq_some_iff hline).1 hfound
  refine ⟨before, digits, rest.takeWhile (· != ';'), rest.dropWhile (· != ';'), ?_, hfirst,
    fun hmem => ?_, fun c hc => ?_⟩
  · rwa [List.takeWhile_append_dropWhile]
  · exact absurd (List.mem_takeWhile_imp hmem) (by decide)
  · have hhead := List.head?_dropWhile_not (· != ';') rest
    rw [Option.mem_def.1 hc] at hhead
    simpa using hhead

/-- Writing out finds the first iteration and no other. -/
theorem IsFirstIteration.expand_eq (hline : '\n' ∉ s) {before digits body others : Text}
    (h : IsFirstIteration s before digits body others) (limit : Nat) :
    expand limit s
      = (before ++ copies (min digits.value limit) (trim body) ++ others,
        if limit < digits.value then [.tooManyIterations limit] else []) := by
  have hfind := (find?_eq_some_iff hline).2 ⟨h.number, h.first⟩
  have hrun := bne_of_not_mem h.body
  have hstop : ∀ c ∈ others.head?, (c != ';') = false := by
    intro c hc
    rw [h.others c hc]
    rfl
  rw [expand, hfind]
  simp only [takeWhile_run hrun hstop, dropWhile_run hrun hstop]

/-- **Writing out an iteration is what its description says.** On one line a text without a
number in brackets is left as it is, without a problem. In any other the first iteration is
replaced by as many copies as its number says, or as many as are allowed if that is less.
The copies are those of the trimmed body, with semicolons between them, and in each the
number of the copy stands wherever the placeholder stands in the body. More copies than
allowed are one problem, which names the limit. All of this is also what comes out where the
iteration is found by trying, and its number is read into a word that is greater than the
limit. -/
theorem expand_eq_numbered {greatest limit : Nat} (hlimit : limit < greatest)
    (hline : '\n' ∉ s) :
    backtrack greatest limit s = expand limit s
      ∧ ((∀ before digits rest, ¬ IsNumbered s before digits rest) → expand limit s = (s, []))
      ∧ (∀ before digits rest, IsNumbered s before digits rest →
          ∃ before digits body others parts,
            IsFirstIteration s before digits body others ∧ IsCut (trim body) parts)
      ∧ ∀ before digits body others parts,
          IsFirstIteration s before digits body others → IsCut (trim body) parts →
          expand limit s
            = (before ++ numbered (min digits.value limit) parts ++ others,
              if limit < digits.value then [.tooManyIterations limit] else []) := by
  refine ⟨backtrack_eq_expand hlimit s, fun hnone => ?_, fun _ _ _ hnumber => ?_,
    fun before digits body others parts hfirst hcut => ?_⟩
  · rw [expand, (find?_eq_none_iff hline).2 hnone]
  · obtain ⟨before, digits, body, others, hfirst⟩ := exists_isFirstIteration hline hnumber
    obtain ⟨parts, hcut⟩ := exists_isCut (trim body)
    exact ⟨before, digits, body, others, parts, hfirst, hcut⟩
  · rw [hfirst.expand_eq hline, hcut.copies_eq]

/-- More copies than allowed, behind brackets without a number and in front of a number that
does not count. -/
theorem expand_eq_numbered_of_capped :
    2 < 2 ^ 64 - 1 ∧ '\n' ∉ "[a][007] d\x7bi\x7d ;[2]b".toList
      ∧ IsFirstIteration "[a][007] d\x7bi\x7d ;[2]b".toList "[a]".toList "007".toList
          " d\x7bi\x7d ".toList ";[2]b".toList
      ∧ IsCut (trim " d\x7bi\x7d ".toList) [['d'], []]
      ∧ backtrack (2 ^ 64 - 1) 2 "[a][007] d\x7bi\x7d ;[2]b".toList
          = ("[a]d1;d2;[2]b".toList, [.tooManyIterations 2]) := by
  have hline : '\n' ∉ "[a][007] d\x7bi\x7d ;[2]b".toList := by decide
  have hfind : find? "[a][007] d\x7bi\x7d ;[2]b".toList
      = some ("[a]".toList, "007".toList, " d\x7bi\x7d ;[2]b".toList) := by decide
  obtain ⟨hnumber, hfirst⟩ := (find?_eq_some_iff hline).1 hfind
  have hiteration : IsFirstIteration "[a][007] d\x7bi\x7d ;[2]b".toList "[a]".toList
      "007".toList " d\x7bi\x7d ".toList ";[2]b".toList :=
    ⟨hnumber, hfirst, by decide, fun _ hc => (Option.some.inj hc).symm⟩
  have hcut : IsCut (trim " d\x7bi\x7d ".toList) [['d'], []] := ⟨by decide, by decide⟩
  have hlimit : 2 < 2 ^ 64 - 1 := by decide
  obtain ⟨htried, -, -, hwritten⟩ := expand_eq_numbered hlimit hline
  refine ⟨hlimit, hline, hiteration, hcut, htried.trans ?_⟩
  exact (hwritten _ _ _ _ _ hiteration hcut).trans (by decide)

end DiceRoll.Iteration
