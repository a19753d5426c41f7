/-
Whether a roll is arithmetic, and what luck has to do with it.

The faces decide which number a token comes to, and nearly nothing else. They decide on
two things more: whether the number has a minus sign in front of it, and whether the dice
are in parentheses, which count towards the depth. The sign makes a difference only
directly behind an operand, where it is an operator. So between two runs of an input with
the same subtractions the text is arithmetic in both or in neither, unless it is refused
for its depth (`isMalformed_eq_of_subtractions`).

The two runs are compared through their outline. It is made from the words and the minus
signs alone, and the roll is derived if and only if the outline is.
-/

import DiceRoll.Proofs.Arithmetic.Outline
import DiceRoll.Proofs.Dice.Summands
import DiceRoll.Proofs.Roll.Leaf
import Mathlib

set_option autoImplicit false

namespace DiceRoll

open DiceRoll.Expr

/-! ## What is written can be read

All that a token writes is an integer in a word of sixty-four bits. Only the least of
them is no text that can be read. -/

/-- Whether a word came to the least integer. -/
def isLeast (expression : Text) : Bool := Markup.plain expression == Text.ofInt Number.minInt

theorem readable_of_isCount {n : Nat} (hn : n ≤ maxCount) : Number.Readable n := by
  simp only [Number.Readable, Number.minInt, Number.maxInt, maxCount] at hn ⊢
  omega

theorem readable_worth {sides : Sides} (hsides : sides.IsProper) {face : Nat}
    (hface : 1 ≤ face ∧ face ≤ sides.faces) : Number.Readable (sides.worth face) := by
  rw [← sides.valueOf_eq_worth]
  cases sides with
  | numbered n => exact readable_of_isCount (hface.2.trans hsides.2)
  | fate =>
    simp only [Sides.valueOf, Sides.faces, Number.Readable, Number.minInt, Number.maxInt]
      at hface ⊢
    omega

/-- A word of sixty-four bits that is not the least. -/
theorem readable_of_ne {v : Int} (hlow : Number.minInt ≤ v) (hhigh : v ≤ Number.maxInt)
    (hne : v ≠ Number.minInt) : Number.Readable v :=
  ⟨lt_of_le_of_ne hlow hne.symm, hhigh⟩

theorem wordSum_bounds (values : List Int) :
    Number.minInt ≤ wordSum values ∧ wordSum values ≤ Number.maxInt := by
  have hlow : -((wordSize : Int) / 2) ≤ wordSum values := Int.le_bmod (by decide)
  have hhigh : wordSum values < ((wordSize : Int) + 1) / 2 := Int.bmod_lt (by decide)
  simp only [wordSize] at hlow hhigh
  simp only [Number.minInt, Number.maxInt]
  omega

/-- What a pool writes can be read, unless it is the least integer. -/
theorem PoolSpec.readable_summands {p : PoolSpec} (hp : (DiceToken.pool p).IsProper)
    {faces : List Nat} (hfaces : ∀ face ∈ faces, 1 ≤ face ∧ face ≤ p.sides.faces)
    (hleast : p.summands faces ≠ [Number.minInt]) :
    ∀ v ∈ p.summands faces, Number.Readable v := by
  obtain ⟨count, sides, modifier⟩ := p
  obtain ⟨-, hsides, hmodifier⟩ := hp
  have hvalues : ∀ v ∈ faces.map sides.worth, Number.Readable v := by
    intro v hv
    obtain ⟨face, hface, rfl⟩ := List.mem_map.1 hv
    exact readable_worth hsides (hfaces face hface)
  -- Where one integer is written it may be the least, and nowhere else.
  have hsingle : ∀ {v w : Int}, Number.minInt ≤ w → w ≤ Number.maxInt → [w] ≠ [Number.minInt] →
      v ∈ [w] → Number.Readable v := by
    intro v w hlow hhigh hne hv
    obtain rfl := List.mem_singleton.1 hv
    exact readable_of_ne hlow hhigh fun h => hne (by rw [h])
  have hfirst := wordSum_bounds ((faces.map sides.worth).take count)
  have hsecond := wordSum_bounds ((faces.map sides.worth).drop count)
  intro v hv
  cases modifier with
  | plain => exact hvalues v hv
  | advantage =>
    exact hsingle (Int.le_trans hfirst.1 (Int.le_max_left _ _))
      (Int.max_le.2 ⟨hfirst.2, hsecond.2⟩) hleast hv
  | disadvantage =>
    exact hsingle (Int.le_min.2 ⟨hfirst.1, hsecond.1⟩)
      (Int.le_trans (Int.min_le_left _ _) hfirst.2) hleast hv
  | keep n => exact hvalues v ((largest_subperm n _).subset hv)
  | lose n => exact hvalues v ((smallest_subperm n _).subset hv)
  | explode t => exact hvalues v hv
  | flat n =>
    rcases List.mem_append.1 hv with hv | hv
    · exact hvalues v hv
    · obtain rfl := List.mem_singleton.1 hv
      exact readable_of_isCount hmodifier.2

/-- What a token writes can be read, unless it is the least integer. -/
theorem DiceToken.readable_summands {σ : Type} [Source σ] (hσ : Source.InRange σ)
    {token : DiceToken} (htoken : token.IsProper) {limits : Limits} {faces : List Nat} {s s' : σ}
    (hdrew : token.Drew limits faces s s') (hleast : token.summands faces ≠ [Number.minInt]) :
    ∀ v ∈ token.summands faces, Number.Readable v := by
  cases token with
  | pool p =>
    have hdrawn := hdrew.drawn
    rw [faces_pool] at hdrawn
    exact p.readable_summands htoken
      (mem_drawMany_inRange hσ htoken.2.1.one_le_faces hdrawn) hleast
  | successes p =>
    intro v hv
    obtain rfl := List.mem_singleton.1 hv
    obtain ⟨hlow, hhigh⟩ := wordSum_bounds (faces.map p.points)
    exact readable_of_ne hlow hhigh fun h => hleast (by rw [summands, h])

/-! ## The outline of a run

A pool with one negative value is a minus sign and an atom, and every other pool is an
atom. So the outline depends on the faces for the minus signs alone. -/

/-- Whether what a word came to begins with a minus sign. -/
def isNegative (expression : Text) : Bool := (Markup.plain expression).head? == some '-'

/-- The outline of a word. -/
def outlineWord (word : Text) (negative : Bool) : List Token :=
  if isDice word then (if negative then [.minus, .integer 0] else [.integer 0])
  else Token.ofText word

/-- The outline of words, some of which begin with a minus sign. -/
def outlineOf (words : List Text) (negatives : List Bool) : List Token :=
  (List.zipWith outlineWord words negatives).flatten

/-- A word is outlined by atoms. -/
structure Outlined (word expression : Text) (slots : List Slot) : Prop where
  outline : slots.map Slot.outline = outlineWord word (isNegative expression)
  atoms : ∀ slot ∈ slots, slot.IsAtom

/-- The outline of a roll is made from its words and their minus signs. -/
theorem map_outline_of_outlined {words expressions : List Text} {slots : List Slot}
    (h : Spelled Outlined words expressions slots) :
    slots.map Slot.outline = outlineOf words (expressions.map isNegative) := by
  induction h with
  | nil => rfl
  | cons _ hword _ ih => rw [List.map_append, hword.outline, ih]; rfl

theorem outlined_math {word : Text} (hdice : isDice word = false) :
    Outlined word word ((Token.ofText word).map .token) := by
  constructor
  · rw [Slot.map_outline_token, outlineWord, hdice]
    rfl
  · intro slot hslot
    obtain ⟨t, -, rfl⟩ := List.mem_map.1 hslot
    trivial

theorem head?_ofNat_ne (n : Nat) : (Text.ofNat n).head? ≠ some '-' := by
  intro h
  exact absurd (Token.isDigit_of_mem_ofNat (List.mem_of_head? h)) (by decide)

/-- The text of a pool begins with a minus sign if it is a single negative value. -/
theorem head?_group {values : List Int} (hne : values ≠ []) :
    (Markup.group ['+'] (values.map Text.ofInt)).head? = some '-' ↔
      ∃ n, values = [.negSucc n] := by
  match values, hne with
  | [.negSucc n], _ =>
    exact iff_of_true rfl ⟨n, rfl⟩
  | [.ofNat n], _ =>
    refine iff_of_false ?_ ?_
    · simpa [Markup.group, Text.ofInt] using head?_ofNat_ne n
    · rintro ⟨m, hm⟩
      cases hm
  | v :: w :: values, _ =>
    refine iff_of_false ?_ ?_
    · simp [Markup.group]
    · rintro ⟨m, hm⟩
      cases hm

/-- Dice that write something that can be read are outlined by atoms. -/
theorem exists_outlined_dice {word expression : Text} {values : List Int}
    (hdice : isDice word = true)
    (hplain : Markup.plain expression = Markup.group ['+'] (values.map Text.ofInt))
    (hne : values ≠ []) (hreadable : ∀ v ∈ values, Number.Readable v) :
    ∃ slots, slots.flatMap Slot.tokens = Token.ofText (Markup.plain expression)
      ∧ Outlined word expression slots := by
  rw [hplain, ofText_pool hreadable]
  -- Only a single negative value is written with its sign in front and no parentheses.
  by_cases hnegative : ∃ n, values = [.negSucc n]
  · have hminus : isNegative expression = true := by
      rw [isNegative, hplain, (head?_group hne).2 hnegative]
      rfl
    obtain ⟨n, rfl⟩ := hnegative
    refine ⟨[.token .minus, .ofValues [.ofNat (n + 1)]], rfl, ?_, ?_⟩
    · rw [outlineWord, hdice, hminus]
      rfl
    · intro slot hslot
      rcases List.mem_pair.1 hslot with rfl | rfl
      · trivial
      · exact derives_pool_atom (List.cons_ne_nil _ _)
          (.inr (by simpa using Int.natCast_nonneg (n + 1)))
  · have hminus : isNegative expression = false := by
      rw [isNegative, hplain]
      simpa using mt (head?_group hne).1 hnegative
    refine ⟨[.ofValues values], List.flatMap_singleton _ _, ?_, ?_⟩
    · rw [outlineWord, hdice, hminus]
      rfl
    · intro slot hslot
      obtain rfl := List.mem_singleton.1 hslot
      refine derives_pool_atom hne ?_
      by_contra hatom
      rw [not_or, Nat.not_lt] at hatom
      match values, hne with
      | [.negSucc n], _ => exact hnegative ⟨n, rfl⟩
      | [.ofNat n], _ => exact hatom.2 (by simp)
      | v :: w :: values, _ => simp at hatom

/-- A word that was resolved is outlined by atoms, unless it came to the least integer. -/
theorem exists_outlined {σ : Type} [Source σ] (hσ : Source.InRange σ) {limits : Limits}
    {escape body word : Text} (hword : word ∈ wordsOf escape body) {s s' : σ} {r : Resolved}
    (h : resolve limits word s = (.ok r, s')) (hleast : isLeast r.expression = false) :
    ∃ slots, slots.flatMap Slot.tokens = Token.ofText (Markup.plain r.expression)
      ∧ Outlined word r.expression slots := by
  rcases resolve_eq_ok h with ⟨hmath, rfl⟩ | ⟨token, htoken, hroll⟩
  · refine ⟨_, ?_, outlined_math (isDice_of_math hmath)⟩
    rw [Slot.flatMap_tokens_token, Resolved.literal, plain_of_mem_wordsOf hword]
  · have hproper := DiceToken.isProper_of_ofText? htoken
    obtain ⟨faces, hdrew, hr⟩ := DiceToken.roll_eq_ok hproper hroll
    refine exists_outlined_dice (isDice_of_ofText? htoken) hr
      (DiceToken.summands_ne_nil hproper hdrew.rolls)
      (DiceToken.readable_summands hσ hproper hdrew fun hsummands => ?_)
    rw [isLeast, hr, hsummands] at hleast
    simp [Markup.group] at hleast

/-! ## Subtractions -/

/-- Which words begin with a minus sign directly behind an operand, where it is an
operator. -/
def subtractions (behind : Bool) : List Text → List Bool → List Bool
  | word :: words, negative :: negatives =>
    (behind && negative) ::
      subtractions (Token.ended behind (outlineWord word negative)) words negatives
  | _, _ => []

/-- Which words of a leaf begin with a minus sign directly behind an operand. -/
def Leaf.subtractions (leaf : Leaf) : List Bool :=
  DiceRoll.subtractions false leaf.parts (leaf.expressions.map isNegative)

theorem outlineOf_cons (word : Text) (words : List Text) (negative : Bool)
    (negatives : List Bool) :
    outlineOf (word :: words) (negative :: negatives)
      = outlineWord word negative ++ outlineOf words negatives := by
  rw [outlineOf, List.zipWith_cons_cons, List.flatten_cons]
  rfl

/-- Dice are an operand with a sign and without. -/
theorem ended_outlineWord (behind : Bool) (word : Text) (negative negative' : Bool) :
    Token.ended behind (outlineWord word negative)
      = Token.ended behind (outlineWord word negative') := by
  by_cases hdice : isDice word = true
  · have hended : ∀ n, Token.ended behind (outlineWord word n) = true := by
      intro n
      cases n <;> simp [outlineWord, hdice, Token.ended, Token.ends]
    rw [hended, hended]
  · rw [outlineWord, outlineWord, if_neg hdice, if_neg hdice]

/-- A sign that subtracts nothing can be left out of the outline. -/
theorem exists_derives_outlineWord_iff {front : List Token} {behind : Bool}
    (hbehind : Token.ended false front = behind) (word : Text) (negative : Bool)
    (rest : List Token) :
    (∃ e, Derives .conditional (front ++ (outlineWord word negative ++ rest)) e)
      ↔ ∃ e, Derives .conditional (front ++ (outlineWord word (behind && negative) ++ rest)) e := by
  by_cases hsign : isDice word = true ∧ negative = true ∧ behind = false
  · obtain ⟨hdice, rfl, rfl⟩ := hsign
    simp only [outlineWord, hdice, if_true, Bool.false_and, Bool.false_eq_true, if_false]
    exact exists_derives_minus_iff hbehind rest
  · have hsame : outlineWord word (behind && negative) = outlineWord word negative := by
      cases behind <;> cases negative <;> simp_all [outlineWord]
    rw [hsame]

/-- **The outline counts for its subtractions alone.** -/
theorem exists_derives_outlineOf_iff (words : List Text) (negatives : List Bool)
    (front : List Token) :
    (∃ e, Derives .conditional (front ++ outlineOf words negatives) e)
      ↔ ∃ e, Derives .conditional (front
          ++ outlineOf words (subtractions (Token.ended false front) words negatives)) e := by
  induction words generalizing negatives front with
  | nil => rfl
  | cons word words ih =>
    cases negatives with
    | nil => rfl
    | cons negative negatives =>
      -- The sign of the first word is settled against what stands in front, and then the
      -- word stands in front of the others.
      rw [subtractions, outlineOf_cons, outlineOf_cons, exists_derives_outlineWord_iff rfl,
        ← List.append_assoc, ← List.append_assoc, ih, Token.ended_append,
        ended_outlineWord _ word _ negative]

/-! ## Two runs -/

/-- **Runs with the same subtractions are derived together.** -/
theorem derives_of_outlined {words expressions₁ expressions₂ : List Text}
    {slots₁ slots₂ : List Slot} (h₁ : Spelled Outlined words expressions₁ slots₁)
    (h₂ : Spelled Outlined words expressions₂ slots₂)
    (hsigns : subtractions false words (expressions₁.map isNegative)
      = subtractions false words (expressions₂.map isNegative)) {e : Expr}
    (h : Derives .conditional
      (Token.ofText (Markup.plain ([' '].intercalate expressions₁))) e) :
    ∃ e', Derives .conditional
      (Token.ofText (Markup.plain ([' '].intercalate expressions₂))) e' := by
  have houtline :=
    derives_outline h (h₁.forall_mem fun _ _ _ hword => hword.atoms) h₁.tokens
  rw [map_outline_of_outlined h₁, ← List.nil_append (outlineOf _ _),
    exists_derives_outlineOf_iff, Token.ended_nil, hsigns] at houtline
  -- Back from the subtractions to the signs of the other run.
  obtain ⟨e₀, he₀⟩ := (exists_derives_outlineOf_iff words _ []).2 houtline
  rw [List.nil_append, ← map_outline_of_outlined h₂] at he₀
  have hgraft := derives_graft he₀ rfl
    (h₂.forall_mem fun _ _ _ hword slot hslot => (hword.atoms slot hslot).isProper)
  rw [h₂.tokens] at hgraft
  exact ⟨_, hgraft⟩

/-- A run that is well formed makes another with the same words and subtractions well
formed. -/
theorem isMalformed_of_subtractions {words : List Text} {title : Option Text}
    {resolved₁ resolved₂ : List Resolved} {slots₁ slots₂ : List Slot}
    (h₁ : Spelled Outlined words (resolved₁.map Resolved.expression) slots₁)
    (h₂ : Spelled Outlined words (resolved₂.map Resolved.expression) slots₂)
    (hsigns : (Leaf.ofResolved words title resolved₁).subtractions
      = (Leaf.ofResolved words title resolved₂).subtractions)
    (hdeep : isTooDeep (Leaf.ofResolved words title resolved₂).result = false)
    (h : isMalformed (Leaf.ofResolved words title resolved₁).result = false) :
    isMalformed (Leaf.ofResolved words title resolved₂).result = false := by
  obtain ⟨e, he, -⟩ := Arithmetic.isMalformed_finalize.1 h
  obtain ⟨e', he'⟩ := derives_of_outlined h₁ h₂ hsigns he
  exact Arithmetic.isMalformed_of_derives he' hdeep

/-- The words of a leaf are outlined, unless one came to the least integer. -/
theorem exists_spelled_outlined {σ : Type} [Source σ] (hσ : Source.InRange σ) {limits : Limits}
    {escape body : Text} {resolved : List Resolved}
    (h : ResolvedTo σ limits (wordsOf escape body) resolved)
    (hleast : ∀ expression ∈ resolved.map Resolved.expression, isLeast expression = false) :
    ∃ slots, Spelled Outlined (wordsOf escape body) (resolved.map Resolved.expression) slots :=
  Spelled.exists_of_resolved h fun _ hword _ _ _ hr hresolve =>
    exists_outlined hσ hword hresolve (hleast _ (List.mem_map_of_mem hr))

/-- **Luck decides on well-formedness by subtractions and by depth alone.** One input is
rolled twice, under one setup, from two sources in range, without problems. If the same
words begin with a minus sign directly behind an operand in both runs, if no word came to
the least integer, and if no run was refused for its depth, then the text is arithmetic
in both or in neither. -/
theorem isMalformed_eq_of_subtractions {σ τ : Type} [Source σ] [Source τ]
    (hσ : Source.InRange σ) (hτ : Source.InRange τ) {u : Setup} {input raw₁ raw₂ : Text} {s : σ}
    {t : τ} {leaf₁ leaf₂ : Leaf}
    (h₁ : ((⟨u, s⟩ : Session σ).parse input).1 = .leaf raw₁ [] leaf₁)
    (h₂ : ((⟨u, t⟩ : Session τ).parse input).1 = .leaf raw₂ [] leaf₂)
    (hsigns : leaf₁.subtractions = leaf₂.subtractions)
    (hleast : ∀ expression ∈ leaf₁.expressions ++ leaf₂.expressions, isLeast expression = false)
    (hdeep₁ : isTooDeep leaf₁.result = false) (hdeep₂ : isTooDeep leaf₂.result = false) :
    isMalformed leaf₁.result = isMalformed leaf₂.result := by
  rw [Session.parse_fst] at h₁ h₂
  obtain ⟨rfl, hleaf₁⟩ := Setup.roll_eq_leaf h₁
  obtain ⟨rfl, hleaf₂⟩ := Setup.roll_eq_leaf h₂
  obtain ⟨resolved₁, hresolved₁, rfl⟩ := rollLeaf_eq_leaf hleaf₁
  obtain ⟨resolved₂, hresolved₂, rfl⟩ := rollLeaf_eq_leaf hleaf₂
  obtain ⟨hleast₁, hleast₂⟩ := List.forall_mem_append.1 hleast
  obtain ⟨slots₁, hslots₁⟩ := exists_spelled_outlined hσ hresolved₁ hleast₁
  obtain ⟨slots₂, hslots₂⟩ := exists_spelled_outlined hτ hresolved₂ hleast₂
  rw [Bool.eq_iff_iff, ← not_iff_not, Bool.not_eq_true, Bool.not_eq_true]
  exact ⟨isMalformed_of_subtractions hslots₁ hslots₂ hsigns hdeep₂,
    isMalformed_of_subtractions hslots₂ hslots₁ hsigns.symm hdeep₁⟩

/-- Two runs in which a Fate die behind an operator shows minus one and one. -/
theorem isMalformed_eq_of_operator :
    ∃ leaf₁ leaf₂, ((Session.ofSource (⟨[3, 4, 1], 0⟩ : Recording)).parse "2d6-dF".toList).1
        = .leaf "2d6-dF".toList [] leaf₁
      ∧ ((Session.ofSource (⟨[6, 2, 3], 0⟩ : Recording)).parse "2d6-dF".toList).1
        = .leaf "2d6-dF".toList [] leaf₂
      ∧ isMalformed leaf₁.result = isMalformed leaf₂.result := by
  have h₁ : ((Session.ofSource (⟨[3, 4, 1], 0⟩ : Recording)).parse "2d6-dF".toList).1
      = .leaf "2d6-dF".toList [] (Leaf.ofResolved ["2d6".toList, "-".toList, "dF".toList] none
          [.literal "(3+4)".toList, .literal "-".toList, .literal "-1".toList]) :=
    Session.parse_of_holdsNoShorthand rfl (by decide) (by decide) rfl _
  have h₂ : ((Session.ofSource (⟨[6, 2, 3], 0⟩ : Recording)).parse "2d6-dF".toList).1
      = .leaf "2d6-dF".toList [] (Leaf.ofResolved ["2d6".toList, "-".toList, "dF".toList] none
          [.literal "(6+2)".toList, .literal "-".toList, .literal "1".toList]) :=
    Session.parse_of_holdsNoShorthand rfl (by decide) (by decide) rfl _
  have hleast : (["(3+4)".toList, "-".toList, "-1".toList]
      ++ ["(6+2)".toList, "-".toList, "1".toList]).any isLeast = false := by cbv
  exact ⟨_, _, h₁, h₂, isMalformed_eq_of_subtractions Recording.inRange Recording.inRange h₁ h₂
    (by cbv) (fun expression hmem => by simpa using List.any_eq_false.1 hleast expression hmem)
    (by cbv) (by cbv)⟩

/-- **A drawn minus sign can make arithmetic.** A number and a Fate die side by side are
arithmetic if the die shows minus one, and they are not if it shows one. -/
theorem not_forall_isMalformed_eq :
    ¬ ∀ (u : Setup) (input raw : Text) (s t : Recording) (leaf₁ leaf₂ : Leaf),
        ((⟨u, s⟩ : Session Recording).parse input).1 = .leaf raw [] leaf₁ →
        ((⟨u, t⟩ : Session Recording).parse input).1 = .leaf raw [] leaf₂ →
        isMalformed leaf₁.result = isMalformed leaf₂.result := by
  intro hall
  have h₁ : ((⟨Setup.usual, ⟨[1], 0⟩⟩ : Session Recording).parse "5 dF".toList).1
      = .leaf "5 dF".toList [] (Leaf.ofResolved ["5".toList, "dF".toList] none
          [.literal "5".toList, .literal "-1".toList]) :=
    Session.parse_of_holdsNoShorthand rfl (by decide) (by decide) rfl _
  have h₂ : ((⟨Setup.usual, ⟨[3], 0⟩⟩ : Session Recording).parse "5 dF".toList).1
      = .leaf "5 dF".toList [] (Leaf.ofResolved ["5".toList, "dF".toList] none
          [.literal "5".toList, .literal "1".toList]) :=
    Session.parse_of_holdsNoShorthand rfl (by decide) (by decide) rfl _
  have hminus : isMalformed (Arithmetic.finalize "5 -1".toList) = false := by cbv
  have hplus : isMalformed (Arithmetic.finalize "5 1".toList) = true := by cbv
  have heq := hall _ _ _ _ _ _ _ h₁ h₂
  change isMalformed (Arithmetic.finalize "5 -1".toList)
    = isMalformed (Arithmetic.finalize "5 1".toList) at heq
  rw [hminus, hplus] at heq
  cases heq

end DiceRoll
