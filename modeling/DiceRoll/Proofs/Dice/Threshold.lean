/-
What a threshold asks of a value.

A threshold is a number, met from there on, or a comparison: text that is written behind
the value of a die and finalized together with it. The reader of dice tokens takes any
run of the characters `<`, `>` and `=` in front of digits, while arithmetic knows six
such runs (`Operation.ofText?`). So there are two things to say.

Behind a run that arithmetic knows and a number that it can hold, finalizing gives the
relation itself (`finalize_of_operator`). The run is one token, the digits are another, and
no rounding shows, because the values of dice are small. Otherwise the text is no arithmetic
(`isMalformed_of_no_arithmetic`). Of any other run the lexer takes the longest operator off
the front, and what is left is an error token, or a second operator with no operand between
the two. Digits beyond the greatest number are an error token themselves. Such a threshold
is never met.

The last part follows the reader, from which every comparison comes as such a run with
digits behind it (`DiceToken.isRead_of_ofText?`).
-/

import DiceRoll.Proofs.Arithmetic.Comparison
import DiceRoll.Proofs.Arithmetic.Neighbours
import DiceRoll.Proofs.Arithmetic.Sum
import DiceRoll.Proofs.Dice.Proper
import DiceRoll.Proofs.Markup
import DiceRoll.Dice.Success
import Mathlib

set_option autoImplicit false

namespace DiceRoll

open Text DiceRoll.Expr

/-- The comparison that is written so. Equality is written in two ways. -/
def Operation.ofText? : Text → Option Operation
  | ['<'] => some .less
  | ['>'] => some .greater
  | ['<', '='] => some .atMost
  | ['>', '='] => some .atLeast
  | ['=', '='] => some .equal
  | ['=', '=', '='] => some .equal
  | _ => none

theorem Operation.isArithmetic_of_ofText? {run : Text} {op : Operation}
    (h : ofText? run = some op) : op.isArithmetic = false := by
  unfold ofText? at h
  split at h <;> cases h <;> rfl

/-- The two parts of a comparison in a dice token: comparison characters, and digits. -/
structure Threshold.IsSuffix (run digits : Text) : Prop where
  run_ne_nil : run ≠ []
  isComparisonChar : ∀ c ∈ run, DiceToken.isComparisonChar c = true
  digits_ne_nil : digits ≠ []
  isDigit : ∀ c ∈ digits, c.isDigit = true

/-! ## The tokens of a comparison -/

namespace Token

theorem eq_of_isComparisonChar {c : Char} (hc : DiceToken.isComparisonChar c = true) :
    c = '<' ∨ c = '>' ∨ c = '=' := by
  simpa [DiceToken.isComparisonChar, or_assoc] using hc

theorem scan_of_isComparisonChar {c : Char} (hc : DiceToken.isComparisonChar c = true) (s : Text) :
    scan c s = comparison c s := by
  rcases eq_of_isComparisonChar hc with rfl | rfl | rfl <;> rfl

/-- The first token of a run is cut from the run alone. -/
theorem ofText_comparison {c : Char} (hc : DiceToken.isComparisonChar c = true) (run : Text)
    {digits : Text} (hdigits : ∀ d ∈ digits, d.isDigit = true) :
    ofText (c :: (run ++ digits))
      = (comparison c run).1 :: ofText ((comparison c run).2 ++ digits) := by
  have hgap : isGap c = false := by
    rcases eq_of_isComparisonChar hc with rfl | rfl | rfl <;> rfl
  have hhead : digits.head? ≠ some '=' := by
    intro h
    exact absurd (hdigits '=' (List.mem_of_head? h)) (by decide)
  rw [ofText_cons, hgap, scan_of_isComparisonChar hc, comparison_append hhead]
  rfl

/-- An operator is one token. -/
theorem comparison_of_ofText? {c : Char} {run : Text} {op : Operation}
    (h : Operation.ofText? (c :: run) = some op) :
    ∃ t, comparison c run = (t, []) ∧ t.comparison? = some op := by
  unfold Operation.ofText? at h
  split at h <;> rename_i hrun <;> cases h <;> cases hrun <;> exact ⟨_, rfl, rfl⟩

/-- A run that is no operator is not one token. -/
theorem comparison_of_ofText?_eq_none {c : Char} {run : Text}
    (h : Operation.ofText? (c :: run) = none) :
    (comparison c run).1 = .error ∨ (comparison c run).2 ≠ [] := by
  unfold comparison
  split
  -- Were nothing left behind a comparison, the run would be the operator.
  case h_7 => exact .inl rfl
  all_goals
    refine .inr ?_
    rintro rfl
    cases h

/-- A comparison neither ends an operand nor begins one. -/
theorem ends_comparison (c : Char) (s : Text) : (comparison c s).1.ends = false := by
  unfold comparison
  split <;> rfl

theorem begins_comparison (c : Char) (s : Text) : (comparison c s).1.begins = false := by
  unfold comparison
  split <;> rfl

end Token

/-! ## The value of a comparison -/

namespace Threshold

open Token

variable {run digits : Text}

/-- An operator with digits behind it is two tokens. -/
theorem IsSuffix.ofText_of_operator (h : IsSuffix run digits) {op : Operation}
    (hop : Operation.ofText? run = some op) :
    ∃ t, t.comparison? = some op ∧ Token.ofText (run ++ digits) = [t, ofDigits digits] := by
  obtain ⟨c, run, rfl⟩ := List.exists_cons_of_ne_nil h.run_ne_nil
  obtain ⟨t, hrun, ht⟩ := comparison_of_ofText? hop
  have hc := h.isComparisonChar c List.mem_cons_self
  refine ⟨t, ht, ?_⟩
  rw [List.cons_append, ofText_comparison hc run h.isDigit, hrun, List.nil_append,
    ofText_digits h.isDigit h.digits_ne_nil]

/-- No rule of the grammar takes a run that is no operator. -/
theorem IsSuffix.not_derives_of_no_operator (h : IsSuffix run digits)
    (hop : Operation.ofText? run = none) {rule : Rule} {ts : List Token} {e : Expr} :
    ¬ Derives rule (ts ++ Token.ofText (run ++ digits)) e := by
  intro he
  obtain ⟨c, run, rfl⟩ := List.exists_cons_of_ne_nil h.run_ne_nil
  obtain ⟨hc, hrun⟩ := List.forall_mem_cons.1 h.isComparisonChar
  rw [List.cons_append, ofText_comparison hc run h.isDigit] at he
  rcases comparison_of_ofText?_eq_none hop with herror | hrest
  · rw [herror] at he
    exact he.error_not_mem (List.mem_append_right _ List.mem_cons_self)
  · obtain ⟨d, rest, hrest⟩ := List.exists_cons_of_ne_nil hrest
    obtain ⟨u, hu, -⟩ := comparison_consumes c run
    have hd : DiceToken.isComparisonChar d = true := by
      refine hrun d ?_
      rw [hu, hrest]
      exact List.mem_append_right u List.mem_cons_self
    -- The second operator stands where an operand has to begin.
    rw [hrest, List.cons_append, ofText_comparison hd rest h.isDigit, List.append_cons] at he
    obtain ⟨front, t, hfront, ht⟩ := he.joined.ends_of_not_begins (begins_comparison d rest)
    obtain ⟨-, hlast⟩ := List.append_inj' hfront rfl
    cases hlast
    rw [ends_comparison] at ht
    cases ht

/-- No rule of the grammar takes digits beyond the greatest number. -/
theorem IsSuffix.not_derives_of_beyond (h : IsSuffix run digits) {op : Operation}
    (hop : Operation.ofText? run = some op) (hbeyond : Number.maxInt < digits.value)
    {rule : Rule} {ts : List Token} {e : Expr} :
    ¬ Derives rule (ts ++ Token.ofText (run ++ digits)) e := by
  intro he
  obtain ⟨t, -, htokens⟩ := h.ofText_of_operator hop
  rw [htokens, ofDigits, if_neg (Int.not_le.2 hbeyond)] at he
  refine he.error_not_mem (List.mem_append_right _ ?_)
  exact List.mem_cons_of_mem t List.mem_cons_self

/-- The tokens behind a value do not depend on the value. -/
theorem IsSuffix.ofText_append (h : IsSuffix run digits) {v : Int} (hv : Number.Readable v) :
    Token.ofText (Markup.plain (Text.ofInt v ++ (run ++ digits)))
      = intTokens v ++ Token.ofText (run ++ digits) := by
  have hplain : '_' ∉ Text.ofInt v ++ (run ++ digits) := by
    rw [List.mem_append, List.mem_append, not_or, not_or]
    refine ⟨Markup.underscore_not_mem_ofInt v, fun hmem => ?_, fun hmem => ?_⟩
    · exact absurd (h.isComparisonChar _ hmem) (by decide)
    · exact absurd (h.isDigit _ hmem) (by decide)
  rw [Markup.plain_of_not_mem (.inl hplain), ofText_ofInt_append hv]
  intro c hc
  rw [List.head?_append_of_ne_nil _ h.run_ne_nil] at hc
  rcases eq_of_isComparisonChar (h.isComparisonChar c (List.mem_of_head? hc)) with
    rfl | rfl | rfl <;> decide

/-- The values that every comparison tells apart from their neighbours. -/
def IsSmall (v : Int) : Prop := v.natAbs + 1 < 2 ^ 53

theorem isSmall_of_bounds {v : Int} (hlow : -1 ≤ v) (hhigh : v ≤ maxCount) : IsSmall v := by
  simp only [IsSmall, maxCount] at hhigh ⊢
  omega

theorem IsSmall.readable {v : Int} (hv : IsSmall v) : Number.Readable v := by
  simp only [IsSmall, Number.Readable, Number.minInt, Number.maxInt] at hv ⊢
  omega

/-- **Behind an operator finalizing gives the relation.** -/
theorem finalize_of_operator (h : IsSuffix run digits) {op : Operation}
    (hop : Operation.ofText? run = some op) (hmax : (digits.value : Int) ≤ Number.maxInt)
    {v : Int} (hv : IsSmall v) :
    Arithmetic.finalize (Text.ofInt v ++ (run ++ digits))
      = .ok (.ofBool (op.relates v digits.value)) := by
  obtain ⟨t, ht, hsuffix⟩ := h.ofText_of_operator hop
  have htokens : Token.ofText (Markup.plain (Text.ofInt v ++ (run ++ digits)))
      = intTokens v ++ t :: [.integer digits.value] := by
    rw [h.ofText_append hv.readable, hsuffix, ofDigits, if_pos hmax]
  have hderives : Derives .conditional (intTokens v ++ t :: [.integer digits.value])
      (.binary (ofInt v) op (.literal (.int digits.value))) :=
    .plain (.join (s := .comparison) ht (.first (.first (.first (derives_ofInt v))))
      (.first (.first (.atom (.integer _)))))
  have hnesting : (Expr.binary (ofInt v) op (.literal (.int digits.value))).nesting
      ≤ maxNesting := by
    have := nesting_ofInt_le v
    simp only [nesting, maxNesting]
    omega
  have heval : (Expr.binary (ofInt v) op (.literal (.int digits.value))).eval
      = .ok (.ofBool (op.relates v digits.value)) := by
    rw [← op.relates_nearestInt_of_small hv]
    exact eval_binary_eq_ok_iff.2 ⟨_, _, eval_ofInt hv.readable, rfl,
      op.apply_comparison (Operation.isArithmetic_of_ofText? hop) v digits.value⟩
  rw [← htokens] at hderives
  rw [Arithmetic.finalize_of_derives hderives hnesting, heval]
  rfl

/-- **Without the operator or the number the text is no arithmetic.** -/
theorem isMalformed_of_no_arithmetic (h : IsSuffix run digits)
    (hno : Operation.ofText? run = none ∨ Number.maxInt < digits.value) {v : Int}
    (hv : Number.Readable v) :
    isMalformed (Arithmetic.finalize (Text.ofInt v ++ (run ++ digits))) = true := by
  by_contra hwell
  obtain ⟨e, he, -⟩ := Arithmetic.isMalformed_finalize.1 (Bool.eq_false_iff.2 hwell)
  rw [h.ofText_append hv] at he
  cases hop : Operation.ofText? run with
  | none => exact h.not_derives_of_no_operator hop he
  | some op =>
    rcases hno with hnone | hbeyond
    · rw [hop] at hnone
      cases hnone
    · exact h.not_derives_of_beyond hop hbeyond he

/-! ## Whether a comparison is met -/

theorem isMet_of_finalize {suffix : Text} {v : Int} {x : Bool}
    (h : Arithmetic.finalize (Text.ofInt v ++ suffix) = .ok (.ofBool x)) :
    (comparison suffix).isMet v = x := by
  rw [isMet, Arithmetic.finalizeOrZero, h]
  exact Number.isTrue_ofBool x

/-- What has no value is not met. -/
theorem isMet_of_isMalformed {suffix : Text} {v : Int}
    (h : isMalformed (Arithmetic.finalize (Text.ofInt v ++ suffix)) = true) :
    (comparison suffix).isMet v = false := by
  rw [isMet, Arithmetic.finalizeOrZero]
  split
  · rename_i x hx
    rw [hx] at h
    cases h
  · rfl

/-- **A number and the comparison with it agree.** A number is a threshold, met from there
on, and so is the comparison that says the same. Every value that a die can show meets the
one exactly if it meets the other, although the one is compared as an integer and the other
is written down, read and rounded first. -/
theorem isMet_number_eq_isMet_comparison {digits : Text} (hdigits : digits.allDigits = true)
    {t : Threshold} (ht : ofText? digits = .ok t) {v : Int} (hlow : -1 ≤ v)
    (hhigh : v ≤ maxCount) :
    ∃ u, ofText? ('>' :: '=' :: digits) = .ok u ∧ t.isMet v = u.isMet v := by
  rw [ofText?, if_pos hdigits] at ht
  split at ht
  · cases ht
  · rename_i hfits
    cases ht
    simp only [Bool.or_eq_true, decide_eq_true_eq, not_or, Int.not_lt, List.isEmpty_iff] at hfits
    obtain ⟨hne, hmax⟩ := hfits
    have hsuffix : IsSuffix ['>', '='] digits := {
      run_ne_nil := List.cons_ne_nil _ _
      isComparisonChar := by simp [DiceToken.isComparisonChar]
      digits_ne_nil := hne
      isDigit := List.all_eq_true.1 hdigits }
    refine ⟨.comparison ('>' :: '=' :: digits), rfl, ?_⟩
    exact (isMet_of_finalize
      (finalize_of_operator hsuffix rfl hmax (isSmall_of_bounds hlow hhigh))).symm

/-- A number with a zero in front and the lowest value of a Fate die. -/
theorem isMet_number_eq_isMet_comparison_of_leading_zero :
    ∃ u, ofText? ['>', '=', '0', '7'] = .ok u ∧ (Threshold.atLeast 7).isMet (-1) = u.isMet (-1) :=
  isMet_number_eq_isMet_comparison rfl rfl (by decide) (by decide)

end Threshold

/-! ## The thresholds of a token -/

/-- The threshold of a modifier. -/
def Modifier.thresholds : Modifier → List Threshold
  | .explode t => [t]
  | _ => []

/-- The thresholds that are set in a success pool. -/
def SuccessSpec.thresholds (p : SuccessSpec) : List Threshold :=
  p.double.toList ++ (p.triple.toList ++ p.explode.toList)

/-- The thresholds of a token. -/
def DiceToken.thresholds : DiceToken → List Threshold
  | .pool p => p.modifier.thresholds
  | .successes p => p.thresholds

/-- Whether a die of the token can show the value: a number up to that of its sides, minus
one to one on a Fate die, and a number up to ten in a success pool. -/
def DiceToken.Shows : DiceToken → Int → Prop
  | .pool ⟨_, .numbered n, _⟩, v => 1 ≤ v ∧ v ≤ n
  | .pool ⟨_, .fate, _⟩, v => -1 ≤ v ∧ v ≤ 1
  | .successes _, v => 1 ≤ v ∧ v ≤ 10

/-- What a die of a pool can show are the values of its faces. -/
theorem DiceToken.shows_pool_iff {p : PoolSpec} {v : Int} :
    (DiceToken.pool p).Shows v
      ↔ ∃ face, (1 ≤ face ∧ face ≤ p.sides.faces) ∧ v = p.sides.valueOf face := by
  obtain ⟨count, sides, m⟩ := p
  cases sides with
  | numbered n =>
    simp only [Shows, Sides.faces, Sides.valueOf]
    exact ⟨fun h => ⟨v.toNat, by omega, by omega⟩, fun ⟨face, hface, hv⟩ => by omega⟩
  | fate =>
    simp only [Shows, Sides.faces, Sides.valueOf]
    exact ⟨fun h => ⟨(v + 2).toNat, by omega, by omega⟩, fun ⟨face, hface, hv⟩ => by omega⟩

/-- What a die shows is small: it fits a count, or it is the lowest value of a Fate die. -/
theorem DiceToken.Shows.isSmall {token : DiceToken} {v : Int} (hv : token.Shows v)
    (htoken : token.IsProper) : Threshold.IsSmall v := by
  suffices hbounds : -1 ≤ v ∧ v ≤ maxCount from Threshold.isSmall_of_bounds hbounds.1 hbounds.2
  cases token with
  | pool p =>
    obtain ⟨count, sides, m⟩ := p
    cases sides with
    | numbered n =>
      have hn : n ≤ maxCount := htoken.2.1.2
      simp only [Shows] at hv
      omega
    | fate =>
      simp only [Shows] at hv
      simp only [maxCount]
      omega
  | successes p =>
    simp only [Shows] at hv
    simp only [maxCount]
    omega

/-- A threshold that a token can have. -/
def Threshold.IsRead : Threshold → Prop
  | .atLeast _ => True
  | .comparison suffix => ∃ run digits, suffix = run ++ digits ∧ IsSuffix run digits

namespace DiceToken

/-- The argument of a flag: digits, behind comparison characters or behind nothing. -/
def IsArgument (arg : Text) : Prop :=
  ∃ run digits, arg = run ++ digits ∧ (∀ c ∈ run, isComparisonChar c = true)
    ∧ digits ≠ [] ∧ ∀ c ∈ digits, c.isDigit = true

theorem isArgument_of_argument {s arg : Text} (h : (argument s).1 = some arg) :
    IsArgument arg := by
  unfold argument at h
  simp only at h
  split at h
  · cases h
  · rename_i hne
    cases h
    exact ⟨_, _, rfl, fun _ hc => List.mem_takeWhile_imp hc,
      fun hnil => hne (List.isEmpty_iff.2 hnil), fun _ hc => List.mem_takeWhile_imp hc⟩

theorem IsArgument.isRead {arg : Text} (harg : IsArgument arg) {t : Threshold}
    (ht : Threshold.ofText? arg = .ok t) : t.IsRead := by
  unfold Threshold.ofText? at ht
  split at ht
  · split at ht
    · cases ht
    · cases ht
      trivial
  · rename_i hdigits
    cases ht
    obtain ⟨run, digits, rfl, hrun, hne, hdigit⟩ := harg
    refine ⟨run, digits, rfl, ?_, hrun, hne, hdigit⟩
    -- Digits behind nothing would have been read as a number.
    rintro rfl
    exact hdigits (List.all_eq_true.2 hdigit)

theorem isRead_of_thresholdOf {n : Int} {arg : Option Text} (harg : ∀ a ∈ arg, IsArgument a)
    {t : Threshold} (h : thresholdOf (.atLeast n) arg = .ok t) : t.IsRead := by
  cases arg with
  | none =>
    cases h
    trivial
  | some arg => exact (harg arg rfl).isRead h

theorem isRead_of_modifier {s : Sides} {text : Text} {t : Threshold}
    (h : modifier s text = .ok (.explode t)) : t.IsRead := by
  unfold modifier at h
  split at h
  · cases h
  · split at h
    · rename_i arg harg
      have harg : ∀ a ∈ arg, IsArgument a := fun a ha =>
        isArgument_of_argument ((congrArg Prod.fst harg).trans ha)
      split at h
      · split at h <;> cases h
      · split at h <;> cases h
      · obtain ⟨n, -, hn⟩ := exists_of_map_eq_ok h
        cases hn
      · obtain ⟨n, -, hn⟩ := exists_of_map_eq_ok h
        cases hn
      · obtain ⟨u, hu, hexplode⟩ := exists_of_map_eq_ok h
        cases hexplode
        exact isRead_of_thresholdOf harg hu
      · obtain ⟨n, -, hn⟩ := exists_of_map_eq_ok h
        cases hn
      · cases h
    · cases h

theorem isArgument_of_flags? {s : Text} {flags : List (Flag × Option Text)}
    (h : flags? s = some flags) : ∀ f ∈ flags, ∀ a ∈ f.2, IsArgument a := by
  induction s using flags?.induct generalizing flags with
  | case1 =>
    rw [flags?] at h
    cases h
    exact fun f hf => nomatch hf
  | case2 c s hflag =>
    rw [flags?, hflag] at h
    cases h
  | case3 c s f hflag ih =>
    rw [flags?, hflag] at h
    obtain ⟨rest, hrest, rfl⟩ := Option.map_eq_some_iff.1 h
    exact List.forall_mem_cons.2 ⟨fun a ha => isArgument_of_argument ha, ih hrest⟩

theorem thresholds_setFlag (p : SuccessSpec) (f : Flag) (t : Threshold) :
    ∀ u ∈ (setFlag p f t).thresholds, u = t ∨ u ∈ p.thresholds := by
  intro u hu
  cases f <;> simp [setFlag, SuccessSpec.thresholds] at hu ⊢ <;> tauto

theorem isRead_of_setFlags {p q : SuccessSpec} {flags : List (Flag × Option Text)}
    (hflags : ∀ f ∈ flags, ∀ a ∈ f.2, IsArgument a) (hp : ∀ t ∈ p.thresholds, t.IsRead)
    (h : setFlags p flags = .ok q) : ∀ t ∈ q.thresholds, t.IsRead := by
  induction flags generalizing p with
  | nil =>
    cases h
    exact hp
  | cons flag flags ih =>
    obtain ⟨f, arg⟩ := flag
    obtain ⟨hflag, hflags⟩ := List.forall_mem_cons.1 hflags
    rw [setFlags] at h
    split at h
    · cases h
    · rename_i t ht
      refine ih hflags (fun u hu => ?_) h
      rcases thresholds_setFlag p f t u hu with rfl | hu
      · exact isRead_of_thresholdOf hflag ht
      · exact hp u hu

theorem isRead_of_successes? {count : Nat} {sides : Option Text} {modifiers : Text}
    {p : SuccessSpec} (h : successes? count sides modifiers = .ok p) :
    ∀ t ∈ p.thresholds, t.IsRead := by
  unfold successes? at h
  split at h
  · cases h
  · split at h
    · cases h
    · rename_i flags hflags
      refine isRead_of_setFlags (isArgument_of_flags? hflags) (fun t ht => ?_) h
      cases ht

theorem isRead_of_pool? {count : Nat} {kind : Kind} {sides : Option Text} {modifiers : Text}
    {p : PoolSpec} (h : pool? count kind sides modifiers = .ok p) :
    ∀ t ∈ p.modifier.thresholds, t.IsRead := by
  unfold pool? at h
  split at h
  · cases h
  · obtain ⟨m, hm, rfl⟩ := exists_of_map_eq_ok h
    intro t ht
    cases m with
    | explode u =>
      cases List.mem_singleton.1 ht
      exact isRead_of_modifier hm
    | _ => cases ht

/-- **Every threshold of a token was written as one.** -/
theorem isRead_of_ofText? {word : Text} {token : DiceToken} (h : ofText? word = .ok token) :
    ∀ t ∈ token.thresholds, t.IsRead := by
  obtain ⟨parts, h⟩ := ofParts?_of_ofText? h
  unfold ofParts? at h
  split at h
  · cases h
  · split at h
    · obtain ⟨p, hp, rfl⟩ := exists_of_map_eq_ok h
      exact isRead_of_successes? hp
    · obtain ⟨p, hp, rfl⟩ := exists_of_map_eq_ok h
      exact isRead_of_pool? hp

/-- **What a comparison in a token says of a die.** It is a run of comparison characters
with digits behind it. If arithmetic has that comparison and the number, then behind every
value that a die of the token can show the text finalizes, to one where the comparison
holds and to zero where it does not, and that is when the threshold is met. If arithmetic
has no such comparison, or if the number is beyond the greatest that it can hold, then the
text is no arithmetic behind any value, and the threshold is never met. -/
theorem isMet_of_read {word : Text} {token : DiceToken} (h : ofText? word = .ok token)
    {suffix : Text} (hsuffix : .comparison suffix ∈ token.thresholds) :
    ∃ run digits, suffix = run ++ digits ∧ Threshold.IsSuffix run digits
      ∧ (∀ op, Operation.ofText? run = some op → (digits.value : Int) ≤ Number.maxInt →
          ∀ v, token.Shows v →
            Arithmetic.finalize (Text.ofInt v ++ suffix) = .ok (.ofBool (op.relates v digits.value))
              ∧ (Threshold.comparison suffix).isMet v = op.relates v digits.value)
      ∧ (Operation.ofText? run = none ∨ Number.maxInt < digits.value → ∀ v, token.Shows v →
          isMalformed (Arithmetic.finalize (Text.ofInt v ++ suffix)) = true
            ∧ (Threshold.comparison suffix).isMet v = false) := by
  obtain ⟨run, digits, rfl, hrun⟩ := isRead_of_ofText? h _ hsuffix
  have hsmall : ∀ v, token.Shows v → Threshold.IsSmall v := fun v hv =>
    hv.isSmall (isProper_of_ofText? h)
  refine ⟨run, digits, rfl, hrun, fun op hop hmax v hv => ?_, fun hno v hv => ?_⟩
  · have hvalue := Threshold.finalize_of_operator hrun hop hmax (hsmall v hv)
    exact ⟨hvalue, Threshold.isMet_of_finalize hvalue⟩
  · have hmalformed := Threshold.isMalformed_of_no_arithmetic hrun hno (hsmall v hv).readable
    exact ⟨hmalformed, Threshold.isMet_of_isMalformed hmalformed⟩

/-- A success pool that explodes on a comparison, besides a plain threshold. -/
theorem isMet_of_read_success_pool :
    let suffix : Text := ['=', '=', '9']
    let token : DiceToken := .successes ⟨3, 5, some (.atLeast 10), none, some (.comparison suffix)⟩
    ofText? ['3', 'w', 'd', 'e', '=', '=', '9'] = .ok token
      ∧ .comparison suffix ∈ token.thresholds
      ∧ ∃ run digits : Text, suffix = run ++ digits ∧ Threshold.IsSuffix run digits
        ∧ (∀ op, Operation.ofText? run = some op → (digits.value : Int) ≤ Number.maxInt →
            ∀ v, token.Shows v →
              Arithmetic.finalize (Text.ofInt v ++ suffix)
                  = .ok (.ofBool (op.relates v digits.value))
                ∧ (Threshold.comparison suffix).isMet v = op.relates v digits.value)
        ∧ (Operation.ofText? run = none ∨ Number.maxInt < digits.value → ∀ v, token.Shows v →
            isMalformed (Arithmetic.finalize (Text.ofInt v ++ suffix)) = true
              ∧ (Threshold.comparison suffix).isMet v = false) := by
  intro suffix token
  have htoken : ofText? ['3', 'w', 'd', 'e', '=', '=', '9'] = .ok token := by cbv
  have hsuffix : .comparison suffix ∈ token.thresholds := by decide
  exact ⟨htoken, hsuffix, isMet_of_read htoken hsuffix⟩

/-- **The reader takes comparisons that arithmetic does not have.** A single equals sign is
one. No value of the die is followed by it in any arithmetic. It also takes numbers that
arithmetic does not have, behind an operator that it has. -/
theorem not_forall_finalize_of_read :
    (¬ ∀ (word : Text) (token : DiceToken) (suffix : Text) (v : Int),
        ofText? word = .ok token → .comparison suffix ∈ token.thresholds → token.Shows v →
        ∃ x, Arithmetic.finalize (Text.ofInt v ++ suffix) = .ok x)
    ∧ ¬ ∀ (word : Text) (token : DiceToken) (suffix : Text) (v : Int),
        ofText? word = .ok token → .comparison suffix ∈ token.thresholds → token.Shows v →
        (Operation.ofText? (suffix.takeWhile isComparisonChar)).isSome = true →
        ∃ x, Arithmetic.finalize (Text.ofInt v ++ suffix) = .ok x := by
  constructor
  · intro hall
    obtain ⟨x, hx⟩ := hall ['d', '6', 'e', '=', '5']
      (.pool ⟨1, .numbered 6, .explode (.comparison ['=', '5'])⟩) ['=', '5'] 5
      (by cbv) (by decide) ⟨by decide, by decide⟩
    have hfails : isMalformed (Arithmetic.finalize (Text.ofInt 5 ++ ['=', '5'])) = true := by cbv
    rw [hx] at hfails
    cases hfails
  · intro hall
    -- Nineteen nines are more than a word of sixty-four bits holds.
    let suffix : Text := '<' :: List.replicate 19 '9'
    obtain ⟨x, hx⟩ := hall (['d', '6', 'e'] ++ suffix)
      (.pool ⟨1, .numbered 6, .explode (.comparison suffix)⟩) suffix 5
      (by cbv) (by decide) ⟨by decide, by decide⟩ rfl
    have hfails : isMalformed (Arithmetic.finalize (Text.ofInt 5 ++ suffix)) = true := by cbv
    rw [hx] at hfails
    cases hfails

end DiceToken

end DiceRoll
