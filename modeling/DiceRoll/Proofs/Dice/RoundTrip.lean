/-
Writing a token and reading it back.

The canonical text of a token differs from the text it was read from: defaults are written
out, letters are in one case, the kind of a Fate pool is in its sides, and the flags of a
success pool stand in a fixed order, each once. So the two texts are not compared. What a
text writes, its canonical text writes too (`WritesToken.text`), part by part, and the reader
reads exactly what is written.

Only one part of a token is not free: a threshold that is left out is the highest value of
the die, and written out it has to be a numeral within the range of thresholds.
-/

import DiceRoll.Proofs.Dice.Reading

set_option autoImplicit false

namespace DiceRoll

namespace Notation

open DiceToken

/-! ## Numbers and thresholds -/

theorem isCount_five : IsCount 5 := by
  constructor <;> decide

theorem isCount_twenty : IsCount 20 := by
  constructor <;> decide

/-- A count is a value that a threshold can have. -/
theorem isValue_of_isCount {n : Nat} (hn : IsCount n) : Range.held.isValue n := by
  have := hn.2
  simp only [Range.held, Number.maxInt, maxCount] at this ⊢
  omega

theorem WritesCount.isCount {r : Range} {usual : Nat} {ds : Text} {n : Nat}
    (h : WritesCount r usual ds n) (husual : r.isCount usual) : r.isCount n := by
  cases h with
  | absent => exact husual
  | written hds hn => exact hn

theorem writesCount_ofNat {r : Range} {n : Nat} (hn : r.isCount n) (usual : Nat) :
    WritesCount r usual (Text.ofNat n) n := .written (isNumeral_ofNat n) hn

/-- A threshold is written by its own text, whatever the usual one is. -/
theorem WritesThreshold.text {r : Range} {usual : Nat} {arg : Text} {t : Threshold}
    (h : WritesThreshold r usual arg t) (husual : r.isValue usual) (other : Int) :
    WritesThreshold r other t.text t := by
  cases h with
  | absent => exact .number (isNumeral_ofNat usual) husual
  | number hds hn => exact .number (isNumeral_ofNat _) hn
  | comparison h => exact .comparison h

/-! ## Pools -/

theorem WritesSides.text {r : Range} {text : Text} {s : Sides} (h : WritesSides r text s)
    (husual : r.isCount 20) : WritesSides r s.text s := by
  cases h with
  | absent => exact .numbered (isNumeral_ofNat 20) husual
  | fate => exact .fate rfl
  | numbered hds hn => exact .numbered (isNumeral_ofNat _) hn

/-- The highest value of a die is a number that a threshold can have. -/
theorem WritesSides.exists_maxValue {text : Text} {s : Sides} (h : WritesSides .held text s) :
    ∃ n : Nat, s.maxValue = n ∧ Range.held.isValue n := by
  cases h with
  | absent => exact ⟨20, rfl, isValue_of_isCount isCount_twenty⟩
  | fate => exact ⟨1, rfl, isValue_of_isCount isCount_one⟩
  | numbered hds hn => exact ⟨_, rfl, isValue_of_isCount hn⟩

theorem WritesModifier.text {s : Sides} {text : Text} {m : Modifier}
    (h : WritesModifier .held s text m)
    (hmax : ∃ n : Nat, s.maxValue = n ∧ Range.held.isValue n) :
    WritesModifier .held s m.text m := by
  cases h with
  | plain => exact .plain
  | advantage => exact .advantage rfl
  | disadvantage => exact .disadvantage rfl
  | keep _ harg => exact .keep rfl (writesCount_ofNat (harg.isCount isCount_one) 1)
  | lose _ harg => exact .lose rfl (writesCount_ofNat (harg.isCount isCount_one) 1)
  | flat harg => exact .flat (writesCount_ofNat (harg.isCount isCount_one) 1)
  | explode _ harg =>
    obtain ⟨n, hn, hvalue⟩ := hmax
    rw [hn] at harg
    exact .explode rfl (harg.text hvalue _)

/-! ## Success pools -/

/-- The last threshold of a flag is a threshold of the row. -/
theorem WritesFlags.text_lastOf {text : Text} {fs : List (Flag × Threshold)}
    (h : WritesFlags .held text fs) (f : Flag) :
    ∀ t ∈ lastOf f fs, WritesThreshold .held 10 t.text t := by
  induction h with
  | none => exact fun t ht => nomatch ht
  | @next c g arg rest u fs hc harg hrest ih =>
    intro t ht
    rw [lastOf, Option.mem_def, Option.or_eq_some_iff] at ht
    rcases ht with ht | ⟨-, ht⟩
    · exact ih t ht
    · split at ht
      · cases ht
        have hten : Range.held.isValue (10 : Nat) := isValue_of_isCount (by constructor <;> decide)
        exact harg.text hten 10
      · cases ht

/-- A flag in front of flags, if it is set. -/
theorem WritesFlags.flagText {r : Range} {rest : Text} {fs : List (Flag × Threshold)}
    (hrest : WritesFlags r rest fs) (f : Flag) {o : Option Threshold}
    (ho : ∀ t ∈ o, WritesThreshold r 10 t.text t) :
    WritesFlags r (flagText (letter f) o ++ rest) (o.toList.map (f, ·) ++ fs) := by
  cases o with
  | none => exact hrest
  | some t => exact .next (by cases f <;> rfl) (ho t rfl) hrest

/-- What is set is what its own flags set. -/
theorem lastOf_flags (triple double explode : Option Threshold) (f : Flag) :
    lastOf f (triple.toList.map (Flag.triple, ·) ++ (double.toList.map (Flag.double, ·)
        ++ (explode.toList.map (Flag.explode, ·) ++ [])))
      = match f with | .triple => triple | .double => double | .explode => explode := by
  cases f <;> cases triple <;> cases double <;> cases explode <;> rfl

/-! ## Tokens -/

/-- **What is written is written by its canonical text.** -/
theorem WritesToken.text {s : Text} {token : DiceToken} (h : WritesToken .held s token) :
    WritesToken .held token.text token := by
  obtain ⟨count, c, sides, modifiers, rfl, hparts⟩ := h
  cases hparts with
  | die hcount _ hsides hmodifier =>
    exact ⟨_, 'd', _, _, rfl, .die (writesCount_ofNat (hcount.isCount isCount_one) 1) rfl
      (hsides.text isCount_twenty) (hmodifier.text hsides.exists_maxValue)⟩
  | fate hcount _ hmodifier =>
    have hfate : WritesSides .held ['F'] .fate := .fate rfl
    exact ⟨_, 'd', _, _, rfl, .die (writesCount_ofNat (hcount.isCount isCount_one) 1) rfl hfate
      (hmodifier.text hfate.exists_maxValue)⟩
  | successes hcount _ hsuccess hflags =>
    have hwritten := ((WritesFlags.none.flagText .explode (hflags.text_lastOf .explode)).flagText
      .double (hflags.text_lastOf .double)).flagText .triple (hflags.text_lastOf .triple)
    have hparts := WritesParts.successes (writesCount_ofNat (hcount.isCount isCount_one) 1)
      (c := 'w') rfl (writesCount_ofNat (hsuccess.isCount isCount_five) 5) hwritten
    rw [lastOf_flags, lastOf_flags, lastOf_flags, List.append_nil] at hparts
    exact ⟨_, 'w', _, _, rfl, hparts⟩

end Notation

namespace DiceToken

/-- **Writing a token and reading it back is the identity.** -/
theorem ofText?_text {s : Text} {token : DiceToken} (h : ofText? s = .ok token) :
    ofText? token.text = .ok token :=
  Notation.ofText?_eq_ok_iff.2 (Notation.ofText?_eq_ok_iff.1 h).text

/-- A success pool with a flag that is given twice, in capitals and out of order. -/
theorem ofText?_text_success_pool :
    let s : Text := ['W', 'D', '9', 'e', '>', '=', '0', '7', 'T', 'd', '8']
    let token : DiceToken := .successes
      ⟨1, 5, some (.atLeast 8), some (.atLeast 10), some (.comparison ['>', '=', '0', '7'])⟩
    ofText? s = .ok token ∧ ofText? token.text = .ok token := by
  intro s token
  have hread : ofText? s = .ok token := by cbv
  exact ⟨hread, ofText?_text hread⟩

end DiceToken

end DiceRoll
