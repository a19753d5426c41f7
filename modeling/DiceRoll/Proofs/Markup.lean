/-
Emphasis comes off, and only off numbers.

The text of a roll is evaluated as it is shown, less the emphasis on its numbers.
No emphasis reaches across a plus sign, a parenthesis or a blank, so it comes off
the items of a sum and the words of a roll one by one (`plain_intercalate`), and
what it leaves of an emphasized integer is the integer (`plain_emphasis`).
-/

import DiceRoll.Proofs.Text.Boundary
import DiceRoll.Dice.Pool

set_option autoImplicit false

namespace DiceRoll

open Text

/-! ## Where emphasis ends -/

/-- What follows `lead` is found before a character that `lead` does not hold. -/
theorem Text.after?_append {c : Char} {lead : Text} (hc : c ∉ lead) (a b : Text) :
    after? lead (a ++ c :: b) = (after? lead a).map (· ++ c :: b) := by
  induction lead generalizing a with
  | nil => rfl
  | cons d lead ih =>
    have hd : d ≠ c := fun h => hc (h ▸ List.mem_cons_self)
    cases a with
    | nil => simp [after?, hd]
    | cons x a =>
      rw [List.cons_append, after?, after?]
      split
      · exact ih (fun h => hc (List.mem_cons_of_mem d h)) a
      · rfl

namespace Markup

/-- Whether a character occurs in no emphasis. -/
def isForeign (c : Char) : Bool := !(isNumberChar c || c == '_' || c == '*' || c == '-')

theorem not_mem_of_isForeign {c : Char} (hc : isForeign c = true) :
    c ∉ emphasisOpen ∧ c ∉ emphasisClose ∧ c ≠ '-' ∧ isNumberChar c = false := by
  simp only [isForeign, Bool.not_eq_true', Bool.or_eq_false_iff, beq_eq_false_iff_ne] at hc
  obtain ⟨⟨⟨hnumber, hunderscore⟩, hstar⟩, hminus⟩ := hc
  refine ⟨?_, ?_, hminus, hnumber⟩
  · simp [emphasisOpen, hunderscore, hstar]
  · simp [emphasisClose, hunderscore, hstar]

theorem sign_append {c : Char} (hc : c ≠ '-') (a b : Text) :
    sign (a ++ c :: b) = ((sign a).1, (sign a).2 ++ c :: b) := by
  cases a with
  | nil =>
    unfold sign
    split <;> simp_all
  | cons d a =>
    rw [List.cons_append]
    unfold sign
    split <;> simp_all

/-- An emphasis in front of a foreign character ends before it. -/
theorem emphasized?_append {c : Char} (hc : isForeign c = true) (a b : Text) :
    emphasized? (a ++ c :: b)
      = (emphasized? a).map fun found => (found.1, found.2 ++ c :: b) := by
  obtain ⟨hopen, hclose, hminus, hnumber⟩ := not_mem_of_isForeign hc
  unfold emphasized?
  rw [after?_append hopen]
  cases after? emphasisOpen a with
  | none => rfl
  | some inside =>
    have hstop : ∀ d ∈ (c :: b).head?, isNumberChar d = false := by
      intro d hd
      cases hd
      exact hnumber
    simp only [Option.map_some, sign_append hminus, takeWhile_append_of_stop hstop,
      dropWhile_append_of_stop hstop, after?_append hclose]
    split
    · rfl
    · cases after? emphasisClose ((sign inside).2.dropWhile isNumberChar) <;> rfl

/-- **Emphasis comes off on either side of a foreign character.** -/
theorem plain_append {c : Char} (hc : isForeign c = true) (a b : Text) :
    plain (a ++ c :: b) = plain a ++ c :: plain b := by
  have hnone : emphasized? (c :: b) = none := by
    have h := emphasized?_append hc [] b
    rw [List.nil_append] at h
    rw [h]
    rfl
  rw [plain, substitute_append (fun a _ => emphasized?_append hc a b),
    substitute_cons_of_none hnone]

@[simp] theorem plain_nil : plain [] = [] := by rw [plain, substitute]

theorem plain_cons {c : Char} (hc : isForeign c = true) (b : Text) :
    plain (c :: b) = c :: plain b := by
  simpa using plain_append hc [] b

theorem plain_intercalate {c : Char} (hc : isForeign c = true) (items : List Text) :
    plain ([c].intercalate items) = [c].intercalate (items.map plain) :=
  map_intercalate plain_nil (plain_append hc) items

theorem plain_group (items : List Text) :
    plain (group ['+'] items) = group ['+'] (items.map plain) := by
  have hjoined := plain_intercalate (c := '+') rfl items
  unfold group
  rw [List.length_map]
  split
  · rw [plain_append (c := ')') rfl, plain_cons (c := '(') rfl, hjoined, plain_nil]
  · exact hjoined

/-! ## What stays, and what comes off -/

/-- A text without underscores or without stars holds no emphasis. -/
theorem plain_of_not_mem {s : Text} (hs : '_' ∉ s ∨ '*' ∉ s) : plain s = s := by
  refine substitute_of_none fun r hr => ?_
  have hnone : after? emphasisOpen r = none := by
    cases hafter : after? emphasisOpen r with
    | none => rfl
    | some inside =>
      have hmem : '_' ∈ s ∧ '*' ∈ s := by
        rw [after?_eq_some_iff.1 hafter] at hr
        exact ⟨hr.subset (by simp [emphasisOpen]), hr.subset (by simp [emphasisOpen])⟩
      exact absurd hmem (by rcases hs with h | h <;> simp [h])
  rw [emphasized?, hnone]

theorem after?_self_append (lead s : Text) : after? lead (lead ++ s) = some s :=
  after?_eq_some_iff.2 rfl

/-- A number on which emphasis may stand: digits and points, behind a minus sign or not. -/
def IsNumber (s : Text) : Prop :=
  ∃ minus digits, (minus = [] ∨ minus = ['-']) ∧ digits ≠ []
    ∧ (∀ c ∈ digits, isNumberChar c = true) ∧ s = minus ++ digits

/-- A number with emphasis on it is read off whole, whatever stands behind it. -/
theorem emphasized?_emphasis {number : Text} (h : IsNumber number) (rest : Text) :
    emphasized? (emphasis number ++ rest) = some (number, rest) := by
  obtain ⟨minus, digits, hminus, hne, hdigits, rfl⟩ := h
  have hstop : ∀ c ∈ (emphasisClose ++ rest).head?, isNumberChar c = false := by
    intro c hc
    cases hc
    rfl
  have htake : (digits ++ (emphasisClose ++ rest)).takeWhile isNumberChar = digits :=
    takeWhile_run hdigits hstop
  have hdrop :
      (digits ++ (emphasisClose ++ rest)).dropWhile isNumberChar = emphasisClose ++ rest :=
    dropWhile_run hdigits hstop
  have hsign : sign (minus ++ (digits ++ (emphasisClose ++ rest)))
      = (minus, digits ++ (emphasisClose ++ rest)) := by
    rcases hminus with rfl | rfl
    · obtain ⟨c, digits, rfl⟩ := List.exists_cons_of_ne_nil hne
      rw [List.nil_append, List.cons_append]
      unfold sign
      split
      · rename_i h
        have hc := hdigits c List.mem_cons_self
        rw [(List.cons.inj h).1] at hc
        cases hc
      · rfl
    · rfl
  rw [emphasized?, emphasis, List.append_assoc, List.append_assoc, after?_self_append]
  simp [List.append_assoc, hsign, htake, hdrop, after?_self_append, hne]

theorem sign_eq_append (s : Text) :
    ((sign s).1 = [] ∨ (sign s).1 = ['-']) ∧ s = (sign s).1 ++ (sign s).2 := by
  unfold sign
  split
  · exact ⟨.inr rfl, rfl⟩
  · exact ⟨.inl rfl, rfl⟩

/-- **What is read as an emphasized number is one**, with emphasis around all of it. -/
theorem emphasized?_eq_some_iff {s number rest : Text} :
    emphasized? s = some (number, rest) ↔ IsNumber number ∧ s = emphasis number ++ rest := by
  constructor
  · intro h
    unfold emphasized? at h
    split at h
    · cases h
    rename_i inside hopen
    obtain ⟨hminus, hinside⟩ := sign_eq_append inside
    generalize sign inside = parts at h hminus hinside
    obtain ⟨minus, digits⟩ := parts
    simp only at h hminus hinside
    split at h
    · cases h
    rename_i hne
    obtain ⟨rest, hclose, hfound⟩ := Option.map_eq_some_iff.1 h
    cases hfound
    have hdigits := List.takeWhile_append_dropWhile (p := isNumberChar) (l := digits)
    rw [after?_eq_some_iff.1 hclose] at hdigits
    refine ⟨⟨minus, _, hminus, by simpa using hne, fun c hc => List.mem_takeWhile_imp hc, rfl⟩, ?_⟩
    rw [after?_eq_some_iff.1 hopen, hinside, emphasis]
    simp only [List.append_assoc, hdigits]
  · rintro ⟨hnumber, rfl⟩
    exact emphasized?_emphasis hnumber rest

theorem isNumberChar_of_mem_ofNat {n : Nat} {c : Char} (hc : c ∈ Text.ofNat n) :
    isNumberChar c = true := by
  have : c.isDigit = true := Nat.isDigit_of_mem_toDigits (by decide) (by decide) hc
  simp [isNumberChar, this]

/-- The text of an integer is a numeral, behind a minus sign or not. -/
theorem ofInt_eq (v : Int) :
    ∃ minus, (minus = [] ∨ minus = ['-']) ∧ Text.ofInt v = minus ++ Text.ofNat v.natAbs := by
  cases v with
  | ofNat n => exact ⟨[], .inl rfl, rfl⟩
  | negSucc n => exact ⟨['-'], .inr rfl, rfl⟩

theorem isNumber_ofInt (v : Int) : IsNumber (Text.ofInt v) := by
  obtain ⟨minus, hminus, hv⟩ := ofInt_eq v
  exact ⟨minus, _, hminus, Nat.toDigits_ne_nil, fun _ => isNumberChar_of_mem_ofNat, hv⟩

/-- **Emphasis comes off an integer.** -/
theorem plain_emphasis (v : Int) : plain (emphasis (Text.ofInt v)) = Text.ofInt v := by
  have hread := emphasized?_emphasis (isNumber_ofInt v) []
  rw [List.append_nil] at hread
  exact substitute_of_read (by simp [emphasis, emphasisOpen]) hread

theorem underscore_not_mem_ofInt (v : Int) : '_' ∉ Text.ofInt v := by
  obtain ⟨minus, hminus, hv⟩ := ofInt_eq v
  rw [hv, List.mem_append]
  rintro (h | h)
  · rcases hminus with rfl | rfl <;> simp at h
  · exact absurd (isNumberChar_of_mem_ofNat h) (by decide)

theorem plain_ofInt (v : Int) : plain (Text.ofInt v) = Text.ofInt v :=
  plain_of_not_mem (.inl (underscore_not_mem_ofInt v))

theorem plain_die (d : Die) : plain d.text = Text.ofInt d.value := by
  unfold Die.text
  split
  · exact plain_emphasis d.value
  · exact plain_ofInt d.value

/-- The dice of a sum, without their emphasis. -/
theorem plain_sumText (dice : List Die) :
    plain (Resolved.sumText dice) = group ['+'] (dice.map fun d => Text.ofInt d.value) := by
  rw [Resolved.sumText, plain_group, List.map_map]
  exact congrArg _ (List.map_congr_left fun d _ => plain_die d)

end Markup

end DiceRoll
