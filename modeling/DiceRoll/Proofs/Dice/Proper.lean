/-
What the reader of dice tokens promises.

A token that was read has positive counts of dice, sides and kept dice, all within
thirty-two bits. Everything that rolls a token leans on this: a pool that was read
holds a die, and so does what is kept of it.
-/

import DiceRoll.Dice.Reader

set_option autoImplicit false

namespace DiceRoll

/-- A count that a token can hold. -/
def IsCount (n : Nat) : Prop := 1 ≤ n ∧ n ≤ maxCount

/-- Sides that a token can have. -/
def Sides.IsProper : Sides → Prop
  | .numbered n => IsCount n
  | .fate => True

/-- A modifier that a token can have. -/
def Modifier.IsProper : Modifier → Prop
  | .keep n => IsCount n
  | .lose n => IsCount n
  | .flat n => IsCount n
  | _ => True

/-- A token whose counts are counts. -/
def DiceToken.IsProper : DiceToken → Prop
  | .pool p => IsCount p.count ∧ p.sides.IsProper ∧ p.modifier.IsProper
  | .successes p => IsCount p.count ∧ IsCount p.success

theorem Sides.IsProper.one_le_faces {s : Sides} (h : s.IsProper) : 1 ≤ s.faces := by
  cases s with
  | numbered n => exact h.1
  | fate => decide

theorem isCount_one : IsCount 1 := by
  constructor <;> decide

/-! ## Reading

The reader goes through texts in steps that can fail. A result says what each step on
the way to it has read. -/

namespace DiceToken

theorem exists_of_map_eq_ok {ε α β : Type} {f : α → β} {x : Except ε α} {b : β}
    (h : x.map f = .ok b) : ∃ a, x = .ok a ∧ f a = b := by
  cases x with
  | error e => cases h
  | ok a => exact ⟨a, rfl, Except.ok.inj h⟩

theorem isCount_of_positive {ds : Text} {n : Nat} (h : positive ds = .ok n) : IsCount n := by
  unfold positive at h
  split at h
  · cases h
  · split at h
    · cases h
    · cases h
      constructor <;> omega

theorem isCount_of_countOf {arg : Option Text} {n : Nat} (h : countOf arg = .ok n) : IsCount n := by
  cases arg with
  | none =>
    cases h
    exact isCount_one
  | some arg =>
    rw [countOf] at h
    split at h
    · exact isCount_of_positive h
    · cases h

theorem isProper_of_countOf (make : Nat → Modifier) (hmake : ∀ n, IsCount n → (make n).IsProper)
    {arg : Option Text} {m : Modifier} (h : (countOf arg).map make = .ok m) : m.IsProper := by
  obtain ⟨n, hcount, rfl⟩ := exists_of_map_eq_ok h
  exact hmake n (isCount_of_countOf hcount)

theorem isProper_of_modifier {s : Sides} {text : Text} {m : Modifier}
    (h : modifier s text = .ok m) : m.IsProper := by
  unfold modifier at h
  split at h
  · cases h
    trivial
  · split at h
    · rename_i arg _
      split at h
      · split at h
        · cases h
        · cases h
          trivial
      · split at h
        · cases h
        · cases h
          trivial
      · exact isProper_of_countOf .keep (fun _ hn => hn) h
      · exact isProper_of_countOf .lose (fun _ hn => hn) h
      · obtain ⟨t, -, rfl⟩ := exists_of_map_eq_ok h
        trivial
      · exact isProper_of_countOf .flat (fun _ hn => hn) h
      · cases h
    · cases h

theorem isProper_of_poolSides {kind : Kind} {text : Option Text} {s : Sides}
    (h : poolSides kind text = .ok s) : s.IsProper := by
  unfold poolSides at h
  split at h
  · cases h
    trivial
  · cases h
  · cases h
    constructor <;> decide
  · rename_i ds _
    split at h
    · cases h
      trivial
    · obtain ⟨n, hpositive, rfl⟩ := exists_of_map_eq_ok h
      exact isCount_of_positive hpositive

/-- Setting flags leaves the number of dice and the success value. -/
theorem setFlags_eq_ok {p q : SuccessSpec} {flags : List (Flag × Option Text)}
    (h : setFlags p flags = .ok q) : q.count = p.count ∧ q.success = p.success := by
  induction flags generalizing p with
  | nil =>
    cases h
    exact ⟨rfl, rfl⟩
  | cons flag flags ih =>
    obtain ⟨f, arg⟩ := flag
    rw [setFlags] at h
    split at h
    · cases h
    · obtain ⟨hcount, hsuccess⟩ := ih h
      rw [hcount, hsuccess]
      cases f <;> exact ⟨rfl, rfl⟩

theorem isProper_of_successes? {count : Nat} {sides : Option Text} {modifiers : Text}
    {p : SuccessSpec} (hcount : IsCount count) (h : successes? count sides modifiers = .ok p) :
    IsCount p.count ∧ IsCount p.success := by
  unfold successes? at h
  split at h
  · cases h
  · rename_i success hsuccess
    have hvalue : IsCount success := by
      unfold successValue at hsuccess
      split at hsuccess
      · cases hsuccess
        constructor <;> decide
      · split at hsuccess
        · cases hsuccess
        · exact isCount_of_positive hsuccess
    split at h
    · cases h
    · obtain ⟨h₁, h₂⟩ := setFlags_eq_ok h
      rw [h₁, h₂]
      exact ⟨hcount, hvalue⟩

theorem isProper_of_pool? {count : Nat} {kind : Kind} {sides : Option Text} {modifiers : Text}
    {p : PoolSpec} (hcount : IsCount count) (h : pool? count kind sides modifiers = .ok p) :
    (DiceToken.pool p).IsProper := by
  unfold pool? at h
  split at h
  · cases h
  · rename_i s hs
    obtain ⟨m, hm, rfl⟩ := exists_of_map_eq_ok h
    exact ⟨hcount, isProper_of_poolSides hs, isProper_of_modifier hm⟩

theorem isProper_of_ofParts? {parts : Parts} {token : DiceToken}
    (h : ofParts? parts = .ok token) : token.IsProper := by
  unfold ofParts? at h
  split at h
  · cases h
  · rename_i count hcount
    have hcount : IsCount count := by
      cases hdigits : parts.count with
      | none =>
        rw [hdigits] at hcount
        cases hcount
        exact isCount_one
      | some ds =>
        rw [hdigits] at hcount
        exact isCount_of_positive hcount
    split at h
    · obtain ⟨p, hp, rfl⟩ := exists_of_map_eq_ok h
      exact isProper_of_successes? hcount hp
    · obtain ⟨p, hp, rfl⟩ := exists_of_map_eq_ok h
      exact isProper_of_pool? hcount hp

/-- A token that was read was read from its parts. -/
theorem ofParts?_of_ofText? {word : Text} {token : DiceToken} (h : ofText? word = .ok token) :
    ∃ parts, ofParts? parts = .ok token := by
  unfold ofText? at h
  split at h
  · cases h
  · rename_i parts _
    split at h
    · split at h <;> cases h
    · exact ⟨parts, h⟩

/-- **The reader promises counts.** -/
theorem isProper_of_ofText? {word : Text} {token : DiceToken} (h : ofText? word = .ok token) :
    token.IsProper := by
  obtain ⟨parts, hparts⟩ := ofParts?_of_ofText? h
  exact isProper_of_ofParts? hparts

end DiceToken

end DiceRoll
