/-
The tokens of a text at its boundaries.

A token ends where the next character cannot continue one, and only digits, points
and equals signs ever do. So blanks and symbols cut the tokens of a text as they
cut the text (`ofText_append`), and the tokens of words joined by blanks are the
tokens of the words, one after the other.
-/

import DiceRoll.Proofs.Text.Boundary
import DiceRoll.Arithmetic.Finalize

set_option autoImplicit false

namespace DiceRoll.Token

open Text

/-! ## One token -/

/-- Whether a character can continue a token. -/
def continues (c : Char) : Bool := c.isDigit || c == '.' || c == '='

/-- A text in front of which every token ends. -/
def Fresh (b : Text) : Prop := ∀ c ∈ b.head?, continues c = false

theorem Fresh.isDigit {b : Text} (hb : Fresh b) : ∀ c ∈ b.head?, Char.isDigit c = false := by
  intro c hc
  have := hb c hc
  simp_all [continues]

theorem Fresh.head?_ne {b : Text} (hb : Fresh b) : b.head? ≠ some '=' :=
  fun h => absurd (hb '=' h) (by decide)

theorem head?_append_eq_iff {b : Text} (hb : b.head? ≠ some '=') (a : Text) :
    (a ++ b).head? = some '=' ↔ a.head? = some '=' := by
  cases a with
  | nil =>
    constructor
    · intro h
      exact absurd h hb
    · intro h
      cases h
  | cons c a => rfl

theorem fraction?_of_ne {c : Char} (hc : c ≠ '.') (s : Text) : fraction? (c :: s) = none := by
  unfold fraction?
  split
  · simp_all
  · rfl

theorem fraction?_append {b : Text} (hb : Fresh b) (a : Text) :
    fraction? (a ++ b) = (fraction? a).map fun found => (found.1, found.2 ++ b) := by
  cases a with
  | nil =>
    cases b with
    | nil => rfl
    | cons c b =>
      rw [List.nil_append, fraction?_of_ne]
      · rfl
      · rintro rfl
        exact absurd (hb '.' rfl) (by decide)
  | cons c a =>
    by_cases hc : c = '.'
    · subst hc
      cases a with
      | nil =>
        cases b with
        | nil => rfl
        | cons c b => simp [fraction?, hb.isDigit c rfl]
      | cons d a =>
        have htake := takeWhile_append_of_stop hb.isDigit (d :: a)
        have hdrop := dropWhile_append_of_stop hb.isDigit a
        rw [List.cons_append] at htake
        simp only [List.cons_append, fraction?, htake, hdrop]
        split <;> rfl
    · rw [List.cons_append, fraction?_of_ne hc, fraction?_of_ne hc]
      rfl

/-! The comparisons, each by the equals signs behind its first character. -/

theorem comparison_equal (s : Text) :
    comparison '=' s
      = if s.head? = some '=' then
          (.equal, if s.tail.head? = some '=' then s.tail.tail else s.tail)
        else (.error, s) := by
  match s with
  | [] => rfl
  | [c] => by_cases hc : c = '=' <;> simp [comparison, hc]
  | c :: d :: s =>
    by_cases hc : c = '='
    · by_cases hd : d = '=' <;> simp [comparison, hc, hd]
    · simp [comparison, hc]

theorem comparison_greater (s : Text) :
    comparison '>' s = if s.head? = some '=' then (.atLeast, s.tail) else (.greater, s) := by
  cases s with
  | nil => rfl
  | cons c s => by_cases hc : c = '=' <;> simp [comparison, hc]

theorem comparison_less (s : Text) :
    comparison '<' s = if s.head? = some '=' then (.atMost, s.tail) else (.less, s) := by
  cases s with
  | nil => rfl
  | cons c s => by_cases hc : c = '=' <;> simp [comparison, hc]

theorem comparison_of_ne {c : Char} (h₁ : c ≠ '=') (h₂ : c ≠ '>') (h₃ : c ≠ '<') (s : Text) :
    comparison c s = (.error, s) := by
  unfold comparison
  split <;> first | contradiction | rfl

/-- A comparison ends where no equals sign follows. -/
theorem comparison_append {b : Text} (hb : b.head? ≠ some '=') (c : Char) (a : Text) :
    comparison c (a ++ b) = ((comparison c a).1, (comparison c a).2 ++ b) := by
  have htail : a.head? = some '=' → (a ++ b).tail = a.tail ++ b := by
    intro h
    cases a with
    | nil => cases h
    | cons d a => rfl
  have htail₂ : a.tail.head? = some '=' → (a.tail ++ b).tail = a.tail.tail ++ b := by
    intro h
    cases hrest : a.tail with
    | nil => simp [hrest] at h
    | cons d r => rfl
  by_cases h₁ : c = '='
  · subst h₁
    rw [comparison_equal, comparison_equal]
    simp only [head?_append_eq_iff hb]
    split
    · rename_i h
      simp only [htail h, head?_append_eq_iff hb]
      split
      · rw [htail₂ ‹_›]
      · rfl
    · rfl
  by_cases h₂ : c = '>'
  · subst h₂
    rw [comparison_greater, comparison_greater]
    simp only [head?_append_eq_iff hb]
    split
    · rw [htail ‹_›]
    · rfl
  by_cases h₃ : c = '<'
  · subst h₃
    rw [comparison_less, comparison_less]
    simp only [head?_append_eq_iff hb]
    split
    · rw [htail ‹_›]
    · rfl
  rw [comparison_of_ne h₁ h₂ h₃, comparison_of_ne h₁ h₂ h₃]

/-- **A token ends at a boundary.** In front of a text that cannot continue it, a
token is the one that the text before it begins with. -/
theorem scan_append {b : Text} (hb : Fresh b) (c : Char) (a : Text) :
    scan c (a ++ b) = ((scan c a).1, (scan c a).2 ++ b) := by
  have htake := takeWhile_append_of_stop hb.isDigit a
  have hdrop := dropWhile_append_of_stop hb.isDigit a
  have hfraction := fraction?_append hb (c :: a)
  rw [List.cons_append] at hfraction
  unfold scan
  split
  · rw [htake, hdrop]
    unfold number
    rw [fraction?_append hb]
    cases fraction? (a.dropWhile Char.isDigit) <;> rfl
  · cases symbol? c with
    | some t => rfl
    | none =>
      simp only [hfraction]
      cases fraction? (c :: a) with
      | some found => rfl
      | none => exact comparison_append hb.head?_ne c a

/-! ## All the tokens -/

theorem ofText_cons (c : Char) (s : Text) :
    ofText (c :: s) = if isGap c then ofText s else (scan c s).1 :: ofText (scan c s).2 := by
  rw [ofText]

@[simp] theorem ofText_nil : ofText [] = [] := by rw [ofText]

/-- **Tokens split at a boundary.** -/
theorem ofText_append {b : Text} (hb : Fresh b) (a : Text) :
    ofText (a ++ b) = ofText a ++ ofText b := by
  fun_induction ofText a with
  | case1 => rfl
  | case2 c a hgap ih => rw [List.cons_append, ofText_cons, if_pos hgap, ih]
  | case3 c a hgap ih =>
    rw [List.cons_append, ofText_cons, if_neg hgap, scan_append hb, ih, List.cons_append]

theorem ofText_gap {c : Char} (hc : isGap c = true) (s : Text) : ofText (c :: s) = ofText s := by
  rw [ofText_cons, if_pos hc]

/-- Blanks belong to no token. -/
theorem ofText_append_space (a b : Text) : ofText (a ++ ' ' :: b) = ofText a ++ ofText b := by
  have hfresh : Fresh (' ' :: b) := by
    intro c hc
    cases hc
    decide
  rw [ofText_append hfresh, ofText_gap (by decide)]

theorem symbol?_eq_some {c : Char} {t : Token} (hc : symbol? c = some t) :
    isGap c = false ∧ continues c = false := by
  unfold symbol? at hc
  split at hc <;> first | exact ⟨by decide, by decide⟩ | cases hc

theorem ofText_symbol {c : Char} {t : Token} (hc : symbol? c = some t) (s : Text) :
    ofText (c :: s) = t :: ofText s := by
  obtain ⟨hgap, hcontinues⟩ := symbol?_eq_some hc
  have hdigit : c.isDigit = false := by simp_all [continues]
  rw [ofText_cons, hgap, scan, hdigit, hc]
  rfl

/-- A symbol is a token wherever it stands. -/
theorem ofText_append_symbol {c : Char} {t : Token} (hc : symbol? c = some t) (a b : Text) :
    ofText (a ++ c :: b) = ofText a ++ t :: ofText b := by
  have hfresh : Fresh (c :: b) := by
    intro d hd
    cases hd
    exact (symbol?_eq_some hc).2
  rw [ofText_append hfresh, ofText_symbol hc]

/-- The tokens of words joined by blanks are those of the words. -/
theorem ofText_intercalate (ws : List Text) :
    ofText ([' '].intercalate ws) = ws.flatMap ofText := by
  induction ws with
  | nil => simp
  | cons w ws ih =>
    cases ws with
    | nil => simp
    | cons v ws =>
      rw [List.intercalate_cons_cons, List.append_assoc, List.singleton_append,
        ofText_append_space, ih]
      rfl

/-! ## Numerals -/

theorem isGap_eq_false_of_isDigit {c : Char} (hc : c.isDigit = true) : isGap c = false := by
  simp only [isGap, Bool.or_eq_false_iff, beq_eq_false_iff_ne]
  refine ⟨⟨⟨?_, ?_⟩, ?_⟩, ?_⟩ <;> rintro rfl <;> exact absurd hc (by decide)

/-- A run of digits is one token where neither a digit nor a point follows. -/
theorem ofText_digits_append {ds b : Text} (hds : ∀ c ∈ ds, c.isDigit = true) (hne : ds ≠ [])
    (hb : ∀ c ∈ b.head?, c.isDigit = false ∧ c ≠ '.') :
    ofText (ds ++ b) = ofDigits ds :: ofText b := by
  obtain ⟨c, s, rfl⟩ := List.exists_cons_of_ne_nil hne
  have hc : c.isDigit = true := hds c List.mem_cons_self
  have hs : ∀ d ∈ s, d.isDigit = true := fun d hd => hds d (List.mem_cons_of_mem c hd)
  have hgap := isGap_eq_false_of_isDigit hc
  have hstop : ∀ d ∈ b.head?, Char.isDigit d = false := fun d hd => (hb d hd).1
  have htake : (s ++ b).takeWhile Char.isDigit = s := takeWhile_run hs hstop
  have hdrop : (s ++ b).dropWhile Char.isDigit = b := dropWhile_run hs hstop
  have hfraction : fraction? b = none := by
    cases b with
    | nil => rfl
    | cons d b => exact fraction?_of_ne (hb d rfl).2 b
  rw [List.cons_append, ofText_cons, hgap, scan, if_pos hc, htake, hdrop]
  simp [number, hfraction]

/-- A run of digits is one token. -/
theorem ofText_digits {ds : Text} (hds : ∀ c ∈ ds, c.isDigit = true) (hne : ds ≠ []) :
    ofText ds = [ofDigits ds] := by
  have h := ofText_digits_append (b := []) hds hne (fun c hc => by cases hc)
  rwa [List.append_nil, ofText_nil] at h

theorem isDigit_of_mem_ofNat {n : Nat} {c : Char} (hc : c ∈ Text.ofNat n) : c.isDigit = true :=
  Nat.isDigit_of_mem_toDigits (by decide) (by decide) hc

theorem ofNat_ne_nil (n : Nat) : Text.ofNat n ≠ [] := Nat.toDigits_ne_nil

/-- A written number within the range is one integer token where neither a digit nor a
point follows. -/
theorem ofText_ofNat_append {n : Nat} (hn : (n : Int) ≤ Number.maxInt) {b : Text}
    (hb : ∀ c ∈ b.head?, c.isDigit = false ∧ c ≠ '.') :
    ofText (Text.ofNat n ++ b) = .integer n :: ofText b := by
  rw [ofText_digits_append (fun _ => isDigit_of_mem_ofNat) (ofNat_ne_nil n) hb, ofDigits,
    value_ofNat, if_pos hn]

theorem ofText_ofNat {n : Nat} (hn : (n : Int) ≤ Number.maxInt) :
    ofText (Text.ofNat n) = [.integer n] := by
  have h := ofText_ofNat_append hn (b := []) (fun c hc => by cases hc)
  rwa [List.append_nil, ofText_nil] at h

end DiceRoll.Token
