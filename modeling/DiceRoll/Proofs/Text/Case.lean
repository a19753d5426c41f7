/-
Two notions of case.

The reader of invocations tells characters apart by their folds, one character at a time,
and a text is looked through beforehand in lower case, as a whole. Here is how the two are
related.

In lower case two characters are special: what a capital sigma becomes depends on what
stands around it, and the capital I with a dot becomes two characters. Apart from the sigma
a text is put into lower case character by character (`lowercase_eq_flatMap`). So two texts
that fold to one text have one lower case, if the lower case of each of their characters is
that of its fold (`SameButCase.lowercase_eq`). ASCII is of that kind, and from outside of it
only two characters fold into it, the long s and the sign of the kelvin
(`eq_of_toNat_foldChar_lt`). The long s is not of that kind: it folds to an s and is itself in
lower case.
-/

import DiceRoll.Text.Folding
import Mathlib.Data.List.Basic

set_option autoImplicit false

namespace DiceRoll.Text

/-- A capital letter moves by thirty-two, and every other character stays. -/
theorem toLower_cases (c : Char) :
    c.toLower = c ∨ (65 ≤ c.toNat ∧ c.toNat ≤ 90 ∧ c.toLower.toNat = c.toNat + 32) := by
  unfold Char.toLower
  split
  · rename_i h
    have hlow : 65 ≤ c.val.toNat := h.1
    have hhigh : c.val.toNat ≤ 90 := h.2
    refine .inr ⟨hlow, hhigh, ?_⟩
    change (c.val + 32).toNat = c.val.toNat + 32
    rw [UInt32.toNat_add]
    exact Nat.mod_eq_of_lt (by change c.val.toNat + 32 < 4294967296; omega)
  · exact .inl rfl

/-! ## Texts that are the same but for case -/

/-- Two texts that differ in the case of their characters only. -/
def SameButCase (a b : Text) : Prop := a.map foldChar = b.map foldChar

@[simp] theorem sameButCase_nil {a : Text} : SameButCase a [] ↔ a = [] := List.map_eq_nil_iff

theorem sameButCase_cons {a b : Char} {s t : Text} :
    SameButCase (a :: s) (b :: t) ↔ foldChar a = foldChar b ∧ SameButCase s t := by
  rw [SameButCase, List.map_cons, List.map_cons, List.cons.injEq]
  rfl

theorem SameButCase.length_eq {a b : Text} (h : SameButCase a b) : a.length = b.length := by
  simpa using congrArg List.length h

/-- **What is read without regard to case**: a text that begins with `lead` but for case,
and what follows. -/
theorem afterFolded?_eq_some_iff {lead s rest : Text} :
    afterFolded? lead s = some rest ↔ ∃ a, SameButCase a lead ∧ s = a ++ rest := by
  induction lead generalizing s with
  | nil => simp [afterFolded?]
  | cons l lead ih =>
    cases s with
    | nil =>
      have hnone : afterFolded? (l :: lead) [] = none := rfl
      rw [hnone]
      refine iff_of_false (Option.some_ne_none rest ·.symm) ?_
      rintro ⟨a, hsame, hnil⟩
      rw [(List.append_eq_nil_iff.1 hnil.symm).1] at hsame
      cases hsame
    | cons c s =>
      rw [afterFolded?]
      split
      · rename_i hfold
        rw [ih]
        constructor
        · rintro ⟨a, hsame, rfl⟩
          exact ⟨c :: a, sameButCase_cons.2 ⟨hfold.symm, hsame⟩, rfl⟩
        · rintro ⟨_ | ⟨b, a⟩, hsame, hs⟩
          · cases hsame
          · obtain ⟨rfl, rfl⟩ := List.cons.inj hs
            exact ⟨a, (sameButCase_cons.1 hsame).2, rfl⟩
      · rename_i hfold
        refine iff_of_false (Option.some_ne_none rest ·.symm) ?_
        rintro ⟨_ | ⟨b, a⟩, hsame, hs⟩
        · cases hsame
        · obtain ⟨rfl, -⟩ := List.cons.inj hs
          exact hfold (sameButCase_cons.1 hsame).1.symm

/-! ## Lower case, character by character -/

/-- The lower-case form of a character other than the capital sigma. -/
def lowerForm (c : Char) : Text := if c = 'İ' then ['i', '\u0307'] else [lowerChar c]

/-- **Lower case goes character by character**, wherever there is no capital sigma. -/
theorem lowercase_eq_flatMap {s : Text} (hs : 'Σ' ∉ s) : lowercase s = s.flatMap lowerForm := by
  have hafter : ∀ before, lowercaseAfter before s = s.flatMap lowerForm := by
    induction s with
    | nil => exact fun _ => rfl
    | cons c s ih =>
      obtain ⟨hc, hs⟩ := not_or.1 (mt List.mem_cons.2 hs)
      intro before
      rw [lowercaseAfter, if_neg (Ne.symm hc), ih hs, List.flatMap_cons, lowerForm]
  exact hafter []

/-- A character whose lower case goes by its fold. -/
def IsStable (c : Char) : Prop := c ≠ 'Σ' ∧ lowerForm c = lowerForm (foldChar c)

instance (c : Char) : Decidable (IsStable c) := inferInstanceAs (Decidable (_ ∧ _))

/-- A text of characters whose lower case goes by their fold. -/
def IsCaseStable (s : Text) : Prop := ∀ c ∈ s, IsStable c

instance (s : Text) : Decidable (IsCaseStable s) := List.decidableBAll IsStable s

theorem IsCaseStable.sigma_not_mem {s : Text} (hs : IsCaseStable s) : 'Σ' ∉ s :=
  fun hmem => (hs 'Σ' hmem).1 rfl

theorem IsCaseStable.lowercase_eq {s : Text} (hs : IsCaseStable s) :
    lowercase s = (s.map foldChar).flatMap lowerForm := by
  rw [lowercase_eq_flatMap hs.sigma_not_mem, List.flatMap_map]
  exact List.flatMap_congr fun c hc => (hs c hc).2

/-- **Two texts that are the same but for case have one lower case**, if the lower case of
all their characters goes by the fold. -/
theorem SameButCase.lowercase_eq {a b : Text} (h : SameButCase a b)
    (ha : IsCaseStable a) (hb : IsCaseStable b) : lowercase a = lowercase b := by
  rw [ha.lowercase_eq, hb.lowercase_eq, h]

/-- What stands in a text stands in it in lower case. -/
theorem lowercase_isInfix {a s : Text} (ha : a <:+: s) (hs : 'Σ' ∉ s) :
    lowercase a <:+: lowercase s := by
  obtain ⟨front, back, rfl⟩ := ha
  have hmid : 'Σ' ∉ a := fun hmem =>
    hs (List.mem_append_left _ (List.mem_append_right _ hmem))
  rw [lowercase_eq_flatMap hs, lowercase_eq_flatMap hmid, List.flatMap_append,
    List.flatMap_append]
  exact ⟨_, _, rfl⟩

/-! ## ASCII -/

/-- A text of the first hundred and twenty-eight characters. -/
def IsAscii (s : Text) : Prop := ∀ c ∈ s, c.toNat < 128

instance (s : Text) : Decidable (IsAscii s) := List.decidableBAll (Char.toNat · < 128) s

theorem foldChar_of_ascii {c : Char} (hc : c.toNat < 128) : foldChar c = c.toLower := if_pos hc

theorem lowerForm_of_ascii {c : Char} (hc : c.toNat < 128) : lowerForm c = [c.toLower] := by
  have hne : c ≠ 'İ' := by
    rintro rfl
    exact absurd hc (by decide)
  rw [lowerForm, if_neg hne, lowerChar, if_pos hc]

theorem toNat_toLower_lt {c : Char} (hc : c.toNat < 128) : c.toLower.toNat < 128 := by
  rcases toLower_cases c with h | h
  · rwa [h]
  · omega

theorem toLower_toLower (c : Char) : c.toLower.toLower = c.toLower := by
  rcases toLower_cases c.toLower with h | h
  · exact h
  · rcases toLower_cases c with hc | hc
    · rw [hc, hc]
    · omega

theorem isStable_of_ascii {c : Char} (hc : c.toNat < 128) : IsStable c := by
  refine ⟨?_, ?_⟩
  · rintro rfl
    exact absurd hc (by decide)
  · rw [foldChar_of_ascii hc, lowerForm_of_ascii hc, lowerForm_of_ascii (toNat_toLower_lt hc),
      toLower_toLower]

theorem IsAscii.isCaseStable {s : Text} (hs : IsAscii s) : IsCaseStable s :=
  fun c hc => isStable_of_ascii (hs c hc)

/-- Whether a run moves the characters from code point 128 on to such ones again. -/
def CaseRun.staysAbove (r : CaseRun) : Bool :=
  128 ≤ r.first + r.shift && r.last + r.shift < 0xD800
    || 0xE000 ≤ r.first + r.shift && r.last + r.shift < 0x110000

theorem CaseRun.covers_iff {r : CaseRun} {n : Nat} :
    r.covers n = true ↔ (r.first ≤ n ∧ n ≤ r.last) ∧ (n - r.first) % r.step = 0 := by
  simp only [covers, Bool.and_eq_true, Nat.ble_eq, beq_iff_eq]

theorem toNat_ofNat_of_isValidChar {n : Nat} (hn : n.isValidChar) : (Char.ofNat n).toNat = n := by
  rw [Char.ofNat, dif_pos hn]
  rfl

/-- A run that stays above moves no character into ASCII. -/
theorem CaseRun.le_toNat_of_staysAbove {r : CaseRun} (hr : r.staysAbove = true) {n : Nat}
    (hn : r.covers n = true) : 128 ≤ (Char.ofNat ((n : Int) + r.shift).toNat).toNat := by
  obtain ⟨⟨hfirst, hlast⟩, -⟩ := covers_iff.1 hn
  simp only [staysAbove, Bool.or_eq_true, Bool.and_eq_true, decide_eq_true_eq] at hr
  have hvalid : ((n : Int) + r.shift).toNat.isValidChar := by
    unfold Nat.isValidChar
    omega
  rw [toNat_ofNat_of_isValidChar hvalid]
  omega

/-- The runs of the fold stay above, but for the one of the long s. -/
theorem staysAbove_of_mem_foldRuns : ∀ r ∈ foldRuns,
    r.staysAbove = true ∨ r.first = 0x17F ∧ r.last = 0x17F := by
  decide

/-- The runs of lower case stay above, but for those of the capital letters of ASCII and of
the kelvin sign. -/
theorem staysAbove_of_mem_lowerRuns : ∀ r ∈ lowerRuns,
    r.staysAbove = true ∨ r.last < 128 ∨ r.first = 0x212A ∧ r.last = 0x212A := by
  decide +kernel

theorem exists_of_moveByRuns_eq_some {runs : List CaseRun} {c d : Char}
    (h : moveByRuns runs c = some d) : ∃ r ∈ runs, r.covers c.toNat = true
      ∧ Char.ofNat ((c.toNat : Int) + r.shift).toNat = d := by
  obtain ⟨r, hr, hd⟩ := Option.map_eq_some_iff.1 h
  have hcovers := List.find?_some hr
  exact ⟨r, List.mem_of_find?_eq_some hr, hcovers, hd⟩

/-- **Two characters fold into ASCII from outside**: the long s and the kelvin sign. -/
theorem eq_of_toNat_foldChar_lt {c : Char} (hfold : (foldChar c).toNat < 128) :
    c.toNat < 128 ∨ c = 'ſ' ∨ c = '\u212A' := by
  by_cases hc : c.toNat < 128
  · exact .inl hc
  rw [foldChar, if_neg hc] at hfold
  cases hmove : moveByRuns foldRuns c with
  | some d =>
    obtain ⟨r, hr, hcovers, rfl⟩ := exists_of_moveByRuns_eq_some hmove
    rw [hmove, Option.getD_some] at hfold
    rcases staysAbove_of_mem_foldRuns r hr with hstays | hlong
    · exact absurd hfold (Nat.not_lt.2 (CaseRun.le_toNat_of_staysAbove hstays hcovers))
    · have hnat : c.toNat = 0x17F := by
        have := (CaseRun.covers_iff.1 hcovers).1
        omega
      exact .inr (.inl (Char.toNat_inj.1 hnat))
  | none =>
    rw [hmove, Option.getD_none, lowerChar, if_neg hc] at hfold
    cases hmove : moveByRuns lowerRuns c with
    | none =>
      rw [hmove, Option.getD_none] at hfold
      exact .inl hfold
    | some d =>
      obtain ⟨r, hr, hcovers, rfl⟩ := exists_of_moveByRuns_eq_some hmove
      rw [hmove, Option.getD_some] at hfold
      have hbounds := (CaseRun.covers_iff.1 hcovers).1
      rcases staysAbove_of_mem_lowerRuns r hr with hstays | hletters | hkelvin
      · exact absurd hfold (Nat.not_lt.2 (CaseRun.le_toNat_of_staysAbove hstays hcovers))
      · omega
      · have hnat : c.toNat = 0x212A := by omega
        exact .inr (.inr (Char.toNat_inj.1 hnat))

/-- What is the same as an ASCII text but for case goes by its fold in lower case, if there
is no long s in it. -/
theorem SameButCase.isCaseStable {a n : Text} (h : SameButCase a n) (ha : IsAscii a)
    (hlong : 'ſ' ∉ n) : IsCaseStable n := by
  intro c hc
  obtain ⟨d, hd, hfold⟩ : ∃ d ∈ a, foldChar d = foldChar c := by
    rw [← List.mem_map, h]
    exact List.mem_map_of_mem hc
  have hascii : (foldChar c).toNat < 128 := by
    rw [← hfold, foldChar_of_ascii (ha d hd)]
    exact toNat_toLower_lt (ha d hd)
  rcases eq_of_toNat_foldChar_lt hascii with hplain | rfl | rfl
  · exact isStable_of_ascii hplain
  · exact absurd hc hlong
  · decide +kernel

end DiceRoll.Text
