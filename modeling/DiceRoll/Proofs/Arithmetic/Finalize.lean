/-
The three gates of finalizing.

A text passes the gate of characters whenever it passes the gate of the grammar,
because a character outside arithmetic is a token that no rule takes. So whether a
text is well formed is a question about its tokens alone (`isMalformed_finalize`),
and a text whose tokens are derived has the value of its tree
(`finalize_of_derives`).
-/

import DiceRoll.Proofs.Arithmetic.Grammar
import DiceRoll.Proofs.Arithmetic.Lexing

set_option autoImplicit false

namespace DiceRoll

open Text DiceRoll.Expr

/-! ## Error tokens -/

theorem Token.ne_error_of_join {s : Strength} {t : Token} {op : Operation}
    (ht : s.join? t = some op) : t ≠ .error := by
  rintro rfl
  cases s <;> cases ht

/-- No rule takes an error token. -/
theorem Expr.Derives.error_not_mem {rule : Rule} {ts : List Token} {e : Expr}
    (h : Derives rule ts e) : .error ∉ ts := by
  induction h with
  | integer n => simp
  | decimal x => simp
  | group _ ih => simpa using ih
  | atom _ ih => exact ih
  | @signed t ts sign e ht _ ih =>
    rw [List.mem_cons, not_or]
    refine ⟨?_, ih⟩
    rintro rfl
    cases ht
  | first _ ih => exact ih
  | join ht _ _ ihl ihr =>
    rw [List.mem_append, List.mem_cons, not_or, not_or]
    exact ⟨ihl, (Token.ne_error_of_join ht).symm, ihr⟩
  | plain _ ih => exact ih
  | choice _ _ _ ihc iht ihf => simp [ihc, iht, ihf]

namespace Token

theorem fraction?_eq_some {s f r : Text} (h : fraction? s = some (f, r)) :
    s = '.' :: (f ++ r) ∧ ∀ c ∈ f, c.isDigit = true := by
  unfold fraction? at h
  split at h
  · rename_i d s
    split at h
    · rename_i hd
      simp only [Option.some.injEq, Prod.mk.injEq] at h
      obtain ⟨rfl, rfl⟩ := h
      refine ⟨?_, fun c hc => List.all_eq_true.1 List.all_takeWhile c hc⟩
      rw [List.takeWhile_cons, if_pos hd, List.cons_append, List.takeWhile_append_dropWhile]
    · cases h
  · cases h

theorem continues_of_isDigit {u : Text} (hu : ∀ d ∈ u, d.isDigit = true) :
    ∀ d ∈ u, continues d = true := by
  intro d hd
  simp [continues, hu d hd]

/-- Behind its first digits a number takes a point and digits, or nothing. -/
theorem number_consumes (digits rest : Text) :
    ∃ u, rest = u ++ (number digits rest).2 ∧ ∀ d ∈ u, continues d = true := by
  unfold number
  split
  · rename_i f r hf
    obtain ⟨hrest, hf⟩ := fraction?_eq_some hf
    exact ⟨'.' :: f, by simpa using hrest, List.forall_mem_cons.2 ⟨rfl, continues_of_isDigit hf⟩⟩
  · exact ⟨[], rfl, by simp⟩

/-- Behind its first character a comparison takes equals signs. -/
theorem comparison_consumes (c : Char) (s : Text) :
    ∃ u, s = u ++ (comparison c s).2 ∧ ∀ d ∈ u, continues d = true := by
  unfold comparison
  split
  · exact ⟨['=', '='], rfl, by simp [continues]⟩
  · exact ⟨['='], rfl, by simp [continues]⟩
  · exact ⟨['='], rfl, by simp [continues]⟩
  · exact ⟨[], rfl, by simp⟩
  · exact ⟨['='], rfl, by simp [continues]⟩
  · exact ⟨[], rfl, by simp⟩
  · exact ⟨[], rfl, by simp⟩

/-- Behind its first character a token takes only characters that continue it. -/
theorem scan_consumes (c : Char) (s : Text) :
    ∃ u, s = u ++ (scan c s).2 ∧ ∀ d ∈ u, continues d = true := by
  unfold scan
  split
  · have hdigits : ∀ d ∈ s.takeWhile Char.isDigit, d.isDigit = true :=
      fun d hd => List.all_eq_true.1 List.all_takeWhile d hd
    obtain ⟨u, hu, hcontinues⟩ :=
      number_consumes (c :: s.takeWhile Char.isDigit) (s.dropWhile Char.isDigit)
    refine ⟨s.takeWhile Char.isDigit ++ u, ?_, ?_⟩
    · rw [List.append_assoc, ← hu, List.takeWhile_append_dropWhile]
    · exact List.forall_mem_append.2 ⟨continues_of_isDigit hdigits, hcontinues⟩
  · split
    · exact ⟨[], rfl, by simp⟩
    · split
      · rename_i f r hf
        obtain ⟨hs, hf⟩ := fraction?_eq_some hf
        exact ⟨f, (List.cons.inj hs).2, continues_of_isDigit hf⟩
      · exact comparison_consumes c s

theorem isMathChar_of_continues {c : Char} (hc : continues c = true) :
    Arithmetic.isMathChar c = true := by
  simp only [continues, Bool.or_eq_true, beq_iff_eq] at hc
  rcases hc with (hc | rfl) | rfl
  · simp [Arithmetic.isMathChar, hc]
  · rfl
  · rfl

theorem isMathChar_of_isGap {c : Char} (hc : isGap c = true) : Arithmetic.isMathChar c = true := by
  simp only [isGap, Bool.or_eq_true, beq_iff_eq] at hc
  rcases hc with ((rfl | rfl) | rfl) | rfl <;> decide

/-- A character outside arithmetic begins no token. -/
theorem scan_of_not_isMathChar {c : Char} (hc : Arithmetic.isMathChar c = false) (s : Text) :
    (scan c s).1 = .error := by
  have hne : ∀ d, Arithmetic.isMathChar d = true → c ≠ d := by
    rintro d hd rfl
    rw [hc] at hd
    cases hd
  have hdigit : c.isDigit = false := by
    simp only [Arithmetic.isMathChar, Bool.or_eq_false_iff] at hc
    exact hc.1.1
  have hsymbol : symbol? c = none := by
    unfold symbol?
    split <;> first | rfl | exact absurd rfl (hne _ (by decide))
  rw [scan, hdigit, hsymbol, fraction?_of_ne (hne '.' (by decide)),
    comparison_of_ne (hne '=' (by decide)) (hne '>' (by decide)) (hne '<' (by decide))]
  rfl

/-- **A character outside arithmetic is an error token**, wherever it stands. -/
theorem error_mem_ofText {c : Char} (hc : Arithmetic.isMathChar c = false) {s : Text}
    (hs : c ∈ s) : .error ∈ ofText s := by
  fun_induction ofText s with
  | case1 => cases hs
  | case2 d s hgap ih =>
    rcases List.mem_cons.1 hs with rfl | hs
    · rw [isMathChar_of_isGap hgap] at hc
      cases hc
    · exact ih hs
  | case3 d s hgap ih =>
    rcases List.mem_cons.1 hs with rfl | hs
    · rw [scan_of_not_isMathChar hc]
      exact List.mem_cons_self
    · obtain ⟨u, hu, hconsumed⟩ := scan_consumes d s
      rw [hu, List.mem_append] at hs
      rcases hs with hs | hs
      · rw [isMathChar_of_continues (hconsumed c hs)] at hc
        cases hc
      · exact List.mem_cons_of_mem _ (ih hs)

end Token

/-! ## Well-formed texts -/

/-- Whether a text was refused for what it is, and not for the value it has. -/
def MathError.isMalformed : MathError → Bool
  | .nonMath _ _ => true
  | .parse _ _ => true
  | .eval _ _ => false

/-- Whether a text turned out not to be arithmetic. -/
def isMalformed : Except MathError Number → Bool
  | .ok _ => false
  | .error e => e.isMalformed

/-- Whether a text was refused for its depth. -/
def isTooDeep : Except MathError Number → Bool
  | .error (.parse _ .tooDeep) => true
  | _ => false

/-- The answer to a text whose tree has this value. -/
def answerOf (s : Text) : Except EvalError Number → Except MathError Number
  | .ok x => .ok x
  | .error cause => .error (.eval s cause)

@[simp] theorem isMalformed_answerOf (s : Text) (v : Except EvalError Number) :
    isMalformed (answerOf s v) = false := by
  cases v <;> rfl

namespace Arithmetic

/-- A text of which a tree is read holds the characters of arithmetic only. -/
theorem find?_eq_none_of_derives {s : Text} {e : Expr}
    (h : Derives .conditional (Token.ofText s) e) : (s.find? fun c => !isMathChar c) = none := by
  rw [List.find?_eq_none]
  intro c hc hmath
  exact h.error_not_mem (Token.error_mem_ofText (by simpa using hmath) hc)

/-- **A text has the value of its tree.** -/
theorem finalize_of_derives {s : Text} {e : Expr}
    (h : Derives .conditional (Token.ofText (Markup.plain s)) e) (hn : e.nesting ≤ maxNesting) :
    finalize s = answerOf (Markup.plain s) e.eval := by
  rw [finalize, finalizePlain, find?_eq_none_of_derives h]
  simp only [ofTokens?_eq_ok_iff.2 ⟨h, hn⟩]
  cases e.eval <;> rfl

/-- **A text is well formed if and only if a tree is read from its tokens.** -/
theorem isMalformed_finalize {s : Text} :
    isMalformed (finalize s) = false ↔
      ∃ e, Derives .conditional (Token.ofText (Markup.plain s)) e ∧ e.nesting ≤ maxNesting := by
  constructor
  · intro h
    rw [finalize, finalizePlain] at h
    split at h
    · cases h
    · split at h
      · cases h
      · rename_i e he
        exact ⟨e, ofTokens?_eq_ok_iff.1 he⟩
  · rintro ⟨e, h, hn⟩
    rw [finalize_of_derives h hn, isMalformed_answerOf]

/-- A text whose tokens are derived is well formed, or it is too deep. -/
theorem isMalformed_of_derives {s : Text} {e : Expr}
    (h : Derives .conditional (Token.ofText (Markup.plain s)) e)
    (hdeep : isTooDeep (finalize s) = false) : isMalformed (finalize s) = false := by
  cases hread : ofTokens? (Token.ofText (Markup.plain s)) with
  | error cause =>
    rw [ofTokens?_error_of_derives h hread] at hread
    rw [finalize, finalizePlain, find?_eq_none_of_derives h] at hdeep
    simp only [hread] at hdeep
    cases hdeep
  | ok e' => exact isMalformed_finalize.2 ⟨e', ofTokens?_eq_ok_iff.1 hread⟩

/-- The tree behind a value. -/
theorem derives_of_finalize_ok {s : Text} {x : Number} (h : finalize s = .ok x) :
    ∃ e, Derives .conditional (Token.ofText (Markup.plain s)) e ∧ e.nesting ≤ maxNesting
      ∧ e.eval = .ok x := by
  obtain ⟨e, he, hn⟩ := isMalformed_finalize.1 (by rw [h]; rfl)
  refine ⟨e, he, hn, ?_⟩
  rw [finalize_of_derives he hn] at h
  cases heval : e.eval with
  | ok y =>
    rw [heval] at h
    exact congrArg _ (Except.ok.inj h)
  | error cause =>
    rw [heval] at h
    cases h

end Arithmetic

end DiceRoll
