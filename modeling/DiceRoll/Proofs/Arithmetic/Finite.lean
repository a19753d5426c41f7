/-
Finite values of expressions.

Every operation between two operands is checked: it gives a finite value or fails
(`Operation.isFinite_of_apply`). So an infinite value can only come out of an expression that
applies none on the way to its result, and hands on a literal through parentheses, signs and the
branches it takes (`Expr.isFinite_of_eval`). Of the literals, integers are always in range. A
decimal is read as the floating-point number nearest to it, with no check, and that is infinite
from `Binary.limit` on.

So the finalizer reports a finite value with one exception, and the exception is told exactly
(`Arithmetic.isFinite_of_finalize`): a decimal beyond the limit that the expression hands on.
-/

import DiceRoll.Proofs.Arithmetic.Exact
import DiceRoll.Proofs.Arithmetic.Finalize
import DiceRoll.Proofs.Markup
import DiceRoll.Proofs.Number.Decimal

set_option autoImplicit false

namespace DiceRoll

/-! ## One operation -/

namespace Number

/-- Whether a value is a number in the ordinary sense: an integer, or a floating-point value
that is neither infinite nor undefined. -/
def isFinite : Number → Bool
  | .int _ => true
  | .float x => x.isFinite

/-- Whether a value is undefined. -/
def isNaN : Number → Bool
  | .int _ => false
  | .float x => x.isNaN

theorem isNaN_of_isFinite {x : Number} (hx : x.isFinite = true) : x.isNaN = false := by
  cases x with
  | int n => rfl
  | float x => exact Binary.isNaN_of_isFinite hx

theorem isFinite_of_ofInt? {n : Int} {x : Number} (h : ofInt? n = .ok x) : x.isFinite = true := by
  unfold ofInt? at h
  split at h <;> cases h
  rfl

theorem isFinite_of_ofFloat? {y : Float} {x : Number} (h : ofFloat? y = .ok x) :
    x.isFinite = true := by
  unfold ofFloat? at h
  split at h
  · cases h
    assumption
  · cases h

end Number

open Number Text

/-- **A checked operation gives a finite value or none**, whatever its operands are. -/
theorem Operation.isFinite_of_apply {op : Operation} {a b x : Number}
    (h : op.apply a b = .ok x) : x.isFinite = true := by
  cases op with
  | add | sub | mul =>
    cases a <;> cases b <;> first | exact isFinite_of_ofInt? h | exact isFinite_of_ofFloat? h
  | div =>
    simp only [apply, Number.div] at h
    split at h
    · split at h
      · split at h
        · cases h
          rfl
        · exact isFinite_of_ofFloat? h
      · exact isFinite_of_ofFloat? h
    · cases h
  | less | greater | atMost | atLeast | equal =>
    cases h
    rfl

/-- A sign changes nothing about it. -/
theorem Sign.isFinite_of_apply {sign : Sign} {a x : Number} (h : sign.apply a = .ok x) :
    x.isFinite = a.isFinite ∧ x.isNaN = a.isNaN := by
  cases sign with
  | plus =>
    cases h
    exact ⟨rfl, rfl⟩
  | minus =>
    cases a with
    | int n =>
      have hx := isFinite_of_ofInt? h
      exact ⟨hx, isNaN_of_isFinite hx⟩
    | float y =>
      cases h
      exact ⟨Binary.isFinite_neg y, Binary.isNaN_neg y⟩

/-! ## One expression -/

namespace Expr

/-- The literal that an expression hands on: the one that its value is, up to the sign, if no
operation between two operands comes in the way. -/
def handedOn? : Expr → Option Number
  | .literal x => some x
  | .group e => e.handedOn?
  | .signed _ e => e.handedOn?
  | .binary _ _ _ => none
  | .choice c t f =>
    match c.eval with
    | .error _ => none
    | .ok x => if x.isTrue then t.handedOn? else f.handedOn?

theorem eval_choice_eq_ok_iff {c t f : Expr} {y : Number} :
    (choice c t f).eval = .ok y
      ↔ ∃ x, c.eval = .ok x ∧ (if x.isTrue then t.eval else f.eval) = .ok y := by
  rw [eval]
  cases c.eval with
  | error cause => simp [bind, Except.bind]
  | ok x => simp [bind, Except.bind]

/-- **A value is finite, or as finite as the literal that is handed on.** -/
theorem isFinite_of_eval {e : Expr} {y : Number} (h : e.eval = .ok y) :
    match e.handedOn? with
    | none => y.isFinite = true
    | some x => y.isFinite = x.isFinite ∧ y.isNaN = x.isNaN := by
  induction e generalizing y with
  | literal x =>
    cases h
    exact ⟨rfl, rfl⟩
  | group e ih => exact ih h
  | signed sign e ih =>
    obtain ⟨x, he, hsign⟩ := eval_signed_eq_ok_iff.1 h
    obtain ⟨hfinite, hnan⟩ := sign.isFinite_of_apply hsign
    simpa only [handedOn?, hfinite, hnan] using ih he
  | binary l op r =>
    obtain ⟨a, b, -, -, hop⟩ := eval_binary_eq_ok_iff.1 h
    exact op.isFinite_of_apply hop
  | choice c t f _ iht ihf =>
    obtain ⟨x, hc, htaken⟩ := eval_choice_eq_ok_iff.1 h
    -- The condition only chooses: its own value is not in the result.
    rw [handedOn?, hc]
    by_cases hx : x.isTrue = true
    · simp only [hx, if_true] at htaken ⊢
      exact iht htaken
    · simp only [hx] at htaken ⊢
      exact ihf htaken

theorem mem_subterms_of_handedOn? {e : Expr} {x : Number} (h : e.handedOn? = some x) :
    .literal x ∈ e.subterms := by
  induction e with
  | literal y =>
    cases h
    exact List.mem_singleton_self _
  | group e ih => exact List.mem_cons_of_mem _ (ih h)
  | signed sign e ih => exact List.mem_cons_of_mem _ (ih h)
  | binary l op r => cases h
  | choice c t f _ iht ihf =>
    rw [handedOn?] at h
    split at h
    · cases h
    · split at h
      · simp [subterms, iht h]
      · simp [subterms, ihf h]

/-- The decimals of a tree are tokens of the text it was read from. -/
theorem Derives.decimal_mem {rule : Rule} {ts : List Token} {e : Expr} (h : Derives rule ts e)
    {x : Float} (hx : .literal (.float x) ∈ e.subterms) : .decimal x ∈ ts := by
  induction h with
  | integer n => simp [subterms] at hx
  | decimal y => simpa [subterms] using hx
  | group _ ih => simpa [subterms] using ih (by simpa [subterms] using hx)
  | atom _ ih => exact ih hx
  | signed _ _ ih => exact List.mem_cons_of_mem _ (ih (by simpa [subterms] using hx))
  | first _ ih => exact ih hx
  | join _ _ _ ihl ihr =>
    simp only [subterms, List.mem_cons, reduceCtorEq, false_or, List.mem_append] at hx
    rw [List.mem_append, List.mem_cons]
    exact hx.imp ihl fun hr => .inr (ihr hr)
  | plain _ ih => exact ih hx
  | choice _ _ _ ihc iht ihf =>
    simp only [subterms, List.mem_cons, reduceCtorEq, false_or, List.mem_append] at hx
    rcases hx with hc | ht | hf
    · simp [ihc hc]
    · simp [iht ht]
    · simp [ihf hf]

end Expr

/-! ## One decimal -/

namespace Token

/-- Somewhere in the text stands a decimal with these digits before and behind its point. -/
structure HoldsDecimal (s whole fraction : Text) : Prop where
  isDigit : ∀ c ∈ whole ++ fraction, c.isDigit = true
  fraction_ne : fraction ≠ []
  isInfix : whole ++ '.' :: fraction <:+: s

theorem HoldsDecimal.mono {s t whole fraction : Text} (h : HoldsDecimal s whole fraction)
    (hst : s <:+: t) : HoldsDecimal t whole fraction :=
  { h with isInfix := h.isInfix.trans hst }

theorem fraction?_ne_nil {s f r : Text} (h : fraction? s = some (f, r)) : f ≠ [] := by
  unfold fraction? at h
  split at h
  · split at h
    · rename_i hd
      simp only [List.takeWhile_cons, if_pos hd, Option.some.injEq, Prod.mk.injEq] at h
      rw [← h.1]
      exact List.cons_ne_nil _ _
    · cases h
  · cases h

/-- A decimal token is written as a decimal. -/
theorem holdsDecimal_of_scan {c : Char} {s : Text} {x : Float} (h : (scan c s).1 = .decimal x) :
    ∃ whole fraction, HoldsDecimal (c :: s) whole fraction
      ∧ ofDecimal whole fraction = .decimal x := by
  unfold scan at h
  split at h
  · rename_i hc
    have hwhole : ∀ d ∈ c :: s.takeWhile Char.isDigit, d.isDigit = true :=
      List.forall_mem_cons.2 ⟨hc, fun d hd => List.all_eq_true.1 List.all_takeWhile d hd⟩
    unfold number at h
    split at h
    · rename_i f r hf
      obtain ⟨hrest, hdigits⟩ := fraction?_eq_some hf
      have htext : c :: s = (c :: s.takeWhile Char.isDigit ++ '.' :: f) ++ r := by
        rw [List.append_assoc, List.cons_append, List.cons_append, ← hrest,
          List.takeWhile_append_dropWhile]
      exact ⟨_, f, ⟨List.forall_mem_append.2 ⟨hwhole, hdigits⟩, fraction?_ne_nil hf,
        htext ▸ (List.prefix_append _ r).isInfix⟩, h⟩
    · unfold ofDigits at h
      split at h <;> cases h
  · split at h
    · rename_i t ht
      unfold symbol? at ht
      split at ht <;> cases ht <;> cases h
    · split at h
      · rename_i f r hf
        obtain ⟨htext, hdigits⟩ := fraction?_eq_some hf
        exact ⟨[], f, ⟨hdigits, fraction?_ne_nil hf,
          htext ▸ (List.prefix_append ('.' :: f) r).isInfix⟩, h⟩
      · unfold comparison at h
        split at h <;> cases h

theorem holdsDecimal_of_mem {s : Text} {x : Float} (h : .decimal x ∈ ofText s) :
    ∃ whole fraction, HoldsDecimal s whole fraction ∧ ofDecimal whole fraction = .decimal x := by
  fun_induction ofText s with
  | case1 => cases h
  | case2 c s hgap ih =>
    obtain ⟨whole, fraction, hdecimal, hx⟩ := ih h
    exact ⟨whole, fraction, hdecimal.mono (List.suffix_cons c s).isInfix, hx⟩
  | case3 c s hgap ih =>
    rw [List.mem_cons] at h
    rcases h with h | h
    · exact holdsDecimal_of_scan h.symm
    · obtain ⟨whole, fraction, hdecimal, hx⟩ := ih h
      obtain ⟨u, hu, -⟩ := scan_consumes c s
      have hrest : (scan c s).2 <:+ c :: s := by
        nth_rewrite 2 [hu]
        exact (List.suffix_append u _).trans (List.suffix_cons c _)
      exact ⟨whole, fraction, hdecimal.mono hrest.isInfix, hx⟩

/-- Digits with a point among them are one token. -/
theorem ofText_decimal {whole fraction : Text} (h : ∀ c ∈ whole ++ fraction, c.isDigit = true)
    (hne : fraction ≠ []) : ofText (whole ++ '.' :: fraction) = [ofDecimal whole fraction] := by
  obtain ⟨d, f, rfl⟩ := List.exists_cons_of_ne_nil hne
  obtain ⟨hwhole, hdf⟩ := List.forall_mem_append.1 h
  obtain ⟨hd, hf⟩ := List.forall_mem_cons.1 hdf
  have hfraction : fraction? ('.' :: d :: f) = some (d :: f, []) := by
    have htake := takeWhile_run (b := []) hdf (by simp)
    have hdrop := dropWhile_run (b := []) hf (by simp)
    rw [List.append_nil] at htake hdrop
    simp only [fraction?, if_pos hd, htake, hdrop]
  cases whole with
  | nil =>
    rw [List.nil_append, ofText_cons, if_neg (by decide), scan, if_neg (by decide)]
    simp [symbol?, hfraction]
  | cons c w =>
    obtain ⟨hc, hw⟩ := List.forall_mem_cons.1 hwhole
    have hpoint : ∀ c ∈ ('.' :: d :: f).head?, Char.isDigit c = false := by
      intro c hc
      cases hc
      rfl
    rw [List.cons_append, ofText_cons, isGap_eq_false_of_isDigit hc, scan, if_pos hc,
      takeWhile_run hw hpoint, dropWhile_run hw hpoint, number, hfraction]
    simp

/-- The decimal with these digits is so great that the nearest floating-point number is
infinite. -/
def IsBeyond (whole fraction : Text) : Prop :=
  Binary.limit ≤ (whole ++ fraction).value / 10 ^ fraction.length

/-- **A decimal is never undefined, and infinite exactly beyond the limit.** -/
theorem HoldsDecimal.isFinite {s whole fraction : Text} (h : HoldsDecimal s whole fraction)
    {x : Float} (hx : ofDecimal whole fraction = .decimal x) :
    x.isNaN = false ∧ (x.isFinite = false ↔ IsBeyond whole fraction) := by
  have hlength : 1 ≤ fraction.length := List.length_pos_iff.2 h.fraction_ne
  cases hx
  refine ⟨Binary.isNaN_ofScientific _ hlength, ?_⟩
  rw [Binary.isFinite_ofScientific _ hlength, decide_eq_false_iff_not, not_lt, IsBeyond]

end Token

/-! ## A text that is one decimal -/

namespace Arithmetic

/-- A text that is one decimal has the value that is nearest to it. -/
theorem finalize_decimal {whole fraction : Text} (h : ∀ c ∈ whole ++ fraction, c.isDigit = true)
    (hne : fraction ≠ []) :
    finalize (whole ++ '.' :: fraction)
      = .ok (.float (Float.ofScientific (whole ++ fraction).value true fraction.length)) := by
  have hplain : Markup.plain (whole ++ '.' :: fraction) = whole ++ '.' :: fraction := by
    refine Markup.plain_of_not_mem (.inr ?_)
    simp only [List.mem_append, List.mem_cons, not_or]
    have hstar : '*' ∉ whole ++ fraction := fun hmem => absurd (h _ hmem) (by decide)
    rw [List.mem_append, not_or] at hstar
    exact ⟨hstar.1, by decide, hstar.2⟩
  have hderives : Expr.Derives .conditional (Token.ofText (Markup.plain (whole ++ '.' :: fraction)))
      (.literal (.float (Float.ofScientific (whole ++ fraction).value true fraction.length))) := by
    rw [hplain, Token.ofText_decimal h hne]
    exact .plain (.first (.first (.first (.atom (.decimal _)))))
  rw [finalize_of_derives hderives (Nat.zero_le _)]
  rfl

/-- Two with three hundred and eight zeros, and a point with one more behind it. -/
def greatDecimal : Text := ('2' :: List.replicate 308 '0') ++ ['.', '0']

theorem finalize_greatDecimal :
    finalize greatDecimal = .ok (.float (Float.ofScientific (2 * 10 ^ 309) true 1)) := by
  have hvalue : Text.value (('2' :: List.replicate 308 '0') ++ ['0']) = 2 * 10 ^ 309 := by
    decide +kernel
  have hdigits : ∀ c ∈ ('2' :: List.replicate 308 '0') ++ ['0'], c.isDigit = true := by
    simp only [List.mem_append, List.mem_cons, List.mem_replicate]
    rintro c ((rfl | ⟨-, rfl⟩) | rfl | hc)
    · rfl
    · rfl
    · rfl
    · cases hc
  rw [← hvalue]
  exact finalize_decimal hdigits (List.cons_ne_nil _ _)

theorem isFinite_greatDecimal :
    (Float.ofScientific (2 * 10 ^ 309) true 1).isFinite = false := by
  have hlimit : Binary.limit ≤ 2 ^ 1024 := sub_le_self _ (by positivity)
  have hpow : (2 : ℚ) ^ 1024 ≤ ((2 * 10 ^ 309 : Nat) : ℚ) / 10 ^ 1 := by
    have hnat : 2 ^ 1024 * 10 ^ 1 ≤ 2 * 10 ^ 309 := by decide +kernel
    rw [le_div_iff₀ (by positivity)]
    exact_mod_cast hnat
  rw [Binary.isFinite_ofScientific _ (Nat.le_refl 1), decide_eq_false_iff_not, not_lt]
  exact hlimit.trans hpow

/-! ## The values that are reported -/

/-- The text is an expression that hands on a decimal beyond the limit. -/
def HandsOnBeyond (s : Text) : Prop :=
  ∃ e whole fraction x, Expr.ofTokens? (Token.ofText s) = .ok e
    ∧ e.handedOn? = some (.float x) ∧ Token.HoldsDecimal s whole fraction
    ∧ Token.ofDecimal whole fraction = .decimal x ∧ Token.IsBeyond whole fraction

/-- A decimal that is handed on is written in the text. -/
theorem holdsDecimal_of_handedOn? {s : Text} {e : Expr}
    (hread : Expr.ofTokens? (Token.ofText s) = .ok e) {x : Float}
    (hx : e.handedOn? = some (.float x)) :
    ∃ whole fraction, Token.HoldsDecimal s whole fraction
      ∧ Token.ofDecimal whole fraction = .decimal x := by
  have hderives := (Expr.ofTokens?_eq_ok_iff.1 hread).1
  exact Token.holdsDecimal_of_mem (hderives.decimal_mem (Expr.mem_subterms_of_handedOn? hx))

theorem handsOnBeyond_iff {s : Text} {e : Expr}
    (hread : Expr.ofTokens? (Token.ofText s) = .ok e) :
    HandsOnBeyond s ↔ ∃ x, e.handedOn? = some (.float x) ∧ x.isFinite = false := by
  constructor
  · rintro ⟨e', whole, fraction, x, hread', hx, hdecimal, htoken, hbeyond⟩
    rw [hread] at hread'
    cases hread'
    exact ⟨x, hx, (hdecimal.isFinite htoken).2.2 hbeyond⟩
  · rintro ⟨x, hx, hinfinite⟩
    obtain ⟨whole, fraction, hdecimal, htoken⟩ := holdsDecimal_of_handedOn? hread hx
    exact ⟨e, whole, fraction, x, hread, hx, hdecimal, htoken,
      (hdecimal.isFinite htoken).2.1 hinfinite⟩

/-- **The finalizer reports a finite value unless a decimal beyond the limit is handed on.** Then
it reports infinity, and an undefined value never. -/
theorem isFinite_of_finalize {s : Text} {y : Number} (h : finalize s = .ok y) :
    y.isNaN = false ∧ (y.isFinite = false ↔ HandsOnBeyond (Markup.plain s)) := by
  obtain ⟨e, he, hn, heval⟩ := derives_of_finalize_ok h
  have hread := Expr.ofTokens?_eq_ok_iff.2 ⟨he, hn⟩
  have hvalue := Expr.isFinite_of_eval heval
  rw [handsOnBeyond_iff hread]
  cases hhanded : e.handedOn? with
  | none =>
    rw [hhanded] at hvalue
    simpa [hvalue] using isNaN_of_isFinite hvalue
  | some v =>
    rw [hhanded] at hvalue
    obtain ⟨hfinite, hnan⟩ := hvalue
    rw [hfinite, hnan]
    cases v with
    | int n => simp [Number.isFinite, Number.isNaN]
    | float x =>
      obtain ⟨whole, fraction, hdecimal, htoken⟩ := holdsDecimal_of_handedOn? hread hhanded
      simpa [Number.isFinite, Number.isNaN] using (hdecimal.isFinite htoken).1

/-- The great decimal is one that is handed on. -/
theorem isFinite_of_finalize_greatDecimal :
    let y := Number.float (Float.ofScientific (2 * 10 ^ 309) true 1)
    finalize greatDecimal = .ok y ∧ y.isNaN = false ∧ y.isFinite = false
      ∧ HandsOnBeyond (Markup.plain greatDecimal) := by
  obtain ⟨hnan, hbeyond⟩ := isFinite_of_finalize finalize_greatDecimal
  exact ⟨finalize_greatDecimal, hnan, isFinite_greatDecimal, hbeyond.1 isFinite_greatDecimal⟩

/-- **An infinite value is reported for the great decimal.** -/
theorem not_forall_isFinite_of_finalize :
    ¬ ∀ (s : Text) (y : Number), finalize s = .ok y → y.isFinite = true := by
  intro hall
  have hfinite := hall _ _ finalize_greatDecimal
  rw [Number.isFinite, isFinite_greatDecimal] at hfinite
  cases hfinite

end Arithmetic

end DiceRoll
