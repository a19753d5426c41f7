/-
The grammar of arithmetic, as a relation.

`Derives rule ts e` says that the tokens `ts` are an instance of a rule with the
tree `e`. It knows neither levels nor what follows: a chain is derived from a
shorter chain and one more operand, which is what makes its tree lean left, while
the reader has a loop in that place and looks one token ahead.

The file relates the two. What a reader takes off the front is derived
(`derives_of_read`), what is derived is read as soon as there are levels enough
and nothing behind it could extend it (`read_of_derives`), and so the reader
accepts exactly what the grammar derives within the levels (`ofTokens?_eq_ok_iff`).
A derived text can only be refused for its depth (`ofTokens?_error_of_derives`).
-/

import DiceRoll.Arithmetic.Parser

set_option autoImplicit false

namespace DiceRoll.Expr

/-! ## Rules and derivations -/

/-- How strongly the operations of a chain bind. -/
inductive Strength where
  | comparison
  | sum
  | product
deriving DecidableEq, Repr

/-- The rules of the grammar. -/
inductive Rule where
  | conditional
  | chain (strength : Strength)
  | operand
  | atom
deriving DecidableEq, Repr

/-- The operation that a token stands for in a chain. -/
def Strength.join? : Strength → Token → Option Operation
  | .comparison => Token.comparison?
  | .sum => Token.additive?
  | .product => Token.multiplicative?

/-- What the operands of a chain are instances of. -/
def Strength.operands : Strength → Rule
  | .comparison => .chain .sum
  | .sum => .chain .product
  | .product => .operand

/-- The tokens are an instance of the rule, with this tree. No rule takes an
error token. -/
inductive Derives : Rule → List Token → Expr → Prop where
  | integer (n : Int) : Derives .atom [.integer n] (.literal (.int n))
  | decimal (x : Float) : Derives .atom [.decimal x] (.literal (.float x))
  | group {ts : List Token} {e : Expr} (inner : Derives .conditional ts e) :
      Derives .atom (.leftParen :: (ts ++ [.rightParen])) (.group e)
  | atom {ts : List Token} {e : Expr} (h : Derives .atom ts e) : Derives .operand ts e
  | signed {t : Token} {ts : List Token} {sign : Sign} {e : Expr} (ht : t.sign? = some sign)
      (h : Derives .operand ts e) : Derives .operand (t :: ts) (.signed sign e)
  | first {s : Strength} {ts : List Token} {e : Expr} (h : Derives s.operands ts e) :
      Derives (.chain s) ts e
  | join {s : Strength} {t : Token} {op : Operation} {ts us : List Token} {l r : Expr}
      (ht : s.join? t = some op) (hl : Derives (.chain s) ts l) (hr : Derives s.operands us r) :
      Derives (.chain s) (ts ++ t :: us) (.binary l op r)
  | plain {ts : List Token} {e : Expr} (h : Derives (.chain .comparison) ts e) :
      Derives .conditional ts e
  | choice {ts us vs : List Token} {c t f : Expr} (hc : Derives (.chain .comparison) ts c)
      (ht : Derives .conditional us t) (hf : Derives .conditional vs f) :
      Derives .conditional (ts ++ .question :: (us ++ .colon :: vs)) (.choice c t f)

/-! ## The reader of a rule

The four rules of a level are functions of the readers one level below. Here they
are one family, so that statements about all of them can be made at once. -/

/-- The reader of a rule, with so many levels below it. -/
def readRule (levels : Nat) : Rule → Reader
  | .conditional => conditional (conditionalWithin levels) (operandWithin levels)
  | .chain .comparison => comparisons (conditionalWithin levels) (operandWithin levels)
  | .chain .sum => chain Token.additive?
      (chain Token.multiplicative? (operand (conditionalWithin levels) (operandWithin levels)))
  | .chain .product => chain Token.multiplicative?
      (operand (conditionalWithin levels) (operandWithin levels))
  | .operand => operand (conditionalWithin levels) (operandWithin levels)
  | .atom => atom (conditionalWithin levels)

theorem readRule_chain (levels : Nat) (s : Strength) :
    readRule levels (.chain s) = chain s.join? (readRule levels s.operands) := by
  cases s <;> rfl

theorem conditionalWithin_succ (levels : Nat) :
    conditionalWithin (levels + 1) = readRule levels .conditional := by
  funext ts
  rw [conditionalWithin, readRule]

theorem operandWithin_succ (levels : Nat) :
    operandWithin (levels + 1) = readRule levels .operand := by
  funext ts
  rw [operandWithin, readRule]

/-! ## What is read is derived -/

/-- A reader takes instances of a rule off the front, nested less deeply than the
bound. -/
def Sound (bound : Nat) (rule : Rule) (read : Reader) : Prop :=
  ∀ ts e rest, read ts = .ok (e, rest) →
    ∃ us, ts = us ++ rest ∧ Derives rule us e ∧ e.nesting < bound

theorem sound_atom {n : Nat} {inner : Reader} (hinner : Sound n .conditional inner) :
    Sound (n + 1) .atom (atom inner) := by
  intro ts e rest h
  unfold atom at h
  split at h
  · simp only [Except.ok.injEq, Prod.mk.injEq] at h
    obtain ⟨rfl, rfl⟩ := h
    exact ⟨_, rfl, .integer _, Nat.succ_pos n⟩
  · simp only [Except.ok.injEq, Prod.mk.injEq] at h
    obtain ⟨rfl, rfl⟩ := h
    exact ⟨_, rfl, .decimal _, Nat.succ_pos n⟩
  · split at h
    · cases h
    · rename_i ts' e' rest' hread
      simp only [Except.ok.injEq, Prod.mk.injEq] at h
      obtain ⟨rfl, rfl⟩ := h
      obtain ⟨us, rfl, hus, hn⟩ := hinner _ _ _ hread
      exact ⟨_, by simp, .group hus, Nat.succ_lt_succ hn⟩
    · cases h
  · cases h

theorem sound_operand {n : Nat} {inner innerOperand : Reader} (hinner : Sound n .conditional inner)
    (hoperand : Sound n .operand innerOperand) :
    Sound (n + 1) .operand (operand inner innerOperand) := by
  intro ts e rest h
  have hatom : ∀ ts, atom inner ts = .ok (e, rest) →
      ∃ us, ts = us ++ rest ∧ Derives .operand us e ∧ e.nesting < n + 1 := by
    intro ts h
    obtain ⟨us, hts, hus, hn⟩ := sound_atom hinner _ _ _ h
    exact ⟨us, hts, .atom hus, hn⟩
  unfold operand at h
  split at h
  · exact hatom _ h
  · rename_i t ts
    split at h
    · exact hatom _ h
    · rename_i sign hsign
      split at h
      · cases h
      · rename_i e' rest' hread
        simp only [Except.ok.injEq, Prod.mk.injEq] at h
        obtain ⟨rfl, rfl⟩ := h
        obtain ⟨us, rfl, hus, hn⟩ := hoperand _ _ _ hread
        exact ⟨t :: us, rfl, .signed hsign hus, Nat.succ_lt_succ hn⟩

/-- Reading on behind the left operand keeps the chain derived. -/
theorem sound_chainRest {n : Nat} {s : Strength} {read : Reader} (hread : Sound n s.operands read)
    (left : Expr) (ts : List Token) {e : Expr} {rest ws : List Token}
    (hleft : Derives (.chain s) ws left) (hn : left.nesting < n)
    (h : chainRest s.join? read left ts = .ok (e, rest)) :
    ∃ us, ts = us ++ rest ∧ Derives (.chain s) (ws ++ us) e ∧ e.nesting < n := by
  fun_induction chainRest s.join? read left ts generalizing ws with
  | case1 left =>
    simp only [Except.ok.injEq, Prod.mk.injEq] at h
    obtain ⟨rfl, rfl⟩ := h
    exact ⟨[], rfl, by simpa using hleft, hn⟩
  | case2 left t rest' hjoin =>
    simp only [Except.ok.injEq, Prod.mk.injEq] at h
    obtain ⟨rfl, rfl⟩ := h
    exact ⟨[], rfl, by simpa using hleft, hn⟩
  | case3 => cases h
  | case4 left t rest₁ op hjoin right rest₂ hright hle ih =>
    obtain ⟨us, rfl, hus, hr⟩ := hread _ _ _ hright
    have hnest : (Expr.binary left op right).nesting < n := by
      simp only [nesting]
      omega
    obtain ⟨vs, rfl, hvs, he⟩ := ih (.join hjoin hleft hus) hnest h
    exact ⟨t :: (us ++ vs), by simp, by simpa using hvs, he⟩
  | case5 left t rest₁ op hjoin right rest₂ hright hle =>
    obtain ⟨us, rfl, hus, hr⟩ := hread _ _ _ hright
    exact absurd (by simp) hle

theorem sound_chain {n : Nat} {s : Strength} {read : Reader} (hread : Sound n s.operands read) :
    Sound n (.chain s) (chain s.join? read) := by
  intro ts e rest h
  unfold chain at h
  split at h
  · cases h
  · rename_i left rest' hleft
    obtain ⟨ws, rfl, hws, hn⟩ := hread _ _ _ hleft
    obtain ⟨us, rfl, hus, he⟩ := sound_chainRest hread left rest' (.first hws) hn h
    exact ⟨ws ++ us, by simp, hus, he⟩

theorem sound_conditional {n : Nat} {inner innerOperand : Reader}
    (hinner : Sound n .conditional inner)
    (hcomp : Sound (n + 1) (.chain .comparison) (comparisons inner innerOperand)) :
    Sound (n + 1) .conditional (conditional inner innerOperand) := by
  intro ts e rest h
  unfold conditional at h
  split at h
  · cases h
  · rename_i c ts₁ hc
    obtain ⟨us, rfl, hus, hnc⟩ := hcomp _ _ _ hc
    split at h
    · cases h
    · rename_i t ts₂ ht
      obtain ⟨vs, rfl, hvs, hnt⟩ := hinner _ _ _ ht
      split at h
      · cases h
      · rename_i f rest' hf
        obtain ⟨xs, rfl, hxs, hnf⟩ := hinner _ _ _ hf
        simp only [Except.ok.injEq, Prod.mk.injEq] at h
        obtain ⟨rfl, rfl⟩ := h
        refine ⟨us ++ .question :: (vs ++ .colon :: xs), by simp, .choice hus hvs hxs, ?_⟩
        simp only [nesting]
        omega
    · cases h
  · rename_i c rest' hquestion hc
    simp only [Except.ok.injEq, Prod.mk.injEq] at h
    obtain ⟨rfl, rfl⟩ := h
    obtain ⟨us, rfl, hus, hn⟩ := hcomp _ _ _ hc
    exact ⟨us, rfl, .plain hus, hn⟩

/-- The rules of one level are sound if the readers one level below are. -/
theorem sound_readRule {n : Nat} (hcond : Sound n .conditional (conditionalWithin n))
    (hop : Sound n .operand (operandWithin n)) (rule : Rule) :
    Sound (n + 1) rule (readRule n rule) := by
  have hoperand : Sound (n + 1) .operand (readRule n .operand) := sound_operand hcond hop
  have hchain : ∀ s, Sound (n + 1) (.chain s) (readRule n (.chain s)) := by
    -- From the tightest chain outwards: each has the one before it as operands.
    have hproduct := sound_chain (s := .product) hoperand
    have hsum := sound_chain (s := .sum) hproduct
    have hcomparison := sound_chain (s := .comparison) hsum
    intro s
    cases s
    · exact hcomparison
    · exact hsum
    · exact hproduct
  cases rule with
  | conditional => exact sound_conditional hcond (hchain .comparison)
  | chain s => exact hchain s
  | operand => exact hoperand
  | atom => exact sound_atom hcond

theorem sound_within (n : Nat) :
    Sound n .conditional (conditionalWithin n) ∧ Sound n .operand (operandWithin n) := by
  induction n with
  | zero =>
    constructor
    · intro ts e rest h
      simp [conditionalWithin] at h
    · intro ts e rest h
      simp [operandWithin] at h
  | succ n ih =>
    rw [conditionalWithin_succ, operandWithin_succ]
    exact ⟨sound_readRule ih.1 ih.2 .conditional, sound_readRule ih.1 ih.2 .operand⟩

/-- **What is read is derived.** A reader takes an instance of its rule off the
front, nested no deeper than the levels below it. -/
theorem derives_of_read {n : Nat} {rule : Rule} {ts rest : List Token} {e : Expr}
    (h : readRule n rule ts = .ok (e, rest)) :
    ∃ us, ts = us ++ rest ∧ Derives rule us e ∧ e.nesting ≤ n := by
  obtain ⟨us, hts, hus, hn⟩ :=
    sound_readRule (sound_within n).1 (sound_within n).2 rule _ _ _ h
  exact ⟨us, hts, hus, Nat.le_of_lt_succ hn⟩

/-! ## What is derived is read

A reader looks one token ahead, so what it makes of the front depends on the token
behind it. `Stops` says that this token cannot extend an instance of the rule. -/

/-- Whether a token behind an instance of a rule would be taken as part of it. -/
def Rule.extendedBy : Rule → Token → Bool
  | .atom, _ => false
  | .operand, _ => false
  | .chain .product, t => t.multiplicative?.isSome
  | .chain .sum, t => t.additive?.isSome || t.multiplicative?.isSome
  | .chain .comparison, t =>
    t.comparison?.isSome || t.additive?.isSome || t.multiplicative?.isSome
  | .conditional, t =>
    t == .question || t.comparison?.isSome || t.additive?.isSome || t.multiplicative?.isSome

/-- An instance of a rule ends in front of these tokens. -/
def Stops (rule : Rule) (rest : List Token) : Prop := ∀ t ∈ rest.head?, rule.extendedBy t = false

@[simp] theorem stops_nil (rule : Rule) : Stops rule [] := by simp [Stops]

@[simp] theorem stops_cons (rule : Rule) (t : Token) (rest : List Token) :
    Stops rule (t :: rest) ↔ rule.extendedBy t = false := by simp [Stops]

theorem Stops.operands {s : Strength} {rest : List Token} (h : Stops (.chain s) rest) :
    Stops s.operands rest := by
  intro t ht
  have := h t ht
  cases s <;> simp_all [Strength.operands, Rule.extendedBy]

theorem Stops.chain {rest : List Token} (h : Stops .conditional rest) :
    Stops (.chain .comparison) rest := by
  intro t ht
  have := h t ht
  simp_all [Rule.extendedBy]

/-- A token that joins a chain ends the operand before it. -/
theorem stops_of_join {s : Strength} {t : Token} {op : Operation} (ht : s.join? t = some op)
    (rest : List Token) : Stops s.operands (t :: rest) := by
  rw [stops_cons]
  cases s <;> cases t <;> first | rfl | cases ht

theorem Stops.join?_eq_none {s : Strength} {t : Token} {rest : List Token}
    (h : Stops (.chain s) (t :: rest)) : s.join? t = none := by
  rw [stops_cons] at h
  cases s <;> cases t <;> first | rfl | cases h

/-! The loop of a chain, one turn at a time. -/

theorem chainRest_of_stops {s : Strength} {read : Reader} {left : Expr} {rest : List Token}
    (h : Stops (.chain s) rest) : chainRest s.join? read left rest = .ok (left, rest) := by
  cases rest with
  | nil => rw [chainRest]
  | cons t rest => rw [chainRest, h.join?_eq_none]

theorem chainRest_join {s : Strength} {read : Reader} {left right : Expr} {t : Token}
    {op : Operation} {us rest : List Token} (ht : s.join? t = some op)
    (hright : read (us ++ rest) = .ok (right, rest)) :
    chainRest s.join? read left (t :: (us ++ rest))
      = chainRest s.join? read (.binary left op right) rest := by
  rw [chainRest, ht]
  simp [hright]

/-- What a rule has to do on its instances. A chain only has to get as far as the
place where its loop looks at the next token, so that it can be extended there. -/
def ReadsInstance (rule : Rule) (us : List Token) (e : Expr) : Prop :=
  ∀ levels rest, e.nesting ≤ levels →
    match rule with
    | .chain s => Stops s.operands rest →
        readRule levels (.chain s) (us ++ rest)
          = chainRest s.join? (readRule levels s.operands) e rest
    | rule => Stops rule rest → readRule levels rule (us ++ rest) = .ok (e, rest)

theorem ReadsInstance.read {rule : Rule} {us : List Token} {e : Expr}
    (h : ReadsInstance rule us e) {levels : Nat} {rest : List Token} (hn : e.nesting ≤ levels)
    (hstop : Stops rule rest) : readRule levels rule (us ++ rest) = .ok (e, rest) := by
  cases rule with
  | chain s => exact (h levels rest hn hstop.operands).trans (chainRest_of_stops hstop)
  | _ => exact h levels rest hn hstop

theorem readsInstance_signed {t : Token} {ts : List Token} {sign : Sign} {e : Expr}
    (ht : t.sign? = some sign) (h : ReadsInstance .operand ts e) :
    ReadsInstance .operand (t :: ts) (.signed sign e) := by
  intro levels rest hn hstop
  obtain ⟨n, rfl⟩ : ∃ n, levels = n + 1 := ⟨levels - 1, by simp only [nesting] at hn; omega⟩
  have hread := h.read (Nat.le_of_succ_le_succ hn) hstop
  rw [List.cons_append, readRule, operand, ht, operandWithin_succ, hread]

theorem readsInstance_group {ts : List Token} {e : Expr} (h : ReadsInstance .conditional ts e) :
    ReadsInstance .atom (.leftParen :: (ts ++ [.rightParen])) (.group e) := by
  intro levels rest hn hstop
  obtain ⟨n, rfl⟩ : ∃ n, levels = n + 1 := ⟨levels - 1, by simp only [nesting] at hn; omega⟩
  have hread : readRule n .conditional (ts ++ .rightParen :: rest)
      = .ok (e, .rightParen :: rest) :=
    h.read (Nat.le_of_succ_le_succ hn) (by rw [stops_cons]; rfl)
  rw [List.cons_append, readRule, atom, conditionalWithin_succ, List.append_assoc,
    List.singleton_append, hread]

theorem readsInstance_join {s : Strength} {t : Token} {op : Operation} {ts us : List Token}
    {l r : Expr} (ht : s.join? t = some op) (hl : ReadsInstance (.chain s) ts l)
    (hr : ReadsInstance s.operands us r) :
    ReadsInstance (.chain s) (ts ++ t :: us) (.binary l op r) := by
  intro levels rest hn hstop
  have hnest : l.nesting ≤ levels ∧ r.nesting ≤ levels := by
    simp only [nesting] at hn
    omega
  have hright := hr.read hnest.2 hstop
  rw [List.append_assoc, List.cons_append, hl levels _ hnest.1 (stops_of_join ht _),
    chainRest_join ht hright]

theorem readsInstance_choice {ts us vs : List Token} {c t f : Expr}
    (hc : ReadsInstance (.chain .comparison) ts c) (ht : ReadsInstance .conditional us t)
    (hf : ReadsInstance .conditional vs f) :
    ReadsInstance .conditional (ts ++ .question :: (us ++ .colon :: vs)) (.choice c t f) := by
  intro levels rest hn hstop
  obtain ⟨n, rfl⟩ : ∃ n, levels = n + 1 := ⟨levels - 1, by simp only [nesting] at hn; omega⟩
  have hnest : c.nesting ≤ n + 1 ∧ t.nesting ≤ n ∧ f.nesting ≤ n := by
    simp only [nesting] at hn
    omega
  have hcond : readRule (n + 1) (.chain .comparison)
      (ts ++ .question :: (us ++ .colon :: (vs ++ rest)))
      = .ok (c, .question :: (us ++ .colon :: (vs ++ rest))) :=
    hc.read hnest.1 (by rw [stops_cons]; rfl)
  have hthen : readRule n .conditional (us ++ .colon :: (vs ++ rest))
      = .ok (t, .colon :: (vs ++ rest)) :=
    ht.read hnest.2.1 (by rw [stops_cons]; rfl)
  have helse := hf.read hnest.2.2 hstop
  rw [readRule] at hcond
  simp only [List.append_assoc, List.cons_append]
  rw [readRule, conditional, hcond, conditionalWithin_succ]
  simp only [hthen, helse]

/-- **What is derived is read.** With as many levels as the tree is nested, a reader
takes an instance of its rule off the front whole, and leaves what is behind it. -/
theorem read_of_derives {rule : Rule} {us : List Token} {e : Expr} (h : Derives rule us e) :
    ReadsInstance rule us e := by
  induction h with
  | integer n =>
    intro levels rest _ _
    rfl
  | decimal x =>
    intro levels rest _ _
    rfl
  | group _ ih => exact readsInstance_group ih
  | @atom ts e hatom ih =>
    intro levels rest hn hstop
    have hread : readRule levels .atom (ts ++ rest) = .ok (e, rest) :=
      ih.read hn (by intro t _; rfl)
    -- An atom never begins with a sign, so the operand passes it on.
    cases hatom <;> exact hread
  | signed ht _ ih => exact readsInstance_signed ht ih
  | @first s ts e _ ih =>
    intro levels rest hn hstop
    have hread := ih.read hn hstop
    rw [readRule_chain, chain, hread]
  | join ht _ _ ihl ihr => exact readsInstance_join ht ihl ihr
  | @plain ts e _ ih =>
    intro levels rest hn hstop
    have hread := ih.read hn hstop.chain
    rw [readRule] at hread
    rw [readRule, conditional, hread]
    cases rest with
    | nil => rfl
    | cons t rest =>
      rw [stops_cons] at hstop
      cases t <;> first | rfl | cases hstop
  | choice _ _ _ ihc iht ihf => exact readsInstance_choice ihc iht ihf

/-! ## What fewer levels change

A reader with fewer levels below it refuses some tokens for their depth. Whatever
else it says, one with more levels says as well. -/

/-- The one reader says what the other says, unless that finds the tokens too deep. -/
def Refines (read read' : Reader) : Prop :=
  ∀ ts, read ts = .error .tooDeep ∨ read' ts = read ts

theorem refines_atom {inner inner' : Reader} (h : Refines inner inner') :
    Refines (atom inner) (atom inner') := by
  intro ts
  unfold atom
  split
  · exact .inr rfl
  · exact .inr rfl
  · rename_i ts
    rcases h ts with hdeep | heq
    · rw [hdeep]
      exact .inl rfl
    · rw [heq]
      exact .inr rfl
  · exact .inr rfl

theorem refines_operand {inner inner' innerOperand innerOperand' : Reader}
    (h : Refines inner inner') (hoperand : Refines innerOperand innerOperand') :
    Refines (operand inner innerOperand) (operand inner' innerOperand') := by
  intro ts
  unfold operand
  split
  · exact refines_atom h _
  · rename_i t ts
    split
    · exact refines_atom h _
    · rcases hoperand ts with hdeep | heq
      · rw [hdeep]
        exact .inl rfl
      · rw [heq]
        exact .inr rfl

theorem refines_chainRest (join? : Token → Option Operation) {read read' : Reader}
    (h : Refines read read') (left : Expr) (ts : List Token) :
    chainRest join? read left ts = .error .tooDeep ∨
      chainRest join? read' left ts = chainRest join? read left ts := by
  fun_induction chainRest join? read left ts with
  | case1 left => exact .inr (by rw [chainRest])
  | case2 left t rest hjoin => exact .inr (by rw [chainRest, hjoin])
  | case3 left t rest op hjoin error hread =>
    rcases h rest with hdeep | heq
    · exact .inl (by rw [hread] at hdeep; exact congrArg _ (Except.error.inj hdeep))
    · exact .inr (by rw [chainRest, hjoin, heq, hread])
  | case4 left t rest op hjoin right rest' hread hle ih =>
    rcases h rest with hdeep | heq
    · rw [hread] at hdeep
      cases hdeep
    · rw [chainRest, hjoin, heq, hread]
      simpa only [hle, if_true] using ih
  | case5 left t rest op hjoin right rest' hread hle =>
    rcases h rest with hdeep | heq
    · rw [hread] at hdeep
      cases hdeep
    · exact .inr (by rw [chainRest, hjoin, heq, hread]; simp only [hle, if_false])

theorem refines_chain (join? : Token → Option Operation) {read read' : Reader}
    (h : Refines read read') : Refines (chain join? read) (chain join? read') := by
  intro ts
  unfold chain
  rcases h ts with hdeep | heq
  · rw [hdeep]
    exact .inl rfl
  · rw [heq]
    split
    · exact .inr rfl
    · exact refines_chainRest join? h _ _

theorem refines_conditional {inner inner' innerOperand innerOperand' : Reader}
    (h : Refines inner inner') (hoperand : Refines innerOperand innerOperand') :
    Refines (conditional inner innerOperand) (conditional inner' innerOperand') := by
  have hcomp : Refines (comparisons inner innerOperand) (comparisons inner' innerOperand') :=
    refines_chain _ (refines_chain _ (refines_chain _ (refines_operand h hoperand)))
  intro ts
  unfold conditional
  rcases hcomp ts with hdeep | heq
  · rw [hdeep]
    exact .inl rfl
  · rw [heq]
    split
    · exact .inr rfl
    · rename_i c ts₁ _
      rcases h ts₁ with hdeep | heq
      · rw [hdeep]
        exact .inl rfl
      · rw [heq]
        split
        · exact .inr rfl
        · rename_i t ts₂ _
          rcases h ts₂ with hdeep | heq
          · rw [hdeep]
            exact .inl rfl
          · rw [heq]
            exact .inr rfl
        · exact .inr rfl
    · exact .inr rfl

theorem refines_within {n m : Nat} (hnm : n ≤ m) :
    Refines (conditionalWithin n) (conditionalWithin m)
      ∧ Refines (operandWithin n) (operandWithin m) := by
  induction n generalizing m with
  | zero =>
    constructor
    · intro ts
      exact .inl (by rw [conditionalWithin])
    · intro ts
      exact .inl (by rw [operandWithin])
  | succ n ih =>
    obtain ⟨k, rfl⟩ : ∃ k, m = k + 1 := ⟨m - 1, by omega⟩
    obtain ⟨hcond, hoperand⟩ := ih (Nat.le_of_succ_le_succ hnm)
    rw [conditionalWithin_succ, conditionalWithin_succ, operandWithin_succ, operandWithin_succ]
    exact ⟨refines_conditional hcond hoperand, refines_operand hcond hoperand⟩

/-! ## The whole input -/

/-- **The reader accepts exactly the grammar.** An expression is read from tokens
if and only if it is their tree and no literal is nested beyond the levels. -/
theorem ofTokens?_eq_ok_iff {ts : List Token} {e : Expr} :
    ofTokens? ts = .ok e ↔ Derives .conditional ts e ∧ e.nesting ≤ maxNesting := by
  rw [ofTokens?, conditionalWithin_succ]
  constructor
  · intro h
    split at h
    · cases h
    · rename_i e' hread
      simp only [Except.ok.injEq] at h
      obtain ⟨us, rfl, hus, hn⟩ := derives_of_read (h ▸ hread)
      exact ⟨by simpa using hus, hn⟩
    · cases h
  · rintro ⟨h, hn⟩
    have hread := (read_of_derives h).read hn (stops_nil _)
    rw [List.append_nil] at hread
    rw [hread]

/-- Tokens have at most one tree. -/
theorem Derives.unique {rule : Rule} {ts : List Token} {e e' : Expr} (h : Derives rule ts e)
    (h' : Derives rule ts e') : e = e' := by
  have hread := (read_of_derives h).read (Nat.le_max_left e.nesting e'.nesting) (stops_nil rule)
  have hread' := (read_of_derives h').read (Nat.le_max_right e.nesting e'.nesting) (stops_nil rule)
  rw [hread, Except.ok.injEq, Prod.mk.injEq] at hread'
  exact hread'.1

/-- **Depth is the only refusal of a derived text.** -/
theorem ofTokens?_error_of_derives {ts : List Token} {e : Expr} {error : ParseError}
    (h : Derives .conditional ts e) (herror : ofTokens? ts = .error error) :
    error = .tooDeep := by
  have hread := (read_of_derives h).read (Nat.le_max_left e.nesting maxNesting) (stops_nil _)
  rw [List.append_nil, ← conditionalWithin_succ] at hread
  rw [ofTokens?] at herror
  rcases (refines_within (Nat.succ_le_succ (Nat.le_max_right e.nesting maxNesting))).1 ts with
    hdeep | heq
  · rw [Nat.succ_eq_add_one] at hdeep
    rw [hdeep] at herror
    exact (Except.error.inj herror).symm
  · rw [← heq, hread] at herror
    cases herror

end DiceRoll.Expr
