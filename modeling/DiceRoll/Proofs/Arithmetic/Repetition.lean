/-
The grammar of arithmetic, as it is written down.

The rules that the reader's file opens with have repetitions: a chain is an operand and
then any number of joining tokens with an operand behind each, and its tree is folded
to the left. `Matches` is the grammar in that form. It names the tokens one by one and
has nothing in common with the reader, neither its tables of tokens nor its levels.

A chain with one more operand is a longer chain, so the form with repetitions derives
the same trees as the recursive one (`matches_iff_derives`), about which more is known.
How deeply a tree is nested is a maximum there; here it is a statement about each of
its literals (`nesting_le_iff`). Together they say what the reader accepts
(`ofTokens?_eq_ok_iff_matches`).
-/

import DiceRoll.Proofs.Arithmetic.Grammar

set_option autoImplicit false

namespace DiceRoll.Expr

/-! ## Tokens -/

/-- Which token joins the operands of which chain, by which operation. -/
inductive Joins : Strength → Token → Operation → Prop where
  | less : Joins .comparison .less .less
  | greater : Joins .comparison .greater .greater
  | atMost : Joins .comparison .atMost .atMost
  | atLeast : Joins .comparison .atLeast .atLeast
  | equal : Joins .comparison .equal .equal
  | plus : Joins .sum .plus .add
  | minus : Joins .sum .minus .sub
  | star : Joins .product .star .mul
  | slash : Joins .product .slash .div

/-- Which token is which sign in front of an operand. -/
inductive Signs : Token → Sign → Prop where
  | plus : Signs .plus .plus
  | minus : Signs .minus .minus

theorem join?_eq_some_iff {s : Strength} {t : Token} {op : Operation} :
    s.join? t = some op ↔ Joins s t op := by
  constructor
  · intro h
    cases s <;> cases t <;> cases h <;> constructor
  · intro h
    cases h <;> rfl

theorem sign?_eq_some_iff {t : Token} {sign : Sign} : t.sign? = some sign ↔ Signs t sign := by
  constructor
  · intro h
    cases t <;> cases h <;> constructor
  · intro h
    cases h <;> rfl

/-! ## The rules with repetitions -/

/-- One turn of a repetition: a joining token, its operation, and the operand behind
it, as tokens and as a tree. -/
structure Link where
  token : Token
  operation : Operation
  tokens : List Token
  operand : Expr

/-- The tokens of a turn. -/
def Link.written (l : Link) : List Token := l.token :: l.tokens

/-- The tree to the left of a turn becomes its left operand. -/
def Link.attach (left : Expr) (l : Link) : Expr := .binary left l.operation l.operand

/-- The tokens are an instance of the rule, with this tree. A chain is folded to the
left, a conditional nests to the right, a sign binds more tightly than any operation,
and no rule takes an error token. -/
inductive Matches : Rule → List Token → Expr → Prop where
  | integer (n : Int) : Matches .atom [.integer n] (.literal (.int n))
  | decimal (x : Float) : Matches .atom [.decimal x] (.literal (.float x))
  | group {ts : List Token} {e : Expr} (inner : Matches .conditional ts e) :
      Matches .atom (.leftParen :: (ts ++ [.rightParen])) (.group e)
  | atom {ts : List Token} {e : Expr} (h : Matches .atom ts e) : Matches .operand ts e
  | signed {t : Token} {ts : List Token} {sign : Sign} {e : Expr} (ht : Signs t sign)
      (h : Matches .operand ts e) : Matches .operand (t :: ts) (.signed sign e)
  | chain {s : Strength} {ts : List Token} {e : Expr} (links : List Link)
      (first : Matches s.operands ts e) (joined : ∀ l ∈ links, Joins s l.token l.operation)
      (operands : ∀ l ∈ links, Matches s.operands l.tokens l.operand) :
      Matches (.chain s) (ts ++ links.flatMap Link.written) (links.foldl Link.attach e)
  | plain {ts : List Token} {e : Expr} (h : Matches (.chain .comparison) ts e) :
      Matches .conditional ts e
  | choice {ts us vs : List Token} {c t f : Expr} (hc : Matches (.chain .comparison) ts c)
      (ht : Matches .conditional us t) (hf : Matches .conditional vs f) :
      Matches .conditional (ts ++ .question :: (us ++ .colon :: vs)) (.choice c t f)

/-! ## Repetitions are recursions -/

/-- The turns of a repetition lengthen a chain, one after the other. -/
theorem derives_foldl {s : Strength} {links : List Link} {ts : List Token} {e : Expr}
    (h : Derives (.chain s) ts e) (hjoined : ∀ l ∈ links, Joins s l.token l.operation)
    (hoperands : ∀ l ∈ links, Derives s.operands l.tokens l.operand) :
    Derives (.chain s) (ts ++ links.flatMap Link.written) (links.foldl Link.attach e) := by
  induction links generalizing ts e with
  | nil =>
    rw [List.flatMap_nil, List.append_nil]
    exact h
  | cons l links ih =>
    rw [List.forall_mem_cons] at hjoined hoperands
    have hlonger : Derives (.chain s) (ts ++ l.written) (l.attach e) :=
      .join (join?_eq_some_iff.2 hjoined.1) h hoperands.1
    rw [List.flatMap_cons, ← List.append_assoc]
    exact ih hlonger hjoined.2 hoperands.2

/-- One more turn behind a chain. -/
theorem Matches.join {s : Strength} {t : Token} {op : Operation} {ts us : List Token}
    {l r : Expr} (ht : Joins s t op) (hl : Matches (.chain s) ts l)
    (hr : Matches s.operands us r) : Matches (.chain s) (ts ++ t :: us) (.binary l op r) := by
  cases hl with
  | @chain _ ts e links first joined operands =>
    have hjoined : ∀ l ∈ links ++ [⟨t, op, us, r⟩], Joins s l.token l.operation :=
      List.forall_mem_append.2 ⟨joined, List.forall_mem_singleton.2 ht⟩
    have hoperands : ∀ l ∈ links ++ [⟨t, op, us, r⟩], Matches s.operands l.tokens l.operand :=
      List.forall_mem_append.2 ⟨operands, List.forall_mem_singleton.2 hr⟩
    have hlonger := Matches.chain _ first hjoined hoperands
    rw [List.flatMap_append, List.foldl_append, ← List.append_assoc, List.flatMap_singleton]
      at hlonger
    exact hlonger

theorem Matches.derives {rule : Rule} {ts : List Token} {e : Expr} (h : Matches rule ts e) :
    Derives rule ts e := by
  induction h with
  | integer n => exact .integer n
  | decimal x => exact .decimal x
  | group _ ih => exact .group ih
  | atom _ ih => exact .atom ih
  | signed ht _ ih => exact .signed (sign?_eq_some_iff.2 ht) ih
  | chain links _ joined _ ihfirst ihoperands =>
    exact derives_foldl (.first ihfirst) joined ihoperands
  | plain _ ih => exact .plain ih
  | choice _ _ _ ihc iht ihf => exact .choice ihc iht ihf

theorem Derives.matches {rule : Rule} {ts : List Token} {e : Expr} (h : Derives rule ts e) :
    Matches rule ts e := by
  induction h with
  | integer n => exact .integer n
  | decimal x => exact .decimal x
  | group _ ih => exact .group ih
  | atom _ ih => exact .atom ih
  | signed ht _ ih => exact .signed (sign?_eq_some_iff.1 ht) ih
  | @first s ts e _ ih =>
    -- A chain of one operand is a repetition without turns.
    have hchain := Matches.chain [] ih (List.forall_mem_nil _) (List.forall_mem_nil _)
    rw [List.flatMap_nil, List.append_nil] at hchain
    exact hchain
  | join ht _ _ ihl ihr => exact .join (join?_eq_some_iff.1 ht) ihl ihr
  | plain _ ih => exact .plain ih
  | choice _ _ _ ihc iht ihf => exact .choice ihc iht ihf

/-- **The two forms of the grammar derive the same trees.** -/
theorem matches_iff_derives {rule : Rule} {ts : List Token} {e : Expr} :
    Matches rule ts e ↔ Derives rule ts e := ⟨Matches.derives, Derives.matches⟩

/-! ## How deeply each literal is nested -/

/-- For each literal of an expression, from left to right, how many parentheses, signs
and branches of conditionals stand above it. The condition of a conditional is not a
branch. -/
def literalDepths : Expr → List Nat
  | .literal _ => [0]
  | .group e => e.literalDepths.map (· + 1)
  | .signed _ e => e.literalDepths.map (· + 1)
  | .binary l _ r => l.literalDepths ++ r.literalDepths
  | .choice c t f => c.literalDepths ++ (t.literalDepths ++ f.literalDepths).map (· + 1)

/-- The greater of two members is a member. -/
theorem max_mem_append {m n : Nat} {xs ys : List Nat} (hm : m ∈ xs) (hn : n ∈ ys) :
    max m n ∈ xs ++ ys := by
  rcases Nat.le_total m n with h | h
  · rw [Nat.max_eq_right h]
    exact List.mem_append_right xs hn
  · rw [Nat.max_eq_left h]
    exact List.mem_append_left ys hm

/-- Some literal is nested as deeply as the expression is. -/
theorem nesting_mem_literalDepths (e : Expr) : e.nesting ∈ e.literalDepths := by
  induction e with
  | literal x => exact List.mem_singleton.2 rfl
  | group e ih => exact List.mem_map_of_mem ih
  | signed sign e ih => exact List.mem_map_of_mem ih
  | binary l op r ihl ihr => exact max_mem_append ihl ihr
  | choice c t f ihc iht ihf =>
    have hbranch : max t.nesting f.nesting ∈ t.literalDepths ++ f.literalDepths :=
      max_mem_append iht ihf
    exact max_mem_append ihc (List.mem_map_of_mem hbranch)

/-- No literal is nested more deeply than the expression is. -/
theorem le_nesting_of_mem {e : Expr} {depth : Nat} (h : depth ∈ e.literalDepths) :
    depth ≤ e.nesting := by
  induction e generalizing depth with
  | literal x => exact Nat.le_of_eq (List.mem_singleton.1 h)
  | group e ih =>
    obtain ⟨d, hd, rfl⟩ := List.mem_map.1 h
    exact Nat.succ_le_succ (ih hd)
  | signed sign e ih =>
    obtain ⟨d, hd, rfl⟩ := List.mem_map.1 h
    exact Nat.succ_le_succ (ih hd)
  | binary l op r ihl ihr =>
    rw [nesting]
    rcases List.mem_append.1 h with h | h
    · have hleft := ihl h
      omega
    · have hright := ihr h
      omega
  | choice c t f ihc iht ihf =>
    rw [nesting]
    rcases List.mem_append.1 h with h | h
    · have hcondition := ihc h
      omega
    · obtain ⟨d, hd, rfl⟩ := List.mem_map.1 h
      rcases List.mem_append.1 hd with hd | hd
      · have hthen := iht hd
        omega
      · have helse := ihf hd
        omega

/-- The nesting of an expression is a bound on each of its literals. -/
theorem nesting_le_iff {e : Expr} {n : Nat} :
    e.nesting ≤ n ↔ ∀ depth ∈ e.literalDepths, depth ≤ n :=
  ⟨fun h _ hdepth => Nat.le_trans (le_nesting_of_mem hdepth) h,
    fun h => h _ (nesting_mem_literalDepths e)⟩

/-! ## What the reader accepts -/

/-- **The reader accepts exactly its documented grammar.** Tokens are read as an
expression if and only if they match the rule of a conditional with that tree, and no
literal of the tree stands under more than the hundred parentheses, signs and branches
that are allowed. -/
theorem ofTokens?_eq_ok_iff_matches (ts : List Token) (e : Expr) :
    ofTokens? ts = .ok e
      ↔ Matches .conditional ts e ∧ ∀ depth ∈ e.literalDepths, depth ≤ maxNesting := by
  rw [ofTokens?_eq_ok_iff, matches_iff_derives, nesting_le_iff]

end DiceRoll.Expr
