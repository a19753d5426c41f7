/-
Splitting loses nothing.

A text is cut at the separator that comes first, and its entries are read in the same way
again, so the other separator cuts one level deeper. Which of the two is which makes no
difference to what is rolled: from left to right, the leaves with anything in them are the
pieces of the text, cut at every semicolon and every comma at once (`segments`).

Blank entries are dropped on the way, and an entry that is nothing but separators of the
other kind is a failed leaf. Neither holds a piece. And each level uses up a kind of
separator for good, of which there are two, so no text stands too deep where two levels are
allowed.
-/

import DiceRoll.Proofs.Roll.Budget
import DiceRoll.Proofs.Source.Draws
import DiceRoll.Proofs.Text.Replacing
import Mathlib

set_option autoImplicit false

namespace DiceRoll

open Text

/-! ## The pieces of a text -/

/-- Whether a character is a separator of either kind. -/
def isSeparator (c : Char) : Bool := (Separator.ofChar? c).isSome

/-- The pieces of a text between separators of both kinds, without blanks around them and
without the blank ones. -/
def segments (s : Text) : List Text :=
  ((pieces isSeparator s).map trim).filter fun e => !e.isEmpty

/-- Whether there is more in a text than blanks and separators. -/
def isContent (c : Char) : Bool := !(isBlank c || isSeparator c)

theorem segments_append_cons {c : Char} (hc : isSeparator c = true) (a b : Text) :
    segments (a ++ c :: b) = segments a ++ segments b := by
  rw [segments, pieces_append_cons hc, List.map_append, List.filter_append, segments, segments]

theorem segments_of_none {s : Text} (hs : ∀ c ∈ s, isSeparator c = false) :
    segments s = if (trim s).isEmpty then [] else [trim s] := by
  rw [segments, pieces_of_none hs, List.map_singleton]
  by_cases hempty : (trim s).isEmpty = true
  · simp [hempty]
  · simp [hempty]

theorem isSeparator_iff {c : Char} : isSeparator c = true ↔ c = ';' ∨ c = ',' := by
  simp only [isSeparator, Separator.ofChar?]
  by_cases hsemicolon : c = ';'
  · simp [hsemicolon]
  · by_cases hcomma : c = ','
    · simp [hcomma]
    · simp [hsemicolon, hcomma]

theorem isSeparator_of_isBlank {c : Char} (hc : isBlank c = true) : isSeparator c = false := by
  by_contra h
  rcases isSeparator_iff.1 (Bool.not_eq_false _ ▸ h) with rfl | rfl <;> exact absurd hc (by decide)

/-- Blanks around a text make no difference to its pieces. -/
theorem segments_append_gaps {front back : Text} (hfront : IsGap front) (s : Text)
    (hback : IsGap back) : segments (front ++ s ++ back) = segments s := by
  have hgap : ∀ {gap : Text}, IsGap gap → ∀ c ∈ gap, isSeparator c = false :=
    fun hgap c hc => isSeparator_of_isBlank (hgap c hc)
  induction s using cutInduction isSeparator generalizing front with
  | whole s hs =>
    have hall : ∀ c ∈ front ++ s ++ back, isSeparator c = false :=
      List.forall_mem_append.2 ⟨List.forall_mem_append.2 ⟨hgap hfront, hs⟩, hgap hback⟩
    rw [segments_of_none hall, segments_of_none hs, trim_append_gaps hfront s hback]
  | cut a c s ha hc ih =>
    have hfirst : segments (front ++ a) = segments a := by
      have htrim := trim_append_gaps hfront a .nil
      rw [List.append_nil] at htrim
      rw [segments_of_none (List.forall_mem_append.2 ⟨hgap hfront, ha⟩), segments_of_none ha, htrim]
    have hrest := ih .nil
    rw [List.nil_append] at hrest
    have hparts : front ++ (a ++ c :: s) ++ back = front ++ a ++ c :: (s ++ back) := by
      simp only [List.append_assoc, List.cons_append]
    rw [hparts, segments_append_cons hc, segments_append_cons hc, hfirst, hrest]

theorem segments_trim (s : Text) : segments (trim s) = segments s := by
  obtain ⟨front, back, hs, hfront, hback⟩ := exists_eq_trim s
  have h := segments_append_gaps hfront (trim s) hback
  rw [← hs] at h
  exact h.symm

/-- **Cutting at one separator and then at both** comes to cutting at both. -/
theorem segments_eq_flatMap_entries (sep : Separator) (s : Text) :
    segments s = (sep.entries s).flatMap segments := by
  have hchar : ∀ c, (c == sep.char) = true → isSeparator c = true := by
    intro c hc
    rw [beq_iff_eq.1 hc]
    cases sep <;> rfl
  have hpieces : segments s = (pieces (· == sep.char) s).flatMap segments := by
    induction s using cutInduction (· == sep.char) with
    | whole s hs => rw [pieces_of_none hs, List.flatMap_singleton]
    | cut a c s ha hc ih =>
      have hcut := @pieces_append_cons (· == sep.char) c hc a s
      rw [segments_append_cons (hchar c hc), hcut, List.flatMap_append, ← ih, pieces_of_none ha,
        List.flatMap_singleton]
  have hentries (ps : List Text) :
      ((ps.map trim).filter fun e => !e.isEmpty).flatMap segments = ps.flatMap segments := by
    induction ps with
    | nil => rfl
    | cons p ps ih =>
      by_cases hempty : trim p = []
      · have hnone : segments p = [] := by
          rw [← segments_trim, hempty]
          rfl
        simp [hempty, ih, hnone]
      · simp [hempty, ih, segments_trim]
  rw [hpieces, Separator.entries, hentries]

theorem any_isContent_of_none {s : Text} (hs : ∀ c ∈ s, isSeparator c = false) :
    s.any isContent = !(segments s).isEmpty := by
  rw [segments_of_none hs]
  by_cases hgap : IsGap s
  · have hnone : s.any isContent = false := by
      rw [List.any_eq_false]
      intro c hc
      simp [isContent, hgap c hc]
    rw [hnone, hgap.trim_eq]
    rfl
  · have hsome : s.any isContent = true := by
      simp only [IsGap, not_forall] at hgap
      obtain ⟨c, hc, hblank⟩ := hgap
      exact List.any_eq_true.2 ⟨c, hc, by simp [isContent, hblank, hs c hc]⟩
    have htrim : (trim s).isEmpty = false := by
      rw [List.isEmpty_eq_false_iff]
      exact fun h => hgap (trim_eq_nil_iff.1 h)
    rw [hsome, htrim]
    rfl

/-- Only a text with something in it has pieces. -/
theorem any_isContent (s : Text) : s.any isContent = !(segments s).isEmpty := by
  induction s using cutInduction isSeparator with
  | whole s hs => exact any_isContent_of_none hs
  | cut a c s ha hc ih =>
    have hcontent : isContent c = false := by simp [isContent, hc]
    rw [List.any_append, List.any_cons, hcontent, Bool.false_or, ih, any_isContent_of_none ha,
      segments_append_cons hc]
    cases segments a <;> simp

/-! ## Entries -/

theorem mem_pieces {cuts : Char → Bool} {s p : Text} (hp : p ∈ pieces cuts s) :
    p <:+: s ∧ ∀ c ∈ p, cuts c = false := by
  induction s using cutInduction cuts with
  | whole s hs =>
    rw [pieces_of_none hs, List.mem_singleton] at hp
    subst hp
    exact ⟨List.infix_rfl, hs⟩
  | cut a c s ha hc ih =>
    rw [pieces_append_cons hc, pieces_of_none ha, List.singleton_append, List.mem_cons] at hp
    rcases hp with rfl | hp
    · exact ⟨(List.prefix_append _ _).isInfix, ha⟩
    · obtain ⟨hpart, hnone⟩ := ih hp
      exact ⟨hpart.trans ((List.suffix_cons c s).trans (List.suffix_append a _)).isInfix, hnone⟩

/-- An entry is a part of its list, without the separator. -/
theorem mem_entries {sep : Separator} {s e : Text} (he : e ∈ sep.entries s) :
    e <:+: s ∧ sep.char ∉ e := by
  obtain ⟨hmem, -⟩ := List.mem_filter.1 he
  obtain ⟨p, hp, rfl⟩ := List.mem_map.1 hmem
  obtain ⟨hpart, hnone⟩ := mem_pieces hp
  obtain ⟨front, back, hs, -, -⟩ := exists_eq_trim p
  have htrim : trim p <:+: p := ⟨front, back, hs.symm⟩
  refine ⟨htrim.trans hpart, fun hchar => ?_⟩
  have hcut := hnone _ (htrim.subset hchar)
  rw [beq_self_eq_true] at hcut
  cases hcut

theorem pieces_of_not_mem {c : Char} {s : Text} (hs : c ∉ s) : pieces (· == c) s = [s] := by
  refine pieces_of_none fun d hd => ?_
  rw [beq_eq_false_iff_ne]
  rintro rfl
  exact hs hd

/-- The entries in front of a separator and those behind it are the entries. -/
theorem entries_append (sep : Separator) (a rest : Text) :
    sep.entries (a ++ sep.char :: rest) = sep.entries a ++ sep.entries rest := by
  rw [Separator.entries, @pieces_append_cons (· == sep.char) sep.char (beq_self_eq_true _),
    List.map_append, List.filter_append]
  rfl

/-- A text without a separator is the one entry, unless it is blank. -/
theorem entries_of_not_mem {sep : Separator} {a : Text} (ha : sep.char ∉ a) (hne : trim a ≠ []) :
    sep.entries a = [trim a] := by
  rw [Separator.entries, pieces_of_not_mem ha]
  simp [hne]

/-- What stands in front of the first separator is the first entry, unless it is blank. -/
theorem entries_append_cons {sep : Separator} {a : Text} (ha : sep.char ∉ a) (hne : trim a ≠ [])
    (rest : Text) : sep.entries (a ++ sep.char :: rest) = trim a :: sep.entries rest := by
  rw [entries_append, entries_of_not_mem ha hne]
  rfl

theorem IsWrittenOut.of_infix {s part : Text} (hs : IsWrittenOut s) (hpart : part <:+: s) :
    IsWrittenOut part where
  abilities := contains_eq_false_iff.2 fun h =>
    contains_eq_false_iff.1 hs.abilities (h.trans hpart)
  bracket := fun h => hs.bracket (hpart.subset h)
  mark := fun h => hs.mark (hpart.subset h)
  colon := fun h => hs.colon (hpart.subset h)

/-- How many kinds of separators there are in a text. -/
def separatorKinds (s : Text) : Nat := (if ';' ∈ s then 1 else 0) + (if ',' ∈ s then 1 else 0)

theorem separatorKinds_le (s : Text) : separatorKinds s ≤ 2 := by
  unfold separatorKinds
  split <;> split <;> omega

theorem one_le_separatorKinds {s : Text} {sep : Separator} (hs : sep.char ∈ s) :
    1 ≤ separatorKinds s := by
  unfold separatorKinds
  cases sep with
  | semicolon =>
    rw [if_pos (show ';' ∈ s from hs)]
    omega
  | comma =>
    rw [if_pos (show ',' ∈ s from hs)]
    omega

/-- **A cut uses up a kind of separator.** -/
theorem separatorKinds_lt {s e : Text} {sep : Separator} (hs : sep.char ∈ s)
    (he : e ∈ sep.entries s) : separatorKinds e < separatorKinds s := by
  obtain ⟨hpart, hnone⟩ := mem_entries he
  have hsub := hpart.subset
  unfold separatorKinds
  cases sep with
  | semicolon =>
    have hsemicolon : ';' ∉ e := hnone
    have hmem : ';' ∈ s := hs
    by_cases hcomma : ',' ∈ e
    · simp [hsemicolon, hmem, hcomma, hsub hcomma]
    · simp [hsemicolon, hmem, hcomma]
  | comma =>
    have hcomma : ',' ∉ e := hnone
    have hmem : ',' ∈ s := hs
    by_cases hsemicolon : ';' ∈ e
    · simp [hcomma, hmem, hsemicolon, hsub hsemicolon]
    · simp [hcomma, hmem, hsemicolon]

/-! ## The leaves of a roll -/

namespace Roll

/-- Whether a roll is a single expression. -/
def isLeaf : Roll → Bool
  | .leaf _ _ _ => true
  | .list _ _ _ _ => false

/-- The leaves of a roll, from left to right. -/
def leaves (r : Roll) : List Roll := r.nodes.filter isLeaf

/-- The texts of the leaves in which there is more than blanks and separators, without
blanks around them. -/
def contents (r : Roll) : List Text :=
  (r.leaves.filter fun l => l.raw.any isContent).map fun l => trim l.raw

theorem contents_leaf (raw : Text) (problems : List Problem) (l : Leaf) :
    (leaf raw problems l).contents = if raw.any isContent then [trim raw] else [] := by
  unfold contents leaves
  by_cases hraw : raw.any isContent = true
  · simp [nodes, isLeaf, Roll.raw, hraw]
  · simp [nodes, isLeaf, Roll.raw, hraw]

theorem contents_list (raw : Text) (problems : List Problem) (sep : Separator)
    (rolls : List Roll) :
    (list raw problems sep rolls).contents = rolls.flatMap contents := by
  have hrolls : ∀ rolls : List Roll, (((nodesOf rolls).filter isLeaf).filter
      fun l => l.raw.any isContent).map (fun l => trim l.raw) = rolls.flatMap contents := by
    intro rolls
    induction rolls with
    | nil => rfl
    | cons r rolls ih =>
      rw [nodesOf, List.filter_append, List.filter_append, List.map_append, ih]
      rfl
  exact hrolls rolls

end Roll

/-- What the roll of a text shows when nothing is lost. -/
structure Roll.SplitsInto (r : Roll) (s : Text) : Prop where
  contents : r.contents = segments s
  notTooDeep : ∀ node ∈ r.nodes, .tooDeep ∉ node.problems
  listDepth : r.listDepth ≤ separatorKinds s

namespace Roll

/-- The nodes of an entry are among those of its list. -/
theorem mem_nodesOf {rolls : List Roll} {r node : Roll} (hr : r ∈ rolls) (hnode : node ∈ r.nodes) :
    node ∈ nodesOf rolls := by
  induction rolls with
  | nil => cases hr
  | cons first rolls ih =>
    rw [nodesOf, List.mem_append]
    rcases List.mem_cons.1 hr with rfl | hr
    · exact .inl hnode
    · exact .inr (ih hr)

section Entries

variable {entries : List Text} {rolls : List Roll}
  (h : List.Forall₂ (fun e r => r.SplitsInto e) entries rolls)

include h

theorem flatMap_contents : rolls.flatMap contents = entries.flatMap segments := by
  induction h with
  | nil => rfl
  | cons hr _ ih => rw [List.flatMap_cons, List.flatMap_cons, hr.contents, ih]

theorem notTooDeep_nodesOf : ∀ node ∈ nodesOf rolls, .tooDeep ∉ node.problems := by
  induction h with
  | nil => exact List.forall_mem_nil _
  | cons hr _ ih => exact List.forall_mem_append.2 ⟨hr.notTooDeep, ih⟩

theorem listDepthOf_le_of_kinds {n : Nat} (hentries : ∀ e ∈ entries, separatorKinds e ≤ n) :
    listDepthOf rolls ≤ n := by
  induction h with
  | nil => exact Nat.zero_le n
  | cons hr _ ih =>
    obtain ⟨hfirst, hrest⟩ := List.forall_mem_cons.1 hentries
    exact Nat.max_le.2 ⟨hr.listDepth.trans hfirst, ih hrest⟩

end Entries

/-- **A list shows what its entries show.** -/
theorem SplitsInto.of_entries {s : Text} {sep : Separator} {rolls : List Roll}
    (hs : sep.char ∈ s) (h : List.Forall₂ (fun e r => r.SplitsInto e) (sep.entries s) rolls) :
    (list s [] sep rolls).SplitsInto s where
  contents := by rw [contents_list, flatMap_contents h, ← segments_eq_flatMap_entries]
  notTooDeep := List.forall_mem_cons.2 ⟨List.not_mem_nil, notTooDeep_nodesOf h⟩
  listDepth := by
    have hentries : ∀ e ∈ sep.entries s, separatorKinds e ≤ separatorKinds s - 1 := by
      intro e he
      have hlt := separatorKinds_lt hs he
      omega
    have hdepth := listDepthOf_le_of_kinds h hentries
    have hpos := one_le_separatorKinds hs
    rw [Roll.listDepth]
    omega

/-- A text is the content of its leaf, if there is anything in it. -/
theorem SplitsInto.leaf {s : Text} {problems : List Problem} {l : Leaf}
    (hs : segments s = if s.any isContent then [trim s] else [])
    (hproblems : .tooDeep ∉ problems) : (leaf s problems l).SplitsInto s where
  contents := by rw [contents_leaf, hs]
  notTooDeep := List.forall_mem_singleton.2 hproblems
  listDepth := Nat.zero_le _

end Roll

variable {σ : Type} [Source σ]

theorem isSeparator_of_firstSeparator? {s : Text} (hs : firstSeparator? s = none) :
    ∀ c ∈ s, isSeparator c = false := by
  intro c hc
  rw [isSeparator, List.findSome?_eq_none_iff.1 hs c hc]
  rfl

/-- A text that is no list is its own piece. -/
theorem Setup.splitsInto_rollLeaf (u : Setup) {s : Text} (hs : firstSeparator? s = none)
    (source : σ) : (u.rollLeaf s [] source).1.SplitsInto s := by
  have hnone := isSeparator_of_firstSeparator? hs
  have hsegments : segments s = if s.any isContent then [trim s] else [] := by
    rw [any_isContent_of_none hnone, segments_of_none hnone]
    by_cases hempty : (trim s).isEmpty = true
    · simp [hempty]
    · simp [hempty]
  refine .leaf hsegments fun hmem => ?_
  have hrefusal := u.noRefusal_rollLeaf s (List.forall_mem_nil _) source .tooDeep hmem
  cases hrefusal

/-- **A reading that refuses nothing for the number of rolls** loses nothing, where so many
levels are allowed as there are kinds of separators. -/
theorem Setup.splitsInto_roll {u : Setup} (hmacros : u.macros.macros = []) {depth : Nat}
    {s : Text} {p : Progress σ} (hs : IsWrittenOut s) (hdepth : separatorKinds s ≤ depth)
    (hcounted : ∀ node ∈ (u.roll depth s p).1.nodes, node.IsCounted) :
    (u.roll depth s p).1.SplitsInto s := by
  induction depth using Nat.strongRecOn generalizing s p with
  | ind depth ih =>
    have hwritten := MacroBook.writeOut_of_isWrittenOut hmacros hs u.limits.maxIterations
    by_cases hrolls : p.rolls = u.limits.maxRolls
    · rw [Setup.roll, if_pos hrolls] at hcounted
      exact absurd List.mem_cons_self (hcounted _ List.mem_cons_self p.rolls)
    cases hseparator : firstSeparator? s with
    | none =>
      rw [u.roll_eq_rollLeaf depth hrolls hwritten hseparator]
      exact u.splitsInto_rollLeaf hseparator p.source
    | some sep =>
      have hsep := mem_of_firstSeparator? hseparator
      have hpos := one_le_separatorKinds hsep
      obtain ⟨n, rfl⟩ : ∃ n, depth = n + 1 := ⟨depth - 1, by omega⟩
      have hentries := forall₂_drawEach (f := u.roll n)
        (Prod.eta (drawEach (u.roll n) (sep.entries s) ⟨p.rolls + 1, p.source⟩)).symm
      rw [u.roll_eq_list n hrolls hwritten hseparator] at hcounted ⊢
      simp only at hcounted ⊢
      generalize drawEach (u.roll n) (sep.entries s) ⟨p.rolls + 1, p.source⟩ = drawn
        at hentries hcounted ⊢
      obtain ⟨rolls, p'⟩ := drawn
      by_cases hempty : rolls = []
      · -- A list without entries has no pieces, and fails.
        subst hempty
        have hnone : segments s = [] := by
          rw [segments_eq_flatMap_entries sep, List.forall₂_nil_right_iff.1 hentries]
          rfl
        have hsegments : segments s = if s.any isContent then [trim s] else [] := by
          rw [any_isContent, hnone]
          rfl
        exact Roll.SplitsInto.leaf hsegments (by simp)
      · have hlist : rolls.isEmpty = false := List.isEmpty_eq_false_iff.2 hempty
        simp only [hlist, Bool.false_eq_true, if_false] at hcounted ⊢
        refine Roll.SplitsInto.of_entries hsep ?_
        obtain ⟨hlength, hzip⟩ := List.forall₂_iff_zip.1 hentries
        refine List.forall₂_iff_zip.2 ⟨hlength, fun {e r} hmem => ?_⟩
        obtain ⟨q, q', hroll⟩ := hzip hmem
        obtain ⟨he, hr⟩ := List.of_mem_zip hmem
        have hnodes : ∀ node ∈ (u.roll n e q).1.nodes, node.IsCounted := by
          intro node hnode
          rw [hroll] at hnode
          exact hcounted node (List.mem_cons_of_mem _ (Roll.mem_nodesOf hr hnode))
        have hkinds := separatorKinds_lt hsep he
        have h := ih n (Nat.lt_succ_self n) (hs.of_infix (mem_entries he).1) (by omega) hnodes
        rwa [hroll] at h

/-! ## An input -/

/-- **Splitting loses and duplicates nothing.** Without shorthand and macros, and with a
budget that suffices, the leaves with anything in them are the pieces of the input, cut at
every semicolon and every comma, in order and without blanks around them. No leaf stands too
deep, and no more than two lists stand inside each other. -/
theorem Session.contents_parse {u : Setup} (hmacros : u.macros.macros = [])
    (hdepth : 2 ≤ u.limits.maxDepth) {input : Text} (hmark : 'c' ∉ input) (hcolon : ':' ∉ input)
    (hbracket : '[' ∉ input) (habilities : Text.contains Abilities.word input = false) {s : σ}
    (hcounted : ∀ node ∈ ((⟨u, s⟩ : Session σ).parse input).1.nodes,
      ∀ n, .tooManyRolls n ∉ node.problems) :
    ((⟨u, s⟩ : Session σ).parse input).1.contents = segments input
      ∧ (∀ l ∈ ((⟨u, s⟩ : Session σ).parse input).1.leaves, .tooDeep ∉ l.problems)
      ∧ ((⟨u, s⟩ : Session σ).parse input).1.listDepth ≤ 2 := by
  have hbook : u.told.macros.macros = [] := u.macros_told.trans hmacros
  have hkinds := separatorKinds_le input
  have hwritten : IsWrittenOut input := ⟨habilities, hbracket, hmark, hcolon⟩
  have hsplit : ((⟨u, s⟩ : Session σ).parse input).1.SplitsInto input :=
    Setup.splitsInto_roll hbook hwritten (hkinds.trans hdepth) hcounted
  refine ⟨hsplit.contents, fun l hl => ?_, hsplit.listDepth.trans hkinds⟩
  exact hsplit.notTooDeep l (List.mem_filter.1 hl).1

/-- Blank entries, an entry of commas only, and a list in a list. -/
theorem contents_parse_of_mixture :
    ((Session.ofSource (⟨[4, 2], 0⟩ : Recording)).parse " ;d6, 1d4 # x,;,,; 7 ".toList).1.contents
      = ["d6".toList, "1d4 # x".toList, "7".toList] := by
  have hcounted : ∀ node ∈ ((Session.ofSource (⟨[4, 2], 0⟩ : Recording)).parse
      " ;d6, 1d4 # x,;,,; 7 ".toList).1.nodes, ∀ n, .tooManyRolls n ∉ node.problems := by
    have hnone : ((Session.ofSource (⟨[4, 2], 0⟩ : Recording)).parse
        " ;d6, 1d4 # x,;,,; 7 ".toList).1.nodes.any Roll.isRefused = false := by cbv
    intro node hnode
    have hrefused := List.any_eq_false.1 hnone node hnode
    refine Roll.isCounted_of_noRefusal fun problem hmem => ?_
    simpa using List.any_eq_false.1 (Bool.not_eq_true _ ▸ hrefused) problem hmem
  have h := Session.contents_parse rfl (by decide) (by decide) (by decide) (by decide) (by decide)
    hcounted
  exact h.1.trans (by decide)

end DiceRoll
