/-
Texts that unroll part by part.

A list is written out as a whole, cut, and written out again entry by entry, and each writing
out unrolls two iterations at most, wherever they stand. So which iteration is unrolled when
is a matter of what else is in the list. What the iterations come to in the end is not, as
long as each of them has a part of the list to itself: it stands between two semicolons, no
comma cuts its copies, and no line ends behind it.

`UnrollsTo` says what such a text comes to, and within how many rounds. It is kept by
everything that happens to a text on its way to the leaves: the text may be cut at a separator
(`UnrollsTo.cut`), trimmed (`UnrollsTo.trim`) and unrolled (`UnrollsTo.unroll`). And it goes
back over an unrolling (`UnrollsTo.of_unroll`), so that what a text comes to can be read off a
text in which everything is written out.
-/

import DiceRoll.Proofs.Roll.Splitting
import DiceRoll.Proofs.Shorthand.Tidy

set_option autoImplicit false

namespace DiceRoll

open Text

variable {limit : Nat}

/-! ## What a text unrolls to -/

/-- **What a text unrolls to**, within so many rounds: to these pieces. An iteration is
unrolled by itself, and takes a round; what it brings in has the other rounds left. -/
inductive UnrollsTo (limit : Nat) : Nat → Text → List Text → Prop where
  | final {n : Nat} {s : Text} (hs : IsTidy s) (hsemicolon : ';' ∉ s)
      (hnone : Iteration.find? s = none) : UnrollsTo limit n s (segments s)
  | iteration {n : Nat} {s : Text} {found : Text × Text × Text} {xs : List Text} (hs : IsTidy s)
      (hsemicolon : ';' ∉ s) (hfound : Iteration.find? s = some found) (hcomma : ',' ∉ found.2.2)
      (h : UnrollsTo limit n (unroll limit s) xs) : UnrollsTo limit (n + 1) s xs
  | append {n : Nat} {s t : Text} {xs ys : List Text} (hs : UnrollsTo limit n s xs)
      (ht : UnrollsTo limit n t ys) : UnrollsTo limit n (s ++ ';' :: t) (xs ++ ys)

/-- Where two texts with a character each are the same text, the characters are the same one,
or one of them stands in front of the other. -/
theorem append_cons_eq_append_cons_iff {s t a b : Text} {c d : Char} :
    s ++ c :: t = a ++ d :: b ↔ (s = a ∧ c = d ∧ t = b)
      ∨ (∃ middle, s = a ++ d :: middle ∧ b = middle ++ c :: t)
      ∨ ∃ middle, a = s ++ c :: middle ∧ t = middle ++ d :: b := by
  constructor
  · intro h
    rcases List.append_eq_append_iff.1 h with ⟨middle, ha, ht⟩ | ⟨middle, hs, hb⟩
    · cases middle with
      | nil =>
        obtain ⟨hcd, htb⟩ := List.cons.inj ht
        exact .inl ⟨by rw [ha, List.append_nil], hcd, htb⟩
      | cons e middle =>
        obtain ⟨rfl, hrest⟩ := List.cons.inj ht
        exact .inr (.inr ⟨middle, ha, hrest⟩)
    · cases middle with
      | nil =>
        obtain ⟨hdc, hbt⟩ := List.cons.inj hb
        exact .inl ⟨by rw [hs, List.append_nil], hdc.symm, hbt.symm⟩
      | cons e middle =>
        obtain ⟨rfl, hrest⟩ := List.cons.inj hb
        exact .inr (.inl ⟨middle, hs, hrest⟩)
  · rintro (⟨rfl, rfl, rfl⟩ | ⟨middle, rfl, rfl⟩ | ⟨middle, rfl, rfl⟩)
    · rfl
    · simp
    · simp

theorem isSeam_of_isSeparator {c : Char} (hc : isSeparator c = true) : isSeam c = true := by
  rcases isSeparator_iff.1 hc with rfl | rfl <;> rfl

theorem segments_cons_blank {c : Char} (hc : isBlank c = true) (s : Text) :
    segments (c :: s) = segments s := by
  have h := segments_append_gaps (List.forall_mem_singleton.2 hc) s .nil
  rwa [List.append_nil] at h

namespace UnrollsTo

variable {n : Nat} {s : Text} {xs : List Text}

/-- Rounds that are left over do no harm. -/
theorem succ (h : UnrollsTo limit n s xs) : UnrollsTo limit (n + 1) s xs := by
  induction h with
  | final hs hsemicolon hnone => exact .final hs hsemicolon hnone
  | iteration hs hsemicolon hfound hcomma _ ih => exact .iteration hs hsemicolon hfound hcomma ih
  | append _ _ ihs iht => exact .append ihs iht

/-- There is no shorthand in the text but iterations. -/
theorem isQuiet (h : UnrollsTo limit n s xs) : IsQuiet s := by
  induction h with
  | final hs _ _ => exact hs.toIsQuiet
  | iteration hs _ _ _ _ _ => exact hs.toIsQuiet
  | append _ _ ihs iht => exact (isQuiet_append_cons_iff (c := ';') (by decide)).2 ⟨ihs, iht⟩

/-- Without rounds nothing is left to unroll. -/
theorem find?_eq_none (h : UnrollsTo limit 0 s xs) (hs : ';' ∉ s) :
    Iteration.find? s = none ∧ xs = segments s := by
  cases h with
  | final _ _ hnone => exact ⟨hnone, rfl⟩
  | append _ _ => exact absurd (List.mem_append_right _ List.mem_cons_self) hs

/-- An empty text unrolls to nothing. -/
theorem eq_nil_of_nil (h : UnrollsTo limit n [] xs) : xs = [] := by
  generalize hs : ([] : Text) = s at h
  cases h with
  | final _ _ _ => rw [← hs]; rfl
  | iteration _ _ hfound _ _ => subst hs; cases hfound
  | append _ _ => simp at hs

/-- A part takes a round to be unrolled, if there is anything to unroll in it. -/
theorem of_succ (h : UnrollsTo limit (n + 1) s xs) (hs : ';' ∉ s) :
    UnrollsTo limit n (DiceRoll.unroll limit s) xs := by
  cases h with
  | final htidy _ hnone =>
    rw [unroll_of_none hnone]
    exact .final htidy hs hnone
  | iteration _ _ _ _ h => exact h
  | append _ _ => exact absurd (List.mem_append_right _ List.mem_cons_self) hs

/-! ## Cutting and trimming -/

/-- **What unrolls can be cut** at every separator. -/
theorem cut {a b : Text} {c : Char} (hc : isSeparator c = true)
    (h : UnrollsTo limit n (a ++ c :: b) xs) :
    ∃ ys zs, xs = ys ++ zs ∧ UnrollsTo limit n a ys ∧ UnrollsTo limit n b zs := by
  have hseam := isSeam_of_isSeparator hc
  generalize ht : a ++ c :: b = t at h
  induction h generalizing a b with
  | final htidy hsemicolon hnone =>
    subst ht
    obtain ⟨ha, hb⟩ := htidy.of_append_cons hseam
    obtain ⟨hna, hnb⟩ := (Iteration.find?_append_eq_none_iff hseam htidy.clear).1 hnone
    simp only [List.mem_append, List.mem_cons, not_or] at hsemicolon
    exact ⟨_, _, segments_append_cons hc a b, .final ha hsemicolon.1 hna,
      .final hb hsemicolon.2.2 hnb⟩
  | @iteration n _ found xs htidy hsemicolon hfound hcomma h ih =>
    subst ht
    obtain ⟨ha, hb⟩ := htidy.of_append_cons hseam
    simp only [List.mem_append, List.mem_cons, not_or] at hsemicolon
    obtain rfl : c = ',' := (isSeparator_iff.1 hc).resolve_left (Ne.symm hsemicolon.2.1)
    -- The comma stands in front of the bracket.
    have hna : Iteration.find? a = none := by
      by_contra hsome
      obtain ⟨⟨before, digits, rest⟩, hfind⟩ := Option.ne_none_iff_exists'.1 hsome
      rw [Iteration.find?_append_of_some hseam hfind (htidy.clear.line_of_find? hsome)] at hfound
      cases hfound
      exact hcomma (List.mem_append_right _ List.mem_cons_self)
    rw [Iteration.find?_append_of_none hseam hna] at hfound
    obtain ⟨found', hfound', rfl⟩ := Option.map_eq_some_iff.1 hfound
    obtain ⟨ys, zs, rfl, hys, hzs⟩ := ih (unroll_append_of_none hseam hna b).symm
    exact ⟨ys, zs, rfl, hys.succ, .iteration hb hsemicolon.2.2 hfound' hcomma hzs⟩
  | @append n s t xs ys hs ht' ihs iht =>
    rcases append_cons_eq_append_cons_iff.1 ht with
      ⟨rfl, -, rfl⟩ | ⟨middle, rfl, rfl⟩ | ⟨middle, rfl, rfl⟩
    · exact ⟨xs, ys, rfl, hs, ht'⟩
    · obtain ⟨zs, ws, rfl, hzs, hws⟩ := iht rfl
      exact ⟨xs ++ zs, ws, by rw [List.append_assoc], .append hs hzs, hws⟩
    · obtain ⟨zs, ws, rfl, hzs, hws⟩ := ihs rfl
      exact ⟨zs, ws ++ ys, by rw [List.append_assoc], hzs, .append hws ht'⟩

/-- A blank in front makes no difference. -/
theorem cons_blank {c : Char} (hc : isBlank c = true) (h : UnrollsTo limit n s xs) :
    UnrollsTo limit n (c :: s) xs := by
  have hseam := isSeam_of_isBlank hc
  have hne : ';' ≠ c := fun heq => absurd (heq ▸ hc) (by decide)
  induction h with
  | @final n s hs hsemicolon hnone =>
    rw [← segments_cons_blank hc]
    refine .final (hs.cons_blank hc) (by simp [hne, hsemicolon]) ?_
    rw [Iteration.find?_cons_of_isSeam hseam, hnone, Option.map_none]
  | @iteration n s found xs hs hsemicolon hfound hcomma _ ih =>
    have hfind := Iteration.find?_cons_of_isSeam hseam s
    rw [hfound] at hfind
    rw [← unroll_cons_of_isSeam hseam] at ih
    exact .iteration (hs.cons_blank hc) (by simp [hne, hsemicolon]) hfind hcomma ih
  | append _ ht ihs _ => exact .append ihs ht

theorem of_cons_blank {c : Char} (hc : isBlank c = true) (h : UnrollsTo limit n (c :: s) xs) :
    UnrollsTo limit n s xs := by
  have hseam := isSeam_of_isBlank hc
  generalize ht : c :: s = t at h
  induction h generalizing s with
  | final htidy hsemicolon hnone =>
    subst ht
    rw [Iteration.find?_cons_of_isSeam hseam, Option.map_eq_none_iff] at hnone
    rw [segments_cons_blank hc]
    exact .final (htidy.of_append_cons hseam (a := [])).2
      (fun hmem => hsemicolon (List.mem_cons_of_mem c hmem)) hnone
  | iteration htidy hsemicolon hfound hcomma _ ih =>
    subst ht
    rw [Iteration.find?_cons_of_isSeam hseam] at hfound
    obtain ⟨found', hfound', rfl⟩ := Option.map_eq_some_iff.1 hfound
    exact .iteration (htidy.of_append_cons hseam (a := [])).2
      (fun hmem => hsemicolon (List.mem_cons_of_mem c hmem)) hfound' hcomma
      (ih (unroll_cons_of_isSeam hseam s).symm)
  | append hs ht' ihs _ =>
    rcases append_cons_eq_append_cons_iff (a := []).1 ht.symm with
      ⟨-, heq, -⟩ | ⟨middle, rfl, rfl⟩ | ⟨middle, heq, -⟩
    · exact absurd (heq ▸ hc) (by decide)
    · exact .append (ihs rfl) ht'
    · simp at heq

/-- Nor does one at the end. -/
theorem of_append_blank {c : Char} (hc : isBlank c = true) (h : UnrollsTo limit n (s ++ [c]) xs) :
    UnrollsTo limit n s xs := by
  have hseam := isSeam_of_isBlank hc
  generalize ht : s ++ [c] = t at h
  induction h generalizing s with
  | final htidy hsemicolon hnone =>
    subst ht
    have hsegments : segments (s ++ [c]) = segments s :=
      segments_append_gaps .nil s (List.forall_mem_singleton.2 hc)
    have hfind := (Iteration.find?_append_eq_none_iff hseam (b := []) htidy.clear).1 hnone
    rw [hsegments]
    exact .final (htidy.of_append_cons hseam (b := [])).1
      (fun hmem => hsemicolon (List.mem_append_left _ hmem)) hfind.1
  | iteration htidy hsemicolon hfound hcomma h _ =>
    subst ht
    have hsemicolon' : ';' ∉ s := fun hmem => hsemicolon (List.mem_append_left _ hmem)
    cases hfind : Iteration.find? s with
    | none =>
      rw [Iteration.find?_append_of_none hseam hfind] at hfound
      cases hfound
    | some found' =>
      obtain ⟨before, digits, rest⟩ := found'
      have hline := htidy.clear.line_of_find? (by simp [hfind])
      rw [Iteration.find?_append_of_some hseam hfind hline] at hfound
      cases hfound
      rw [unroll_append_blank (by simp [hfind]) hsemicolon' hc
        fun heq => hline (List.mem_singleton.2 heq.symm)] at h
      exact .iteration (htidy.of_append_cons hseam (b := [])).1 hsemicolon' hfind
        (fun hmem => hcomma (List.mem_append_left _ hmem)) h
  | append hs _ _ iht =>
    rcases append_cons_eq_append_cons_iff (b := []).1 ht.symm with
      ⟨-, heq, -⟩ | ⟨middle, -, heq⟩ | ⟨middle, rfl, rfl⟩
    · exact absurd (heq ▸ hc) (by decide)
    · simp at heq
    · exact .append hs (iht rfl)

theorem of_gap_append {gap : Text} (hgap : IsGap gap) (h : UnrollsTo limit n (gap ++ s) xs) :
    UnrollsTo limit n s xs := by
  induction gap with
  | nil => exact h
  | cons c gap ih =>
    exact ih (fun d hd => hgap d (List.mem_cons_of_mem c hd))
      (h.of_cons_blank (hgap c List.mem_cons_self))

theorem of_append_gap {gap : Text} (hgap : IsGap gap) (h : UnrollsTo limit n (s ++ gap) xs) :
    UnrollsTo limit n s xs := by
  induction gap using List.reverseRecOn with
  | nil => rwa [List.append_nil] at h
  | append_singleton gap c ih =>
    rw [← List.append_assoc] at h
    exact ih (fun d hd => hgap d (List.mem_append_left _ hd))
      (h.of_append_blank (hgap c (by simp)))

/-- **What unrolls can be trimmed.** -/
theorem trim (h : UnrollsTo limit n s xs) : UnrollsTo limit n (Text.trim s) xs := by
  obtain ⟨front, back, hs, hfront, hback⟩ := exists_eq_trim s
  rw [hs] at h
  exact (h.of_append_gap hback).of_gap_append hfront

/-- **The entries of a list unroll to what the list unrolls to**, one after the other. -/
theorem entries (sep : Separator) (h : UnrollsTo limit n s xs) :
    ∃ xss, List.Forall₂ (UnrollsTo limit n) (sep.entries s) xss ∧ xs = xss.flatten := by
  have hsep : isSeparator sep.char = true := by cases sep <;> rfl
  -- What is blank unrolls to nothing.
  have hpart {a : Text} {ys : List Text} (ha : sep.char ∉ a) (h : UnrollsTo limit n a ys) :
      ∃ xss, List.Forall₂ (UnrollsTo limit n) (sep.entries a) xss ∧ ys = xss.flatten := by
    by_cases hempty : Text.trim a = []
    · have htrim := h.trim
      rw [hempty] at htrim
      refine ⟨[], ?_, htrim.eq_nil_of_nil⟩
      rw [Separator.entries, pieces_of_not_mem ha]
      simp [hempty]
    · rw [entries_of_not_mem ha hempty]
      exact ⟨[ys], .cons h.trim .nil, by simp⟩
  induction s using splitInduction sep.char generalizing xs with
  | whole s hs => exact hpart hs h
  | cut a s ha ih =>
    obtain ⟨ys, zs, rfl, hys, hzs⟩ := h.cut hsep
    obtain ⟨yss, hyss, rfl⟩ := hpart ha hys
    obtain ⟨zss, hzss, rfl⟩ := ih hzs
    refine ⟨yss ++ zss, ?_, by rw [List.flatten_append]⟩
    rw [entries_append]
    exact List.rel_append hyss hzss

/-! ## Unrolling -/

/-- **What unrolls stays so when it is unrolled**, wherever the iteration stands that is
found first. -/
theorem unroll (h : UnrollsTo limit n s xs) : UnrollsTo limit n (DiceRoll.unroll limit s) xs := by
  induction h with
  | final hs hsemicolon hnone =>
    rw [unroll_of_none hnone]
    exact .final hs hsemicolon hnone
  | iteration _ _ _ _ h _ => exact h.succ
  | @append n s t _ _ hs ht ihs iht =>
    by_cases hnone : Iteration.find? s = none
    · rw [unroll_append_of_none (by decide) hnone]
      exact .append hs iht
    · by_cases hline : '
' ∈ t
      · rw [unroll_append_of_line (by decide) hline]
        exact .append hs iht
      · rw [unroll_append_of_some hnone hline]
        exact .append ihs ht

/-- Writing out unrolls twice, and does nothing else. -/
theorem written_eq (h : UnrollsTo limit n s xs) :
    written limit s = DiceRoll.unroll limit (DiceRoll.unroll limit s) := by
  rw [written_of_not_contains h.isQuiet.abilities, h.unroll.isQuiet.spell_eq]

/-- **What unrolls stays so when it is written out.** -/
theorem written (h : UnrollsTo limit n s xs) : UnrollsTo limit n (written limit s) xs := by
  rw [h.written_eq]
  exact h.unroll.unroll

/-- A text that is written out without separators has nothing left to unroll, if two rounds
suffice. -/
theorem eq_segments (h : UnrollsTo limit 2 s xs)
    (hs : firstSeparator? (DiceRoll.written limit s) = none) :
    xs = segments (DiceRoll.written limit s) := by
  have hlast := (firstSeparator?_eq_none_iff.1 hs).1
  rw [h.written_eq] at hlast ⊢
  have hsecond : ';' ∉ DiceRoll.unroll limit s :=
    fun hmem => hlast (Iteration.mem_expand_of_mem hmem)
  have hfirst : ';' ∉ s := fun hmem => hsecond (Iteration.mem_expand_of_mem hmem)
  exact (((h.of_succ hfirst).of_succ hsecond).find?_eq_none hlast).2

end UnrollsTo

/-- A text in which no comma stands behind a bracket that counts, up to the next
semicolon. -/
def CopiesNoComma (s : Text) : Prop :=
  ∀ part ∈ pieces (· == ';') s, ∀ found ∈ Iteration.find? part, ',' ∉ found.2.2

instance (s : Text) : Decidable (CopiesNoComma s) :=
  inferInstanceAs
    (Decidable (∀ part ∈ pieces (· == ';') s, ∀ found ∈ Iteration.find? part, ',' ∉ found.2.2))

theorem IsWrittenOut.copiesNoComma {s : Text} (hs : IsWrittenOut s) : CopiesNoComma s := by
  intro part hpart found hfound
  have hnone : '[' ∉ part := fun hmem => hs.bracket ((mem_pieces hpart).1.subset hmem)
  rw [Iteration.find?_eq_none hnone] at hfound
  cases hfound

/-- **A text unrolls to what it unrolls to once it is unrolled**, if it asks for no copies of
a comma. -/
theorem UnrollsTo.of_unroll {n : Nat} {s : Text} {xs : List Text} (hs : IsTidy s)
    (hcomma : CopiesNoComma s) (h : UnrollsTo limit n (DiceRoll.unroll limit s) xs) :
    UnrollsTo limit (n + 1) s xs := by
  induction s using splitInduction ';' generalizing xs with
  | whole s hsemicolon =>
    rw [CopiesNoComma, pieces_of_not_mem hsemicolon, List.forall_mem_singleton] at hcomma
    cases hfind : Iteration.find? s with
    | none =>
      rw [unroll_of_none hfind] at h
      exact h.succ
    | some found => exact .iteration hs hsemicolon hfind (hcomma found hfind) h
  | cut a s ha ih =>
    obtain ⟨hta, hts⟩ := hs.of_append_cons (c := ';') (by decide)
    rw [CopiesNoComma, @pieces_append_cons (· == ';') ';' rfl, List.forall_mem_append,
      pieces_of_not_mem ha, List.forall_mem_singleton] at hcomma
    cases hfind : Iteration.find? a with
    | none =>
      rw [unroll_append_of_none (by decide) hfind] at h
      obtain ⟨ys, zs, rfl, hys, hzs⟩ := h.cut (by decide)
      exact .append hys.succ (ih hts hcomma.2 hzs)
    | some found =>
      have hsome : Iteration.find? a ≠ none := by simp [hfind]
      have hline : '\n' ∉ s := fun hmem =>
        hs.clear.line_of_find? hsome (List.mem_cons_of_mem _ hmem)
      rw [unroll_append_of_some hsome hline] at h
      obtain ⟨ys, zs, rfl, hys, hzs⟩ := h.cut (by decide)
      exact .append (.iteration hta ha hfind (hcomma.1 found hfind) hys) hzs.succ

/-- **A text without shorthand unrolls to its pieces.** -/
theorem IsFinal.unrollsTo {s : Text} (hs : IsFinal s) (hclear : IsClear s) (n : Nat) :
    UnrollsTo limit n s (segments s) := by
  induction s using splitInduction ';' with
  | whole s hsemicolon => exact .final ⟨hs.toIsQuiet, hclear⟩ hsemicolon hs.iteration
  | cut a s ha ih =>
    obtain ⟨hqa, hqs⟩ := (isQuiet_append_cons_iff (c := ';') (by decide)).1 hs.toIsQuiet
    obtain ⟨hna, hns⟩ :=
      (Iteration.find?_append_eq_none_iff (c := ';') (by decide) hclear).1 hs.iteration
    obtain ⟨hca, hcs, -⟩ := hclear.of_append_cons
    rw [segments_append_cons (by decide)]
    exact .append (.final ⟨hqa, hca⟩ ha hna) (ih ⟨hqs, hns⟩ hcs)

end DiceRoll
