/-
Rolls of a message that keep apart.

The rolls of a message are joined into one list before anything is written out, and so they
can get in each other's way. The word for the abilities takes the place of the whole list. An
entry of the list is written out more often than it would be alone, which makes a difference
to a text that is not done after the first time. And of all iterations in the list only two
are unrolled at once, wherever they stand, and none of them where a line ends behind it.

Where the rolls leave no room for that (`KeepApart`), nothing is lost: they come to what they
would come to one after the other (`Session.solidOutcomes_inline`). When the list is written
out, each roll is unrolled once, twice or not at all, and its checks and attacks are written
out in between (`IsStage`). Whichever it is, the text unrolls to the pieces of the roll as it
is written out alone.
-/

import DiceRoll.Proofs.Inline.Message
import DiceRoll.Proofs.Roll.Entries
import DiceRoll.Proofs.Roll.Outcomes

set_option autoImplicit false

namespace DiceRoll

open Text Inline

variable {limit : Nat}

/-! ## Joined texts -/

theorem join_cons (b : Text) {bs : List Text} (hbs : bs ≠ []) :
    [';', ' '].intercalate (b :: bs) = b ++ ';' :: ' ' :: [';', ' '].intercalate bs := by
  obtain ⟨f, bs, rfl⟩ := List.exists_cons_of_ne_nil hbs
  rw [List.intercalate_cons_cons, List.append_assoc]
  rfl

theorem mem_join_iff {c : Char} (hsemicolon : c ≠ ';') (hspace : c ≠ ' ') {bs : List Text} :
    c ∈ [';', ' '].intercalate bs ↔ ∃ b ∈ bs, c ∈ b := by
  induction bs with
  | nil => simp
  | cons b bs ih =>
    by_cases hbs : bs = []
    · simp [hbs]
    · simp [join_cons b hbs, ih, hsemicolon, hspace]

theorem contains_join {bs : List Text} (hbs : ∀ b ∈ bs, Text.contains Abilities.word b = false) :
    Text.contains Abilities.word ([';', ' '].intercalate bs) = false := by
  induction bs with
  | nil => rfl
  | cons b bs ih =>
    obtain ⟨hb, hrest⟩ := List.forall_mem_cons.1 hbs
    by_cases hne : bs = []
    · rw [hne, List.intercalate_singleton]
      exact hb
    · have hspace := @contains_append_cons Abilities.word ' ' (by decide) []
        ([';', ' '].intercalate bs)
      rw [List.nil_append] at hspace
      rw [join_cons b hne, contains_append_cons (by decide), hb, hspace, ih hrest]
      rfl

theorem spell_join (bs : List Text) :
    spell ([';', ' '].intercalate bs) = [';', ' '].intercalate (bs.map spell) := by
  induction bs with
  | nil => exact splitsAtSeams_spell.nil
  | cons b bs ih =>
    by_cases hbs : bs = []
    · simp [hbs]
    · have hspace := splitsAtSeams_spell.cut (c := ' ') (by decide) [] ([';', ' '].intercalate bs)
      rw [List.nil_append, splitsAtSeams_spell.nil, List.nil_append] at hspace
      rw [join_cons b hbs, splitsAtSeams_spell.cut (by decide), hspace, ih, List.map_cons,
        join_cons _ (by simpa using hbs)]

/-! ## Which roll is unrolled -/

/-- The rolls with the first of them unrolled that has an iteration which counts. -/
def unrollFirst (limit : Nat) : List Text → List Text
  | [] => []
  | b :: bs =>
    if Iteration.find? b ≠ none ∧ ∀ f ∈ bs, '\n' ∉ f then unroll limit b :: bs
    else b :: unrollFirst limit bs

theorem forall₂_unrollFirst (bs : List Text) :
    List.Forall₂ (fun b h => h = b ∨ h = unroll limit b) bs (unrollFirst limit bs) := by
  induction bs with
  | nil => exact .nil
  | cons b bs ih =>
    rw [unrollFirst]
    split
    · exact .cons (.inr rfl) (List.forall₂_same.2 fun _ _ => .inl rfl)
    · exact .cons (.inl rfl) ih

theorem unrollFirst_ne_nil {bs : List Text} (hbs : bs ≠ []) : unrollFirst limit bs ≠ [] := by
  rintro hnil
  have hlength := (@forall₂_unrollFirst limit bs).length_eq
  rw [hnil] at hlength
  exact hbs (List.length_eq_zero_iff.1 hlength)

/-- **A list is unrolled at the first roll with an iteration that counts.** -/
theorem unroll_join (bs : List Text) :
    unroll limit ([';', ' '].intercalate bs) = [';', ' '].intercalate (unrollFirst limit bs) := by
  induction bs with
  | nil => exact unroll_of_none (s := []) rfl limit
  | cons b bs ih =>
    by_cases hbs : bs = []
    · subst hbs
      by_cases hnone : Iteration.find? b = none
      · simp [unrollFirst, hnone, unroll_of_none hnone]
      · simp [unrollFirst, hnone]
    have hspace : unroll limit (' ' :: [';', ' '].intercalate bs)
        = ' ' :: [';', ' '].intercalate (unrollFirst limit bs) := by
      rw [← ih]
      exact unroll_cons_of_isSeam (by decide) _
    have hlines : '\n' ∈ ' ' :: [';', ' '].intercalate bs ↔ ∃ f ∈ bs, '\n' ∈ f := by
      rw [List.mem_cons, mem_join_iff (by decide) (by decide)]
      simp
    rw [join_cons b hbs, unrollFirst]
    split
    · rename_i hfirst
      rw [unroll_append_of_some hfirst.1, join_cons _ hbs]
      exact fun hmem => let ⟨f, hf, hline⟩ := hlines.1 hmem; hfirst.2 f hf hline
    · rename_i hfirst
      rw [join_cons _ (unrollFirst_ne_nil hbs), ← hspace]
      by_cases hnone : Iteration.find? b = none
      · exact unroll_append_of_none (by decide) hnone _
      · refine unroll_append_of_line (by decide) (hlines.2 ?_) b
        by_contra hline
        exact hfirst ⟨hnone, fun f hf hmem => hline ⟨f, hf, hmem⟩⟩

theorem not_mem_unroll {c : Char} (hsemicolon : c ≠ ';') (hdigit : c.isDigit = false) {s : Text}
    (hs : c ∉ s) : c ∉ unroll limit s := by
  intro hmem
  rcases Iteration.mem_of_mem_expand hmem with hmem | heq | hmem
  · exact hs hmem
  · exact hsemicolon heq
  · rw [hdigit] at hmem
    cases hmem

theorem forall_not_mem_of_unrolled {c : Char} (hsemicolon : c ≠ ';') (hdigit : c.isDigit = false)
    {bs ms : List Text} (h : List.Forall₂ (fun b m => m = b ∨ m = unroll limit b) bs ms)
    (hbs : ∀ b ∈ bs, c ∉ b) : ∀ m ∈ ms, c ∉ m := by
  induction h with
  | nil => exact List.forall_mem_nil _
  | cons hm _ ih =>
    obtain ⟨hb, hrest⟩ := List.forall_mem_cons.1 hbs
    refine List.forall_mem_cons.2 ⟨?_, ih hrest⟩
    rcases hm with rfl | rfl
    · exact hb
    · exact not_mem_unroll hsemicolon hdigit hb

/-- A roll behind others without brackets is unrolled if no line ends behind it. -/
theorem exists_unrollFirst_append {front back : List Text} (hfront : ∀ f ∈ front, '[' ∉ f)
    (hback : ∀ g ∈ back, '\n' ∉ g) (b : Text) :
    ∃ back', unrollFirst limit (front ++ b :: back) = front ++ unroll limit b :: back'
      ∧ List.Forall₂ (fun g h => h = g ∨ h = unroll limit g) back back' := by
  induction front with
  | nil =>
    rw [List.nil_append, unrollFirst]
    by_cases hnone : Iteration.find? b = none
    · refine ⟨unrollFirst limit back, ?_, forall₂_unrollFirst back⟩
      rw [if_neg fun h => h.1 hnone, unroll_of_none hnone]
      rfl
    · refine ⟨back, ?_, List.forall₂_same.2 fun _ _ => .inl rfl⟩
      rw [if_pos ⟨hnone, hback⟩]
      rfl
  | cons f front ih =>
    obtain ⟨hf, hrest⟩ := List.forall_mem_cons.1 hfront
    obtain ⟨back', heq, hsteps⟩ := ih hrest
    refine ⟨back', ?_, hsteps⟩
    rw [List.cons_append, unrollFirst, if_neg fun h => h.1 (Iteration.find?_eq_none hf), heq]
    rfl

/-! ## The stages of a roll -/

/-- What a roll can be in the list that is written out: unrolled or not, with its checks and
attacks written out, and once more unrolled or not. -/
def IsStage (limit : Nat) (b h : Text) : Prop :=
  ∃ m, (m = b ∨ m = unroll limit b) ∧ (h = spell m ∨ h = unroll limit (spell m))

/-- A semicolon is not lost. -/
theorem mem_written {s : Text} (hs : Text.contains Abilities.word s = false) (hmem : ';' ∈ s) :
    ';' ∈ written limit s := by
  rw [written_of_not_contains hs]
  exact Iteration.mem_expand_of_mem
    (splitsAtSeams_spell.mem_of_mem (by decide) (Iteration.mem_expand_of_mem hmem))

/-- The rolls as they are in the list that is written out. -/
def stages (limit : Nat) (bs : List Text) : List Text :=
  unrollFirst limit ((unrollFirst limit bs).map spell)

theorem forall₂_isStage {bs ms hs : List Text}
    (hfirst : List.Forall₂ (fun b m => m = b ∨ m = unroll limit b) bs ms)
    (hsecond : List.Forall₂ (fun m h => h = m ∨ h = unroll limit m) (ms.map spell) hs) :
    List.Forall₂ (IsStage limit) bs hs := by
  induction hfirst generalizing hs with
  | nil =>
    cases hsecond
    exact .nil
  | cons hm _ ih =>
    rw [List.map_cons, List.forall₂_cons_left_iff] at hsecond
    obtain ⟨h, hs, hh, hrest, rfl⟩ := hsecond
    exact .cons ⟨_, hm, hh⟩ (ih hrest)

/-- **The list is written out as the stages of its rolls.** -/
theorem written_join {bs : List Text} (hbs : ∀ b ∈ bs, Text.contains Abilities.word b = false) :
    written limit ([';', ' '].intercalate bs) = [';', ' '].intercalate (stages limit bs) := by
  rw [written_of_not_contains (contains_join hbs), unroll_join, spell_join, unroll_join, stages]

/-- **A roll behind others without brackets is written out as it is alone**, if no line ends
behind it. -/
theorem exists_stages_append {front back : List Text} (hfront : ∀ f ∈ front, '[' ∉ f)
    (hback : ∀ g ∈ back, '\n' ∉ g) {b : Text} (hb : Text.contains Abilities.word b = false) :
    ∃ back', stages limit (front ++ b :: back) = front.map spell ++ written limit b :: back'
      ∧ List.Forall₂ (IsStage limit) back back' := by
  obtain ⟨ms, hms, hfirst⟩ := @exists_unrollFirst_append limit _ _ hfront hback b
  have hspelled : ∀ f ∈ front.map spell, '[' ∉ f :=
    List.forall_mem_map.2 fun f hf hmem => hfront f hf (mem_of_mem_spell rfl rfl hmem)
  have hlines : ∀ m ∈ ms.map spell, '\n' ∉ m := by
    have hnone := forall_not_mem_of_unrolled (by decide) (by decide) hfirst hback
    exact List.forall_mem_map.2 fun m hm hmem => hnone m hm (mem_of_mem_spell rfl rfl hmem)
  obtain ⟨hs, hhs, hsecond⟩ :=
    @exists_unrollFirst_append limit _ _ hspelled hlines (spell (unroll limit b))
  refine ⟨hs, ?_, forall₂_isStage hfirst hsecond⟩
  rw [stages, hms, List.map_append, List.map_cons, hhs, written_of_not_contains hb]

/-! ## Rolls that keep apart -/

/-- A roll that is written out to the same pieces whenever its iterations are unrolled:
before its checks and attacks are written out, or afterwards, or later still when the list is
cut. There is no shorthand in it on the way but iterations, and these copy no commas. -/
structure IsOrderFree (limit : Nat) (b : Text) : Prop where
  same : unroll limit (unroll limit (spell b)) = unroll limit (spell (unroll limit b))
  quiet : ∀ h ∈ [spell b, unroll limit (spell b), spell (unroll limit b)], IsQuiet h
  copies : ∀ h ∈ [spell b, unroll limit (spell b), spell (unroll limit b)], CopiesNoComma h

/-- A roll that leaves nothing to do when it is written out. -/
structure StandsAlone (limit : Nat) (b : Text) : Prop where
  abilities : Text.contains Abilities.word b = false
  settled : written limit (written limit b) = written limit b
  line : IsClear b

namespace StandsAlone

variable {b : Text} (hb : StandsAlone limit b)

include hb

theorem isClear_written : IsClear (written limit b) := by
  rw [written_of_not_contains hb.abilities]
  exact hb.line.unroll.spell.unroll

/-- A roll as it is written out alone unrolls to its pieces. -/
theorem unrollsTo_written (n : Nat) :
    UnrollsTo limit n (written limit b) (segments (written limit b)) :=
  (isFinal_of_written_eq hb.settled).unrollsTo hb.isClear_written n

/-- Without brackets all stages of a roll are the same. -/
theorem unrollsTo_of_no_bracket (hbracket : '[' ∉ b) {h : Text} (hstage : IsStage limit b h) :
    UnrollsTo limit 2 h (segments (written limit b)) := by
  have hfirst : unroll limit b = b := unroll_of_none (Iteration.find?_eq_none hbracket) limit
  have hspelled : '[' ∉ spell b := fun hmem => hbracket (mem_of_mem_spell rfl rfl hmem)
  have hsecond : unroll limit (spell b) = spell b :=
    unroll_of_none (Iteration.find?_eq_none hspelled) limit
  have hwritten : written limit b = spell b := by
    rw [written_of_not_contains hb.abilities, hfirst, hsecond]
  have heq : h = written limit b := by
    obtain ⟨m, hm, hh⟩ := hstage
    rw [hfirst, or_self] at hm
    subst hm
    rw [hsecond, or_self] at hh
    rw [hh, hwritten]
  rw [heq]
  exact hb.unrollsTo_written 2

/-- **All stages of an order-free roll unroll to the same pieces**, the sooner the later the
stage. -/
theorem unrollsTo_of_isOrderFree (hfree : IsOrderFree limit b) {h : Text}
    (hstage : IsStage limit b h) : UnrollsTo limit 2 h (segments (written limit b)) := by
  have hquiet := hfree.quiet
  have hcopies := hfree.copies
  simp only [List.forall_mem_cons, List.not_mem_nil, false_imp_iff, implies_true, and_true]
    at hquiet hcopies
  have hwritten := written_of_not_contains hb.abilities limit
  have hlast := hb.unrollsTo_written
  -- Each stage unrolls to the next one, and the last is what is written out alone.
  have hunrolled : UnrollsTo limit 1 (spell (unroll limit b)) (segments (written limit b)) := by
    refine .of_unroll ⟨hquiet.2.2, hb.line.unroll.spell⟩ hcopies.2.2 ?_
    rw [← hwritten]
    exact hlast 0
  have hspelled : UnrollsTo limit 1 (unroll limit (spell b)) (segments (written limit b)) := by
    refine .of_unroll ⟨hquiet.2.1, hb.line.spell.unroll⟩ hcopies.2.1 ?_
    rw [hfree.same, ← hwritten]
    exact hlast 0
  obtain ⟨m, rfl | rfl, rfl | rfl⟩ := hstage
  · exact .of_unroll ⟨hquiet.1, hb.line.spell⟩ hcopies.1 hspelled
  · exact hspelled.succ
  · exact hunrolled.succ
  · rw [← hwritten]
    exact hlast 2

end StandsAlone

/-- Rolls that do not get in each other's way. A roll with a bracket is order-free, or it is
the first one with a bracket and no line ends behind it. -/
structure KeepApart (limit : Nat) (bs : List Text) : Prop where
  alone : ∀ b ∈ bs, StandsAlone limit b
  brackets : ∀ front b back, bs = front ++ b :: back → '[' ∈ b →
    IsOrderFree limit b ∨ (∀ f ∈ front, '[' ∉ f) ∧ ∀ g ∈ back, '\n' ∉ g

section WrittenOut

variable {b : Text} (hquiet : IsQuiet b) (hb : IsWrittenOut (unroll limit b))

include hquiet hb

/-- A roll with an iteration is order-free if there is no shorthand in what is copied. -/
theorem isOrderFree_of_isWrittenOut (hcopies : CopiesNoComma b) : IsOrderFree limit b := by
  constructor
  · rw [hquiet.spell_eq, hb.isFinal.spell_eq]
  · rw [hquiet.spell_eq, hb.isFinal.spell_eq]
    simp [hquiet, hb.isFinal.toIsQuiet]
  · rw [hquiet.spell_eq, hb.isFinal.spell_eq]
    simp [hcopies, hb.copiesNoComma]

theorem standsAlone_of_isWrittenOut (hclear : IsClear b) : StandsAlone limit b := by
  have hlast : unroll limit (unroll limit b) = unroll limit b :=
    unroll_of_none hb.isFinal.iteration limit
  have hwritten : written limit b = unroll limit b := by
    rw [written_of_not_contains hquiet.abilities, hb.isFinal.spell_eq, hlast]
  refine ⟨hquiet.abilities, ?_, hclear⟩
  rw [hwritten, written_of_not_contains hb.abilities, hlast, hb.isFinal.spell_eq, hlast]

end WrittenOut

/-- **Each stage unrolls to the pieces of its roll**, as that is written out alone. -/
theorem KeepApart.forall₂_stages {bs : List Text} (hbs : KeepApart limit bs) :
    List.Forall₂ (fun b h => UnrollsTo limit 2 h (segments (written limit b))) bs
      (stages limit bs) := by
  have hstage {b h : Text} (hb : b ∈ bs) (hfree : '[' ∈ b → IsOrderFree limit b)
      (hstage : IsStage limit b h) : UnrollsTo limit 2 h (segments (written limit b)) := by
    by_cases hbracket : '[' ∈ b
    · exact (hbs.alone b hb).unrollsTo_of_isOrderFree (hfree hbracket) hstage
    · exact (hbs.alone b hb).unrollsTo_of_no_bracket hbracket hstage
  have hstages {bs' hs : List Text} (hsub : ∀ b ∈ bs', b ∈ bs ∧ ('[' ∈ b → IsOrderFree limit b))
      (h : List.Forall₂ (IsStage limit) bs' hs) :
      List.Forall₂ (fun b h => UnrollsTo limit 2 h (segments (written limit b))) bs' hs :=
    ((List.forall₂_and_left _ _).2 ⟨hsub, h⟩).imp fun b h hbh => hstage hbh.1.1 hbh.1.2 hbh.2
  by_cases hfree : ∀ b ∈ bs, '[' ∈ b → IsOrderFree limit b
  · exact hstages (fun b hb => ⟨hb, hfree b hb⟩)
      (forall₂_isStage (forall₂_unrollFirst bs) (forall₂_unrollFirst _))
  · -- There is one roll that is not order-free, and it is the first one with a bracket.
    push Not at hfree
    obtain ⟨b, hb, hbracket, hnot⟩ := hfree
    obtain ⟨front, back, rfl⟩ := List.append_of_mem hb
    obtain ⟨hfront, hback⟩ := (hbs.brackets front b back rfl hbracket).resolve_left hnot
    obtain ⟨back', hwritten, hrest⟩ :=
      @exists_stages_append limit _ _ hfront hback _ (hbs.alone b hb).abilities
    rw [hwritten]
    refine List.rel_append ?_ (.cons ((hbs.alone b hb).unrollsTo_written 2) ?_)
    · refine hstages (fun f hf => ?_) ?_
      · exact ⟨List.mem_append_left _ hf, fun hmem => absurd hmem (hfront f hf)⟩
      · rw [List.forall₂_map_right_iff]
        exact List.forall₂_same.2 fun f _ => ⟨f, .inl rfl, .inl rfl⟩
    · refine hstages (fun g hg => ?_) hrest
      refine ⟨List.mem_append_right _ (List.mem_cons_of_mem b hg), fun hmem => ?_⟩
      obtain ⟨middle, behind, rfl⟩ := List.append_of_mem hg
      refine (hbs.brackets (front ++ b :: middle) g behind (by simp) hmem).resolve_right ?_
      exact fun hfirst => hfirst.1 b (List.mem_append_right _ List.mem_cons_self) hbracket

/-- **What is joined unrolls to what its rolls unroll to.** -/
theorem unrollsTo_join {n : Nat} {pieces : Text → List Text} {bs hs : List Text} (hne : bs ≠ [])
    (h : List.Forall₂ (fun b h => UnrollsTo limit n h (pieces b)) bs hs) :
    UnrollsTo limit n ([';', ' '].intercalate hs) (bs.map pieces).flatten := by
  induction h with
  | nil => exact absurd rfl hne
  | @cons b h bs hs hb hrest ih =>
    cases hrest with
    | nil => simpa using hb
    | cons hnext hrest =>
      rw [join_cons _ (List.cons_ne_nil _ _), List.map_cons, List.flatten_cons]
      exact .append hb ((ih (List.cons_ne_nil _ _)).cons_blank (by decide))

/-! ## Rolls one after the other -/

section Session

variable {σ : Type} [Source σ]

theorem Setup.told_told (u : Setup) : u.told.told = u.told := by
  have hescape : (u.macros.withEscape u.escape).escape = u.escape := by
    unfold MacroBook.withEscape
    split
    · assumption
    · rfl
  simp only [told]
  congr 1
  rw [MacroBook.withEscape, if_pos hescape]

/-- A session that reads inputs reads each of them as a new one would. -/
theorem Session.drawEach_parse (u : Setup) {inputs : List Text} (hne : inputs ≠ []) (s : σ) :
    drawEach (fun input (t : Session σ) => t.parse input) inputs ⟨u, s⟩
      = ((drawEach (alone u) inputs s).1, ⟨u.told, (drawEach (alone u) inputs s).2⟩) := by
  have hstep (u : Setup) (input : Text) (s : σ) : (⟨u, s⟩ : Session σ).parse input
      = ((alone u input s).1, ⟨u.told, (alone u input s).2⟩) := rfl
  have halone (input : Text) (s : σ) : alone u.told input s = alone u input s := by
    rw [alone, alone, parse_eq, parse_eq, u.told_told]
    rfl
  have htold (inputs : List Text) (s : σ) :
      drawEach (fun input (t : Session σ) => t.parse input) inputs ⟨u.told, s⟩
        = ((drawEach (alone u) inputs s).1, ⟨u.told, (drawEach (alone u) inputs s).2⟩) := by
    induction inputs generalizing s with
    | nil => rfl
    | cons input inputs ih =>
      simp only [drawEach]
      rw [hstep u.told input s, u.told_told, halone, ih]
  obtain ⟨input, inputs, rfl⟩ := List.exists_cons_of_ne_nil hne
  simp only [drawEach]
  rw [hstep u input s, htold]

/-- **No roll of a message is lost to another**, if it is the only one or they keep apart. In
a session without macros, and with nothing refused, the leaves of the roll of a message with
anything in them come to what the leaves come to of its rolls when they are read one after the
other, and the session is left as these leave it. -/
theorem Session.solidOutcomes_inline {t t' : Session σ} (hmacros : t.setup.macros.macros = [])
    {message left : Text} {roll : Roll} (h : t.inline message = (some (roll, left), t'))
    (hapart : (bodies t.setup.escape message).length = 1
      ∨ KeepApart t.setup.limits.maxIterations (bodies t.setup.escape message))
    (htogether : ∀ node ∈ roll.nodes, node.isRefused = false)
    (halone : ∀ r ∈ (drawEach (fun body (t : Session σ) => t.parse body)
      (bodies t.setup.escape message) t).1, ∀ node ∈ r.nodes, node.isRefused = false) :
    (roll.solidOutcomes, t')
      = ((drawEach (fun body (t : Session σ) => t.parse body)
          (bodies t.setup.escape message) t).1.flatMap Roll.solidOutcomes,
        (drawEach (fun body (t : Session σ) => t.parse body)
          (bodies t.setup.escape message) t).2) := by
  have hne : bodies t.setup.escape message ≠ [] := by
    intro hnil
    rw [t.inline_of_nil hnil] at h
    cases h
  rw [t.inline_of_ne_nil hne] at h
  cases h
  generalize bodies t.setup.escape message = bs at hne hapart htogether halone ⊢
  obtain ⟨u, s⟩ := t
  by_cases hsingle : bs.length = 1
  · obtain ⟨b, rfl⟩ := List.length_eq_one_iff.1 hsingle
    simp only [drawEach, List.intercalate_singleton, List.flatMap_singleton]
  have hkeep := hapart.resolve_left hsingle
  have hbook : u.told.macros.macros = [] := u.macros_told.trans hmacros
  rw [drawEach_parse u hne] at halone ⊢
  -- One after the other they come to their pieces, and so does the list.
  have hpieces : List.Forall₂ (fun b xs => ∀ s : σ,
      (∀ node ∈ (alone u b s).1.nodes, node.isRefused = false) →
        ((alone u b s).1.solidOutcomes, (alone u b s).2) = u.told.outcomesOf xs s)
      bs (bs.map fun b => segments (written u.limits.maxIterations b)) := by
    rw [List.forall₂_map_right_iff, List.forall₂_same]
    intro b hb s hallowed
    exact Setup.outcomes_roll hbook ((hkeep.alone b hb).unrollsTo_written 2) (fun _ => rfl) hallowed
  have hdrawn := Setup.outcomes_drawEach id hpieces s halone
  have hunrolls := unrollsTo_join hne hkeep.forall₂_stages
  rw [← written_join fun b hb => (hkeep.alone b hb).abilities] at hunrolls
  have hlist : ';' ∈ written u.limits.maxIterations ([';', ' '].intercalate bs) := by
    refine mem_written (contains_join fun b hb => (hkeep.alone b hb).abilities) ?_
    obtain ⟨b, bs, rfl⟩ := List.exists_cons_of_ne_nil hne
    rw [join_cons b fun hnil => hsingle (by rw [hnil, List.length_singleton])]
    exact List.mem_append_right _ List.mem_cons_self
  rw [parse_eq] at htogether ⊢
  have hjoined := Setup.outcomes_roll hbook hunrolls
    (fun hnone => absurd hlist (firstSeparator?_eq_none_iff.1 hnone).1) htogether
  obtain ⟨houtcomes, hsource⟩ := Prod.ext_iff.1 (hjoined.trans hdrawn.symm)
  exact Prod.ext houtcomes (congrArg (Session.mk u.told) hsource)

/-- Two iterations, and a check between them. -/
theorem Session.solidOutcomes_inline_of_three :
    let t := Session.ofSource (⟨[4, 2, 14, 3, 5], 0⟩ : Recording)
    let together := t.parse "/r [2]d6; /r c5; /r [2]d6".toList
    let apart := drawEach (fun body (t : Session Recording) => t.parse body)
      ["/r [2]d6".toList, "/r c5".toList, "/r [2]d6".toList] t
    (together.1.solidOutcomes, together.2) = (apart.1.flatMap Roll.solidOutcomes, apart.2) := by
  have htogether : ((Session.ofSource (⟨[4, 2, 14, 3, 5], 0⟩ : Recording)).parse
      "/r [2]d6; /r c5; /r [2]d6".toList).1.nodes.all (fun node => !node.isRefused) = true := by
    cbv
  have hapart : (drawEach (fun body (t : Session Recording) => t.parse body)
      ["/r [2]d6".toList, "/r c5".toList, "/r [2]d6".toList]
      (Session.ofSource (⟨[4, 2, 14, 3, 5], 0⟩ : Recording))).1.all
      (fun r => r.nodes.all fun node => !node.isRefused) = true := by cbv
  have hbodies : bodies (Session.ofSource (⟨[4, 2, 14, 3, 5], 0⟩ : Recording)).setup.escape
      "(/r [2]d6) (/r c5) (/r [2]d6)".toList
      = ["/r [2]d6".toList, "/r c5".toList, "/r [2]d6".toList] := by cbv
  have hjoined : [';', ' '].intercalate ["/r [2]d6".toList, "/r c5".toList, "/r [2]d6".toList]
      = "/r [2]d6; /r c5; /r [2]d6".toList := by decide
  have hsix : IsQuiet "/r [2]d6".toList :=
    ⟨by decide, Check.expand_eq_self (by decide), Attack.expand_eq_self (by decide)⟩
  have hcopies : IsWrittenOut (unroll 20 "/r [2]d6".toList) := by
    rw [show unroll 20 "/r [2]d6".toList = "/r d6;d6".toList by cbv]
    exact ⟨by decide, by decide, by decide, by decide⟩
  have halone : StandsAlone 20 "/r [2]d6".toList :=
    standsAlone_of_isWrittenOut hsix hcopies (by decide)
  have hfree : IsOrderFree 20 "/r [2]d6".toList :=
    isOrderFree_of_isWrittenOut hsix hcopies (by decide)
  have hcheck : StandsAlone 20 "/r c5".toList := ⟨by decide, by cbv, by decide⟩
  have hkeep : KeepApart 20 ["/r [2]d6".toList, "/r c5".toList, "/r [2]d6".toList] := by
    refine ⟨List.forall_mem_cons.2 ⟨halone, List.forall_mem_cons.2
      ⟨hcheck, List.forall_mem_singleton.2 halone⟩⟩, fun front b back hbs hbracket => .inl ?_⟩
    have hb : b ∈ ["/r [2]d6".toList, "/r c5".toList, "/r [2]d6".toList] := by
      rw [hbs]
      exact List.mem_append_right _ List.mem_cons_self
    have hne : b ≠ "/r c5".toList := by
      rintro rfl
      exact absurd hbracket (by decide)
    simp only [List.mem_cons, List.not_mem_nil, or_false, hne, false_or, or_self] at hb
    rw [hb]
    exact hfree
  have hinline := (Session.ofSource (⟨[4, 2, 14, 3, 5], 0⟩ : Recording)).inline_of_ne_nil
    (by rw [hbodies]; exact List.cons_ne_nil _ _)
  rw [hbodies, hjoined] at hinline
  have h := Session.solidOutcomes_inline rfl hinline
  rw [hbodies] at h
  exact h (.inr hkeep) (by simpa using htogether) (by simpa using hapart)

/-- The abilities take the place of the roll in front of them. -/
theorem Session.not_forall_outcomes_inline :
    ¬ ∀ (t t' : Session Recording) (message left : Text) (roll : Roll),
      t.setup.macros.macros = [] → t.inline message = (some (roll, left), t') →
      (∀ node ∈ roll.nodes, node.isRefused = false) →
      (∀ r ∈ (drawEach (fun body (t : Session Recording) => t.parse body)
        (bodies t.setup.escape message) t).1, ∀ node ∈ r.nodes, node.isRefused = false) →
      roll.outcomes = (drawEach (fun body (t : Session Recording) => t.parse body)
        (bodies t.setup.escape message) t).1.flatMap Roll.outcomes := by
  intro hall
  have hbodies : bodies (Session.ofSource (⟨[4], 0⟩ : Recording)).setup.escape
      "(/r 1d6) (/r abilities)".toList = ["/r 1d6".toList, "/r abilities".toList] := by cbv
  have hjoined : [';', ' '].intercalate ["/r 1d6".toList, "/r abilities".toList]
      = "/r 1d6; /r abilities".toList := by decide
  have htogether : ((Session.ofSource (⟨[4], 0⟩ : Recording)).parse
      "/r 1d6; /r abilities".toList).1.nodes.all (fun node => !node.isRefused) = true := by cbv
  have hapart : (drawEach (fun body (t : Session Recording) => t.parse body)
      ["/r 1d6".toList, "/r abilities".toList] (Session.ofSource (⟨[4], 0⟩ : Recording))).1.all
      (fun r => r.nodes.all fun node => !node.isRefused) = true := by cbv
  have hsix : ((Session.ofSource (⟨[4], 0⟩ : Recording)).parse
      "/r 1d6; /r abilities".toList).1.outcomes.length = 6 := by cbv
  have hseven : ((drawEach (fun body (t : Session Recording) => t.parse body)
      ["/r 1d6".toList, "/r abilities".toList]
      (Session.ofSource (⟨[4], 0⟩ : Recording))).1.flatMap Roll.outcomes).length = 7 := by cbv
  have hinline := (Session.ofSource (⟨[4], 0⟩ : Recording)).inline_of_ne_nil
    (by rw [hbodies]; exact List.cons_ne_nil _ _)
  rw [hbodies, hjoined] at hinline
  have h := hall _ _ _ _ _ rfl hinline
  rw [hbodies] at h
  have heq := congrArg List.length (h (by simpa using htogether) (by simpa using hapart))
  rw [hsix, hseven] at heq
  cases heq

end Session
end DiceRoll
