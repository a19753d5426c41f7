/-
What reading a text can do.

Reading is a recursion inside a recursion: a text may be a list, the entries of the
list are read one after the other, and each takes up the count and the source where
the one before it has left them (`Threaded`). `Setup.roll_induct` takes the recursion
apart once and for all. A reading does one of four things, and what holds of each of
them, given that it holds of the entries of a list, holds of every reading.

Two problems say that a text was refused before any word of it was looked at, and
only the reading itself gives them. The other half of the file shows that: neither
writing out shorthand nor resolving a word ever reports one.
-/

import DiceRoll.Session

set_option autoImplicit false

namespace DiceRoll

/-! ## One after the other -/

/-- Results of one step after the other, each of which begins where the one before it
has ended. -/
inductive Threaded {α ρ : Type} (step : ρ → α → ρ → Prop) : ρ → List α → ρ → Prop where
  | nil (p : ρ) : Threaded step p [] p
  | cons {p p₁ p' : ρ} {a : α} {as : List α} (h : step p a p₁) (rest : Threaded step p₁ as p') :
      Threaded step p (a :: as) p'

/-- Going through a list is one step for each of its members. -/
theorem threaded_drawEach {α β ρ : Type} {f : α → ρ → β × ρ} {step : ρ → β → ρ → Prop}
    (hstep : ∀ a p, step p (f a p).1 (f a p).2) (as : List α) (p : ρ) :
    Threaded step p (drawEach f as p).1 (drawEach f as p).2 := by
  induction as generalizing p with
  | nil => exact .nil p
  | cons a as ih => exact .cons (hstep a p) (ih (f a p).2)

/-- What was made of a list was made of its members, one by one. -/
theorem exists_of_mem_drawEach {α β ρ : Type} {f : α → ρ → β × ρ} {as : List α} {p : ρ} {b : β}
    (hb : b ∈ (drawEach f as p).1) : ∃ a p p', f a p = (b, p') := by
  induction as generalizing p with
  | nil => cases hb
  | cons a as ih =>
    rcases List.mem_cons.1 hb with rfl | hb
    · exact ⟨a, p, _, rfl⟩
    · exact ih hb

/-- Going through the images of a list is going through the list, if the steps agree. -/
theorem drawEach_map {α β γ ρ : Type} {f : α → ρ → β × ρ} {g : γ → ρ → β × ρ} {e : α → γ}
    {as : List α} (h : ∀ a ∈ as, ∀ p, f a p = g (e a) p) (p : ρ) :
    drawEach f as p = drawEach g (as.map e) p := by
  induction as generalizing p with
  | nil => rfl
  | cons a as ih =>
    obtain ⟨hfirst, hrest⟩ := List.forall_mem_cons.1 h
    simp only [List.map_cons, drawEach, hfirst, ih hrest]

theorem length_drawEach {α β ρ : Type} (f : α → ρ → β × ρ) (as : List α) (p : ρ) :
    (drawEach f as p).1.length = as.length := by
  induction as generalizing p with
  | nil => rfl
  | cons a as ih => exact congrArg (· + 1) (ih (f a p).2)

/-- **One after the other.** There is a state behind each member of a list, and each member
goes on from the state behind the one before it. -/
theorem exists_after_drawEach {α β ρ : Type} (f : α → ρ → β × ρ) (as : List α) (p : ρ) :
    ∃ after : Nat → ρ, after 0 = p ∧ after as.length = (drawEach f as p).2
      ∧ ∀ i a, as[i]? = some a →
        ∃ b, (drawEach f as p).1[i]? = some b ∧ f a (after i) = (b, after (i + 1)) := by
  induction as generalizing p with
  | nil =>
    refine ⟨fun _ => p, rfl, rfl, fun i a hi => ?_⟩
    cases hi
  | cons a as ih =>
    obtain ⟨after, hzero, hlength, hafter⟩ := ih (f a p).2
    refine ⟨fun i => Nat.casesOn i p after, rfl, hlength, fun i b hi => ?_⟩
    cases i with
    | zero =>
      cases hi
      exact ⟨(f a p).1, rfl, Prod.ext rfl hzero.symm⟩
    | succ i => exact hafter i b hi

/-! ## Problems that are no refusals -/

/-- Whether a problem says that a text was refused as it stands: its lists stand too
deep, or the rolls of the input are used up. -/
def Problem.isRefusal : Problem → Bool
  | .tooDeep => true
  | .tooManyRolls _ => true
  | _ => false

/-- Problems that were found in a text that was not refused. -/
def NoRefusal (problems : List Problem) : Prop := ∀ problem ∈ problems, problem.isRefusal = false

theorem NoRefusal.append {first second : List Problem} (hfirst : NoRefusal first)
    (hsecond : NoRefusal second) : NoRefusal (first ++ second) :=
  List.forall_mem_append.2 ⟨hfirst, hsecond⟩

theorem noRefusal_iteration (limit : Nat) (s : Text) : NoRefusal (Iteration.expand limit s).2 := by
  intro problem hmem
  unfold Iteration.expand at hmem
  split at hmem
  · cases hmem
  · simp only at hmem
    split at hmem
    · rw [List.mem_singleton.1 hmem]
      rfl
    · cases hmem

theorem Entry.noRefusal_expand {found : Text × List Problem} (h : NoRefusal found.2) (e : Entry) :
    NoRefusal (e.expand found).2 := by
  have hunusable : NoRefusal [.unusableMacro e.name] := List.forall_mem_singleton.2 rfl
  unfold Entry.expand
  simp only
  split
  · exact h
  · split
    · split <;> exact h
    · exact h.append hunusable

theorem MacroBook.noRefusal_expand (b : MacroBook) (s : Text) : NoRefusal (b.expand s).2 := by
  have hnone : NoRefusal ((s, []) : Text × List Problem).2 := List.forall_mem_nil _
  exact List.foldlRecOn (motive := fun found => NoRefusal found.2) b.entries Entry.expand hnone
    fun _ h e _ => Entry.noRefusal_expand h e

/-- **Writing out shorthand refuses nothing.** -/
theorem MacroBook.noRefusal_writeOut (b : MacroBook) (limit : Nat) (s : Text) :
    NoRefusal (b.writeOut limit s).2 :=
  ((noRefusal_iteration limit _).append (b.noRefusal_expand _)).append (noRefusal_iteration limit _)

variable {σ : Type} [Source σ]

theorem isRefusal_of_ofWord? {word : Text} {problem : Problem}
    (h : Part.ofWord? word = .error problem) : problem.isRefusal = false := by
  unfold Part.ofWord? at h
  split at h
  · cases h
  · split at h <;> cases h
    rfl
  all_goals cases h; rfl

theorem isRefusal_of_explode {t : Threshold} {rounds : Nat} {p : Pool} {s s' : σ}
    {problem : Problem} (h : p.explode t rounds s = (.error problem, s')) :
    problem.isRefusal = false := by
  unfold Pool.explode at h
  split at h
  · cases h
    rfl
  · split at h
    · cases h
      rfl
    · split at h <;> cases h
      rfl

theorem isRefusal_of_apply {m : Modifier} {limits : Limits} {p : Pool} {s s' : σ}
    {problem : Problem} (h : m.apply limits p s = (.error problem, s')) :
    problem.isRefusal = false := by
  cases m with
  | plain => cases h
  | advantage => cases h
  | disadvantage => cases h
  | flat n => cases h
  | keep n =>
    simp only [Modifier.apply, Pool.keep, Prod.mk.injEq] at h
    obtain ⟨h, -⟩ := h
    split at h <;> cases h
    rfl
  | lose n =>
    simp only [Modifier.apply, Pool.lose, Prod.mk.injEq] at h
    obtain ⟨h, -⟩ := h
    split at h <;> cases h
    rfl
  | explode t => exact isRefusal_of_explode h

theorem isRefusal_of_successes {p : SuccessSpec} {limits : Limits} {s s' : σ} {problem : Problem}
    (h : p.roll limits s = (.error problem, s')) : problem.isRefusal = false := by
  unfold SuccessSpec.roll at h
  simp only at h
  split at h <;> cases h
  rfl

/-- **Resolving a word refuses nothing.** -/
theorem isRefusal_of_resolve {limits : Limits} {word : Text} {s s' : σ} {problem : Problem}
    (h : resolve limits word s = (.error problem, s')) : problem.isRefusal = false := by
  unfold resolve at h
  split at h
  · rename_i hword
    cases h
    exact isRefusal_of_ofWord? hword
  · cases h
  · rename_i token _
    cases token with
    | pool p =>
      simp only [DiceToken.roll] at h
      split at h
      · exact isRefusal_of_apply h
      · cases h
        rfl
    | successes p =>
      simp only [DiceToken.roll] at h
      split at h
      · exact isRefusal_of_successes h
      · cases h
        rfl

/-- A leaf reports no refusal beside those it was handed. -/
theorem Setup.noRefusal_rollLeaf (u : Setup) (raw : Text) {problems : List Problem}
    (hproblems : NoRefusal problems) (s : σ) :
    NoRefusal (u.rollLeaf raw problems s).1.problems := by
  refine (hproblems.append ?_).append ?_
  · split
    · exact List.forall_mem_singleton.2 rfl
    · exact List.forall_mem_nil _
  · intro problem hmem
    obtain ⟨result, hresult, hproblem⟩ := List.mem_filterMap.1 hmem
    cases result with
    | ok r => cases hproblem
    | error cause =>
      cases hproblem
      obtain ⟨word, s, s', hresolve⟩ := exists_of_mem_drawEach hresult
      exact isRefusal_of_resolve hresolve

/-! ## Separators -/

theorem firstSeparator?_eq_none_iff {s : Text} :
    firstSeparator? s = none ↔ ';' ∉ s ∧ ',' ∉ s := by
  rw [firstSeparator?, List.findSome?_eq_none_iff]
  constructor
  · intro h
    exact ⟨fun hmem => absurd (h ';' hmem) (by decide), fun hmem => absurd (h ',' hmem) (by decide)⟩
  · rintro ⟨hsemicolon, hcomma⟩ c hc
    have hneSemicolon : c ≠ ';' := fun h => hsemicolon (h ▸ hc)
    have hneComma : c ≠ ',' := fun h => hcomma (h ▸ hc)
    rw [Separator.ofChar?, if_neg hneSemicolon, if_neg hneComma]

theorem mem_of_firstSeparator? {s : Text} {sep : Separator} (h : firstSeparator? s = some sep) :
    sep.char ∈ s := by
  obtain ⟨c, hc, hsep⟩ := List.exists_of_findSome?_eq_some h
  simp only [Separator.ofChar?] at hsep
  split at hsep
  · rename_i heq
    cases hsep
    subst heq
    exact hc
  · split at hsep
    · rename_i heq
      cases hsep
      subst heq
      exact hc
    · cases hsep

theorem firstSeparator?_eq_semicolon {s : Text} (hsemicolon : ';' ∈ s) (hcomma : ',' ∉ s) :
    firstSeparator? s = some .semicolon := by
  cases h : firstSeparator? s with
  | none => exact absurd hsemicolon (firstSeparator?_eq_none_iff.1 h).1
  | some sep =>
    cases sep with
    | semicolon => rfl
    | comma => exact absurd (mem_of_firstSeparator? h) hcomma

/-! ## One reading -/

/-- Without a separator a text is one leaf, and counts as one roll. -/
theorem Setup.roll_eq_rollLeaf (u : Setup) (depth : Nat) {input raw : Text}
    {problems : List Problem} {p : Progress σ} (hrolls : p.rolls ≠ u.limits.maxRolls)
    (hwritten : u.macros.writeOut u.limits.maxIterations input = (raw, problems))
    (hseparator : firstSeparator? raw = none) :
    u.roll depth input p = ((u.rollLeaf raw problems p.source).1,
      ⟨p.rolls + 1, (u.rollLeaf raw problems p.source).2⟩) := by
  rw [Setup.roll, if_neg hrolls]
  simp only [hwritten, hseparator]

/-- A roll keeps the text with its shorthand written out. -/
theorem Setup.raw_roll (u : Setup) (depth : Nat) (input : Text) {p : Progress σ}
    (hrolls : p.rolls ≠ u.limits.maxRolls) :
    (u.roll depth input p).1.raw = (u.macros.writeOut u.limits.maxIterations input).1 := by
  rw [Setup.roll, if_neg hrolls]
  simp only
  split
  · rfl
  · cases depth with
    | zero => rfl
    | succ n =>
      simp only
      split <;> rfl

/-- With a separator it is the list of its entries, if there are any. -/
theorem Setup.roll_eq_list (u : Setup) (n : Nat) {input raw : Text} {problems : List Problem}
    {separator : Separator} {p : Progress σ} (hrolls : p.rolls ≠ u.limits.maxRolls)
    (hwritten : u.macros.writeOut u.limits.maxIterations input = (raw, problems))
    (hseparator : firstSeparator? raw = some separator) :
    u.roll (n + 1) input p =
      let entries := drawEach (u.roll n) (separator.entries raw) ⟨p.rolls + 1, p.source⟩
      if entries.1.isEmpty then (.failed raw (problems ++ [.empty]), entries.2)
      else (.list raw problems separator entries.1, entries.2) := by
  rw [Setup.roll, if_neg hrolls]
  simp only [hwritten, hseparator]

/-- **Induction on a reading.** A text is refused because the rolls are used up; or it
is rolled as a leaf; or it fails as a list, which stands too deep or has no entries; or
it is a list of readings that stand one deeper, one after the other. All but the first
count as one roll before anything else happens. -/
theorem Setup.roll_induct {u : Setup} {motive : Nat → Progress σ → Roll → Progress σ → Prop}
    (spent : ∀ depth p raw, p.rolls = u.limits.maxRolls →
      motive depth p (.failed raw [.tooManyRolls u.limits.maxRolls]) p)
    (leaf : ∀ depth p raw problems, p.rolls ≠ u.limits.maxRolls → NoRefusal problems →
      motive depth p (u.rollLeaf raw problems p.source).1
        ⟨p.rolls + 1, (u.rollLeaf raw problems p.source).2⟩)
    (failed : ∀ depth p raw problems cause, p.rolls ≠ u.limits.maxRolls → NoRefusal problems →
      cause = .tooDeep ∨ cause = .empty →
      motive depth p (.failed raw (problems ++ [cause])) ⟨p.rolls + 1, p.source⟩)
    (list : ∀ n p p' raw problems separator rolls, p.rolls ≠ u.limits.maxRolls →
      NoRefusal problems → Threaded (motive n) ⟨p.rolls + 1, p.source⟩ rolls p' →
      motive (n + 1) p (.list raw problems separator rolls) p')
    (depth : Nat) (input : Text) (p : Progress σ) :
    motive depth p (u.roll depth input p).1 (u.roll depth input p).2 := by
  induction depth using Nat.strongRecOn generalizing input p with
  | ind depth ih =>
    have hproblems := u.macros.noRefusal_writeOut u.limits.maxIterations input
    by_cases hrolls : p.rolls = u.limits.maxRolls
    · rw [Setup.roll, if_pos hrolls, hrolls]
      exact spent depth p input hrolls
    rw [Setup.roll, if_neg hrolls]
    generalize u.macros.writeOut u.limits.maxIterations input = written at hproblems
    simp only
    split
    · exact leaf depth p _ _ hrolls hproblems
    · rename_i separator _
      cases depth with
      | zero => exact failed 0 p _ _ _ hrolls hproblems (.inl rfl)
      | succ n =>
        have hentries := threaded_drawEach (f := u.roll n) (ih n (Nat.lt_succ_self n))
          (separator.entries written.1) ⟨p.rolls + 1, p.source⟩
        simp only
        split
        -- A list without entries has drawn nothing either, and is a failure.
        · rename_i hempty
          rw [List.isEmpty_iff.1 hempty] at hentries
          generalize (drawEach (u.roll n) (separator.entries written.1)
            ⟨p.rolls + 1, p.source⟩).2 = p' at hentries ⊢
          cases hentries
          exact failed (n + 1) p _ _ _ hrolls hproblems (.inr rfl)
        · exact list n p _ _ _ _ _ hrolls hproblems hentries

end DiceRoll
