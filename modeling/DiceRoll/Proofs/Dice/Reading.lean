/-
The reader of dice tokens reads its notation.

The reader accepts exactly what the notation writes (`ofText?_eq_ok_iff`). It goes part by
part, and so does the proof. For an argument, a modifier and a row of flags, one lemma says
both what is accepted and what is blamed (`Reads`): the part is accepted if it is written
within the range of tokens, and the modifier is blamed if the part has not even the form. So
what is written out of range is blamed on a number.

The whole token is different. The first part that cannot be read names the reason, so a
count that is too large hides a modifier that is not supported. Only where count and sides
are missing do the modifiers decide alone. That is the case of a bare letter, which may be
the beginning of any word: there the reader never blames a modifier, and what has not the
form is no dice token (`reads_notation`).
-/

import DiceRoll.Proofs.Dice.Notation

set_option autoImplicit false

namespace DiceRoll

namespace Notation

open DiceToken

/-! ## What a reader says of a part -/

/-- A reader accepts what the notation writes, it blames the modifier exactly if the form is
missing, and it never says that there is no dice token. -/
structure Reads {α : Type} (result : Except DiceError α) (writes : Range → α → Prop) : Prop where
  ok_iff : ∀ a, result = .ok a ↔ writes .held a
  malformed_iff : result = .error .invalidModifier ↔ ∀ a, ¬ writes .all a
  isDice : result ≠ .error .notDice

theorem map_eq_ok_iff {α β : Type} {x : Except DiceError α} {f : α → β} {b : β} :
    x.map f = .ok b ↔ ∃ a, x = .ok a ∧ f a = b := by
  cases x <;> simp [Except.map]

namespace Reads

variable {α β : Type} {result : Except DiceError α} {writes : Range → α → Prop}

theorem congr (h : Reads result writes) {other : Range → α → Prop}
    (hiff : ∀ r a, writes r a ↔ other r a) : Reads result other where
  ok_iff a := (h.ok_iff a).trans (hiff _ a)
  malformed_iff := h.malformed_iff.trans (forall_congr' fun a => not_congr (hiff _ a))
  isDice := h.isDice

/-- Something is made of what was read. -/
theorem map (h : Reads result writes) (f : α → β) :
    Reads (result.map f) fun r b => ∃ a, writes r a ∧ f a = b where
  ok_iff b := by simp only [map_eq_ok_iff, h.ok_iff]
  malformed_iff := by
    have hmap : result.map f = .error .invalidModifier ↔ result = .error .invalidModifier := by
      cases result <;> simp [Except.map]
    rw [hmap, h.malformed_iff]
    exact ⟨fun hno b ⟨a, ha, _⟩ => hno a ha, fun hno a ha => hno (f a) ⟨a, ha, rfl⟩⟩
  isDice hresult := by
    cases result with
    | error e =>
      cases hresult
      exact h.isDice rfl
    | ok a => cases hresult

/-- What is accepted whatever stands in the text. -/
theorem pure {a : α} (h : ∀ r b, writes r b ↔ a = b) : Reads (.ok a) writes where
  ok_iff b := by rw [h, Except.ok.injEq]
  malformed_iff := ⟨fun hresult => (nomatch hresult), fun hno => absurd ((h _ a).2 rfl) (hno a)⟩
  isDice hresult := nomatch hresult

/-- What has not the form. -/
theorem malformed (h : ∀ r a, ¬ writes r a) :
    Reads (.error .invalidModifier : Except DiceError α) writes where
  ok_iff a := ⟨fun hresult => (nomatch hresult), fun ha => absurd ha (h _ a)⟩
  malformed_iff := ⟨fun _ => h _, fun _ => rfl⟩
  isDice hresult := nomatch hresult

end Reads

/-! ## Numbers -/

/-- A text as a part that may be missing. -/
def optional (s : Text) : Option Text := if s = [] then none else some s

@[simp] theorem optional_nil : optional [] = none := rfl

theorem optional_of_ne_nil {s : Text} (hs : s ≠ []) : optional s = some s := if_neg hs

theorem optional_inj {s t : Text} : optional s = optional t ↔ s = t := by
  unfold optional
  constructor
  · intro h
    split at h <;> split at h <;> simp_all
  · rintro rfl
    rfl

theorem positive_eq_ok_iff {ds : Text} {n : Nat} :
    positive ds = .ok n ↔ ds.value = n ∧ IsCount n := by
  constructor
  · intro h
    refine ⟨?_, isCount_of_positive h⟩
    unfold positive at h
    split at h
    · cases h
    · split at h <;> cases h
      rfl
  · rintro ⟨rfl, hlow, hhigh⟩
    rw [positive, if_neg (by omega), if_neg (by omega)]

/-- A number is blamed for itself. -/
theorem positive_ne_error (ds : Text) :
    positive ds ≠ .error .invalidModifier ∧ positive ds ≠ .error .notDice := by
  unfold positive
  split
  · decide
  · split
    · decide
    · simp

/-- A run of digits gives a count. -/
theorem reads_positive {ds : Text} (hne : ds ≠ []) (hds : ∀ c ∈ ds, c.isDigit = true)
    (usual : Nat) : Reads (positive ds) fun r n => WritesCount r usual ds n where
  ok_iff n := by
    rw [positive_eq_ok_iff]
    constructor
    · rintro ⟨rfl, hn⟩
      exact .written (isNumeral_value hne hds) hn
    · rintro (_ | ⟨hnumeral, hn⟩)
      · exact absurd rfl hne
      · exact ⟨hnumeral.value_eq, hn⟩
  malformed_iff :=
    ⟨fun h => absurd h (positive_ne_error ds).1,
      fun hno => absurd (.written (isNumeral_value hne hds) trivial) (hno _)⟩
  isDice := (positive_ne_error ds).2

theorem reads_count {ds : Text} (hds : ∀ c ∈ ds, c.isDigit = true) (usual : Nat) :
    Reads (((optional ds).map positive).getD (.ok usual)) fun r n => WritesCount r usual ds n := by
  by_cases hne : ds = []
  · subst hne
    exact .pure fun _ _ => writesCount_nil
  · rw [optional_of_ne_nil hne]
    exact reads_positive hne hds usual

/-! ## Arguments -/

/-- Digits are read to their end, with comparison characters in front of them or without. -/
theorem argument_digits_append {run ds rest : Text} (hrun : ∀ c ∈ run, isComparisonChar c = true)
    (hne : ds ≠ []) (hds : ∀ c ∈ ds, c.isDigit = true)
    (hrest : ∀ c ∈ rest.head?, c.isDigit = false) :
    argument (run ++ ds ++ rest) = (some (run ++ ds), rest) := by
  have hstop : ∀ c ∈ (ds ++ rest).head?, isComparisonChar c = false := by
    intro c hc
    rw [List.head?_append_of_ne_nil _ hne] at hc
    exact isComparisonChar_eq_false_of_isDigit (hds c (List.mem_of_head? hc))
  have hempty : ds.isEmpty = false := by simpa using hne
  rw [List.append_assoc, argument]
  simp only [Text.takeWhile_run hrun hstop, Text.dropWhile_run hrun hstop,
    Text.takeWhile_run hds hrest, Text.dropWhile_run hds hrest, hempty]
  rfl

/-- An argument is read to its end. -/
theorem argument_append {arg rest : Text} (harg : IsOptional arg)
    (hrest : ∀ c ∈ rest.head?, c.isDigit = false ∧ isComparisonChar c = false) :
    argument (arg ++ rest) = (optional arg, rest) := by
  have hdigit : ∀ c ∈ rest.head?, c.isDigit = false := fun c hc => (hrest c hc).1
  have hempty : ∀ {p : Char → Bool}, ∀ c ∈ ([] : Text), p c = true := fun _ hc => nomatch hc
  cases harg with
  | nothing =>
    have hnodigit : rest.takeWhile Char.isDigit = [] := Text.takeWhile_run hempty hdigit
    have hall : rest.dropWhile isComparisonChar = rest :=
      Text.dropWhile_run hempty fun c hc => (hrest c hc).2
    simp [argument, hall, hnodigit]
  | number hne hds =>
    rw [optional_of_ne_nil hne]
    exact argument_digits_append hempty hne hds hdigit
  | comparison h =>
    rw [optional_of_ne_nil h.ne_nil]
    obtain ⟨run, ds, rfl, h⟩ := h
    exact argument_digits_append h.isComparisonChar h.digits_ne_nil h.isDigit hdigit

/-- What was read as an argument stood in front of the rest. -/
theorem exists_of_argument (s : Text) :
    ∃ arg, IsOptional arg ∧ argument s = (optional arg, (argument s).2)
      ∧ s = arg ++ (argument s).2 := by
  have hrun : ∀ c ∈ s.takeWhile isComparisonChar, isComparisonChar c = true :=
    fun _ hc => List.mem_takeWhile_imp hc
  have hds : ∀ c ∈ (s.dropWhile isComparisonChar).takeWhile Char.isDigit, c.isDigit = true :=
    fun _ hc => List.mem_takeWhile_imp hc
  by_cases hne : (s.dropWhile isComparisonChar).takeWhile Char.isDigit = []
  · exact ⟨[], .nothing, by simp [argument, hne], by simp [argument, hne]⟩
  · refine ⟨s.takeWhile isComparisonChar ++ (s.dropWhile isComparisonChar).takeWhile Char.isDigit,
      ?_, ?_, ?_⟩
    · by_cases hnone : s.takeWhile isComparisonChar = []
      · rw [hnone]
        exact .number hne hds
      · exact .comparison ⟨_, _, rfl, hnone, hrun, hne, hds⟩
    · rw [optional_of_ne_nil (by simp [hne])]
      simp [argument, hne]
    · simp [argument, hne, List.takeWhile_append_dropWhile]

theorem allDigits_eq_true {ds : Text} (hds : ∀ c ∈ ds, c.isDigit = true) : ds.allDigits = true :=
  List.all_eq_true.2 hds

theorem IsComparison.allDigits {arg : Text} (h : IsComparison arg) : arg.allDigits = false :=
  Bool.eq_false_iff.2 fun hall => h.not_digits (List.all_eq_true.1 hall)

theorem reads_countOf {arg : Text} (harg : IsOptional arg) :
    Reads (countOf (optional arg)) fun r n => WritesCount r 1 arg n := by
  cases harg with
  | nothing => exact .pure fun _ _ => writesCount_nil
  | number hne hds =>
    rw [optional_of_ne_nil hne, countOf, if_pos (allDigits_eq_true hds)]
    exact reads_positive hne hds 1
  | comparison h =>
    rw [optional_of_ne_nil h.ne_nil, countOf, h.allDigits]
    refine .malformed fun r n hn => ?_
    cases hn with
    | absent => exact h.ne_nil rfl
    | written hds hn => exact h.not_digits hds.isDigit

theorem reads_thresholdOf {arg : Text} (harg : IsOptional arg) (usual : Int) :
    Reads (thresholdOf (.atLeast usual) (optional arg)) fun r t =>
      WritesThreshold r usual arg t := by
  cases harg with
  | nothing =>
    refine .pure fun r t => ⟨fun ht => ?_, fun ht => ht ▸ .absent⟩
    cases ht with
    | absent => rfl
    | number hds hn => exact absurd rfl hds.ne_nil
    | comparison h => exact absurd rfl h.ne_nil
  | number hne hds =>
    have hresult : thresholdOf (.atLeast usual) (some arg)
        = if Number.maxInt < arg.value then .error .tooLarge else .ok (.atLeast arg.value) := by
      simp [thresholdOf, Threshold.ofText?, allDigits_eq_true hds, hne]
    rw [optional_of_ne_nil hne, hresult]
    refine ⟨fun t => ⟨fun ht => ?_, fun ht => ?_⟩, ⟨fun h => ?_, fun hno => ?_⟩, fun h => ?_⟩
    · split at ht <;> cases ht
      exact .number (isNumeral_value hne hds) (Int.not_lt.1 ‹_›)
    · cases ht with
      | absent => exact absurd rfl hne
      | number hds hn => rw [hds.value_eq, if_neg (Int.not_lt.2 hn)]
      | comparison h => exact absurd hds h.not_digits
    · split at h <;> cases h
    · exact absurd (.number (isNumeral_value hne hds) trivial) (hno _)
    · split at h <;> cases h
  | comparison h =>
    rw [optional_of_ne_nil h.ne_nil, thresholdOf, Threshold.ofText?, h.allDigits]
    refine .pure fun r t => ⟨fun ht => ?_, fun ht => ht ▸ .comparison h⟩
    cases ht with
    | absent => exact absurd rfl h.ne_nil
    | number hds hn => exact absurd hds.isDigit h.not_digits
    | comparison h => rfl

/-! ## Modifiers -/

/-- A flag that takes no argument. -/
theorem reads_without_argument (arg : Text) (m : Modifier) :
    Reads (if (optional arg).isSome then .error .invalidModifier else .ok m)
      fun _ b => arg = [] ∧ b = m := by
  by_cases harg : arg = []
  · subst harg
    exact .pure fun _ b => by simp [eq_comm]
  · rw [optional_of_ne_nil harg]
    exact .malformed fun _ b h => harg h.1

theorem reads_modifier (s : Sides) (text : Text) :
    Reads (modifier s text) fun r m => WritesModifier r s text m := by
  cases text with
  | nil =>
    refine .pure fun r m => ⟨fun h => ?_, fun h => h ▸ .plain⟩
    cases h
    rfl
  | cons c rest =>
    obtain ⟨arg, harg, hargument, hsplit⟩ := exists_of_argument rest
    cases hrest : (argument rest).2 with
    | cons d behind =>
      rw [modifier, hargument, hrest]
      refine .malformed fun r m h => ?_
      have hend : ∀ c ∈ ([] : Text).head?, c.isDigit = false ∧ isComparisonChar c = false := by
        simp
      have hwhole := argument_append h.isOptional hend
      rw [List.append_nil] at hwhole
      rw [hwhole] at hrest
      cases hrest
    | nil =>
      rw [hrest, List.append_nil] at hsplit
      subst hsplit
      rw [modifier, hargument, hrest]
      refine Reads.congr ?_ fun r m => writesModifier_cons.symm
      generalize c.toLower = l
      dsimp only
      split
      · exact reads_without_argument rest .advantage
      · exact reads_without_argument rest .disadvantage
      · exact (reads_countOf harg).map Modifier.keep
      · exact (reads_countOf harg).map Modifier.lose
      · exact (reads_thresholdOf harg _).map Modifier.explode
      · exact (reads_countOf harg).map Modifier.flat
      · refine .malformed fun r m h => ?_
        grind

/-! ## Flags -/

/-- Flags in a row are a flag, the argument that is read behind it, and flags in a row. -/
theorem writesFlags_cons {r : Range} {c : Char} {s arg : Text} {fs : List (Flag × Threshold)}
    (harg : argument s = (optional arg, (argument s).2)) :
    WritesFlags r (c :: s) fs ↔ ∃ f t gs, flag? c = some f ∧ WritesThreshold r 10 arg t
      ∧ WritesFlags r (argument s).2 gs ∧ fs = (f, t) :: gs := by
  constructor
  · intro h
    generalize htext : c :: s = text at h
    cases h with
    | none => cases htext
    | @next d f own rest t gs hc ht hrest =>
      obtain ⟨rfl, rfl⟩ := List.cons.inj htext
      have hread : argument (own ++ rest) = (optional own, rest) := by
        refine argument_append ht.isOptional fun d hd => ?_
        obtain ⟨g, hg⟩ := hrest.head d hd
        exact letter_boundary g hg
      rw [hread] at harg ⊢
      obtain rfl := optional_inj.1 (congrArg Prod.fst harg)
      exact ⟨f, t, gs, (flag?_eq_some_iff f).2 hc, ht, hrest, rfl⟩
  · rintro ⟨f, t, gs, hf, ht, hgs, rfl⟩
    obtain ⟨own, -, hown, hsplit⟩ := exists_of_argument s
    obtain rfl : own = arg :=
      optional_inj.1 (congrArg Prod.fst (hown.symm.trans harg))
    rw [hsplit]
    exact .next ((flag?_eq_some_iff f).1 hf) ht hgs

/-- The spec with the last threshold of each flag. -/
def withFlags (p : SuccessSpec) (fs : List (Flag × Threshold)) : SuccessSpec :=
  { p with
    double := (lastOf .double fs).or p.double
    triple := (lastOf .triple fs).or p.triple
    explode := (lastOf .explode fs).or p.explode }

theorem withFlags_setFlag (p : SuccessSpec) (f : Flag) (t : Threshold)
    (fs : List (Flag × Threshold)) :
    withFlags (setFlag p f t) fs = withFlags p ((f, t) :: fs) := by
  cases f <;> simp [withFlags, setFlag, lastOf]

/-- Text that is no row of flags has not the form, whatever its numbers. -/
theorem flags?_eq_none_iff {s : Text} : flags? s = none ↔ ∀ fs, ¬ WritesFlags .all s fs := by
  induction s using flags?.induct with
  | case1 => simpa [flags?] using ⟨_, .none⟩
  | case2 c s hflag =>
    obtain ⟨arg, -, harg, -⟩ := exists_of_argument s
    simp [flags?, hflag, writesFlags_cons harg]
  | case3 c s f hflag ih =>
    obtain ⟨arg, hoptional, harg, -⟩ := exists_of_argument s
    obtain ⟨t, ht⟩ : ∃ t, WritesThreshold .all 10 arg t := hoptional.exists_threshold 10
    rw [flags?, hflag, Option.map_eq_none_iff, ih]
    constructor
    · rintro hno fs hfs
      obtain ⟨-, -, gs, -, -, hgs, -⟩ := (writesFlags_cons harg).1 hfs
      exact hno gs hgs
    · intro hno gs hgs
      exact hno _ ((writesFlags_cons harg).2 ⟨f, t, gs, hflag, ht, hgs, rfl⟩)

/-- Setting flags in order leaves the last threshold of each, and only a number is blamed. -/
theorem setFlags_of_flags? {s : Text} {args : List (Flag × Option Text)}
    (h : flags? s = some args) (p : SuccessSpec) :
    (∀ q, setFlags p args = .ok q ↔ ∃ fs, WritesFlags .held s fs ∧ withFlags p fs = q)
      ∧ setFlags p args ≠ .error .invalidModifier ∧ setFlags p args ≠ .error .notDice := by
  induction s using flags?.induct generalizing args p with
  | case1 =>
    rw [flags?] at h
    cases h
    refine ⟨fun q => ?_, by simp [setFlags], by simp [setFlags]⟩
    constructor
    · intro hq
      cases hq
      exact ⟨[], .none, by simp [withFlags, lastOf]⟩
    · rintro ⟨fs, hfs, rfl⟩
      cases hfs
      simp [setFlags, withFlags, lastOf]
  | case2 c s hflag =>
    rw [flags?, hflag] at h
    cases h
  | case3 c s f hflag ih =>
    rw [flags?, hflag] at h
    obtain ⟨rest, hrest, rfl⟩ := Option.map_eq_some_iff.1 h
    obtain ⟨arg, hoptional, harg, -⟩ := exists_of_argument s
    have hreads := reads_thresholdOf hoptional 10
    have harg₁ : (argument s).1 = optional arg := congrArg Prod.fst harg
    rw [setFlags, harg₁]
    cases hthreshold : thresholdOf (.atLeast 10) (optional arg) with
    | error e =>
      rw [hthreshold] at hreads
      refine ⟨fun q => ⟨?_, ?_⟩, ?_, ?_⟩
      · intro hq
        cases hq
      · rintro ⟨fs, hfs, -⟩
        obtain ⟨-, t, -, -, ht, -, -⟩ := (writesFlags_cons harg).1 hfs
        cases (hreads.ok_iff t).2 ht
      · rintro ⟨⟩
        obtain ⟨t, ht⟩ := hoptional.exists_threshold 10
        exact hreads.malformed_iff.1 rfl t ht
      · rintro ⟨⟩
        exact hreads.isDice rfl
    | ok t =>
      rw [hthreshold] at hreads
      obtain ⟨hok, hblame⟩ := ih hrest (setFlag p f t)
      refine ⟨fun q => (hok q).trans ?_, hblame⟩
      have ht := (hreads.ok_iff t).1 rfl
      constructor
      · rintro ⟨gs, hgs, rfl⟩
        exact ⟨_, (writesFlags_cons harg).2 ⟨f, t, gs, hflag, ht, hgs, rfl⟩,
          (withFlags_setFlag p f t gs).symm⟩
      · rintro ⟨fs, hfs, rfl⟩
        obtain ⟨g, u, gs, hg, hu, hgs, rfl⟩ := (writesFlags_cons harg).1 hfs
        obtain rfl : f = g := Option.some.inj (hflag.symm.trans hg)
        obtain rfl : t = u := Except.ok.inj ((hreads.ok_iff u).2 hu)
        exact ⟨gs, hgs, withFlags_setFlag p f t gs⟩

theorem reads_flags (p : SuccessSpec) (s : Text) :
    Reads (match flags? s with | none => .error .invalidModifier | some args => setFlags p args)
      fun r q => ∃ fs, WritesFlags r s fs ∧ withFlags p fs = q := by
  cases hflags : flags? s with
  | none =>
    have hno := flags?_eq_none_iff.1 hflags
    refine .malformed fun r q => ?_
    rintro ⟨fs, hfs, -⟩
    exact hno fs hfs.form
  | some args =>
    obtain ⟨hok, hmalformed, hdice⟩ := setFlags_of_flags? hflags p
    refine ⟨hok, ⟨fun h => absurd h hmalformed, fun hno => ?_⟩, hdice⟩
    have hform : flags? s = none := flags?_eq_none_iff.2 fun fs hfs => hno _ ⟨fs, hfs, rfl⟩
    rw [hflags] at hform
    cases hform

/-! ## Parts -/

/-- How the parts stand in a text. The reader takes a run of digits to its end, so no digit
follows one, and where sides are missing no letter of the Fate die follows either. -/
structure IsCut (count : Text) (c : Char) (kind : Kind) (sides modifiers : Text) : Prop where
  count : ∀ d ∈ count, d.isDigit = true
  kind : kind? c = some kind
  sides : (∃ d, sides = [d] ∧ d.toLower = 'f') ∨ ((∀ d ∈ sides, d.isDigit = true)
    ∧ ∀ d ∈ modifiers.head?, d.isDigit = false ∧ (sides = [] → d.toLower ≠ 'f'))
  line : '\n' ∉ modifiers

/-- Digits for sides, or none, with modifiers behind them that begin with a letter. -/
theorem isCut_of_digits {count sides modifiers : Text} {c : Char} {kind : Kind}
    (hcount : ∀ d ∈ count, d.isDigit = true) (hkind : kind? c = some kind)
    (hsides : ∀ d ∈ sides, d.isDigit = true)
    (hboundary : (∀ d ∈ modifiers.head?, d.isDigit = false ∧ d.toLower ≠ 'f') ∧ '\n' ∉ modifiers) :
    IsCut count c kind sides modifiers where
  count := hcount
  kind := hkind
  sides := .inr ⟨hsides, fun d hd => ⟨(hboundary.1 d hd).1, fun _ => (hboundary.1 d hd).2⟩⟩
  line := hboundary.2

/-- The parts of a token stand in its text as the reader cuts it. -/
theorem WritesParts.isCut {r : Range} {count sides modifiers : Text} {c : Char}
    {token : DiceToken} (h : WritesParts r count c sides modifiers token) :
    ∃ kind, IsCut count c kind sides modifiers := by
  have hnone : ∀ d ∈ ([] : Text), d.isDigit = true := fun _ hd => nomatch hd
  cases h with
  | die hcount hc hsides hmodifier =>
    have hkind : kind? c = some .die := kind?_eq_some_iff.2 hc
    refine ⟨.die, ?_⟩
    cases hsides with
    | absent => exact isCut_of_digits hcount.isDigit hkind hnone hmodifier.boundary
    | fate hd => exact ⟨hcount.isDigit, hkind, .inl ⟨_, rfl, hd⟩, hmodifier.boundary.2⟩
    | numbered hds hn => exact isCut_of_digits hcount.isDigit hkind hds.isDigit hmodifier.boundary
  | fate hcount hc hmodifier =>
    exact ⟨.fate, isCut_of_digits hcount.isDigit (kind?_eq_some_iff.2 hc) hnone hmodifier.boundary⟩
  | successes hcount hc hsuccess hflags =>
    exact ⟨.successes, isCut_of_digits hcount.isDigit (kind?_eq_some_iff.2 hc) hsuccess.isDigit
      hflags.boundary⟩

/-- A text that writes a token is cut into the parts that write it. -/
theorem WritesToken.exists_isCut {r : Range} {s : Text} {token : DiceToken}
    (h : WritesToken r s token) :
    ∃ count c kind sides modifiers, s = count ++ c :: (sides ++ modifiers)
      ∧ IsCut count c kind sides modifiers ∧ WritesParts r count c sides modifiers token := by
  obtain ⟨count, c, sides, modifiers, rfl, hparts⟩ := h
  obtain ⟨kind, hcut⟩ := hparts.isCut
  exact ⟨count, c, kind, sides, modifiers, rfl, hcut, hparts⟩

theorem isDigit_of_head?_dropWhile {s : Text} :
    ∀ c ∈ (s.dropWhile Char.isDigit).head?, c.isDigit = false := by
  intro c hc
  have := List.head?_dropWhile_not Char.isDigit s
  rw [hc] at this
  simpa using this

theorem digits_append {ds rest : Text} (hds : ∀ c ∈ ds, c.isDigit = true)
    (hrest : ∀ c ∈ rest.head?, c.isDigit = false) :
    digits (ds ++ rest) = (optional ds, rest) := by
  rw [digits, Text.takeWhile_run hds hrest, Text.dropWhile_run hds hrest]
  by_cases hne : ds = []
  · subst hne
    rfl
  · rw [optional_of_ne_nil hne]
    simp [hne]

theorem digits_eq (s : Text) :
    digits s = (optional (s.takeWhile Char.isDigit), s.dropWhile Char.isDigit) := by
  conv_lhs => rw [← List.takeWhile_append_dropWhile (p := Char.isDigit) (l := s)]
  exact digits_append (fun c hc => List.mem_takeWhile_imp hc) isDigit_of_head?_dropWhile

theorem IsCut.sides_append {count sides modifiers : Text} {c : Char} {kind : Kind}
    (h : IsCut count c kind sides modifiers) :
    DiceToken.sides (sides ++ modifiers) = (optional sides, modifiers) := by
  rcases h.sides with ⟨d, rfl, hd⟩ | ⟨hsides, hmodifiers⟩
  · simp [DiceToken.sides, hd, optional_of_ne_nil]
  · have hdigits := digits_append hsides fun d hd => (hmodifiers d hd).1
    cases htext : sides ++ modifiers with
    | nil =>
      obtain ⟨rfl, rfl⟩ := List.append_eq_nil_iff.1 htext
      rfl
    | cons d rest =>
      have hd : d.toLower ≠ 'f' := by
        cases sides with
        | nil => exact (hmodifiers d (by rw [← List.nil_append modifiers, htext]; rfl)).2 rfl
        | cons e sides =>
          obtain ⟨rfl, -⟩ := List.cons.inj htext
          exact toLower_ne_of_isDigit (hsides e List.mem_cons_self) rfl
      rw [DiceToken.sides, if_neg hd, ← htext, hdigits]

/-- A text is cut as its parts stand in it. -/
theorem IsCut.parts?_eq {count sides modifiers : Text} {c : Char} {kind : Kind}
    (h : IsCut count c kind sides modifiers) :
    parts? (count ++ c :: (sides ++ modifiers))
      = some ⟨optional count, kind, optional sides, modifiers⟩ := by
  have hcount : digits (count ++ c :: (sides ++ modifiers))
      = (optional count, c :: (sides ++ modifiers)) := by
    refine digits_append h.count fun d hd => ?_
    cases hd
    exact isDigit_eq_false_of_kind? h.kind
  have hline : modifiers.any (· == '\n') = false := by
    rw [List.any_eq_false]
    intro d hd
    rw [beq_iff_eq]
    rintro rfl
    exact h.line hd
  simp [parts?, hcount, h.kind, h.sides_append, hline]

/-- What was read as sides stood in front of the rest. -/
theorem exists_of_sides (s : Text) :
    ∃ sides modifiers, DiceToken.sides s = (optional sides, modifiers) ∧ s = sides ++ modifiers
      ∧ ((∃ d, sides = [d] ∧ d.toLower = 'f') ∨ ((∀ d ∈ sides, d.isDigit = true)
        ∧ ∀ d ∈ modifiers.head?, d.isDigit = false ∧ (sides = [] → d.toLower ≠ 'f'))) := by
  cases s with
  | nil => exact ⟨[], [], rfl, rfl, .inr ⟨fun _ hd => (nomatch hd), fun _ hd => (nomatch hd)⟩⟩
  | cons c s =>
    by_cases hc : c.toLower = 'f'
    · exact ⟨[c], s, by simp [DiceToken.sides, hc, optional_of_ne_nil], rfl, .inl ⟨c, rfl, hc⟩⟩
    · refine ⟨(c :: s).takeWhile Char.isDigit, (c :: s).dropWhile Char.isDigit, ?_,
        List.takeWhile_append_dropWhile.symm, .inr ⟨fun d hd => List.mem_takeWhile_imp hd, ?_⟩⟩
      · rw [DiceToken.sides, if_neg hc, digits_eq]
      · refine fun d hd => ⟨isDigit_of_head?_dropWhile d hd, fun hnone => ?_⟩
        have hdrop := List.takeWhile_append_dropWhile (p := Char.isDigit) (l := c :: s)
        rw [hnone, List.nil_append] at hdrop
        rw [hdrop] at hd
        cases hd
        exact hc

/-- Every text that is cut into parts has them in it. -/
theorem exists_isCut {s : Text} {p : Parts} (h : parts? s = some p) :
    ∃ count c sides modifiers, s = count ++ c :: (sides ++ modifiers)
      ∧ p = ⟨optional count, p.kind, optional sides, modifiers⟩
      ∧ IsCut count c p.kind sides modifiers := by
  have hsplit := List.takeWhile_append_dropWhile (p := Char.isDigit) (l := s)
  rw [parts?, digits_eq] at h
  dsimp only at h
  split at h
  · cases h
  · rename_i c rest hrest
    obtain ⟨sides, modifiers, hsides, rfl, hshape⟩ := exists_of_sides rest
    rw [hsides] at h
    dsimp only at h
    split at h
    · cases h
    · rename_i kind hkind
      split at h
      · cases h
      · rename_i hline
        cases h
        refine ⟨_, c, sides, modifiers, by rw [← hrest, hsplit], rfl,
          fun d hd => List.mem_takeWhile_imp hd, hkind, hshape, fun hmem => hline ?_⟩
        exact List.any_eq_true.2 ⟨_, hmem, rfl⟩

/-! ## Tokens -/

/-- What the parts say, by the kind of dice. -/
theorem writesParts_iff {r : Range} {count sides modifiers : Text} {c : Char} {kind : Kind}
    {token : DiceToken} (hc : kind? c = some kind) :
    WritesParts r count c sides modifiers token ↔
      ∃ n, WritesCount r 1 count n ∧ match kind with
        | .die => ∃ s, WritesSides r sides s ∧
            ∃ m, WritesModifier r s modifiers m ∧ .pool ⟨n, s, m⟩ = token
        | .fate => sides = [] ∧
            ∃ m, WritesModifier r .fate modifiers m ∧ .pool ⟨n, .fate, m⟩ = token
        | .successes => ∃ k, WritesCount r 5 sides k ∧
            ∃ fs, WritesFlags r modifiers fs
              ∧ .successes (withFlags ⟨n, k, none, none, none⟩ fs) = token := by
  rw [kind?_eq_some_iff] at hc
  constructor
  · intro h
    cases h with
    | die hcount hd hsides hmodifier =>
      cases kind <;> cases hc.symm.trans hd
      exact ⟨_, hcount, _, hsides, _, hmodifier, rfl⟩
    | fate hcount hd hmodifier =>
      cases kind <;> cases hc.symm.trans hd
      exact ⟨_, hcount, rfl, _, hmodifier, rfl⟩
    | successes hcount hd hsuccess hflags =>
      cases kind <;> cases hc.symm.trans hd
      exact ⟨_, hcount, _, hsuccess, _, hflags, by simp [withFlags]⟩
  · rintro ⟨n, hcount, h⟩
    cases kind with
    | die =>
      obtain ⟨s, hsides, m, hmodifier, rfl⟩ := h
      exact .die hcount hc hsides hmodifier
    | fate =>
      obtain ⟨rfl, m, hmodifier, rfl⟩ := h
      exact .fate hcount hc hmodifier
    | successes =>
      obtain ⟨k, hsuccess, fs, hflags, rfl⟩ := h
      simpa [withFlags] using WritesParts.successes hcount hc hsuccess hflags

theorem isFateLetter_of_toLower {c : Char} (hc : c.toLower = 'f') :
    Sides.isFateLetter [c] = true := by
  rcases toLower_eq_f hc with rfl | rfl <;> rfl

theorem isFateLetter_of_digits {ds : Text} (hds : ∀ c ∈ ds, c.isDigit = true) :
    Sides.isFateLetter ds = false := by
  by_contra h
  rw [Bool.not_eq_false, Sides.isFateLetter, Bool.or_eq_true, beq_iff_eq, beq_iff_eq] at h
  rcases h with rfl | rfl <;> exact absurd (hds _ List.mem_cons_self) (by decide)

section Sides

variable {count sides modifiers : Text} {c : Char} {kind : Kind}

theorem IsCut.successValue_eq_ok_iff (h : IsCut count c kind sides modifiers) {k : Nat} :
    successValue (optional sides) = .ok k ↔ WritesCount .held 5 sides k := by
  rcases h.sides with ⟨d, rfl, hd⟩ | ⟨hdigits, -⟩
  · rw [optional_of_ne_nil (List.cons_ne_nil _ _), successValue, isFateLetter_of_toLower hd]
    constructor
    · intro hk
      cases hk
    · intro hk
      exact absurd hd (toLower_ne_of_isDigit (hk.isDigit d List.mem_cons_self) rfl)
  · rw [← (reads_count hdigits 5).ok_iff k]
    by_cases hne : sides = []
    · subst hne
      rfl
    · rw [optional_of_ne_nil hne, successValue, isFateLetter_of_digits hdigits]
      rfl

theorem IsCut.poolSides_eq_ok_iff (h : IsCut count c .die sides modifiers) {s : Sides} :
    poolSides .die (optional sides) = .ok s ↔ WritesSides .held sides s := by
  rcases h.sides with ⟨d, rfl, hd⟩ | ⟨hdigits, -⟩
  · rw [optional_of_ne_nil (List.cons_ne_nil _ _), poolSides.eq_def]
    simp only [isFateLetter_of_toLower hd, if_true]
    constructor
    · intro hs
      cases hs
      exact .fate hd
    · intro hs
      cases hs with
      | fate => rfl
      | numbered hds hn =>
        exact absurd hd (toLower_ne_of_isDigit (hds.isDigit d List.mem_cons_self) rfl)
  · by_cases hne : sides = []
    · subst hne
      constructor
      · intro hs
        cases hs
        exact .absent
      · intro hs
        cases hs with
        | absent => rfl
        | numbered hds hn => exact absurd rfl hds.ne_nil
    · rw [optional_of_ne_nil hne, poolSides.eq_def]
      simp only [isFateLetter_of_digits hdigits, Bool.false_eq_true, if_false]
      rw [((reads_positive hne hdigits 20).map Sides.numbered).ok_iff]
      constructor
      · rintro ⟨n, hn, rfl⟩
        cases hn with
        | absent => exact absurd rfl hne
        | written hds hn => exact .numbered hds hn
      · intro hs
        cases hs with
        | absent => exact absurd rfl hne
        | fate hd =>
          exact absurd hd (toLower_ne_of_isDigit (hdigits _ List.mem_cons_self) rfl)
        | numbered hds hn => exact ⟨_, .written hds hn, rfl⟩

theorem poolSides_fate_eq_ok_iff {s : Sides} :
    poolSides .fate (optional sides) = .ok s ↔ sides = [] ∧ .fate = s := by
  by_cases hne : sides = []
  · subst hne
    simp [poolSides]
  · simp [optional_of_ne_nil hne, poolSides, hne]

/-- The kinds of dice that make a pool, with their sides. -/
theorem pool?_eq_ok_iff {n : Nat} {p : PoolSpec} :
    pool? n kind (optional sides) modifiers = .ok p ↔
      ∃ s, poolSides kind (optional sides) = .ok s
        ∧ ∃ m, WritesModifier .held s modifiers m ∧ ⟨n, s, m⟩ = p := by
  unfold pool?
  cases poolSides kind (optional sides) with
  | error e => simp
  | ok s => simpa using ((reads_modifier s modifiers).map fun m => ⟨n, s, m⟩).ok_iff p

theorem IsCut.successes?_eq_ok_iff (h : IsCut count c kind sides modifiers) {n : Nat}
    {p : SuccessSpec} : successes? n (optional sides) modifiers = .ok p ↔
      ∃ k, WritesCount .held 5 sides k
        ∧ ∃ fs, WritesFlags .held modifiers fs ∧ withFlags ⟨n, k, none, none, none⟩ fs = p := by
  simp only [← h.successValue_eq_ok_iff]
  unfold successes?
  cases successValue (optional sides) with
  | error e => simp
  | ok k =>
    refine ((reads_flags ⟨n, k, none, none, none⟩ modifiers).ok_iff p).trans ?_
    simp

/-- **The parts of a token are read as they are written.** -/
theorem IsCut.ofParts?_eq_ok_iff (h : IsCut count c kind sides modifiers) {token : DiceToken} :
    ofParts? ⟨optional count, kind, optional sides, modifiers⟩ = .ok token
      ↔ WritesParts .held count c sides modifiers token := by
  rw [writesParts_iff h.kind]
  simp only [← (reads_count h.count 1).ok_iff]
  unfold ofParts?
  dsimp only
  cases ((optional count).map positive).getD (.ok 1) with
  | error e => simp
  | ok n =>
    cases kind with
    | die =>
      simp only [map_eq_ok_iff, pool?_eq_ok_iff, h.poolSides_eq_ok_iff]
      constructor
      · rintro ⟨-, ⟨s, hs, m, hm, rfl⟩, rfl⟩
        exact ⟨n, rfl, s, hs, m, hm, rfl⟩
      · rintro ⟨-, ⟨⟩, s, hs, m, hm, rfl⟩
        exact ⟨_, ⟨s, hs, m, hm, rfl⟩, rfl⟩
    | fate =>
      simp only [map_eq_ok_iff, pool?_eq_ok_iff, poolSides_fate_eq_ok_iff]
      constructor
      · rintro ⟨-, ⟨-, ⟨hsides, rfl⟩, m, hm, rfl⟩, rfl⟩
        exact ⟨n, rfl, hsides, m, hm, rfl⟩
      · rintro ⟨-, ⟨⟩, hsides, m, hm, rfl⟩
        exact ⟨_, ⟨_, ⟨hsides, rfl⟩, m, hm, rfl⟩, rfl⟩
    | successes =>
      simp only [map_eq_ok_iff, h.successes?_eq_ok_iff]
      constructor
      · rintro ⟨-, ⟨k, hk, fs, hfs, rfl⟩, rfl⟩
        exact ⟨n, rfl, k, hk, fs, hfs, rfl⟩
      · rintro ⟨-, ⟨⟩, k, hk, fs, hfs, rfl⟩
        exact ⟨_, ⟨k, hk, fs, hfs, rfl⟩, rfl⟩

/-- Where count and sides are missing, nothing is read before the modifiers, and so the
modifiers alone have the form or not. -/
theorem reads_modifiers (hc : kind? c = some kind) :
    Reads (ofParts? ⟨none, kind, none, modifiers⟩) fun r token =>
      WritesParts r [] c [] modifiers token := by
  cases kind with
  | die =>
    refine (((reads_modifier .twenty modifiers).map (PoolSpec.mk 1 .twenty)).map
      DiceToken.pool).congr fun r token => ?_
    simp only [writesParts_iff hc, writesCount_nil, writesSides_nil, exists_eq_left',
      exists_exists_and_eq_and]
  | fate =>
    refine (((reads_modifier .fate modifiers).map (PoolSpec.mk 1 .fate)).map
      DiceToken.pool).congr fun r token => ?_
    simp only [writesParts_iff hc, writesCount_nil, exists_eq_left', exists_exists_and_eq_and,
      true_and]
  | successes =>
    refine ((reads_flags ⟨1, 5, none, none, none⟩ modifiers).map
      DiceToken.successes).congr fun r token => ?_
    simp only [writesParts_iff hc, writesCount_nil, exists_eq_left', exists_exists_and_eq_and]

end Sides

/-- The rule about bare letters changes no token. -/
theorem ofText?_eq_ok_iff_ofParts? {s : Text} {token : DiceToken} :
    ofText? s = .ok token ↔ ∃ p, parts? s = some p ∧ ofParts? p = .ok token := by
  unfold ofText?
  cases parts? s with
  | none => simp
  | some p =>
    simp only [Option.some.injEq, exists_eq_left']
    split
    · rename_i hp
      split <;> simp [hp]
    · rfl

/-- **The reader accepts exactly what the notation writes.** -/
theorem ofText?_eq_ok_iff {s : Text} {token : DiceToken} :
    ofText? s = .ok token ↔ WritesToken .held s token := by
  rw [ofText?_eq_ok_iff_ofParts?]
  constructor
  · rintro ⟨p, hp, hread⟩
    obtain ⟨count, c, sides, modifiers, rfl, hparts, hcut⟩ := exists_isCut hp
    rw [hparts, hcut.ofParts?_eq_ok_iff] at hread
    exact ⟨count, c, sides, modifiers, rfl, hread⟩
  · intro h
    obtain ⟨count, c, kind, sides, modifiers, rfl, hcut, hparts⟩ := h.exists_isCut
    exact ⟨_, hcut.parts?_eq, hcut.ofParts?_eq_ok_iff.2 hparts⟩

/-- A bare text is cut behind its letter and nowhere else. -/
theorem IsBare.isCut {count sides modifiers : Text} {c : Char} {kind : Kind}
    (h : IsBare (count ++ c :: (sides ++ modifiers))) (hcut : IsCut count c kind sides modifiers) :
    count = [] ∧ sides = [] := by
  obtain ⟨d, rest, hsplit, hkind, hhead⟩ := h
  obtain ⟨kind', hkind⟩ := Option.isSome_iff_exists.1 hkind
  cases count with
  | cons e count =>
    obtain ⟨rfl, -⟩ := List.cons.inj hsplit
    have hdigit := hcut.count e List.mem_cons_self
    rw [isDigit_eq_false_of_kind? hkind] at hdigit
    cases hdigit
  | nil =>
    obtain ⟨rfl, rfl⟩ := List.cons.inj hsplit
    cases sides with
    | nil => exact ⟨rfl, rfl⟩
    | cons e sides =>
      obtain ⟨hdigit, hletter⟩ := hhead e rfl
      rcases hcut.sides with ⟨g, hg, hf⟩ | ⟨hdigits, -⟩
      · obtain ⟨rfl, -⟩ := List.cons.inj hg
        exact absurd hf hletter
      · rw [hdigits e List.mem_cons_self] at hdigit
        cases hdigit

/-- **Of a bare text no modifier is blamed.** Where the form of a token is missing, the text is
no dice token. -/
theorem IsBare.ofText?_eq_error_iff {s : Text} (h : IsBare s) :
    ofText? s ≠ .error .invalidModifier
      ∧ (ofText? s = .error .notDice ↔ ∀ token, ¬ WritesToken .all s token) := by
  cases hp : parts? s with
  | none =>
    rw [ofText?, hp]
    refine ⟨by simp, iff_of_true rfl fun token hwrites => ?_⟩
    obtain ⟨count, c, kind, sides, modifiers, rfl, hcut, -⟩ := hwrites.exists_isCut
    rw [hcut.parts?_eq] at hp
    cases hp
  | some p =>
    obtain ⟨count, c, sides, modifiers, rfl, hparts, hcut⟩ := exists_isCut hp
    obtain ⟨rfl, rfl⟩ := h.isCut hcut
    have hreads : Reads (ofParts? ⟨none, _, none, modifiers⟩) _ := reads_modifiers hcut.kind
    have hform : (∀ token, ¬ WritesToken .all ([] ++ c :: ([] ++ modifiers)) token)
        ↔ ∀ token, ¬ WritesParts .all [] c [] modifiers token := by
      refine forall_congr' fun token => not_congr ⟨fun hwrites => ?_, fun hwrites => ?_⟩
      · obtain ⟨count, d, kind, sides, modifiers, hsplit, hcut, hwritten⟩ := hwrites.exists_isCut
        rw [hsplit] at h
        obtain ⟨rfl, rfl⟩ := h.isCut hcut
        obtain ⟨rfl, rfl⟩ := List.cons.inj hsplit
        exact hwritten
      · exact ⟨[], c, [], modifiers, rfl, hwrites⟩
    rw [hform, ← hreads.malformed_iff, ofText?, hp]
    rw [optional_nil] at hparts
    obtain ⟨kind, hkind⟩ : ∃ kind, p = ⟨none, kind, none, modifiers⟩ := ⟨_, hparts⟩
    subst hkind
    dsimp only at hreads ⊢
    split
    · rename_i hmalformed
      simp [hmalformed]
    · rename_i hwell
      exact ⟨hwell, iff_of_false hreads.isDice hwell⟩

/-- **The reader accepts exactly its notation.** It gives a token exactly if the text writes
it, within the numbers that a token can hold. Of a bare text it never says that a modifier is
unsupported: such a text is no dice token where it has not the form of one, and where it has
the form and is still refused, a number in it is zero or too large. -/
theorem reads_notation (s : Text) :
    (∀ token, ofText? s = .ok token ↔ WritesToken .held s token)
      ∧ (IsBare s →
        ofText? s ≠ .error .invalidModifier
          ∧ (ofText? s = .error .notDice ↔ ∀ token, ¬ WritesToken .all s token)
          ∧ (ofText? s = .error .zero ∨ ofText? s = .error .tooLarge ↔
            (∃ token, WritesToken .all s token) ∧ ∀ token, ¬ WritesToken .held s token)) := by
  refine ⟨fun token => ofText?_eq_ok_iff, fun hbare => ?_⟩
  obtain ⟨hmodifier, hdice⟩ := hbare.ofText?_eq_error_iff
  refine ⟨hmodifier, hdice, ?_⟩
  rw [← not_forall_not, ← hdice]
  simp only [← ofText?_eq_ok_iff]
  generalize ofText? s = result at hmodifier
  rcases result with e | token
  · cases e <;> simp_all
  · simp

/-- **A bare text may still be refused for a number.** It keeps no dice with its modifier. -/
theorem not_forall_notDice_of_isBare :
    ¬ ∀ (s : Text) (e : DiceError), IsBare s → ofText? s = .error e → e = .notDice := by
  intro hall
  have hbare : IsBare ['d', 'k', '0'] := by
    refine ⟨'d', ['k', '0'], rfl, rfl, fun c hc => ?_⟩
    cases hc
    decide
  cases hall ['d', 'k', '0'] .zero hbare (by cbv)

end Notation

end DiceRoll
