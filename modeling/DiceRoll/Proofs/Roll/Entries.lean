/-
The entries of a list.

A list is written out as a whole and cut, and then each of its entries is written out once
more, since a macro may have brought in shorthand of its own. Without macros there is one
thing left for the second time: checks. What is written out for a check can begin another
one with the letter in front of it, and then an entry is rolled as it would not be alone.
Where the text of an entry holds no check any more it is settled (`IsSettled`), and a list
of such entries is rolled entry by entry, each from the faces that those before it have left.

Both writings meet in the middle. All passes go over a list entry by entry, so the first
time leaves the list of the texts that the entries have alone; and on a settled text the
second time does nothing.
-/

import DiceRoll.Proofs.Roll.Splitting
import DiceRoll.Proofs.Roll.Title

set_option autoImplicit false

namespace DiceRoll

open Text

/-! ## Entries -/

/-- A text that can be an entry of a list as it stands: it is not blank and has no blanks
around it, and holds no separator, no bracket and no abilities. -/
structure IsEntry (f : Text) : Prop where
  trimmed : trim f = f
  ne_nil : f ≠ []
  separators : firstSeparator? f = none
  bracket : '[' ∉ f
  abilities : Text.contains Abilities.word f = false

theorem IsEntry.isTrimmed {f : Text} (hf : IsEntry f) : IsTrimmed f := by
  have h := isTrimmed_trim f
  rwa [hf.trimmed] at h

/-- A text on which writing out has nothing left to do. -/
structure IsSettled (x : Text) : Prop extends IsEntry x where
  checks : Check.expand x = x
  attacks : Attack.expand x = x

theorem IsSettled.writeOut_eq_self {book : MacroBook} (hbook : book.macros = []) {x : Text}
    (hx : IsSettled x) (limit : Nat) : book.writeOut limit x = (x, []) := by
  rw [MacroBook.writeOut_of_no_macros hbook]
  simp only [Abilities.expand_eq_self hx.abilities, Iteration.expand_eq_self hx.bracket, hx.checks,
    hx.attacks, List.append_nil]

/-! ## An entry alone -/

theorem isContent_of_isDigit {c : Char} (hc : c.isDigit = true) : isContent c = true := by
  have hseparator : isSeparator c = false := by
    by_contra h
    rcases isSeparator_iff.1 (Bool.not_eq_false _ ▸ h) with rfl | rfl <;> cases hc
  simp [isContent, isBlank_of_isDigit hc, hseparator]

/-- **Something is left of an entry** when its checks and attacks are written out. -/
theorem IsEntry.any_isContent_expand {f : Text} (hf : IsEntry f) :
    (Attack.expand (Check.expand f)).any isContent = true := by
  have hf' : ∃ c ∈ f, isContent c = true := by
    obtain ⟨c, f, rfl⟩ := List.exists_cons_of_ne_nil hf.ne_nil
    have hblank := hf.isTrimmed.1 c rfl
    have hseparator := isSeparator_of_firstSeparator? hf.separators c List.mem_cons_self
    exact ⟨c, List.mem_cons_self, by simp [isContent, hblank, hseparator]⟩
  have hdigits : ∀ c : Char, c.isDigit = true → isContent c = true := fun _ => isContent_of_isDigit
  exact List.any_eq_true.2 (Attack.exists_mem_expand hdigits (Check.exists_mem_expand hdigits hf'))

/-- Without macros an entry is written out by its checks and attacks alone. -/
theorem IsEntry.writeOut_eq {book : MacroBook} (hbook : book.macros = []) {f : Text}
    (hf : IsEntry f) (limit : Nat) :
    book.writeOut limit f = (Attack.expand (Check.expand f), []) :=
  MacroBook.writeOut_of_no_bracket hbook hf.abilities hf.bracket limit

/-- **An entry without separators in the end is settled**, if it holds no check any more. -/
theorem IsEntry.isSettled_expand {f : Text} (hf : IsEntry f)
    (hseparator : firstSeparator? (Attack.expand (Check.expand f)) = none)
    (hchecks : Check.holds (Attack.expand (Check.expand f)) = false) :
    Attack.expand (Check.expand f) = Check.expand f ∧ IsSettled (Check.expand f) := by
  have hattacks := Attack.expand_eq_self_of_not_mem (firstSeparator?_eq_none_iff.1 hseparator).1
  have hletters : ∀ c ∈ Abilities.word, c.isDigit = false := by
    intro c hc
    simpa using List.any_eq_false.1 (show Abilities.word.any Char.isDigit = false from rfl) c hc
  rw [hattacks] at hseparator hchecks
  refine ⟨hattacks, ?_⟩
  exact {
    trimmed := (Check.isTrimmed_expand hf.isTrimmed).trim_eq
    ne_nil := Check.expand_ne_nil hf.ne_nil
    separators := hseparator
    bracket := fun hmem => hf.bracket (Check.mem_of_mem_expand hmem (by decide))
    abilities := Check.contains_expand hletters ⟨'b', by decide, by decide⟩ hf.abilities
    checks := Check.expand_eq_self_of_holds hchecks
    attacks := hattacks }

variable {σ : Type} [Source σ]

/-- **An entry that is a leaf alone** has no separator in the end: with one it would be a
list, or stand too deep. -/
theorem IsEntry.firstSeparator?_expand {u : Setup} (hmacros : u.macros.macros = [])
    (hdepth : 1 ≤ u.limits.maxDepth) (hrolls : 1 ≤ u.limits.maxRolls) {f : Text} (hf : IsEntry f)
    {s : σ} {raw : Text} {problems : List Problem} {leaf : Leaf}
    (h : ((⟨u, s⟩ : Session σ).parse f).1 = .leaf raw problems leaf) :
    raw = Attack.expand (Check.expand f)
      ∧ firstSeparator? (Attack.expand (Check.expand f)) = none := by
  have hbook : u.told.macros.macros = [] := u.macros_told.trans hmacros
  have hfirst : (0 : Nat) ≠ u.told.limits.maxRolls := Nat.ne_of_lt hrolls
  have hwritten := hf.writeOut_eq hbook u.told.limits.maxIterations
  rw [Session.parse_eq] at h
  have hraw := u.told.raw_roll u.limits.maxDepth f (p := ⟨0, s⟩) hfirst
  rw [h, hwritten] at hraw
  refine ⟨hraw, ?_⟩
  -- A list is a leaf only if nothing is left of its entries, and something is.
  by_contra hlist
  obtain ⟨sep, hsep⟩ := Option.ne_none_iff_exists'.1 hlist
  obtain ⟨n, hn⟩ : ∃ n, u.limits.maxDepth = n + 1 := ⟨u.limits.maxDepth - 1, by omega⟩
  rw [hn, u.told.roll_eq_list n hfirst hwritten hsep] at h
  have hentries := forall₂_drawEach (f := u.told.roll n) (Prod.eta (drawEach (u.told.roll n)
    (sep.entries (Attack.expand (Check.expand f))) ⟨0 + 1, s⟩)).symm
  simp only at h
  split at h
  · rename_i hempty
    rw [List.isEmpty_iff.1 hempty] at hentries
    have hcontent := hf.any_isContent_expand
    rw [any_isContent, segments_eq_flatMap_entries sep, List.forall₂_nil_right_iff.1 hentries]
      at hcontent
    cases hcontent
  · cases h

/-- A settled entry is rolled as it stands, as often as it is read. -/
theorem IsSettled.roll_eq {u : Setup} (hmacros : u.macros.macros = []) (depth : Nat) {x : Text}
    (hx : IsSettled x) {p : Progress σ} (hrolls : p.rolls ≠ u.limits.maxRolls) :
    u.roll depth x p
      = ((u.rollLeaf x [] p.source).1, ⟨p.rolls + 1, (u.rollLeaf x [] p.source).2⟩) :=
  u.roll_eq_rollLeaf depth hrolls (hx.writeOut_eq_self hmacros _) hx.separators

/-! ## The list -/

theorem IsSettled.entries_intercalate {xs : List Text} (hxs : ∀ x ∈ xs, IsSettled x)
    (hne : xs ≠ []) : Separator.semicolon.entries ([';'].intercalate xs) = xs := by
  have hcuts : ∀ x ∈ xs, ∀ c ∈ x, (c == ';') = false := by
    intro x hx c hc
    rw [beq_eq_false_iff_ne]
    rintro rfl
    exact (firstSeparator?_eq_none_iff.1 (hxs x hx).separators).1 hc
  have hpieces : pieces (· == ';') ([';'].intercalate xs) = xs :=
    @pieces_intercalate (· == ';') ';' (beq_self_eq_true ';') xs hne hcuts
  have htrim : xs.map trim = xs := by
    rw [List.map_congr_left fun x hx => (hxs x hx).trimmed, List.map_id']
  rw [Separator.entries, Separator.char, hpieces, htrim, List.filter_eq_self]
  intro x hx
  simpa using (hxs x hx).ne_nil

theorem IsEntry.writeOut_intercalate {book : MacroBook} (hbook : book.macros = []) {fs : List Text}
    (hfs : ∀ f ∈ fs, IsEntry f) (hsettled : ∀ f ∈ fs, IsSettled (Check.expand f)) (limit : Nat) :
    book.writeOut limit ([';'].intercalate fs) = ([';'].intercalate (fs.map Check.expand), []) := by
  have habilities : Text.contains Abilities.word ([';'].intercalate fs) = false :=
    contains_intercalate (by decide) (by decide) fun f hf => (hfs f hf).abilities
  have hbracket {items : List Text} (h : ∀ x ∈ items, '[' ∉ x) : '[' ∉ [';'].intercalate items := by
    intro hmem
    rcases mem_of_mem_intercalate hmem with heq | ⟨x, hx, hmem⟩
    · exact absurd heq (by decide)
    · exact h x hx hmem
  have hattacks : (fs.map Check.expand).map Attack.expand = fs.map Check.expand := by
    rw [List.map_map]
    exact List.map_congr_left fun f hf => (hsettled f hf).attacks
  rw [MacroBook.writeOut_of_no_macros hbook]
  simp only [Abilities.expand_eq_self habilities,
    Iteration.expand_eq_self (hbracket fun f hf => (hfs f hf).bracket),
    Check.splitsAtSeams.intercalate (c := ';') (by decide),
    Attack.splitsAtSeams.intercalate (c := ';') (by decide), hattacks]
  rw [Iteration.expand_eq_self (hbracket _)]
  · rfl
  · intro x hx
    obtain ⟨f, hf, rfl⟩ := List.mem_map.1 hx
    exact (hsettled f hf).bracket

theorem IsSettled.drawEach_roll {u : Setup} (hmacros : u.macros.macros = []) (depth : Nat)
    {xs : List Text} (hxs : ∀ x ∈ xs, IsSettled x) {p : Progress σ}
    (hrolls : p.rolls + xs.length ≤ u.limits.maxRolls) :
    drawEach (u.roll depth) xs p
      = ((drawEach (fun x s => u.rollLeaf x [] s) xs p.source).1,
        ⟨p.rolls + xs.length, (drawEach (fun x s => u.rollLeaf x [] s) xs p.source).2⟩) := by
  induction xs generalizing p with
  | nil => rfl
  | cons x xs ih =>
    obtain ⟨hx, hrest⟩ := List.forall_mem_cons.1 hxs
    rw [List.length_cons] at hrolls
    have hroom : p.rolls ≠ u.limits.maxRolls := by omega
    have hlater := ih hrest (p := ⟨p.rolls + 1, (u.rollLeaf x [] p.source).2⟩) (by simp only; omega)
    simp only [drawEach, hx.roll_eq hmacros depth hroom, hlater, List.length_cons]
    rw [Nat.add_right_comm, Nat.add_assoc]

/-- What an input comes to by itself, and the source behind it. -/
def Session.alone (u : Setup) (input : Text) (s : σ) : Roll × σ :=
  (((⟨u, s⟩ : Session σ).parse input).1, ((⟨u, s⟩ : Session σ).parse input).2.source)

/-- A settled text is rolled as it stands, alone. -/
theorem IsSettled.alone_eq {u : Setup} (hmacros : u.macros.macros = [])
    (hrolls : 1 ≤ u.limits.maxRolls) {x : Text} (hx : IsSettled x) (s : σ) :
    Session.alone u x s = u.told.rollLeaf x [] s := by
  have hbook : u.told.macros.macros = [] := u.macros_told.trans hmacros
  rw [Session.alone, Session.parse_eq_rollLeaf hrolls
    (hx.writeOut_eq_self hbook u.limits.maxIterations) hx.separators s]

/-- **A list that is cut into settled texts is rolled text by text.** -/
theorem Session.parse_of_isSettled {u : Setup} (hmacros : u.macros.macros = [])
    (hdepth : 1 ≤ u.limits.maxDepth) {input raw : Text} {sep : Separator} {xs : List Text}
    (hne : xs ≠ []) (hrolls : xs.length < u.limits.maxRolls) (hxs : ∀ x ∈ xs, IsSettled x)
    (hwritten : u.told.macros.writeOut u.limits.maxIterations input = (raw, []))
    (hseparator : firstSeparator? raw = some sep) (hentries : sep.entries raw = xs) (s : σ) :
    (⟨u, s⟩ : Session σ).parse input
      = (.list raw [] sep (drawEach (alone u) xs s).1,
        ⟨u.told, (drawEach (alone u) xs s).2⟩) := by
  have hbook : u.told.macros.macros = [] := u.macros_told.trans hmacros
  have hfirst : (0 : Nat) ≠ u.told.limits.maxRolls := Nat.ne_of_lt (Nat.zero_lt_of_lt hrolls)
  obtain ⟨n, hn⟩ : ∃ n, u.limits.maxDepth = n + 1 := ⟨u.limits.maxDepth - 1, by omega⟩
  have hdrawn := IsSettled.drawEach_roll hbook n hxs (p := ⟨0 + 1, s⟩)
    (show 0 + 1 + xs.length ≤ u.limits.maxRolls by omega)
  have halone : drawEach (alone u) xs s = drawEach (fun x s => u.told.rollLeaf x [] s) xs s := by
    have hsame := drawEach_map (f := alone u) (g := fun x s => u.told.rollLeaf x [] s) (e := id)
      (fun x hx p => (hxs x hx).alone_eq hmacros (Nat.one_le_of_lt hrolls) p) s
    rwa [List.map_id] at hsame
  have hsome : (drawEach (alone u) xs s).1.isEmpty = false := by
    rw [List.isEmpty_eq_false_iff, ← List.length_pos_iff, length_drawEach]
    exact List.length_pos_iff.2 hne
  rw [parse_eq, hn, u.told.roll_eq_list n hfirst hwritten hseparator, hentries]
  simp only [hdrawn, ← halone, hsome, Bool.false_eq_true, if_false]

/-- **The entries of a list are rolled as they would be alone**, one after the other, where
the text of none of them holds a check in the end. -/
theorem Session.parse_entries {u : Setup} (hmacros : u.macros.macros = [])
    (hdepth : 1 ≤ u.limits.maxDepth) {fs : List Text} (hlist : 2 ≤ fs.length)
    (hrolls : fs.length < u.limits.maxRolls) (hfs : ∀ f ∈ fs, IsEntry f) {s : σ}
    (halone : ∀ f ∈ fs, ∃ raw problems leaf,
      ((⟨u, s⟩ : Session σ).parse f).1 = .leaf raw problems leaf ∧ Check.holds raw = false) :
    ∃ raw, (⟨u, s⟩ : Session σ).parse ([';'].intercalate fs)
      = (.list raw [] .semicolon (drawEach (alone u) fs s).1,
        ⟨u.told, (drawEach (alone u) fs s).2⟩) := by
  have hbook : u.told.macros.macros = [] := u.macros_told.trans hmacros
  have hone : 1 ≤ u.limits.maxRolls := Nat.one_le_of_lt hrolls
  have hresult : ∀ f ∈ fs, Attack.expand (Check.expand f) = Check.expand f
      ∧ IsSettled (Check.expand f) := by
    intro f hf
    obtain ⟨raw, problems, leaf, hleaf, hchecks⟩ := halone f hf
    obtain ⟨rfl, hseparator⟩ := (hfs f hf).firstSeparator?_expand hmacros hdepth hone hleaf
    exact (hfs f hf).isSettled_expand hseparator hchecks
  -- So the list that is cut is one of settled texts, and is cut where it was put together.
  have hsettled : ∀ x ∈ fs.map Check.expand, IsSettled x :=
    List.forall_mem_map.2 fun f hf => (hresult f hf).2
  have hwritten := IsEntry.writeOut_intercalate hbook hfs (fun f hf => (hresult f hf).2)
    u.limits.maxIterations
  have hne : fs.map Check.expand ≠ [] := by
    rw [ne_eq, List.map_eq_nil_iff]
    rintro rfl
    exact absurd hlist (by decide)
  have hcomma : ',' ∉ [';'].intercalate (fs.map Check.expand) := by
    intro hmem
    rcases mem_of_mem_intercalate hmem with heq | ⟨x, hx, hmem⟩
    · exact absurd heq (by decide)
    · exact (firstSeparator?_eq_none_iff.1 (hsettled x hx).separators).2 hmem
  have hsemicolon : ';' ∈ [';'].intercalate (fs.map Check.expand) :=
    mem_intercalate (by rwa [List.length_map])
  have hparse := parse_of_isSettled hmacros hdepth hne (by rwa [List.length_map]) hsettled hwritten
    (firstSeparator?_eq_semicolon hsemicolon hcomma)
    (IsSettled.entries_intercalate hsettled hne) s
  -- Alone an entry comes to the same as its settled text, from whatever source.
  have hsame : drawEach (alone u) fs s = drawEach (alone u) (fs.map Check.expand) s := by
    refine drawEach_map (fun f hf p => ?_) s
    have hf' := (hfs f hf).writeOut_eq hbook u.limits.maxIterations
    rw [(hresult f hf).1] at hf'
    rw [(hresult f hf).2.alone_eq hmacros hone p, alone,
      parse_eq_rollLeaf hone hf' (hresult f hf).2.separators p]
  rw [← hsame] at hparse
  exact ⟨_, hparse⟩

/-- A check with advantage and a die with a title, from three faces. -/
theorem parse_entries_of_check :
    ∃ raw, (Session.ofSource (⟨[14, 9, 3], 0⟩ : Recording)).parse "c5a;d6 # cut".toList
      = (.list raw [] .semicolon (drawEach (Session.alone Setup.usual)
            ["c5a".toList, "d6 # cut".toList] (⟨[14, 9, 3], 0⟩ : Recording)).1,
          ⟨Setup.usual, (drawEach (Session.alone Setup.usual)
            ["c5a".toList, "d6 # cut".toList] (⟨[14, 9, 3], 0⟩ : Recording)).2⟩) := by
  have hentries : ∀ f ∈ ["c5a".toList, "d6 # cut".toList], IsEntry f := by
    intro f hf
    rcases List.mem_pair.1 hf with rfl | rfl
    · exact ⟨by cbv, by decide, by decide, by decide, by decide⟩
    · exact ⟨by cbv, by decide, by decide, by decide, by decide⟩
  have halone : ∀ f ∈ ["c5a".toList, "d6 # cut".toList], ∃ raw problems leaf,
      ((Session.ofSource (⟨[14, 9, 3], 0⟩ : Recording)).parse f).1 = .leaf raw problems leaf
        ∧ Check.holds raw = false := by
    intro f hf
    rcases List.mem_pair.1 hf with rfl | rfl
    · exact ⟨"1d20a + 5".toList, [], Leaf.ofResolved ["1d20a".toList, "+".toList, "5".toList] none
        [⟨"14".toList, "(14 > 9)".toList⟩, .literal "+".toList, .literal "5".toList],
        by cbv, by cbv⟩
    · exact ⟨"d6 # cut".toList, [], Leaf.ofResolved ["d6".toList] (some "cut".toList)
        [.literal "2".toList], by cbv, by cbv⟩
  exact Session.parse_entries rfl (by decide) (by decide) (by decide) hentries halone

/-- **What is written out for a check can begin another.** Alone the first entry is no
arithmetic; in a list it is written out once more, and rolled. -/
theorem not_forall_parse_entries :
    ¬ ∀ (s : Recording) (fs : List Text), 2 ≤ fs.length →
        fs.length < Setup.usual.limits.maxRolls → (∀ f ∈ fs, IsEntry f) →
        (∀ f ∈ fs, ∃ raw problems leaf,
          ((Session.ofSource s).parse f).1 = .leaf raw problems leaf) →
        ∃ raw, ((Session.ofSource s).parse ([';'].intercalate fs)).1
          = .list raw [] .semicolon (drawEach (Session.alone Setup.usual) fs s).1 := by
  intro hall
  have hentries : ∀ f ∈ ["cc5".toList, "d6".toList], IsEntry f := by
    intro f hf
    rcases List.mem_pair.1 hf with rfl | rfl
    · exact ⟨by cbv, by decide, by decide, by decide, by decide⟩
    · exact ⟨by cbv, by decide, by decide, by decide, by decide⟩
  have halone : ∀ f ∈ ["cc5".toList, "d6".toList], ∃ raw problems leaf,
      ((Session.ofSource (⟨[4], 0⟩ : Recording)).parse f).1 = .leaf raw problems leaf := by
    intro f hf
    rcases List.mem_pair.1 hf with rfl | rfl
    · exact ⟨"c1d20 + 5".toList, [], Leaf.ofResolved
        ["c1d20".toList, "+".toList, "5".toList] none
        [.literal "c1d20".toList, .literal "+".toList, .literal "5".toList], by cbv⟩
    · exact ⟨"d6".toList, [], Leaf.ofResolved ["d6".toList] none [.literal "4".toList], by cbv⟩
  obtain ⟨raw, hlist⟩ := hall ⟨[4], 0⟩ _ (by decide) (by decide) hentries halone
  have htogether : (((Session.ofSource (⟨[4], 0⟩ : Recording)).parse
      ([';'].intercalate ["cc5".toList, "d6".toList])).1.nodes.map Roll.raw).tail
        = ["1d20d + 120 + 5".toList, "d6".toList] := by cbv
  have hapart : (Roll.nodesOf (drawEach (Session.alone Setup.usual) ["cc5".toList, "d6".toList]
      (⟨[4], 0⟩ : Recording)).1).map Roll.raw = ["c1d20 + 5".toList, "d6".toList] := by cbv
  rw [hlist, Roll.nodes, List.map_cons, List.tail_cons, hapart] at htogether
  exact absurd htogether (by decide)

end DiceRoll
