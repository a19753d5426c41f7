/-
What a book does to a text.

A macro takes its turn only if its name occurs in the text in lower case, and this is meant
to save looking for an invocation where there is none. Whether it changes anything depends
on the two notions of case. Where the lower case of every character goes by its fold, an
invocation always holds the name in lower case, and every turn goes as if nothing had been
asked beforehand (`Entry.expand_eq_invoke`). What a turn leaves consists of characters of
the macro and of the text, so this holds of all turns (`MacroBook.expand_eq_invokeAll`).
Outside of these characters the turn can be lost: a long s is an s to the reader and not in
lower case, and a capital sigma has another lower case at the end of a word than within one
(`MacroBook.not_forall_expand_eq_invokeAll`).

For a book with one macro the result is told without any turns: the text of the macro and the
shortest rest, if the text is an invocation, and the text itself otherwise
(`MacroBook.expand_of_single`).
-/

import DiceRoll.Macro.Invoke
import DiceRoll.Proofs.Macro.Book
import DiceRoll.Proofs.Macro.Invocation
import DiceRoll.Proofs.Text.Replacing

set_option autoImplicit false

namespace DiceRoll

open Text

/-- A letter, a digit or an underscore, in ASCII. -/
def Text.isNameChar (c : Char) : Bool := c.isAlphanum || c == '_'

/-! ## Turns that ask nothing beforehand -/

/-- One macro's turn on a text, whether or not the text holds the name in lower case. A
macro without a name, a text or a pattern leaves the text as it is. -/
def Entry.invoke (s : Text) (e : Entry) : Text :=
  if e.name.isEmpty || e.text.isEmpty then s
  else
    match e.pattern.bind fun p => p.after? s with
    | some rest => e.text ++ rest
    | none => s

/-- The text with the macros of a book invoked, in order. -/
def MacroBook.invokeAll (b : MacroBook) (s : Text) : Text := b.entries.foldl Entry.invoke s

theorem Entry.invoke_of_after? {e : Entry} (hname : e.name ≠ []) (htext : e.text ≠ [])
    {p : Pattern} (hpattern : e.pattern = some p) {s rest : Text} (hread : p.after? s = some rest) :
    e.invoke s = e.text ++ rest := by
  rw [Entry.invoke, hpattern, Option.bind_some, hread, List.isEmpty_eq_false_iff.2 hname,
    List.isEmpty_eq_false_iff.2 htext]
  rfl

theorem Entry.invoke_eq_self {e : Entry} {p : Pattern} (hpattern : e.pattern = some p) {s : Text}
    (hread : p.after? s = none) : e.invoke s = s := by
  rw [Entry.invoke, hpattern, Option.bind_some, hread]
  exact ite_self s

/-! ## One turn -/

/-- **The test beforehand loses no turn** on a text whose invocations all hold the name. -/
theorem Entry.expand_eq_invoke {e : Entry} {p : Pattern} (hpattern : e.pattern = some p)
    {s : Text} (hmentioned : ∀ rest, p.after? s = some rest → e.isMentioned s = true)
    (problems : List Problem) : Entry.expand (s, problems) e = (e.invoke s, problems) := by
  by_cases hempty : (e.name.isEmpty || e.text.isEmpty) = true
  · rw [Entry.expand, Entry.invoke, hempty]
    rfl
  rw [Bool.not_eq_true] at hempty
  cases hread : p.after? s with
  | none =>
    rw [e.invoke_eq_self hpattern hread]
    cases hholds : e.isMentioned s with
    | false =>
      simp only [Entry.expand, hempty, hholds]
      rfl
    | true =>
      simp only [Entry.expand, hempty, hholds, hpattern, hread]
      rfl
  | some rest =>
    simp only [Entry.expand, Entry.invoke, hempty, hmentioned rest hread, hpattern,
      Option.bind_some, hread]
    rfl

/-- An invocation holds the name in lower case, if the lower case of the name and the text
goes by the fold. -/
theorem Macro.isMentioned_of_invokes {m : Macro} {ends : Text → Text → Prop}
    {escape s rest : Text} (hname : IsCaseStable m.name) (hs : IsCaseStable s)
    (h : Invokes ends escape m.name s rest) :
    m.isMentioned s = true := by
  obtain ⟨front, gap, written, rfl, -, -, hsame, -⟩ := h
  have hpart : written <:+: front ++ gap ++ written ++ rest := ⟨front ++ gap, rest, rfl⟩
  have hwritten : IsCaseStable written := fun c hc => hs c (hpart.subset hc)
  rw [isMentioned, contains_iff_isInfix, Macro.key, ← hsame.lowercase_eq hwritten hname]
  exact lowercase_isInfix hpart hs.sigma_not_mem

/-- What a turn leaves consists of characters of the macro's text and of the text. -/
theorem Entry.mem_of_mem_invoke {e : Entry} {escape s : Text} {c : Char}
    (hpattern : e.pattern = Pattern.ofName? escape e.name) (hc : c ∈ e.invoke s) :
    c ∈ e.text ∨ c ∈ s := by
  rw [Entry.invoke] at hc
  split at hc
  · exact .inr hc
  · split at hc
    · rename_i rest hread
      obtain ⟨p, hp, hread⟩ := Option.bind_eq_some_iff.1 hread
      have hinvokes := ((Pattern.after?_eq_some_iff (hpattern ▸ hp)).1 hread).1
      exact (List.mem_append.1 hc).imp_right fun hmem => hinvokes.suffix.subset hmem
    · exact .inr hc

/-! ## All turns -/

namespace MacroBook

/-- **The test beforehand changes nothing**, where the lower case of every character of the
names, the texts and the text goes by its fold: the macros take their turns as if it were
not made, and without a problem. -/
theorem expand_eq_invokeAll {b : MacroBook} (hb : b.WellFormed)
    (husable : ∀ m ∈ b.macros, Pattern.isUsable m.name = true)
    (hstable : ∀ m ∈ b.macros, IsCaseStable m.name ∧ IsCaseStable m.text) {s : Text}
    (hs : IsCaseStable s) : b.expand s = (b.invokeAll s, []) := by
  have hfold : ∀ entries : List Entry, (∀ e ∈ entries, e ∈ b.entries) → ∀ s : Text,
      IsCaseStable s →
        entries.foldl Entry.expand (s, []) = (entries.foldl Entry.invoke s, []) := by
    intro entries hentries
    induction entries with
    | nil => exact fun _ _ => rfl
    | cons e entries ih =>
      intro s hs
      obtain ⟨he, hentries⟩ := List.forall_mem_cons.1 hentries
      have hmem : e.toMacro ∈ b.macros := List.mem_map_of_mem he
      obtain ⟨hname, htext⟩ := hstable _ hmem
      have hcurrent := hb.current e he
      have hpattern : Pattern.ofName? b.escape e.name
          = some ⟨[b.escape ++ ['r', 'o', 'l', 'l'], b.escape ++ ['r']], e.name⟩ :=
        if_pos (husable _ hmem)
      have hturn : Entry.expand (s, []) e = (e.invoke s, []) := by
        refine Entry.expand_eq_invoke (hcurrent.trans hpattern) (fun rest hread => ?_) []
        exact Macro.isMentioned_of_invokes hname hs
          ((Pattern.after?_eq_some_iff hpattern).1 hread).1
      rw [List.foldl_cons, List.foldl_cons, hturn]
      -- The next turn is on what this one leaves, and that is of the same kind.
      refine ih hentries _ fun c hc => ?_
      rcases Entry.mem_of_mem_invoke hcurrent hc with hc | hc
      · exact htext c hc
      · exact hs c hc
  exact hfold b.entries (fun _ he => he) s hs

/-- Two macros take their turns on a text beyond ASCII, the second on what the first left. -/
theorem expand_eq_invokeAll_of_two :
    (MacroBook.ofList [("Äxte".toList, "k'2".toList), ("k".toList, "1d6".toList)]).expand
        "/roll äXTE + 2".toList = ("1d6'2 + 2".toList, []) := by
  have h := expand_eq_invokeAll
    (WellFormed.ofList [("Äxte".toList, "k'2".toList), ("k".toList, "1d6".toList)])
    (by decide +kernel) (by decide +kernel) (s := "/roll äXTE + 2".toList) (by decide +kernel)
  exact h.trans (by decide +kernel)

/-- **The test beforehand can lose a turn.** The name ends with a sigma, which has another
lower case in the text than at the end of a word. -/
theorem not_forall_expand_eq_invokeAll : ¬ ∀ (b : MacroBook) (s : Text), b.WellFormed →
    (∀ m ∈ b.macros, Pattern.isUsable m.name = true) → (b.expand s).1 = b.invokeAll s := by
  intro h
  have hsigma := h (MacroBook.ofList [("ΑΣ".toList, "1d6".toList)]) "ΑΣ.Β".toList
    (WellFormed.ofList _) (by decide +kernel)
  exact absurd hsigma (by decide +kernel)

/-! ## A book with one macro -/

/-- A name that a roll would not be cut at. -/
def IsName (n : Text) : Prop := ∀ c ∈ n, isBlank c = false ∧ c ≠ '#' ∧ c ≠ ';' ∧ c ≠ ','

instance (n : Text) : Decidable (IsName n) :=
  List.decidableBAll (fun c => isBlank c = false ∧ c ≠ '#' ∧ c ≠ ';' ∧ c ≠ ',') n

/-- Where a name ends in ASCII: exactly one of the two characters on either side is a letter,
a digit or an underscore. The end of the text counts as none of them. -/
def IsSetOff (written rest : Text) : Prop :=
  written.getLast?.any isNameChar ≠ rest.head?.any isNameChar

theorem isWordChar_of_ascii {c : Char} (hc : c.toNat < 128) : isWordChar c = isNameChar c :=
  if_pos hc

theorem endsWord_iff_isSetOff {written rest : Text} (hwritten : IsAscii written)
    (hrest : IsAscii rest) : Pattern.EndsWord written rest ↔ IsSetOff written rest := by
  have hlast : written.getLast?.any isWordChar = written.getLast?.any isNameChar := by
    cases h : written.getLast? with
    | none => rfl
    | some c => exact isWordChar_of_ascii (hwritten c (List.mem_of_getLast? h))
  have hfirst : rest.head?.any isWordChar = rest.head?.any isNameChar := by
    cases h : rest.head? with
    | none => rfl
    | some c => exact isWordChar_of_ascii (hrest c (List.mem_of_head? h))
  rw [Pattern.EndsWord, wordBoundary, hlast, hfirst, IsSetOff, bne_iff_ne]

/-- **A macro is invoked by its name as a whole word**, on ASCII: its text stands in place of
the invocation, letter by letter, and of the rests that the readings of the text leave the
shortest follows. A text that is no invocation stays as it is. -/
theorem expand_of_single {b : MacroBook} (hb : b.WellFormed) {n x : Text}
    (hmacros : b.macros = [⟨n, x⟩]) (hn : n ≠ [])
    (hname : IsName n) (hlong : 'ſ' ∉ n) (hx : x ≠ []) {s : Text} (hs : IsAscii s) :
    (∀ rest, Invokes IsSetOff b.escape n s rest →
        (∀ r, Invokes IsSetOff b.escape n s r → rest.length ≤ r.length) →
          b.expand s = (x ++ rest, []))
      ∧ ((∀ rest, ¬Invokes IsSetOff b.escape n s rest) → b.expand s = (s, [])) := by
  have husable : Pattern.isUsable n = true := by
    rw [Pattern.isUsable, Bool.not_eq_true', List.any_eq_false]
    intro c hc
    obtain ⟨hblank, hmark, hsemicolon, hcomma⟩ := hname c hc
    simp [Pattern.isCutter, hblank, hmark, hsemicolon, hcomma]
  obtain ⟨p, hp⟩ : ∃ p, Pattern.ofName? b.escape n = some p := ⟨_, if_pos husable⟩
  have hends : ∀ {written rest : Text}, written <:+: s → rest <:+ s →
      (Pattern.EndsWord written rest ↔ IsSetOff written rest) := fun hwritten hrest =>
    endsWord_iff_isSetOff (fun c hc => hs c (hwritten.subset hc))
      fun c hc => hs c (hrest.subset hc)
  have hinvokes : ∀ rest, Invokes Pattern.EndsWord b.escape n s rest
      ↔ Invokes IsSetOff b.escape n s rest := fun rest =>
    ⟨fun h => h.mono fun _ _ hw hr => (hends hw hr).1,
      fun h => h.mono fun _ _ hw hr => (hends hw hr).2⟩
  -- An invocation is ASCII, so a name that is the same but for case has its lower case.
  have hmentioned : ∀ rest, p.after? s = some rest →
      (Entry.ofMacro b.escape ⟨n, x⟩).isMentioned s = true := by
    intro rest hread
    have h := ((Pattern.after?_eq_some_iff hp).1 hread).1
    refine Macro.isMentioned_of_invokes ?_ hs.isCaseStable h
    obtain ⟨front, gap, written, rfl, -, -, hsame, -⟩ := h
    refine hsame.isCaseStable (fun c hc => hs c ?_) hlong
    exact List.mem_append_left _ (List.mem_append_right _ hc)
  have hexpand : b.expand s = ((Entry.ofMacro b.escape ⟨n, x⟩).invoke s, []) := by
    rw [expand, hb.entries_eq, hmacros]
    exact Entry.expand_eq_invoke hp hmentioned []
  rw [hexpand]
  constructor
  · intro rest hrest hshortest
    have hread : p.after? s = some rest := (Pattern.after?_eq_some_iff hp).2
      ⟨(hinvokes rest).2 hrest, fun r hr => hshortest r ((hinvokes r).1 hr)⟩
    rw [Entry.invoke_of_after? hn hx hp hread]
    rfl
  · intro hnone
    have hread : p.after? s = none :=
      (Pattern.after?_eq_none_iff hp).2 fun rest hrest => hnone rest ((hinvokes rest).1 hrest)
    rw [Entry.invoke_eq_self hp hread]

/-- A macro is invoked behind the longer command and a blank, in capital letters. -/
theorem expand_of_single_command :
    (MacroBook.ofList [("fire_1".toList, "2d6$1".toList)]).expand "/ROLL Fire_1 + 2".toList
      = ("2d6$1 + 2".toList, []) := by
  refine (expand_of_single (WellFormed.ofList [("fire_1".toList, "2d6$1".toList)]) rfl
    (by decide) (by decide +kernel) (by decide) (by decide) (s := "/ROLL Fire_1 + 2".toList)
    (by decide)).1 " + 2".toList ?_ ?_
  · refine ⟨"/ROLL".toList, " ".toList, "Fire_1".toList, rfl, .inr (.inr ?_), .inr ?_, ?_, ?_⟩
    · exact rfl
    · exact ⟨' ', rfl, rfl⟩
    · exact rfl
    · exact Bool.noConfusion
  · intro r hr
    have := hr.length_le
    exact Nat.le_of_add_le_add_left this

/-- A text can be an invocation in two ways. The longer of them is taken. -/
example : (MacroBook.ofList [("/r/r".toList, "2d12".toList)]).expand "/r/r/r".toList
    = ("2d12".toList, []) := by decide +kernel

/-- **A name that ends with a mark is not set off by the end of the text.** So a macro is not
invoked by every text in which its name is followed by no letter, digit or underscore. -/
theorem not_forall_expand_of_invokes : ¬ ∀ (b : MacroBook) (n x s rest : Text), b.WellFormed →
    b.macros = [⟨n, x⟩] → n ≠ [] → IsName n → x ≠ [] → IsAscii s →
    Invokes (fun _ rest => rest.head?.any isNameChar = false) b.escape n s rest →
      b.expand s = (x ++ rest, []) := by
  intro h
  have haxe := h (MacroBook.ofList [("axe!".toList, "2d12".toList)]) "axe!".toList
    "2d12".toList "axe!".toList [] (WellFormed.ofList _) rfl (by decide) (by decide +kernel)
    (by decide) (by decide)
    ⟨[], [], "axe!".toList, rfl, .inl rfl, .inl rfl, rfl, rfl⟩
  exact absurd haxe (by decide +kernel)

end MacroBook

end DiceRoll
