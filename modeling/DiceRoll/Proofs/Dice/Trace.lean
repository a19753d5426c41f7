/-
Reading the dice off a trace.

The trace of a pool is text, and this file reads the dice off it again: their values, which
of them stand out and which are struck out (`shownDice`). Reading asks nothing of the text,
so what it finds in the trace of a pool has to be shown: it finds exactly the dice that were
written (`shownDice_group`), because no character of a die is a plus sign, a parenthesis or
the mark that strikes it out.

What is shown when some of the dice are selected follows. Every die is in the trace, and the
ones that are struck out are those behind the selected (`Pool.shownDice_select`).

The numbers alone can be read off any trace, that of a success pool as well
(`shownNumbers_group`). For this it is enough that nothing but a number in the text of a die
looks like one.
-/

import DiceRoll.Dice.Modify
import DiceRoll.Dice.Success
import DiceRoll.Proofs.Markup
import DiceRoll.Proofs.Shorthand.Attack
import DiceRoll.Proofs.Text.Replacing

set_option autoImplicit false

namespace DiceRoll

open Text

/-! ## Reading -/

/-- A die as a trace shows it. -/
structure ShownDie where
  die : Die
  struck : Bool
deriving DecidableEq, Repr

/-- The die that a text shows. It stands out if there is emphasis on all of it. -/
def Die.ofText (s : Text) : Die :=
  match Markup.emphasized? s with
  | some (number, []) => ⟨Attack.valueOf number, true⟩
  | _ => ⟨Attack.valueOf s, false⟩

namespace ShownDie

/-- What a trace shows for a die. -/
def text (d : ShownDie) : Text := if d.struck then Markup.strike d.die.text else d.die.text

/-- The die that a piece of a trace shows. -/
def ofText (s : Text) : ShownDie :=
  match after? ['~', '~'] s with
  | some inside => ⟨Die.ofText (inside.takeWhile (· != '~')), true⟩
  | none => ⟨Die.ofText s, false⟩

end ShownDie

/-- The dice that a trace shows: in parentheses with plus signs between them, or one die. -/
def shownDice : Text → List ShownDie
  | '(' :: s => (pieces (· == '+') (s.takeWhile (· != ')'))).map ShownDie.ofText
  | s => [ShownDie.ofText s]

/-- The values of the dice that a trace shows as they lie. -/
def unstruckValues (trace : Text) : List Int :=
  ((shownDice trace).filter fun d => !d.struck).map fun d => d.die.value

/-- The values of the dice that a trace shows struck out. -/
def struckValues (trace : Text) : List Int :=
  ((shownDice trace).filter fun d => d.struck).map fun d => d.die.value

/-! ## The characters of a die -/

/-- No character that ends an emphasis is in the text of a die. -/
theorem Die.not_mem_text {c : Char} (hc : Markup.isForeign c = true) (d : Die) : c ∉ d.text := by
  obtain ⟨hopen, hclose, hminus, hnumber⟩ := Markup.not_mem_of_isForeign hc
  have hvalue : c ∉ Text.ofInt d.value := by
    obtain ⟨minus, hsign, hv⟩ := Markup.ofInt_eq d.value
    rw [hv, List.mem_append]
    rintro (hmem | hmem)
    · rcases hsign with rfl | rfl
      · cases hmem
      · exact hminus (List.mem_singleton.1 hmem)
    · rw [Markup.isNumberChar_of_mem_ofNat hmem] at hnumber
      cases hnumber
  unfold Die.text
  split
  · rw [Markup.emphasis, List.mem_append, List.mem_append]
    rintro ((hmem | hmem) | hmem)
    · exact hopen hmem
    · exact hvalue hmem
    · exact hclose hmem
  · exact hvalue

/-- If such a character is shown for a die, it is the mark that strikes it out. -/
theorem ShownDie.not_mem_text {c : Char} (hc : Markup.isForeign c = true) (hmark : c ≠ '~')
    (d : ShownDie) : c ∉ d.text := by
  have hdie := d.die.not_mem_text hc
  unfold ShownDie.text
  split
  · simp [Markup.strike, hdie, hmark]
  · exact hdie

/-! ## What is read is what was written -/

theorem Attack.valueOf_ofInt (v : Int) : valueOf (Text.ofInt v) = v := by
  cases v with
  | ofNat n =>
    have hdash : ∀ digits, Text.ofNat n ≠ '-' :: digits := by
      intro digits h
      have hnumber := Markup.isNumberChar_of_mem_ofNat (h ▸ List.mem_cons_self)
      cases hnumber
    rw [Text.ofInt, valueOf, value_ofNat]
    · rfl
    · exact hdash
  | negSucc n =>
    rw [Text.ofInt, valueOf, value_ofNat]
    rfl

theorem Markup.emphasized?_ofInt (v : Int) : emphasized? (Text.ofInt v) = none := by
  cases hread : emphasized? (Text.ofInt v) with
  | none => rfl
  | some found =>
    have hwritten := (emphasized?_eq_some_iff.1 hread).2
    refine absurd ?_ (underscore_not_mem_ofInt v)
    rw [hwritten]
    exact List.mem_cons_self

/-- **A die is read off its text.** -/
theorem Die.ofText_text (d : Die) : ofText d.text = d := by
  obtain ⟨value, emphasized⟩ := d
  cases emphasized with
  | true =>
    have hread := Markup.emphasized?_emphasis (Markup.isNumber_ofInt value) []
    rw [List.append_nil] at hread
    simp [ofText, text, hread, Attack.valueOf_ofInt]
  | false => simp [ofText, text, Markup.emphasized?_ofInt, Attack.valueOf_ofInt]

namespace ShownDie

/-- A die is read off what is shown for it, struck out or not. -/
theorem ofText_text (d : ShownDie) : ofText d.text = d := by
  obtain ⟨die, struck⟩ := d
  have hmark : ∀ c ∈ die.text, (c != '~') = true := by
    intro c hc
    rw [bne_iff_ne]
    rintro rfl
    exact die.not_mem_text rfl hc
  cases struck with
  | true =>
    have hinside : after? ['~', '~'] (Markup.strike die.text) = some (die.text ++ ['~', '~']) :=
      after?_eq_some_iff.2 (by rw [Markup.strike, List.append_assoc])
    have htake : (die.text ++ ['~', '~']).takeWhile (· != '~') = die.text :=
      takeWhile_run hmark fun c hc => by
        cases hc
        rfl
    simp [ofText, text, hinside, htake, Die.ofText_text]
  | false =>
    have hnone : after? ['~', '~'] die.text = none := by
      cases hafter : after? ['~', '~'] die.text with
      | none => rfl
      | some rest =>
        have hmem : '~' ∈ die.text := by
          rw [after?_eq_some_iff.1 hafter]
          exact List.mem_cons_self
        exact absurd hmem (die.not_mem_text rfl)
    simp [ofText, text, hnone, Die.ofText_text]

end ShownDie

theorem map_ofText_text (items : List ShownDie) :
    (items.map ShownDie.text).map ShownDie.ofText = items := by
  rw [List.map_map]
  exact (List.map_congr_left fun d _ => d.ofText_text).trans (List.map_id items)

/-- **The dice of a trace are read off it**, in their order. -/
theorem shownDice_group {items : List ShownDie} (hne : items ≠ []) :
    shownDice (Markup.group ['+'] (items.map ShownDie.text)) = items := by
  -- Neither what stands between the dice nor what closes the parentheses is in one of them.
  have hplus : ∀ item ∈ items.map ShownDie.text, ∀ c ∈ item, (c == '+') = false := by
    intro item hitem c hc
    obtain ⟨d, -, rfl⟩ := List.mem_map.1 hitem
    rw [beq_eq_false_iff_ne]
    rintro rfl
    exact d.not_mem_text rfl (by decide) hc
  have hclose : ∀ c ∈ ['+'].intercalate (items.map ShownDie.text), (c != ')') = true := by
    intro c hc
    rw [bne_iff_ne]
    rintro rfl
    rcases mem_of_mem_intercalate hc with hplus | ⟨item, hitem, hc⟩
    · exact absurd hplus (by decide)
    · obtain ⟨d, -, rfl⟩ := List.mem_map.1 hitem
      exact d.not_mem_text rfl (by decide) hc
  rw [Markup.group]
  split
  · have htake : (['+'].intercalate (items.map ShownDie.text) ++ [')']).takeWhile (· != ')')
        = ['+'].intercalate (items.map ShownDie.text) :=
      takeWhile_run hclose fun c hc => by
        cases hc
        rfl
    rw [List.cons_append, shownDice, htake, pieces_intercalate rfl (by simpa using hne) hplus,
      map_ofText_text]
  -- A single die stands without parentheses, and does not begin with one.
  · rename_i hlength
    match items, hne with
    | [d], _ =>
      have hopen : ∀ s, d.text ≠ '(' :: s := by
        intro s h
        exact d.not_mem_text (c := '(') rfl (by decide) (h ▸ List.mem_cons_self)
      rw [List.map_singleton, List.intercalate_singleton, shownDice, d.ofText_text]
      exact hopen
    | d :: e :: items, _ => exact absurd (by simp) hlength

/-! ## Some of the dice -/

namespace Pool

/-- The dice as they are shown when the first `n` of them are selected. -/
def marked (dice : List Die) (n : Nat) : List ShownDie :=
  (dice.take n).map (ShownDie.mk · false) ++ (dice.drop n).map (ShownDie.mk · true)

/-- **The trace of selected dice shows all of them**, the selected as they lie and the others
struck out. -/
theorem shownDice_select {dice : List Die} (hne : dice ≠ []) (n : Nat) :
    shownDice (select dice n).pretty = marked dice n := by
  have hitems : (dice.take n).map Die.text ++ (dice.drop n).map (fun d => Markup.strike d.text)
      = (marked dice n).map ShownDie.text := by
    rw [marked, List.map_append, List.map_map, List.map_map]
    rfl
  have hmarked : marked dice n ≠ [] := by
    rw [← List.length_pos_iff] at hne ⊢
    rw [marked, List.length_append, List.length_map, List.length_map, ← List.length_append,
      List.take_append_drop]
    exact hne
  rw [select, hitems]
  exact shownDice_group hmarked

/-- No die is hidden, and none is shown twice. -/
theorem map_die_shownDice_select {dice : List Die} (hne : dice ≠ []) (n : Nat) :
    (shownDice (select dice n).pretty).map ShownDie.die = dice := by
  have hdie : ∀ struck (part : List Die),
      (part.map (ShownDie.mk · struck)).map ShownDie.die = part := by
    intro struck part
    rw [List.map_map]
    exact List.map_id part
  rw [shownDice_select hne, marked, List.map_append, hdie, hdie, List.take_append_drop]

theorem unstruckValues_select {dice : List Die} (hne : dice ≠ []) (n : Nat) :
    unstruckValues (select dice n).pretty = (dice.take n).map Die.value := by
  rw [unstruckValues, shownDice_select hne, marked]
  simp [List.filter_map, Function.comp_def, -List.map_take, -List.map_drop]

theorem struckValues_select {dice : List Die} (hne : dice ≠ []) (n : Nat) :
    struckValues (select dice n).pretty = (dice.drop n).map Die.value := by
  rw [struckValues, shownDice_select hne, marked]
  simp [List.filter_map, Function.comp_def, -List.map_take, -List.map_drop]

end Pool

/-! ## Numbers

The numbers of a trace can be read off it without its marks. Every character that no number
has is a mark, on a number or between two of them. -/

/-- Whether a character is a mark. -/
def isTraceMark (c : Char) : Bool := !(c.isDigit || c == '-')

/-- The numbers that a trace shows, in their order. -/
def shownNumbers (trace : Text) : List Int :=
  ((pieces isTraceMark trace).filter fun run => !run.isEmpty).map Attack.valueOf

/-- **Numbers are read on either side of a mark.** -/
theorem shownNumbers_append_cons {c : Char} (hc : isTraceMark c = true) (a b : Text) :
    shownNumbers (a ++ c :: b) = shownNumbers a ++ shownNumbers b := by
  rw [shownNumbers, pieces_append_cons hc, List.filter_append, List.map_append]
  rfl

@[simp] theorem shownNumbers_nil : shownNumbers [] = [] := rfl

/-- Nothing is read off marks. -/
theorem shownNumbers_marks_append {marks : Text} (hmarks : marks.all isTraceMark = true)
    (b : Text) : shownNumbers (marks ++ b) = shownNumbers b := by
  induction marks with
  | nil => rfl
  | cons c marks ih =>
    rw [List.all_cons, Bool.and_eq_true] at hmarks
    have hcut := shownNumbers_append_cons hmarks.1 [] (marks ++ b)
    rw [shownNumbers_nil, List.nil_append, List.nil_append, ih hmarks.2] at hcut
    exact hcut

theorem shownNumbers_append_marks {marks : Text} (hmarks : marks.all isTraceMark = true)
    (a : Text) : shownNumbers (a ++ marks) = shownNumbers a := by
  cases marks with
  | nil => rw [List.append_nil]
  | cons c marks =>
    rw [List.all_cons, Bool.and_eq_true] at hmarks
    have hnone := shownNumbers_marks_append hmarks.2 []
    rw [List.append_nil, shownNumbers_nil] at hnone
    rw [shownNumbers_append_cons hmarks.1, hnone, List.append_nil]

/-- A number is read off its numeral. -/
theorem shownNumbers_ofInt (v : Int) : shownNumbers (Text.ofInt v) = [v] := by
  obtain ⟨minus, hminus, hv⟩ := Markup.ofInt_eq v
  have hnone : ∀ c ∈ Text.ofInt v, isTraceMark c = false := by
    intro c hc
    rw [hv, List.mem_append] at hc
    rcases hc with hc | hc
    · rcases hminus with rfl | rfl
      · cases hc
      · rw [List.mem_singleton.1 hc]
        rfl
    · rw [isTraceMark, Token.isDigit_of_mem_ofNat hc]
      rfl
  have hne : Text.ofInt v ≠ [] := by
    rw [hv]
    exact List.append_ne_nil_of_right_ne_nil _ (Token.ofNat_ne_nil _)
  rw [shownNumbers, pieces_of_none hnone]
  simp [hne, Attack.valueOf_ofInt]

/-- **A number is read off under its marks.** -/
theorem shownNumbers_marked {front back : Text} (hfront : front.all isTraceMark = true)
    (hback : back.all isTraceMark = true) (v : Int) :
    shownNumbers (front ++ Text.ofInt v ++ back) = [v] := by
  rw [shownNumbers_append_marks hback, shownNumbers_marks_append hfront, shownNumbers_ofInt]

theorem shownNumbers_intercalate {separator : Text} (hne : separator ≠ [])
    (hmarks : separator.all isTraceMark = true) (items : List Text) :
    shownNumbers (separator.intercalate items) = items.flatMap shownNumbers := by
  obtain ⟨c, rest, rfl⟩ := List.exists_cons_of_ne_nil hne
  rw [List.all_cons, Bool.and_eq_true] at hmarks
  induction items with
  | nil => rfl
  | cons x items ih =>
    cases items with
    | nil => simp
    | cons y items =>
      rw [List.intercalate_cons_cons, List.append_assoc, List.cons_append,
        shownNumbers_append_cons hmarks.1, shownNumbers_marks_append hmarks.2, ih]
      rfl

/-- **The numbers of a trace are read off it**, in their order, if each can be read off what
is shown for it. -/
theorem shownNumbers_group {α : Type} {separator : Text} (hne : separator ≠ [])
    (hmarks : separator.all isTraceMark = true) {shown : α → Text} {value : α → Int}
    (hshown : ∀ x, shownNumbers (shown x) = [value x]) (items : List α) :
    shownNumbers (Markup.group separator (items.map shown)) = items.map value := by
  have hjoined : shownNumbers (separator.intercalate (items.map shown)) = items.map value := by
    rw [shownNumbers_intercalate hne hmarks, List.flatMap_map]
    simp only [hshown, List.map_eq_flatMap]
  rw [Markup.group]
  split
  · rw [shownNumbers_append_marks rfl, ← List.singleton_append,
      shownNumbers_marks_append rfl, hjoined]
  · exact hjoined

/-- A die shows its value. -/
theorem Die.shownNumbers_text (d : Die) : shownNumbers d.text = [d.value] := by
  unfold text
  split
  · exact shownNumbers_marked rfl rfl d.value
  · exact shownNumbers_ofInt d.value

/-- A die of a success pool shows its face, whatever it scores. -/
theorem SuccessSpec.shownNumbers_shown (p : SuccessSpec) (face : Nat) :
    shownNumbers (p.shown face) = [(face : Int)] := by
  have hface : Text.ofNat face = Text.ofInt face := rfl
  unfold shown
  rw [hface]
  dsimp only
  split
  · exact shownNumbers_marked rfl rfl face
  split
  · exact shownNumbers_ofInt face
  split
  · rw [Markup.bold, List.append_assoc]
    exact shownNumbers_marked rfl rfl face
  split
  · rw [Markup.bold, List.append_assoc]
    exact shownNumbers_marked rfl rfl face
  · exact shownNumbers_marked rfl rfl face

end DiceRoll
