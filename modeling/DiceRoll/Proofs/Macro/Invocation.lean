/-
What an invocation is.

A macro is looked for at a handful of places at the front of a text, one after the other:
behind the longer command, behind the shorter one and at the very front, each time behind a
blank first. Said without an order, a text is an invocation if it is a command or nothing, a
blank or nothing, the name but for case, and something that sets the name apart from what it
begins (`Invokes`).

A text can be an invocation in several ways, and then the order decides. The places ascend,
the later ones being farther to the front (`Pattern.places_pairwise`), so the first of them
at which the name stands leaves the shortest rest (`Pattern.after?_eq_some_iff`).

Where a name ends is told by the two characters on either side of its end, of which exactly
one belongs to a word. So a name that ends with a mark is set apart by a letter behind it and
not by a blank.
-/

import DiceRoll.Macro.Pattern
import DiceRoll.Proofs.Text.Case

set_option autoImplicit false

namespace DiceRoll

open Text

/-! ## Invocations -/

/-- One blank or nothing. -/
def IsOptionalBlank (gap : Text) : Prop := gap = [] ∨ ∃ c, isBlank c = true ∧ gap = [c]

theorem IsOptionalBlank.length_le {gap : Text} (h : IsOptionalBlank gap) : gap.length ≤ 1 := by
  rcases h with rfl | ⟨c, -, rfl⟩
  · exact Nat.zero_le _
  · exact Nat.le_refl _

/-- A text invokes a name under an escape and goes on with `rest`: a command or nothing, a
blank or nothing, and the name in any case. Where the name may end is left to `ends`, which
is given the name as it is written and the rest. -/
def Invokes (ends : Text → Text → Prop) (escape name s rest : Text) : Prop :=
  ∃ front gap written, s = front ++ gap ++ written ++ rest
    ∧ (front = [] ∨ SameButCase front (escape ++ ['r'])
      ∨ SameButCase front (escape ++ ['r', 'o', 'l', 'l']))
    ∧ IsOptionalBlank gap ∧ SameButCase written name ∧ ends written rest

theorem Invokes.mono {ends ends' : Text → Text → Prop} {escape name s rest : Text}
    (h : Invokes ends escape name s rest)
    (hends : ∀ written rest, written <:+: s → rest <:+ s → ends written rest → ends' written rest) :
    Invokes ends' escape name s rest := by
  obtain ⟨front, gap, written, rfl, hfront, hgap, hname, hend⟩ := h
  refine ⟨front, gap, written, rfl, hfront, hgap, hname, hends _ _ ?_ ?_ hend⟩
  · exact ⟨front ++ gap, rest, rfl⟩
  · exact List.suffix_append _ _

theorem Invokes.suffix {ends : Text → Text → Prop} {escape name s rest : Text}
    (h : Invokes ends escape name s rest) : rest <:+ s := by
  obtain ⟨front, gap, written, rfl, -⟩ := h
  exact List.suffix_append _ _

/-- The longest invocation is a name behind the longer command and a blank. -/
theorem Invokes.length_le {ends : Text → Text → Prop} {escape name s rest : Text}
    (h : Invokes ends escape name s rest) :
    s.length ≤ escape.length + 5 + name.length + rest.length := by
  obtain ⟨front, gap, written, rfl, hfront, hgap, hname, -⟩ := h
  have hwritten := hname.length_eq
  have hfront : front.length ≤ escape.length + 4 := by
    rcases hfront with rfl | h | h
    · exact Nat.zero_le _
    all_goals
      have := h.length_eq
      simp only [List.length_append, List.length_cons, List.length_nil] at this
      omega
  have hgap := hgap.length_le
  simp only [List.length_append]
  omega

/-- Two rests of one text that are of the same length are the same. -/
theorem eq_of_suffix_of_length {s a b : Text} (ha : a <:+ s) (hb : b <:+ s)
    (h : a.length = b.length) : a = b :=
  (List.suffix_of_suffix_length_le ha hb (Nat.le_of_eq h)).eq_of_length h

/-! ## The places of a name -/

theorem length_of_afterFolded? {lead s rest : Text} (h : afterFolded? lead s = some rest) :
    s.length = lead.length + rest.length := by
  obtain ⟨a, hsame, rfl⟩ := afterFolded?_eq_some_iff.1 h
  rw [List.length_append, hsame.length_eq]

namespace Pattern

variable {p : Pattern} {escape name s t rest : Text}

/-- The end of a name as the reader tells it. -/
def EndsWord (written rest : Text) : Prop :=
  wordBoundary written.getLast? rest.head? = true

theorem afterName?_eq_some_iff : p.afterName? t = some rest ↔
    ∃ written, t = written ++ rest ∧ SameButCase written p.name ∧ EndsWord written rest := by
  have htake : ∀ {written : Text}, SameButCase written p.name →
      (written ++ rest).take p.name.length = written := by
    intro written hsame
    rw [← hsame.length_eq, List.take_left]
  rw [afterName?]
  constructor
  · intro h
    cases hread : afterFolded? p.name t with
    | none =>
      rw [hread] at h
      cases h
    | some r =>
      rw [hread] at h
      obtain ⟨hend, hrest⟩ := Option.ite_none_right_eq_some.1 h
      obtain rfl := Option.some.inj hrest
      obtain ⟨written, hsame, rfl⟩ := afterFolded?_eq_some_iff.1 hread
      rw [htake hsame] at hend
      exact ⟨written, rfl, hsame, hend⟩
  · rintro ⟨written, rfl, hsame, hend⟩
    rw [afterFolded?_eq_some_iff.2 ⟨written, hsame, rfl⟩]
    simp only [htake hsame]
    exact if_pos hend

/-- What the name may begin with, given what stands behind the command. -/
theorem mem_behind_blank_iff {u : Text} : (t ∈ match u with
      | [] => [[]]
      | c :: r => if isBlank c then [r, c :: r] else [c :: r]) ↔
    ∃ gap, IsOptionalBlank gap ∧ u = gap ++ t := by
  have hgap : (∃ gap, IsOptionalBlank gap ∧ u = gap ++ t) ↔
      u = t ∨ ∃ c, isBlank c = true ∧ u = c :: t := by
    constructor
    · rintro ⟨gap, rfl | ⟨c, hc, rfl⟩, hu⟩
      · exact .inl hu
      · exact .inr ⟨c, hc, hu⟩
    · rintro (hu | ⟨c, hc, hu⟩)
      · exact ⟨[], .inl rfl, hu⟩
      · exact ⟨[c], .inr ⟨c, hc, rfl⟩, hu⟩
  rw [hgap]
  cases u with
  | nil =>
    change t ∈ [[]] ↔ _
    rw [List.mem_singleton]
    constructor
    · exact fun ht => .inl ht.symm
    · rintro (rfl | ⟨c, -, hnil⟩)
      · rfl
      · cases hnil
  | cons c r =>
    change t ∈ (if isBlank c then [r, c :: r] else [c :: r]) ↔ _
    by_cases hc : isBlank c = true
    · rw [if_pos hc, List.mem_pair]
      constructor
      · rintro (rfl | rfl)
        · exact .inr ⟨c, hc, rfl⟩
        · exact .inl rfl
      · rintro (rfl | ⟨d, -, hcons⟩)
        · exact .inr rfl
        · exact .inl (List.cons.inj hcons).2.symm
    · rw [if_neg hc, List.mem_singleton]
      constructor
      · exact fun ht => .inl ht.symm
      · rintro (rfl | ⟨d, hd, hcons⟩)
        · rfl
        · exact absurd ((List.cons.inj hcons).1 ▸ hd) hc

/-- What the places are: a command or nothing stands before them, and one blank or none. -/
theorem mem_places_iff : t ∈ p.places s ↔ ∃ front gap, s = front ++ gap ++ t
    ∧ (front = [] ∨ ∃ command ∈ p.commands, SameButCase front command)
    ∧ IsOptionalBlank gap := by
  have hfront : ∀ u : Text, u ∈ (p.commands.filterMap fun command => afterFolded? command s) ++ [s]
      ↔ ∃ front, s = front ++ u
        ∧ (front = [] ∨ ∃ command ∈ p.commands, SameButCase front command) := by
    intro u
    rw [List.mem_append, List.mem_singleton, List.mem_filterMap]
    constructor
    · rintro (⟨command, hmem, hread⟩ | rfl)
      · obtain ⟨front, hsame, rfl⟩ := afterFolded?_eq_some_iff.1 hread
        exact ⟨front, rfl, .inr ⟨command, hmem, hsame⟩⟩
      · exact ⟨[], rfl, .inl rfl⟩
    · rintro ⟨front, rfl, rfl | ⟨command, hmem, hsame⟩⟩
      · exact .inr rfl
      · exact .inl ⟨command, hmem, afterFolded?_eq_some_iff.2 ⟨front, hsame, rfl⟩⟩
  rw [places, List.mem_flatMap]
  constructor
  · rintro ⟨u, hu, ht⟩
    obtain ⟨front, rfl, hcommand⟩ := (hfront u).1 hu
    obtain ⟨gap, hgap, rfl⟩ := mem_behind_blank_iff.1 ht
    exact ⟨front, gap, (List.append_assoc ..).symm, hcommand, hgap⟩
  · rintro ⟨front, gap, rfl, hcommand, hgap⟩
    exact ⟨gap ++ t, (hfront _).2 ⟨front, List.append_assoc .., hcommand⟩,
      mem_behind_blank_iff.2 ⟨gap, hgap, rfl⟩⟩

/-- **The places ascend**, if the longer commands come first and none is empty. -/
theorem places_pairwise (hcommands : p.commands.Pairwise fun a b => b.length < a.length)
    (hne : ∀ command ∈ p.commands, command ≠ []) (s : Text) :
    (p.places s).Pairwise fun t u => t.length ≤ u.length := by
  have hbehind : ((p.commands.filterMap fun command => afterFolded? command s) ++ [s]).Pairwise
      fun u v => u.length < v.length := by
    rw [List.pairwise_append]
    refine ⟨?_, List.pairwise_singleton _ _, ?_⟩
    · rw [List.pairwise_filterMap]
      refine hcommands.imp fun {a b} hlt u hu v hv => ?_
      have := length_of_afterFolded? hu
      have := length_of_afterFolded? hv
      omega
    · intro u hu v hv
      obtain rfl := List.mem_singleton.1 hv
      obtain ⟨command, hmem, hread⟩ := List.mem_filterMap.1 hu
      have := length_of_afterFolded? hread
      have := List.length_pos_iff.2 (hne command hmem)
      omega
  rw [places, List.pairwise_flatMap]
  refine ⟨fun u _ => ?_, hbehind.imp fun {u v} hlt t ht w hw => ?_⟩
  · cases u with
    | nil => exact List.pairwise_singleton _ _
    | cons c r =>
      by_cases hc : isBlank c = true
      · simp [hc]
      · simp [hc]
  · -- One blank is passed over at most, and the next place is farther to the front by more.
    obtain ⟨gap, -, rfl⟩ := mem_behind_blank_iff.1 ht
    obtain ⟨gap', hgap', rfl⟩ := mem_behind_blank_iff.1 hw
    have hone := hgap'.length_le
    simp only [List.length_append] at hlt
    omega

/-! ## The first place is the one with the shortest rest -/

theorem eq_of_ofName? (hp : ofName? escape name = some p) :
    p = ⟨[escape ++ ['r', 'o', 'l', 'l'], escape ++ ['r']], name⟩ :=
  (Option.some.inj (Option.ite_none_right_eq_some.1 hp).2).symm

theorem places_pairwise_of_ofName? (hp : ofName? escape name = some p) (s : Text) :
    (p.places s).Pairwise fun t u => t.length ≤ u.length := by
  obtain rfl := eq_of_ofName? hp
  exact places_pairwise (by simp) (by simp) s

theorem invokes_iff_exists_place (hp : ofName? escape name = some p) :
    Invokes EndsWord escape name s rest ↔ ∃ t ∈ p.places s, p.afterName? t = some rest := by
  obtain rfl := eq_of_ofName? hp
  constructor
  · rintro ⟨front, gap, written, rfl, hfront, hgap, hname, hend⟩
    refine ⟨written ++ rest, mem_places_iff.2 ⟨front, gap, List.append_assoc .., ?_, hgap⟩,
      afterName?_eq_some_iff.2 ⟨written, rfl, hname, hend⟩⟩
    exact hfront.imp_right fun h => h.elim
      (fun h => ⟨_, List.mem_cons_of_mem _ (List.mem_singleton_self _), h⟩)
      (fun h => ⟨_, List.mem_cons_self, h⟩)
  · rintro ⟨t, ht, hread⟩
    obtain ⟨front, gap, rfl, hfront, hgap⟩ := mem_places_iff.1 ht
    obtain ⟨written, rfl, hname, hend⟩ := afterName?_eq_some_iff.1 hread
    refine ⟨front, gap, written, (List.append_assoc ..).symm, hfront.imp_right ?_, hgap, hname,
      hend⟩
    rintro ⟨command, hmem, hsame⟩
    rcases List.mem_pair.1 hmem with rfl | rfl
    · exact .inr hsame
    · exact .inl hsame

theorem after?_eq_none_iff (hp : ofName? escape name = some p) :
    p.after? s = none ↔ ∀ rest, ¬Invokes EndsWord escape name s rest := by
  rw [after?, List.findSome?_eq_none_iff]
  constructor
  · intro hnone rest hinvokes
    obtain ⟨t, ht, hread⟩ := (invokes_iff_exists_place hp).1 hinvokes
    rw [hnone t ht] at hread
    cases hread
  · intro hnone t ht
    cases hread : p.afterName? t with
    | none => rfl
    | some rest => exact absurd ((invokes_iff_exists_place hp).2 ⟨t, ht, hread⟩) (hnone rest)

/-- **What follows an invocation** is the shortest of the rests that its readings leave. -/
theorem after?_eq_some_iff (hp : ofName? escape name = some p) :
    p.after? s = some rest ↔ Invokes EndsWord escape name s rest
      ∧ ∀ r, Invokes EndsWord escape name s r → rest.length ≤ r.length := by
  have hshortest : ∀ rest, p.after? s = some rest → Invokes EndsWord escape name s rest
      ∧ ∀ r, Invokes EndsWord escape name s r → rest.length ≤ r.length := by
    intro rest h
    obtain ⟨before, t, behind, hplaces, hread, hnone⟩ := List.findSome?_eq_some_iff.1 h
    have hmem : t ∈ p.places s := hplaces ▸ List.mem_append_right _ List.mem_cons_self
    refine ⟨(invokes_iff_exists_place hp).2 ⟨t, hmem, hread⟩, fun r hr => ?_⟩
    obtain ⟨u, hu, hread'⟩ := (invokes_iff_exists_place hp).1 hr
    have hle : t.length ≤ u.length := by
      have hascend := places_pairwise_of_ofName? hp s
      rw [hplaces] at hu hascend
      rcases List.mem_append.1 hu with hu | hu
      · rw [hnone u hu] at hread'
        cases hread'
      · rcases List.mem_cons.1 hu with rfl | hu
        · exact Nat.le_refl _
        · exact List.rel_of_pairwise_cons (List.pairwise_append.1 hascend).2.1 hu
    obtain ⟨written, rfl, hname, -⟩ := afterName?_eq_some_iff.1 hread
    obtain ⟨written', rfl, hname', -⟩ := afterName?_eq_some_iff.1 hread'
    have := hname.length_eq
    have := hname'.length_eq
    simp only [List.length_append] at hle
    omega
  refine ⟨hshortest rest, fun ⟨hinvokes, hleast⟩ => ?_⟩
  cases h : p.after? s with
  | none => exact absurd hinvokes ((after?_eq_none_iff hp).1 h rest)
  | some r =>
    obtain ⟨hr, hleast'⟩ := hshortest r h
    have hlength := Nat.le_antisymm (hleast' rest hinvokes) (hleast r hr)
    rw [eq_of_suffix_of_length hr.suffix hinvokes.suffix hlength]

end Pattern

end DiceRoll
