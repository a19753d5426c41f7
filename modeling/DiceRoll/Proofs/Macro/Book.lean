/-
What a macro book is like, whatever was done with it.

A book keeps two things in order. No two of its macros have the same name but for
case, and the pattern beside each macro is the one that its name has under the escape
which the book knows (`WellFormed`). Everything that changes a book keeps both.

So a book is settled by its escape and its macros alone (`WellFormed.ext`), and once it
is told an escape it is the book that a listing of its macros, saved anew in the same
order, would give under that escape (`WellFormed.withEscape_ofList_pairs`).
-/

import DiceRoll.Macro.Book
import Mathlib.Data.List.Nodup

set_option autoImplicit false

namespace DiceRoll.MacroBook

/-- The names and texts of the macros of a book, as a listing shows them. -/
def pairs (b : MacroBook) : List (Text × Text) := b.macros.map fun m => (m.name, m.text)

/-- A book in order: every pattern is the one of its macro's own name under the escape
that the book knows, and no two macros have the same name. -/
structure WellFormed (b : MacroBook) : Prop where
  current : ∀ e ∈ b.entries, e.pattern = Pattern.ofName? b.escape e.name
  distinct : (b.macros.map Macro.key).Nodup

/-! ## What the changes do to the macros -/

/-- **Taking an entry out** gives the entry that is found by its key, and leaves all others,
if no two entries have the same key. -/
theorem takeOut_eq {entries : List Entry} (hdistinct : (entries.map fun e => e.key).Nodup)
    (key : Text) :
    Entry.takeOut key entries
      = (entries.find? (·.key == key), entries.filter (·.key != key)) := by
  induction entries with
  | nil => rfl
  | cons e entries ih =>
    rw [List.map_cons, List.nodup_cons] at hdistinct
    rw [Entry.takeOut, ih hdistinct.2]
    by_cases hkey : e.key = key
    -- Taking out stops here, and a filter would go on: no other entry has the key.
    · have hothers : entries.filter (·.key != key) = entries := by
        refine List.filter_eq_self.2 fun other hother => bne_iff_ne.2 fun heq => hdistinct.1 ?_
        exact List.mem_map.2 ⟨other, hother, heq.trans hkey.symm⟩
      simp [hkey, hothers]
    · simp [hkey]

section Distinct

variable {b : MacroBook} (hdistinct : (b.macros.map Macro.key).Nodup)
include hdistinct

theorem takeOut_entries (key : Text) :
    Entry.takeOut key b.entries
      = (b.entries.find? (·.key == key), b.entries.filter (·.key != key)) := by
  rw [macros, List.map_map] at hdistinct
  exact takeOut_eq hdistinct key

theorem entries_erase (name : Text) :
    (b.erase name).entries = b.entries.filter fun e => e.key != Text.lowercase name := by
  rw [erase, remove, takeOut_entries hdistinct]

theorem macros_erase (name : Text) :
    (b.erase name).macros = b.macros.filter fun m => m.key != Text.lowercase name := by
  rw [macros, entries_erase hdistinct, macros, List.filter_map]
  rfl

end Distinct

/-- A macro is saved behind what is left when the one of its name is gone. -/
theorem entries_insert (b : MacroBook) (name text : Text) :
    (b.insert name text).entries
      = (b.erase name).entries ++ [Entry.ofMacro b.escape ⟨name, text⟩] := rfl

@[simp] theorem macros_insert (b : MacroBook) (name text : Text) :
    (b.insert name text).macros = (b.erase name).macros ++ [⟨name, text⟩] := by
  rw [macros, entries_insert, List.map_append]
  rfl

@[simp] theorem escape_withEscape (b : MacroBook) (escape : Text) :
    (b.withEscape escape).escape = escape := by
  unfold withEscape
  split
  · assumption
  · rfl

/-- A macro under a new name is saved behind all others. -/
theorem macros_insert_of_new {b : MacroBook} (hdistinct : (b.macros.map Macro.key).Nodup)
    {name : Text} (hnew : Text.lowercase name ∉ b.macros.map Macro.key) (text : Text) :
    (b.insert name text).macros = b.macros ++ [⟨name, text⟩] := by
  have hkept : b.macros.filter (fun m => m.key != Text.lowercase name) = b.macros := by
    refine List.filter_eq_self.2 fun m hm => bne_iff_ne.2 fun hkey => hnew ?_
    rw [← hkey]
    exact List.mem_map_of_mem hm
  rw [macros_insert, macros_erase hdistinct, hkept]

/-! ## The invariant -/

namespace WellFormed

variable {b : MacroBook}

theorem empty : MacroBook.empty.WellFormed := ⟨List.forall_mem_nil _, List.nodup_nil⟩

theorem erase (hb : b.WellFormed) (name : Text) : (b.erase name).WellFormed where
  current e he := by
    rw [entries_erase hb.distinct] at he
    exact hb.current e (List.mem_of_mem_filter he)
  distinct := by
    rw [macros_erase hb.distinct]
    exact hb.distinct.sublist (List.filter_sublist.map Macro.key)

theorem insert (hb : b.WellFormed) (name text : Text) : (b.insert name text).WellFormed where
  current e he := by
    rw [entries_insert] at he
    rcases List.mem_append.1 he with he | he
    · exact (hb.erase name).current e he
    -- The new macro is saved under the escape that the book knows.
    · rw [List.mem_singleton.1 he]
      rfl
  distinct := by
    rw [macros_insert, List.map_append, List.map_singleton, List.nodup_append]
    refine ⟨(hb.erase name).distinct, List.nodup_singleton _, ?_⟩
    intro key hkey key' hkey' heq
    rw [macros_erase hb.distinct] at hkey
    obtain ⟨m, hm, rfl⟩ := List.mem_map.1 hkey
    rw [List.mem_singleton.1 hkey'] at heq
    have hother := List.of_mem_filter hm
    exact bne_iff_ne.1 hother heq

theorem withEscape (hb : b.WellFormed) (escape : Text) : (b.withEscape escape).WellFormed where
  current := by
    unfold MacroBook.withEscape
    split
    · exact hb.current
    · intro e he
      obtain ⟨old, -, rfl⟩ := List.mem_map.1 he
      rfl
  distinct := by
    rw [macros_withEscape]
    exact hb.distinct

theorem ofList (macros : List (Text × Text)) : (MacroBook.ofList macros).WellFormed :=
  List.foldlRecOn macros _ empty fun _ hb m _ => hb.insert m.1 m.2

/-! ## Books are settled by their macros -/

/-- The entries of a book can be put together from its macros. -/
theorem entries_eq (hb : b.WellFormed) : b.entries = b.macros.map (Entry.ofMacro b.escape) := by
  rw [macros, List.map_map]
  refine (List.map_id b.entries).symm.trans (List.map_congr_left fun e he => ?_)
  rw [Function.comp, Entry.ofMacro, ← hb.current e he]
  rfl

/-- **A book is settled by its escape and its macros.** -/
theorem ext {b' : MacroBook} (hb : b.WellFormed) (hb' : b'.WellFormed)
    (hescape : b.escape = b'.escape) (hmacros : b.macros = b'.macros) : b = b' := by
  have hentries : b.entries = b'.entries := by
    rw [hb.entries_eq, hb'.entries_eq, hescape, hmacros]
  cases b
  cases b'
  cases hescape
  cases hentries
  rfl

/-- Macros of different names that are saved one after the other stand in that order. -/
theorem macros_foldl_insert (macros : List Macro) (b : MacroBook)
    (hnew : ((b.macros ++ macros).map Macro.key).Nodup) :
    ((macros.map fun m => (m.name, m.text)).foldl (fun b m => b.insert m.1 m.2) b).macros
      = b.macros ++ macros := by
  induction macros generalizing b with
  | nil => exact (List.append_nil _).symm
  | cons m macros ih =>
    rw [List.append_cons] at hnew
    have hfront : ((b.macros ++ [m]).map Macro.key).Nodup := by
      rw [List.map_append] at hnew
      exact (List.nodup_append.1 hnew).1
    rw [List.map_append, List.nodup_append] at hfront
    obtain ⟨hdistinct, -, hdisjoint⟩ := hfront
    have hfresh : Text.lowercase m.name ∉ b.macros.map Macro.key := by
      intro hmem
      exact hdisjoint _ hmem m.key (by simp) rfl
    have hinsert := macros_insert_of_new hdistinct hfresh m.text
    rw [List.map_cons, List.foldl_cons, ih _ (by rw [hinsert]; exact hnew), hinsert,
      ← List.append_cons]

/-- A new book filled with the macros of a book has its macros in their order. -/
theorem macros_ofList_pairs (hb : b.WellFormed) : (MacroBook.ofList b.pairs).macros = b.macros :=
  macros_foldl_insert b.macros MacroBook.empty hb.distinct

/-- **A book that is told an escape does not remember its past.** A new book filled with
its macros is the same book, once it is told the escape. -/
theorem withEscape_ofList_pairs (hb : b.WellFormed) (escape : Text) :
    (MacroBook.ofList b.pairs).withEscape escape = b.withEscape escape := by
  refine ((ofList b.pairs).withEscape escape).ext (hb.withEscape escape) ?_ ?_
  · rw [escape_withEscape, escape_withEscape]
  · rw [macros_withEscape, macros_withEscape, hb.macros_ofList_pairs]

end WellFormed

end DiceRoll.MacroBook
