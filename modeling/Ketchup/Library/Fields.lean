/-
**Values with named fields, and what a conversion does to them.**

`Value` is a CBOR value as a decoder gives it. A conversion renames a field, the first with its name
(`renameField`), changes what it holds (`overField`), or does so for all entries of a map (`overEntries`).

* `renameField_back`, `overEntries_back` — a conversion undone.
* `renameField_comm` — conversions of different fields do not disturb each other.
* `Value.induct` — induction over a value and all values in it.
-/

import Mathlib.Data.List.Basic

namespace Ketchup.Fields

inductive Value where
  | integer (number : Int)
  | bytes (data : List UInt8)
  | float (bits : UInt64)
  | text (content : String)
  | bool (flag : Bool)
  | null
  | tag (number : Nat) (item : Value)
  | array (items : List Value)
  | map (entries : List (Value × Value))

abbrev FieldEntry := Value × Value

def Value.asInteger : Value → Option Int
  | .integer number => some number
  | _ => none

def Value.asText : Value → Option String
  | .text content => some content
  | _ => none

def Value.IsMap (value : Value) : Prop := ∃ entries, value = .map entries

/-- An entry under a name. -/
def named (name : String) (entry : FieldEntry) : Bool := entry.1.asText = some name

/-- The first entry under a name, changed. -/
def atEntry (name : String) (change : FieldEntry → FieldEntry) : List FieldEntry → List FieldEntry
  | [] => []
  | entry :: entries => if named name entry then change entry :: entries else entry :: atEntry name change entries

/-- What a map holds under a name. -/
def field (name : String) : Value → Option Value
  | .map entries => (entries.find? (named name)).map Prod.snd
  | _ => none

/-- The field of one name under another, with what it holds changed. -/
def renameField (before after : String) (change : Value → Value) : Value → Value
  | .map entries => .map (atEntry before (fun entry => (.text after, change entry.2)) entries)
  | other => other

/-- A field with what it holds changed: it keeps its name. -/
def overField (name : String) (change : Value → Value) : Value → Value := renameField name name change

/-- All entries of a map, with what they hold changed. -/
def overEntries (change : Value → Value → Value) : Value → Value
  | .map entries => .map (entries.map fun entry => (entry.1, change entry.1 entry.2))
  | other => other

/-! ### Induction -/

section Induction

variable {motive : Value → Prop} (integer : ∀ number, motive (.integer number)) (bytes : ∀ data, motive (.bytes data))
  (float : ∀ bits, motive (.float bits)) (text : ∀ content, motive (.text content)) (bool : ∀ flag, motive (.bool flag))
  (null : motive .null) (tag : ∀ number item, motive item → motive (.tag number item))
  (array : ∀ items, (∀ item ∈ items, motive item) → motive (.array items))
  (map : ∀ entries, (∀ entry ∈ entries, motive entry.1 ∧ motive entry.2) → motive (.map entries))

include integer bytes float text bool null tag array map

/-- Induction over a value and all values in it. -/
theorem Value.induct (value : Value) : motive value := by
  refine @Value.rec motive (fun items => ∀ item ∈ items, motive item)
    (fun entries => ∀ entry ∈ entries, motive entry.1 ∧ motive entry.2) (fun entry => motive entry.1 ∧ motive entry.2)
    integer bytes float text bool null tag array map ?_ ?_ ?_ ?_ ?_ value
  · exact fun item inside => absurd inside List.not_mem_nil
  · intro item items holds all other inside
    rcases List.mem_cons.mp inside with rfl | inside
    · exact holds
    · exact all other inside
  · exact fun entry inside => absurd inside List.not_mem_nil
  · intro entry entries holds all other inside
    rcases List.mem_cons.mp inside with rfl | inside
    · exact holds
    · exact all other inside
  · exact fun key item holdsKey holds => ⟨holdsKey, holds⟩

end Induction

/-! ### Entries -/

variable {name other before after : String} {change : FieldEntry → FieldEntry} {entries : List FieldEntry}

theorem named_iff {entry : FieldEntry} : named name entry = true ↔ entry.1 = .text name := by
  obtain ⟨key, item⟩ := entry
  cases key <;> simp [named, Value.asText]

theorem named_text (item : Value) : named name (.text other, item) = decide (other = name) := by
  simp [named, Value.asText]

theorem named_ne {entry : FieldEntry} (here : named name entry = true) (apart : name ≠ other) : named other entry = false := by
  rw [Bool.eq_false_iff]
  intro also
  rw [named_iff] at here also
  exact apart (Value.text.inj (here.symm.trans also))

theorem atEntry_of_lacks (lacks : entries.find? (named name) = none) : atEntry name change entries = entries := by
  induction entries with
  | nil => rfl
  | cons entry entries ih =>
    rw [List.find?_cons] at lacks
    split at lacks
    · cases lacks
    · next absent =>
      rw [atEntry, absent, if_neg Bool.false_ne_true, ih lacks]

/-- An entry renamed is found under its new name, where there was none before. -/
theorem atEntry_atEntry {back : FieldEntry → FieldEntry} (lands : ∀ entry, named before entry = true → named after (change entry) = true)
    (fresh : before = after ∨ entries.find? (named after) = none) :
    atEntry after back (atEntry before change entries) = atEntry before (back ∘ change) entries := by
  induction entries with
  | nil => rfl
  | cons entry entries ih =>
    by_cases here : named before entry = true
    · simp only [atEntry, if_pos here, if_pos (lands entry here), Function.comp_apply]
    · have away : named after entry = false ∧ (before = after ∨ entries.find? (named after) = none) := by
        rcases fresh with rfl | fresh
        · exact ⟨Bool.eq_false_iff.mpr here, Or.inl rfl⟩
        · rw [List.find?_cons] at fresh
          split at fresh
          · cases fresh
          · next absent => exact ⟨absent, Or.inr fresh⟩
      simp only [atEntry, if_neg here, away.1, Bool.false_eq_true, if_false, ih away.2]

theorem atEntry_congr {change' : FieldEntry → FieldEntry}
    (same : ∀ entry, entries.find? (named name) = some entry → change entry = change' entry) :
    atEntry name change entries = atEntry name change' entries := by
  induction entries with
  | nil => rfl
  | cons entry entries ih =>
    by_cases here : named name entry = true
    · simp only [atEntry, if_pos here, same entry (by rw [List.find?_cons, here])]
    · simp only [atEntry, if_neg here]
      rw [ih fun other found => same other (by rw [List.find?_cons, Bool.eq_false_iff.mpr here, found])]

theorem atEntry_id (same : ∀ entry, entries.find? (named name) = some entry → change entry = entry) :
    atEntry name change entries = entries := by
  rw [@atEntry_congr name change entries id same]
  induction entries with
  | nil => rfl
  | cons entry entries ih =>
    unfold atEntry
    split
    · rfl
    · rw [ih fun other found => ?_]
      rename_i absent
      exact same other (by rw [List.find?_cons, Bool.eq_false_iff.mpr absent, found])

/-- Entries of different names are changed one after the other, in either order. -/
theorem atEntry_comm {two twoAfter : String} {change' : FieldEntry → FieldEntry} (apart : before ≠ two) (apartAfter : after ≠ two)
    (apartTwo : twoAfter ≠ before) (lands : ∀ entry, named before entry = true → (change entry).1 = .text after)
    (landsTwo : ∀ entry, named two entry = true → (change' entry).1 = .text twoAfter) :
    atEntry before change (atEntry two change' entries) = atEntry two change' (atEntry before change entries) := by
  induction entries with
  | nil => rfl
  | cons entry entries ih =>
    by_cases here : named before entry = true
    · have away : named two entry = false := named_ne here apart
      have awayAfter : named two (change entry) = false := by
        rw [Bool.eq_false_iff, ne_eq, named_iff, lands entry here, Value.text.injEq]
        exact apartAfter
      simp only [atEntry, if_pos here, away, awayAfter, Bool.false_eq_true, if_false]
    · by_cases there : named two entry = true
      · have awayTwo : named before (change' entry) = false := by
          rw [Bool.eq_false_iff, ne_eq, named_iff, landsTwo entry there, Value.text.injEq]
          exact apartTwo
        simp only [atEntry, if_neg here, if_pos there, awayTwo, Bool.false_eq_true, if_false]
      · simp only [atEntry, if_neg here, if_neg there, ih]

theorem find?_atEntry_ne (apart : before ≠ name) (apartAfter : after ≠ name)
    (lands : ∀ entry, named before entry = true → (change entry).1 = .text after) :
    (atEntry before change entries).find? (named name) = entries.find? (named name) := by
  induction entries with
  | nil => rfl
  | cons entry entries ih =>
    by_cases here : named before entry = true
    · have away : named name entry = false := named_ne here apart
      have awayAfter : named name (change entry) = false := by
        rw [Bool.eq_false_iff, ne_eq, named_iff, lands entry here, Value.text.injEq]
        exact apartAfter
      rw [atEntry, if_pos here, List.find?_cons, List.find?_cons, away, awayAfter]
    · rw [atEntry, if_neg here, List.find?_cons, List.find?_cons, ih]

/-! ### Fields -/

section Fields

variable {change back : Value → Value} {value : Value}

theorem field_map : field name (.map entries) = (entries.find? (named name)).map Prod.snd := rfl

theorem field_eq_some {item : Value} (there : field name value = some item) :
    ∃ entries, value = .map entries ∧ entries.find? (named name) = some (.text name, item) := by
  cases value <;> simp only [field, reduceCtorEq] at there
  case map entries =>
    rw [Option.map_eq_some_iff] at there
    obtain ⟨⟨key, _⟩, found, rfl⟩ := there
    refine ⟨entries, rfl, ?_⟩
    have is := named_iff.mp (List.find?_some found)
    simp only at is
    rw [found, is]

theorem field_map_eq_none : field name (.map entries) = none ↔ entries.find? (named name) = none :=
  Option.map_eq_none_iff

theorem field_map_of_find {key item : Value} (found : entries.find? (named name) = some (key, item)) :
    field name (.map entries) = some item := by
  rw [field, found, Option.map_some]

theorem renameField_of_lacks (lacks : field before value = none) : renameField before after change value = value := by
  cases value <;> try rfl
  case map entries =>
    rw [renameField, atEntry_of_lacks (field_map_eq_none.mp lacks)]

/-- **A field renamed and back**, where none had the new name. -/
theorem renameField_back (fresh : before = after ∨ field after value = none)
    (undone : ∀ item, field before value = some item → back (change item) = item) :
    renameField after before back (renameField before after change value) = value := by
  cases value <;> try rfl
  case map entries =>
    rw [renameField, renameField,
      atEntry_atEntry (fun _ _ => named_iff.mpr rfl) (fresh.imp_right field_map_eq_none.mp), atEntry_id]
    rintro ⟨key, item⟩ found
    have is := named_iff.mp (List.find?_some found)
    simp only at is
    subst is
    simp only [Function.comp_apply, undone item (field_map_of_find found)]

theorem over_over : overField name back (overField name change value) = overField name (back ∘ change) value := by
  cases value <;> try rfl
  case map entries =>
    simp only [overField, renameField]
    rw [atEntry_atEntry (fun _ _ => named_iff.mpr rfl) (Or.inl rfl)]
    rfl

theorem over_congr (same : ∀ item, field name value = some item → change item = back item) :
    overField name change value = overField name back value := by
  cases value <;> try rfl
  case map entries =>
    simp only [overField, renameField]
    rw [atEntry_congr]
    rintro ⟨key, item⟩ found
    rw [same item (field_map_of_find found)]

theorem over_id (same : ∀ item, field name value = some item → change item = item) : overField name change value = value := by
  cases value <;> try rfl
  case map entries =>
    simp only [overField, renameField]
    rw [atEntry_id]
    rintro ⟨key, item⟩ found
    have is := named_iff.mp (List.find?_some found)
    simp only at is
    rw [same item (field_map_of_find found), is]

/-- **Conversions of different fields do not disturb each other.** -/
theorem renameField_comm {two twoAfter : String} (apart : before ≠ two) (apartAfter : after ≠ two) (apartTwo : twoAfter ≠ before) :
    renameField before after change (renameField two twoAfter back value) =
      renameField two twoAfter back (renameField before after change value) := by
  cases value <;> try rfl
  case map entries =>
    simp only [renameField]
    rw [atEntry_comm apart apartAfter apartTwo (fun _ _ => rfl) (fun _ _ => rfl)]

theorem over_comm (apart : name ≠ other) :
    overField name change (overField other back value) = overField other back (overField name change value) :=
  renameField_comm apart apart apart.symm

theorem field_renameField_ne (apart : before ≠ name) (apartAfter : after ≠ name) :
    field name (renameField before after change value) = field name value := by
  cases value <;> try rfl
  case map entries =>
    simp only [renameField, field]
    rw [find?_atEntry_ne apart apartAfter fun _ _ => rfl]

theorem field_over_self : field name (overField name change value) = (field name value).map change := by
  cases value <;> try rfl
  case map entries =>
    simp only [overField, renameField, field]
    induction entries with
    | nil => rfl
    | cons entry entries ih =>
      by_cases here : named name entry = true
      · simp [atEntry, here, named_text]
      · rw [atEntry, if_neg here, List.find?_cons, List.find?_cons, Bool.eq_false_iff.mpr here]
        exact ih

theorem field_over_ne (apart : other ≠ name) : field name (overField other change value) = field name value :=
  field_renameField_ne apart apart

end Fields

/-! ### All entries -/

section All

variable {change back : Value → Value → Value} {value : Value}

/-- **The entries of a map changed and back.** -/
theorem overEntries_back
    (undone : ∀ entries, value = .map entries → ∀ entry ∈ entries, back entry.1 (change entry.1 entry.2) = entry.2) :
    overEntries back (overEntries change value) = value := by
  cases value <;> try rfl
  case map entries =>
    simp only [overEntries, List.map_map, Value.map.injEq]
    conv_rhs => rw [← List.map_id entries]
    refine List.map_congr_left fun entry inside => ?_
    simp only [Function.comp_apply, id_eq, undone entries rfl entry inside]

theorem overEntries_overEntries :
    overEntries back (overEntries change value) = overEntries (fun key item => back key (change key item)) value := by
  cases value <;> try rfl
  case map entries =>
    simp only [overEntries, List.map_map]
    rfl

end All

end Ketchup.Fields
