/-
**Parameter targets renamed and back.**

Renaming goes through all of a value, so that it meets what every other conversion changes.

* `renameParameterPaths_back` — two renamings that undo each other on the paths there are.
* `renameParameterPaths_renameField`, `renameParameterPaths_overEntries` — the conversions of fields
  and of all entries go through a renaming, where they leave targets alone.
-/

import Ketchup.Persistence.OldFormats

namespace Ketchup.Persistence.OldFormats

open Fields

variable {rename back : Nat → String → Option String} {value : Value} {entries : List FieldEntry}

/-- A value that is in another. -/
inductive Inside : Value → Value → Prop
  | refl (value : Value) : Inside value value
  | tag {value item : Value} {number : Nat} (inside : Inside value item) : Inside value (.tag number item)
  | array {value item : Value} {items : List Value} (there : item ∈ items) (inside : Inside value item) :
    Inside value (.array items)
  | key {value : Value} {entry : FieldEntry} {entries : List FieldEntry} (there : entry ∈ entries) (inside : Inside value entry.1) :
    Inside value (.map entries)
  | entry {value : Value} {entry : FieldEntry} {entries : List FieldEntry} (there : entry ∈ entries) (inside : Inside value entry.2) :
    Inside value (.map entries)

/-- All parameter targets in a value. -/
def AllTargets (holds : Nat → String → Prop) (value : Value) : Prop :=
  ∀ entries, Inside (.map entries) value → ∀ target, targetOf entries = some target → holds target.1 target.2

/-- What is renamed in an entry. -/
def renameInEntry (rename : Nat → String → Option String) (entry : FieldEntry) : FieldEntry :=
  (renameParameterPaths rename entry.1, renameParameterPaths rename entry.2)

theorem renameInItems_eq (items : List Value) : renameInItems rename items = items.map (renameParameterPaths rename) := by
  induction items with
  | nil => rfl
  | cons item items ih => rw [renameInItems, ih, List.map_cons]

theorem renameInEntries_eq (entries : List FieldEntry) : renameInEntries rename entries = entries.map (renameInEntry rename) := by
  induction entries with
  | nil => rfl
  | cons entry entries ih =>
    obtain ⟨key, item⟩ := entry
    rw [renameInEntries, ih, List.map_cons, renameInEntry]

theorem renameParameterPaths_map (entries : List FieldEntry) :
    renameParameterPaths rename (.map entries) = .map (retarget rename (entries.map (renameInEntry rename))) := by
  rw [renameParameterPaths, renameInEntries_eq]

theorem renameParameterPaths_array (items : List Value) :
    renameParameterPaths rename (.array items) = .array (items.map (renameParameterPaths rename)) := by
  rw [renameParameterPaths, renameInItems_eq]

@[simp] theorem asText_rename : (renameParameterPaths rename value).asText = value.asText := by
  cases value <;> simp [renameParameterPaths, Value.asText]

@[simp] theorem asInteger_rename : (renameParameterPaths rename value).asInteger = value.asInteger := by
  cases value <;> simp [renameParameterPaths, Value.asInteger]

@[simp] theorem asU64_rename : asU64 (renameParameterPaths rename value) = asU64 value := by
  rw [asU64, asU64, asInteger_rename]

theorem isMap_rename : (renameParameterPaths rename value).IsMap ↔ value.IsMap := by
  cases value <;> simp [renameParameterPaths, Value.IsMap]

@[simp] theorem named_rename (name : String) (entry : FieldEntry) : named name (renameInEntry rename entry) = named name entry := by
  simp [named, renameInEntry]

theorem find?_rename (name : String) :
    (entries.map (renameInEntry rename)).find? (named name) = (entries.find? (named name)).map (renameInEntry rename) := by
  induction entries with
  | nil => rfl
  | cons entry entries ih =>
    rw [List.map_cons, List.find?_cons, List.find?_cons, named_rename, ih]
    split <;> rfl

/-! ### Targets -/

/-- A change of entries that keeps keys, integers and texts. -/
structure Steady (change : FieldEntry → FieldEntry) : Prop where
  key : ∀ entry, (change entry).1.asText = entry.1.asText
  text : ∀ entry, (change entry).2.asText = entry.2.asText
  integer : ∀ entry, (change entry).2.asInteger = entry.2.asInteger

theorem steady_rename : Steady (renameInEntry rename) :=
  ⟨fun _ => asText_rename, fun _ => asText_rename, fun _ => asInteger_rename⟩

theorem Steady.named {change : FieldEntry → FieldEntry} (steady : Steady change) (name : String) (entry : FieldEntry) :
    named name (change entry) = named name entry := by
  unfold Fields.named
  rw [steady.key]

theorem Steady.find? {change : FieldEntry → FieldEntry} (steady : Steady change) (name : String) :
    (entries.map change).find? (Fields.named name) = (entries.find? (Fields.named name)).map change := by
  induction entries with
  | nil => rfl
  | cons entry entries ih =>
    rw [List.map_cons, List.find?_cons, List.find?_cons, steady.named, ih]
    split <;> rfl

theorem targetOf_map {change : FieldEntry → FieldEntry} (steady : Steady change) : targetOf (entries.map change) = targetOf entries := by
  unfold targetOf field asU64
  simp only [steady.find?, Option.map_map]
  cases entries.find? (named "feature_id") <;> cases entries.find? (named "path") <;>
    cases entries.find? (named "value_type") <;> simp [steady.text, steady.integer]

/-- The names a target is known by. -/
def targetNames : List String := ["feature_id", "path", "value_type"]

/-- A target is known by three names; the other entries are no part of it. -/
theorem targetOf_atEntry {before after : String} {change : Value → Value}
    (notBefore : before ∉ targetNames) (notAfter : after ∉ targetNames) :
    targetOf (atEntry before (fun entry => (.text after, change entry.2)) entries) = targetOf entries := by
  simp only [targetNames, List.mem_cons, List.not_mem_nil, or_false, not_or] at notBefore notAfter
  unfold targetOf
  rw [field_map, field_map, field_map, field_map, field_map, field_map]
  rw [find?_atEntry_ne notBefore.1 notAfter.1 fun _ _ => rfl, find?_atEntry_ne notBefore.2.1 notAfter.2.1 fun _ _ => rfl,
    find?_atEntry_ne notBefore.2.2 notAfter.2.2 fun _ _ => rfl]

/-- An entry with another text. -/
def withText (renamed : String) (entry : FieldEntry) : FieldEntry := (entry.1, .text renamed)

theorem find?_withText {name renamed : String} :
    (atEntry name (withText renamed) entries).find? (named name) =
      (entries.find? (named name)).map (withText renamed) := by
  induction entries with
  | nil => rfl
  | cons entry entries ih =>
    by_cases here : named name entry = true
    · have still : named name (withText renamed entry) = true := here
      rw [atEntry, if_pos here, List.find?_cons, List.find?_cons, here, still, Option.map_some]
    · rw [atEntry, if_neg here, List.find?_cons, List.find?_cons, Bool.eq_false_iff.mpr here, ih]

theorem find?_withText_ne {name other renamed : String} (apart : name ≠ other) :
    (atEntry name (withText renamed) entries).find? (named other) = entries.find? (named other) :=
  @find?_atEntry_ne other name name (withText renamed) entries apart apart fun _ here => named_iff.mp here

theorem targetOf_eq_some {target : Nat × String} : targetOf entries = some target ↔
    ∃ feature path kind, entries.find? (named "feature_id") = some feature ∧ entries.find? (named "path") = some path ∧
      entries.find? (named "value_type") = some kind ∧ asU64 feature.2 = some target.1 ∧ path.2.asText = some target.2 := by
  obtain ⟨id, text⟩ := target
  unfold targetOf
  simp only [field_map, Option.bind_eq_bind, Option.bind_eq_some_iff, Option.map_eq_some_iff, Option.some.injEq, Prod.mk.injEq]
  constructor
  · rintro ⟨_, ⟨feature, foundFeature, rfl⟩, _, ⟨path, foundPath, rfl⟩, _, ⟨kind, foundKind, rfl⟩, _, isId, _, isText, rfl, rfl⟩
    exact ⟨feature, path, kind, foundFeature, foundPath, foundKind, isId, isText⟩
  · rintro ⟨feature, path, kind, foundFeature, foundPath, foundKind, isId, isText⟩
    exact ⟨_, ⟨feature, foundFeature, rfl⟩, _, ⟨path, foundPath, rfl⟩, _, ⟨kind, foundKind, rfl⟩, _, isId, _, isText, rfl, rfl⟩

theorem targetOf_withText {renamed : String} {target : Nat × String} (is : targetOf entries = some target) :
    targetOf (atEntry "path" (withText renamed) entries) = some (target.1, renamed) := by
  obtain ⟨feature, path, kind, foundFeature, foundPath, foundKind, isId, isText⟩ := targetOf_eq_some.mp is
  refine targetOf_eq_some.mpr ⟨feature, withText renamed path, kind, ?_, ?_, ?_, isId, rfl⟩
  · rwa [find?_withText_ne (by decide)]
  · rw [find?_withText, foundPath, Option.map_some]
  · rwa [find?_withText_ne (by decide)]

/-! ### Renamed and back -/

theorem retarget_of_none (none_ : (targetOf entries).bind (fun target => rename target.1 target.2) = none) :
    retarget rename entries = entries := by
  rw [retarget, none_]

theorem retarget_of_some {target : Nat × String} {renamed : String} (is : targetOf entries = some target)
    (some_ : rename target.1 target.2 = some renamed) : retarget rename entries = atEntry "path" (withText renamed) entries := by
  rw [retarget, is, Option.bind_some, some_]
  rfl

theorem atEntry_path_id {target : Nat × String} (is : targetOf entries = some target) :
    atEntry "path" (withText target.2) entries = entries := by
  obtain ⟨-, path, -, -, foundPath, -, -, isText⟩ := targetOf_eq_some.mp is
  refine atEntry_id fun entry found => ?_
  obtain rfl : path = entry := Option.some.inj (foundPath.symm.trans found)
  obtain ⟨key, item⟩ := path
  cases item <;> simp [Value.asText] at isText
  rw [isText]
  rfl

/-- Where a path is renamed that is undone, and where not, nothing else is. -/
structure Undoes (rename back : Nat → String → Option String) (feature : Nat) (path : String) : Prop where
  renamed : ∀ renamed, rename feature path = some renamed → back feature renamed = some path
  kept : rename feature path = none → back feature path = none

theorem retarget_retarget (undone : ∀ target, targetOf entries = some target → Undoes rename back target.1 target.2) :
    retarget back (retarget rename entries) = entries := by
  cases is : targetOf entries with
  | none =>
    have same : retarget rename entries = entries := retarget_of_none (by rw [is]; rfl)
    rw [same]
    exact retarget_of_none (by rw [is]; rfl)
  | some target =>
    cases renamed : rename target.1 target.2 with
    | none =>
      have same : retarget rename entries = entries := retarget_of_none (by rw [is]; exact renamed)
      rw [same]
      exact retarget_of_none (by rw [is]; exact (undone target is).kept renamed)
    | some path =>
      rw [retarget_of_some is renamed, retarget_of_some (targetOf_withText is) ((undone target is).renamed path renamed),
        @atEntry_atEntry "path" "path" (withText path) entries (withText target.2) (fun _ here => here) (Or.inl rfl)]
      exact atEntry_path_id is

theorem AllTargets.item {holds : Nat → String → Prop} {items : List Value} (all : AllTargets holds (.array items))
    {item : Value} (there : item ∈ items) : AllTargets holds item :=
  fun entries inside => all entries (.array there inside)

theorem AllTargets.entry {holds : Nat → String → Prop} (all : AllTargets holds (.map entries)) {entry : FieldEntry}
    (there : entry ∈ entries) : AllTargets holds entry.1 ∧ AllTargets holds entry.2 :=
  ⟨fun entries inside => all entries (.key there inside), fun entries inside => all entries (.entry there inside)⟩

@[simp] theorem allTargets_atom {holds : Nat → String → Prop} (notMap : ∀ entries, value ≠ .map entries)
    (notArray : ∀ items, value ≠ .array items) (notTag : ∀ number item, value ≠ .tag number item) : AllTargets holds value := by
  intro entries inside
  cases inside with
  | refl => exact absurd rfl (notMap entries)
  | tag => exact absurd rfl (notTag _ _)
  | array => exact absurd rfl (notArray _)
  | key | entry => exact absurd rfl (notMap _)

@[simp] theorem allTargets_array_iff {holds : Nat → String → Prop} {items : List Value} :
    AllTargets holds (.array items) ↔ ∀ item ∈ items, AllTargets holds item := by
  refine ⟨fun all item there => all.item there, fun all entries inside => ?_⟩
  cases inside with
  | array there inside => exact all _ there entries inside

@[simp] theorem allTargets_map_iff {holds : Nat → String → Prop} : AllTargets holds (.map entries) ↔
    (∀ target, targetOf entries = some target → holds target.1 target.2) ∧
      ∀ entry ∈ entries, AllTargets holds entry.1 ∧ AllTargets holds entry.2 := by
  refine ⟨fun all => ⟨all entries (.refl _), fun entry there => all.entry there⟩, fun all others inside => ?_⟩
  cases inside with
  | refl => exact all.1
  | key there inside => exact (all.2 _ there).1 others inside
  | entry there inside => exact (all.2 _ there).2 others inside

/-- The path of a renamed target is a text, which renaming leaves alone. -/
theorem map_rename_retarget : (retarget back entries).map (renameInEntry rename) = retarget back (entries.map (renameInEntry rename)) := by
  have same := @targetOf_map entries _ (@steady_rename rename)
  cases path : (targetOf entries).bind fun target => back target.1 target.2 with
  | none => rw [retarget_of_none path, retarget_of_none (by rw [same, path])]
  | some renamed =>
    rw [retarget, retarget, same, path]
    clear same path
    induction entries with
    | nil => rfl
    | cons entry entries ih =>
      by_cases here : named "path" entry = true
      · simp only [List.map_cons, atEntry, named_rename, if_pos here]
        rfl
      · simp only [List.map_cons, atEntry, named_rename, if_neg here, ih]

/-- **Paths renamed and back in all of a value.** -/
theorem renameParameterPaths_back (undone : AllTargets (Undoes rename back) value) :
    renameParameterPaths back (renameParameterPaths rename value) = value := by
  induction value using Value.induct with
  | integer | bytes | float | text | bool | null => rfl
  | tag number item ih =>
    have := ih fun entries inside => undone entries (.tag inside)
    simp only [renameParameterPaths, this]
  | array items ih =>
    rw [renameParameterPaths_array, renameParameterPaths_array, List.map_map, Value.array.injEq]
    conv_rhs => rw [← List.map_id items]
    exact List.map_congr_left fun item there => ih item there (undone.item there)
  | map entries ih =>
    rw [renameParameterPaths_map, renameParameterPaths_map, map_rename_retarget, List.map_map, Value.map.injEq]
    have same : entries.map (renameInEntry back ∘ renameInEntry rename) = entries := by
      conv_rhs => rw [← List.map_id entries]
      refine List.map_congr_left fun entry there => ?_
      obtain ⟨key, item⟩ := undone.entry there
      exact Prod.ext ((ih entry there).1 key) ((ih entry there).2 item)
    rw [same]
    exact retarget_retarget fun target is => undone entries (.refl _) target is

theorem renameParameterPaths_none : renameParameterPaths (fun _ _ => none) value = value := by
  induction value using Value.induct with
  | integer | bytes | float | text | bool | null => rfl
  | tag number item ih => rw [renameParameterPaths, ih]
  | array items ih =>
    rw [renameParameterPaths_array, Value.array.injEq]
    conv_rhs => rw [← List.map_id items]
    exact List.map_congr_left ih
  | map entries ih =>
    rw [renameParameterPaths_map, retarget_of_none (by simp), Value.map.injEq]
    conv_rhs => rw [← List.map_id entries]
    exact List.map_congr_left fun entry there => Prod.ext (ih entry there).1 (ih entry there).2

/-! ### Through other conversions -/

section Through

variable {before after : String}

theorem retarget_atEntry {change : Value → Value} (notBefore : before ∉ targetNames) (notAfter : after ∉ targetNames) :
    retarget rename (atEntry before (fun entry => (.text after, change entry.2)) entries) =
      atEntry before (fun entry => (.text after, change entry.2)) (retarget rename entries) := by
  have same := @targetOf_atEntry entries before after change notBefore notAfter
  simp only [targetNames, List.mem_cons, List.not_mem_nil, or_false, not_or] at notBefore notAfter
  cases path : (targetOf entries).bind fun target => rename target.1 target.2 with
  | none => rw [retarget_of_none path, retarget_of_none (by rw [same, path])]
  | some renamed =>
    rw [retarget, retarget, same, path]
    exact (@atEntry_comm before after (fun entry => (.text after, change entry.2)) entries "path" "path" (withText renamed)
      notBefore.2.1 notAfter.2.1 (Ne.symm notBefore.2.1) (fun _ _ => rfl) fun _ here => named_iff.mp here).symm

theorem map_rename_atEntry {change change' : Value → Value}
    (same : ∀ entry, entries.find? (named before) = some entry →
      renameParameterPaths rename (change entry.2) = change' (renameParameterPaths rename entry.2)) :
    (atEntry before (fun entry => (.text after, change entry.2)) entries).map (renameInEntry rename) =
      atEntry before (fun entry => (.text after, change' entry.2)) (entries.map (renameInEntry rename)) := by
  induction entries with
  | nil => rfl
  | cons entry entries ih =>
    by_cases here : named before entry = true
    · simp only [List.map_cons, atEntry, named_rename, if_pos here]
      rw [renameInEntry, same entry (by rw [List.find?_cons, here])]
      rfl
    · simp only [List.map_cons, atEntry, named_rename, if_neg here]
      rw [ih fun other found => same other (by rw [List.find?_cons, Bool.eq_false_iff.mpr here, found])]

/-- **A conversion of a field goes through a renaming.** -/
theorem renameParameterPaths_renameField {change change' : Value → Value} (notBefore : before ∉ targetNames)
    (notAfter : after ∉ targetNames) (same : ∀ item, field before value = some item →
      renameParameterPaths rename (change item) = change' (renameParameterPaths rename item)) :
    renameParameterPaths rename (renameField before after change value) =
      renameField before after change' (renameParameterPaths rename value) := by
  cases value <;> try rfl
  case map entries =>
    rw [renameField, renameParameterPaths_map, renameParameterPaths_map, renameField, map_rename_atEntry,
      retarget_atEntry notBefore notAfter]
    exact fun entry found => same entry.2 (by rw [field_map, found, Option.map_some])

theorem mem_atEntry {name : String} {change : FieldEntry → FieldEntry} {entry : FieldEntry} (there : entry ∈ atEntry name change entries) :
    entry ∈ entries ∨ ∃ first, entries.find? (named name) = some first ∧ entry = change first := by
  induction entries with
  | nil => exact Or.inl there
  | cons first entries ih =>
    by_cases here : named name first = true
    · rw [atEntry, if_pos here, List.mem_cons] at there
      rcases there with rfl | there
      · exact Or.inr ⟨first, by rw [List.find?_cons, here], rfl⟩
      · exact Or.inl (List.mem_cons_of_mem _ there)
    · rw [atEntry, if_neg here, List.mem_cons] at there
      rcases there with rfl | there
      · exact Or.inl List.mem_cons_self
      · refine (ih there).imp (List.mem_cons_of_mem _) fun found => ?_
        rwa [List.find?_cons, Bool.eq_false_iff.mpr here]

/-- Targets are left where what a field holds is changed and has no others. -/
theorem AllTargets.overField {holds : Nat → String → Prop} {name : String} {change : Value → Value} (notTarget : name ∉ targetNames)
    (all : AllTargets holds value) (kept : ∀ item, field name value = some item → AllTargets holds (change item)) :
    AllTargets holds (overField name change value) := by
  cases value <;> try exact all
  case map entries =>
    intro others inside target is
    cases inside with
    | refl =>
      rw [targetOf_atEntry notTarget notTarget] at is
      exact all entries (.refl _) target is
    | key there inside =>
      rcases mem_atEntry there with there | ⟨first, -, rfl⟩
      · exact (all.entry there).1 others inside target is
      · exact allTargets_atom (by simp) (by simp) (by simp) others inside target is
    | entry there inside =>
      rcases mem_atEntry there with there | ⟨first, found, rfl⟩
      · exact (all.entry there).2 others inside target is
      · exact kept first.2 (by rw [field_map, found, Option.map_some]) others inside target is

theorem AllTargets.field {holds : Nat → String → Prop} {name : String} {item : Value} (all : AllTargets holds value)
    (there : field name value = some item) : AllTargets holds item := by
  obtain ⟨entries, rfl, found⟩ := field_eq_some there
  exact (all.entry (List.mem_of_find?_eq_some found)).2

/-- A change of what is under a key that leaves all but maps alone, and maps maps. -/
structure KeepsAtoms (change : Value → Value) : Prop where
  atom : ∀ value, ¬value.IsMap → change value = value
  map : ∀ value, value.IsMap → (change value).IsMap

theorem KeepsAtoms.renameField (change : Value → Value) : KeepsAtoms (renameField before after change) where
  atom value notMap := by
    cases value <;> try rfl
    case map entries => exact absurd ⟨entries, rfl⟩ notMap
  map value isMap := by
    obtain ⟨entries, rfl⟩ := isMap
    exact ⟨_, rfl⟩

theorem KeepsAtoms.comp {one two : Value → Value} (keepsOne : KeepsAtoms one) (keepsTwo : KeepsAtoms two) :
    KeepsAtoms fun value => two (one value) where
  atom value notMap := by rw [keepsOne.atom value notMap, keepsTwo.atom value notMap]
  map value isMap := keepsTwo.map _ (keepsOne.map value isMap)

theorem KeepsAtoms.steady {change : Value → Value → Value} (keeps : ∀ key, KeepsAtoms (change key)) :
    Steady fun entry => (entry.1, change entry.1 entry.2) := by
  refine ⟨fun _ => rfl, fun entry => ?_, fun entry => ?_⟩ <;> by_cases isMap : entry.2.IsMap
  · obtain ⟨entries, is⟩ := (keeps entry.1).map _ isMap
    obtain ⟨others, isOther⟩ := isMap
    rw [is, isOther]
    rfl
  · simp only [(keeps entry.1).atom _ isMap]
  · obtain ⟨entries, is⟩ := (keeps entry.1).map _ isMap
    obtain ⟨others, isOther⟩ := isMap
    rw [is, isOther]
    rfl
  · simp only [(keeps entry.1).atom _ isMap]

theorem retarget_map {change : Value → Value → Value} (keeps : ∀ key, KeepsAtoms (change key)) :
    retarget rename (entries.map fun entry => (entry.1, change entry.1 entry.2)) =
      (retarget rename entries).map fun entry => (entry.1, change entry.1 entry.2) := by
  have same := @targetOf_map entries _ (KeepsAtoms.steady keeps)
  cases path : (targetOf entries).bind fun target => rename target.1 target.2 with
  | none => rw [retarget_of_none path, retarget_of_none (by rw [same, path])]
  | some renamed =>
    rw [retarget, retarget, same, path]
    have textStays : ∀ key, change key (.text renamed) = .text renamed :=
      fun key => (keeps key).atom _ (by rintro ⟨_, ⟨⟩⟩)
    clear same path
    induction entries with
    | nil => rfl
    | cons entry entries ih =>
      have names : named "path" (entry.1, change entry.1 entry.2) = named "path" entry := rfl
      by_cases here : named "path" entry = true
      · simp only [List.map_cons, atEntry, names, if_pos here, textStays]
      · simp only [List.map_cons, atEntry, names, if_neg here, List.cons.injEq, true_and]
        exact ih

/-- **A conversion of all entries goes through a renaming.** -/
theorem renameParameterPaths_overEntries {change change' : Value → Value → Value} (keeps : ∀ key, KeepsAtoms (change' key))
    (same : ∀ key item, renameParameterPaths rename (change key item) =
      change' (renameParameterPaths rename key) (renameParameterPaths rename item)) :
    renameParameterPaths rename (overEntries change value) = overEntries change' (renameParameterPaths rename value) := by
  cases value <;> try rfl
  case map entries =>
    rw [overEntries, renameParameterPaths_map, renameParameterPaths_map, overEntries, ← retarget_map keeps, List.map_map,
      List.map_map]
    refine congrArg (fun entries => Value.map (retarget rename entries)) (List.map_congr_left fun entry _ => ?_)
    exact Prod.ext rfl (same entry.1 entry.2)

end Through

end Ketchup.Persistence.OldFormats
