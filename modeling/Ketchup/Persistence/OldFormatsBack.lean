/-
**What the check of an old snapshot compares.**

Each conversion is undone by its way back (`renameFormat98Fields_back`, `occurrenceTags_back`,
`jointParticipants_back`), and a renaming of parameter paths goes through all of them. What is left is
the order of the maps keyed by parameter: `checkedForm_eq` says that the check sees the product as it
was stored, but with these maps in the order of the new names.
-/

import Ketchup.Library.Outcome
import Ketchup.Persistence.StoredSheetMetal

namespace Ketchup.Persistence.OldFormats

open Fields

/-! ### Each conversion undone -/

section Undone

variable {product : Value}

/-- Two fields changed, and changed back. -/
theorem over_two_back {one two : String} {change back : Value → Value} (apart : one ≠ two)
    (undone : ∀ name ∈ [one, two], ∀ item, field name product = some item → back (change item) = item) :
    overField two back (overField one back (overField two change (overField one change product))) = product := by
  have first : overField one (back ∘ change) product = product := over_id (undone one List.mem_cons_self)
  have second : overField two (back ∘ change) product = product :=
    over_id (undone two (List.mem_cons_of_mem _ List.mem_cons_self))
  rw [over_comm apart, over_over, over_over, first, second]

theorem tagOfTags_tagsOfTag (tag : Value) : tagOfTags (tagsOfTag tag) = tag := by
  cases tag <;> rfl

/-- No part has both a tag and tags. -/
def NoTags (product : Value) : Prop :=
  ∀ name ∈ ["occurrences", "local_occurrences"], ∀ entries, field name product = some (.map entries) →
    ∀ entry ∈ entries, field "tags" entry.2 = none

theorem occurrenceTags_back (fresh : NoTags product) :
    format101OccurrenceTags (format101OccurrenceTags product false) true = product := by
  refine over_two_back (by decide) fun name listed item there => ?_
  refine overEntries_back fun entries is entry inside => ?_
  subst is
  exact renameField_back (Or.inr (fresh name listed entries there entry inside)) fun tag _ => tagOfTags_tagsOfTag tag

theorem jointParticipants_back : format102JointParticipants (format102JointParticipants product false) true = product := by
  unfold format102JointParticipants
  rw [over_over]
  refine over_id fun item _ => overEntries_back fun entries _ entry _ => ?_
  exact over_two_back (by decide) fun _ _ participant _ => by simp [participantOfDerived, derivedOfParticipant, Value.asText]

/-- No name of format 99 stands where format 98 has its own. -/
structure NoPins (product : Value) : Prop where
  joints : field "pin_joints" product = none
  joint : ∀ entries, field "dowel_joints" product = some (.map entries) → ∀ entry ∈ entries, field "pin" entry.2 = none
  recipe : ∀ recipe joinery, field "assembly_recipe" product = some recipe → field "joinery" recipe = some (.map joinery) →
    ∀ entry ∈ joinery, field "pin_joint_id" entry.2 = none

theorem renameFormat98Fields_back (fresh : NoPins product) :
    renameFormat98Fields (renameFormat98Fields product id) Prod.swap = product := by
  have apart : renameField "pin_joints" "dowel_joints"
      (overEntries fun _ joint => renameField "pin" "dowel" id joint) (renameFormat98Fields product id) =
      overField "assembly_recipe" (overField "joinery" (overEntries fun _ item => renameField "dowel_joint_id" "pin_joint_id" id item))
        product := by
    refine (renameField_comm (by decide) (by decide) (by decide)).trans (congrArg _ ?_)
    refine renameField_back (Or.inr fresh.joints) fun joints there => overEntries_back fun entries is entry inside => ?_
    subst is
    exact renameField_back (Or.inr (fresh.joint entries there entry inside)) fun _ _ => rfl
  have whole : renameFormat98Fields (renameFormat98Fields product id) Prod.swap = overField "assembly_recipe"
      (overField "joinery" (overEntries fun _ item => renameField "pin_joint_id" "dowel_joint_id" id item))
      (renameField "pin_joints" "dowel_joints" (overEntries fun _ joint => renameField "pin" "dowel" id joint)
        (renameFormat98Fields product id)) := rfl
  rw [whole, apart, over_over]
  refine over_id fun recipe there => ?_
  refine over_over.trans (over_id fun joinery thereToo => overEntries_back fun entries is entry inside => ?_)
  subst is
  exact renameField_back (Or.inr (fresh.recipe recipe entries there thereToo entry inside)) fun _ _ => rfl

end Undone

/-! ### Through a renaming -/

section Through

variable {rename : Nat → String → Option String} {product : Value}

theorem rename_tagsOfTag (tag : Value) : renameParameterPaths rename (tagsOfTag tag) = tagsOfTag (renameParameterPaths rename tag) := by
  cases tag <;> simp [tagsOfTag, renameParameterPaths, renameInItems]

theorem rename_occurrenceTags : renameParameterPaths rename (format101OccurrenceTags product false) =
    format101OccurrenceTags (renameParameterPaths rename product) false := by
  have each : ∀ item, renameParameterPaths rename (overEntries (fun _ occurrence => renameField "tag" "tags" tagsOfTag occurrence) item) =
      overEntries (fun _ occurrence => renameField "tag" "tags" tagsOfTag occurrence) (renameParameterPaths rename item) :=
    fun item => renameParameterPaths_overEntries (fun _ => KeepsAtoms.renameField _) fun _ occurrence =>
      renameParameterPaths_renameField (by decide) (by decide) fun tag _ => rename_tagsOfTag tag
  refine (renameParameterPaths_renameField (by decide) (by decide) fun item _ => each item).trans (congrArg _ ?_)
  exact renameParameterPaths_renameField (by decide) (by decide) fun item _ => each item

theorem rename_jointParticipants : renameParameterPaths rename (format102JointParticipants product false) =
    format102JointParticipants (renameParameterPaths rename product) false := by
  refine renameParameterPaths_renameField (by decide) (by decide) fun item _ => ?_
  refine renameParameterPaths_overEntries (fun _ => (KeepsAtoms.renameField _).comp (KeepsAtoms.renameField _)) fun _ joint => ?_
  refine (renameParameterPaths_renameField (by decide) (by decide) fun old _ => rename_single _ old).trans (congrArg _ ?_)
  exact renameParameterPaths_renameField (by decide) (by decide) fun old _ => rename_single _ old

theorem rename_format98 : renameParameterPaths rename (renameFormat98Fields product id) =
    renameFormat98Fields (renameParameterPaths rename product) id := by
  have each : ∀ {before after : String}, before ∉ targetNames → after ∉ targetNames → ∀ item,
      renameParameterPaths rename (overEntries (fun _ entry => renameField before after id entry) item) =
        overEntries (fun _ entry => renameField before after id entry) (renameParameterPaths rename item) :=
    fun notBefore notAfter item => renameParameterPaths_overEntries (fun _ => KeepsAtoms.renameField _) fun _ entry =>
      renameParameterPaths_renameField notBefore notAfter fun _ _ => rfl
  refine (renameParameterPaths_renameField (by decide) (by decide) fun recipe _ => ?_).trans (congrArg _ ?_)
  · exact renameParameterPaths_renameField (by decide) (by decide) fun item _ => each (by decide) (by decide) item
  · exact renameParameterPaths_renameField (by decide) (by decide) fun item _ => each (by decide) (by decide) item

end Through

/-! ### The maps keyed by parameter -/

section Maps

variable {rename : Nat → String → Option String} {product : Value}

/-- The maps keyed by parameter, changed. -/
def overTargetMaps (change : Value → Value) (product : Value) : Value :=
  targetMaps.foldl (fun product name => overField name change product) product

theorem overTargetMaps_renameField {before after : String} {change other : Value → Value} (notBefore : before ∉ targetMaps)
    (notAfter : after ∉ targetMaps) :
    overTargetMaps other (renameField before after change product) = renameField before after change (overTargetMaps other product) := by
  simp only [targetMaps, List.mem_cons, List.not_mem_nil, or_false, not_or] at notBefore notAfter
  unfold overTargetMaps targetMaps overField
  simp only [List.foldl_cons, List.foldl_nil]
  rw [renameField_comm (Ne.symm notBefore.1) (Ne.symm notBefore.1) notAfter.1,
    renameField_comm (Ne.symm notBefore.2) (Ne.symm notBefore.2) notAfter.2]

theorem field_overTargetMaps {name : String} {change : Value → Value} (other : name ∉ targetMaps) :
    field name (overTargetMaps change product) = field name product := by
  simp only [targetMaps, List.mem_cons, List.not_mem_nil, or_false, not_or] at other
  unfold overTargetMaps targetMaps
  simp only [List.foldl_cons, List.foldl_nil]
  rw [field_over_ne (Ne.symm other.2), field_over_ne (Ne.symm other.1)]

theorem field_overTargetMaps_self {name : String} {change : Value → Value} (listed : name ∈ targetMaps) :
    field name (overTargetMaps change product) = (field name product).map change := by
  unfold overTargetMaps targetMaps at *
  simp only [List.foldl_cons, List.foldl_nil]
  simp only [List.mem_cons, List.not_mem_nil, or_false] at listed
  rcases listed with rfl | rfl
  · rw [field_over_ne (by decide), field_over_self]
  · rw [field_over_self, field_over_ne (by decide)]

theorem overTargetMaps_id_iff {change : Value → Value} : overTargetMaps change product = product ↔
    ∀ name ∈ targetMaps, ∀ item, field name product = some item → change item = item := by
  constructor
  · intro same name listed item there
    have changed := @field_overTargetMaps_self product name change listed
    rw [same, there, Option.map_some, Option.some.injEq] at changed
    exact changed.symm
  · intro same
    unfold overTargetMaps targetMaps at *
    simp only [List.foldl_cons, List.foldl_nil]
    rw [over_id (same _ List.mem_cons_self), over_id (same _ (List.mem_cons_of_mem _ List.mem_cons_self))]

/-- The maps keyed by parameter have keys with fields. -/
def KeyedByMaps (product : Value) : Prop :=
  ∀ name ∈ targetMaps, ∀ entries, field name product = some (.map entries) → ∀ entry ∈ entries, entry.1.IsMap

/-- The place of a key among the new names. -/
def presentKey (rename : Nat → String → Option String) (key : Value) : Nat ×ₗ String ×ₗ Nat :=
  targetKey (renameParameterPaths rename key)

/-- A map keyed by parameter in the order of the new names. -/
def sortedBy (rename : Nat → String → Option String) : Value → Value
  | .map entries => .map (entries.mergeSort fun one two => presentKey rename one.1 ≤ presentKey rename two.1)
  | other => other

theorem targetOf_of_keys {entries : List FieldEntry} (keyed : ∀ entry ∈ entries, entry.1.IsMap) : targetOf entries = none := by
  rw [Option.eq_none_iff_forall_ne_some]
  intro target is
  obtain ⟨feature, -, -, found, -⟩ := targetOf_eq_some.mp is
  obtain ⟨others, isMap⟩ := keyed feature (List.mem_of_find?_eq_some found)
  rw [named_iff.mp (List.find?_some found)] at isMap
  cases isMap

theorem rename_keyed {entries : List FieldEntry} (keyed : ∀ entry ∈ entries, entry.1.IsMap) :
    renameParameterPaths rename (.map entries) = .map (entries.map (renameInEntry rename)) := by
  rw [renameParameterPaths_map, retarget_of_none]
  rw [targetOf_map steady_rename, targetOf_of_keys keyed]
  rfl

/-- **The order of the new names, before the renaming and after.** -/
theorem sorted_rename {item : Value} (keyed : ∀ entries, item = .map entries → ∀ entry ∈ entries, entry.1.IsMap) :
    renameParameterPaths rename (sortedBy rename item) = sorted (renameParameterPaths rename item) := by
  cases item <;> try rfl
  case map entries =>
    have keyed := keyed entries rfl
    rw [rename_keyed keyed, sortedBy, sorted, rename_keyed fun entry inside => keyed entry (List.mem_mergeSort.mp inside),
      Value.map.injEq]
    exact List.map_mergeSort fun _ _ _ _ => rfl

theorem identityForm_rename (keyed : KeyedByMaps product) :
    identityForm (renameParameterPaths rename product) = renameParameterPaths rename (overTargetMaps (sortedBy rename) product) := by
  unfold overTargetMaps identityForm targetMaps
  simp only [List.foldl_cons, List.foldl_nil]
  refine ((renameParameterPaths_renameField (by decide) (by decide) fun item there => ?_).trans (congrArg _ ?_)).symm
  · rw [field_over_ne (by decide)] at there
    refine sorted_rename fun entries is entry inside => ?_
    subst is
    exact keyed _ (List.mem_cons_of_mem _ List.mem_cons_self) entries there entry inside
  · refine renameParameterPaths_renameField (by decide) (by decide) fun item there => ?_
    refine sorted_rename fun entries is entry inside => ?_
    subst is
    exact keyed _ List.mem_cons_self entries there entry inside

theorem identityForm_occurrenceTags :
    identityForm (format101OccurrenceTags product false) = format101OccurrenceTags (identityForm product) false :=
  (overTargetMaps_renameField (by decide) (by decide)).trans
    (congrArg _ (overTargetMaps_renameField (by decide) (by decide)))

theorem identityForm_jointParticipants :
    identityForm (format102JointParticipants product false) = format102JointParticipants (identityForm product) false :=
  overTargetMaps_renameField (by decide) (by decide)

theorem overTargetMaps_format98 {change : Value → Value} :
    overTargetMaps change (renameFormat98Fields product id) = renameFormat98Fields (overTargetMaps change product) id :=
  (overTargetMaps_renameField (by decide) (by decide)).trans
    (congrArg _ (overTargetMaps_renameField (by decide) (by decide)))

theorem overTargetMaps_overSheetMetal {change : Value → Value} {payloads : Nat → Value → Value} :
    overTargetMaps change (overSheetMetal payloads product) = overSheetMetal payloads (overTargetMaps change product) :=
  overTargetMaps_renameField (by decide) (by decide)

/-- The maps in the order of the new names are as they are, where they keep their order. -/
theorem sortedBy_id_iff {entries : List FieldEntry} : sortedBy rename (.map entries) = .map entries ↔
    entries.Pairwise fun one two => presentKey rename one.1 ≤ presentKey rename two.1 := by
  rw [sortedBy, Value.map.injEq]
  constructor
  · intro same
    rw [← same]
    refine (List.pairwise_mergeSort (fun one two three => ?_) (fun one two => ?_) entries).imp fun before => of_decide_eq_true before
    · simpa using le_trans
    · simpa using le_total _ _
  · exact fun ordered => List.mergeSort_of_pairwise (ordered.imp fun before => decide_eq_true before)

end Maps

end Ketchup.Persistence.OldFormats
