/-
**An old snapshot is checked against what was stored, but for the order of two maps.**

`checkedForm_eq`: what the check sees of a product as its writer stored it is that product with the
maps keyed by parameter in the order the keys have under their new names. So the check holds exactly
where the keys keep their order (`checkedForm_iff`); the conversions besides are all undone.

`roles_stay_apart`: role categories with different names keep different names.
-/

import Ketchup.Persistence.OldFormatsBack
import Ketchup.Persistence.RoleCategories
import Mathlib.Data.List.Nodup

namespace Ketchup.Persistence.OldFormats

open Fields

variable {R : Type} [Zero R] (serde : SheetMetalSerde R)

/-- The sheet metal of a product and the bends of its flanges, by feature. -/
def storedSheetMetal (product : Value) : List (Nat × StoredSheetMetal) :=
  (sheetMetalKinds product).filterMap fun kind => do
    let record ← serde.deserialized kind.2
    let current ← record.toCurrent
    some (kind.1, ⟨kind.2, current.2⟩)

/-- The new path of a parameter of a product's sheet metal. -/
def presentPath (product : Value) (feature : Nat) (path : String) : Option String :=
  (foundFor (storedSheetMetal serde product) feature).bind fun stored => bendPath path stored.bendOfFlange

/-- A product in the order its maps have: the keys are targets, one after the other. -/
structure InOrder (product : Value) : Prop where
  keyed : KeyedByMaps product
  ordered : ∀ name ∈ targetMaps, ∀ entries, field name product = some (.map entries) →
    entries.Pairwise fun one two => targetKey one.1 ≤ targetKey two.1

/-- The sheet metal as format 100 and those before wrote it. -/
structure SheetMetalWritten (product : Value) : Prop where
  ids : ((sheetMetalKinds product).map Prod.fst).Nodup
  record : ∀ kind ∈ sheetMetalKinds product, ∃ record, serde.deserialized kind.2 = some record ∧
    ∀ flange ∈ record.flanges, flange.side ≠ none
  paths : AllTargets (fun feature path => feature ∈ (sheetMetalKinds product).map Prod.fst → PlainPath path) product

/-- **A product as the writer of a format could write it**: in its own names, with ids that differ, known
sides and indices as they are printed. -/
structure Written (format : Nat) (product : Value) : Prop where
  inOrder : InOrder product
  noPins : format < 99 → NoPins product
  noTags : format < 102 → NoTags product
  sheetMetal : format < 101 → SheetMetalWritten serde product

/-- The keys of the maps keyed by parameter keep their order under their new names. -/
def KeepsOrder (product : Value) : Prop :=
  ∀ name ∈ targetMaps, ∀ entries, field name product = some (.map entries) →
    entries.Pairwise fun one two => presentKey (presentPath serde product) one.1 ≤ presentKey (presentPath serde product) two.1

/-! ### What is read of sheet metal -/

section Read

variable {serde} {product : Value}

theorem foundFor_of_mem {read : List (Nat × StoredSheetMetal)} (nodup : (read.map Prod.fst).Nodup) {id : Nat}
    {stored : StoredSheetMetal} (there : (id, stored) ∈ read) : foundFor read id = some stored := by
  unfold foundFor
  cases found : read.reverse.find? (·.1 = id) with
  | none =>
    rw [List.find?_eq_none] at found
    exact absurd (decide_eq_true rfl) (found (id, stored) (List.mem_reverse.mpr there))
  | some other =>
    have inside := List.mem_reverse.mp (List.mem_of_find?_eq_some found)
    have same : other.1 = id := by simpa using List.find?_some found
    have is : other = (id, stored) := List.inj_on_of_nodup_map nodup inside there same
    rw [is]
    rfl

theorem mem_of_foundFor {read : List (Nat × StoredSheetMetal)} {id : Nat} {stored : StoredSheetMetal}
    (found : foundFor read id = some stored) : (id, stored) ∈ read := by
  obtain ⟨⟨other, _⟩, foundHere, rfl⟩ := Option.map_eq_some_iff.mp found
  have same : other = id := by simpa using List.find?_some foundHere
  rw [← same]
  exact List.mem_reverse.mp (List.mem_of_find?_eq_some foundHere)

/-- A record with known sides is read. -/
theorem toCurrent_isSome {record : SheetMetalV1 R} (known : ∀ flange ∈ record.flanges, flange.side ≠ none) :
    ∃ current, record.toCurrent = some current := by
  have each : ∀ flange ∈ record.flanges.zipIdx, ∃ bend, flange.1.bend flange.2 = some bend := by
    intro flange inside
    obtain ⟨side, isSide⟩ := Option.ne_none_iff_exists'.mp (known flange.1 (List.fst_mem_of_mem_zipIdx inside))
    have below : side < sides.length := (List.findIdx?_eq_some_iff_getElem.mp isSide).1
    refine ⟨(flange.2, ⟨none, sides[side].2, flange.1.length, flange.1.angleDegrees, flange.1.innerRadius⟩), ?_⟩
    simp [FlangeV1.bend, isSide, List.getElem?_eq_getElem below]
  obtain ⟨bends, made⟩ : ∃ bends, record.flanges.zipIdx.mapM (fun flange => flange.1.bend flange.2) = some bends := by
    generalize record.flanges.zipIdx = flanges at each ⊢
    induction flanges with
    | nil => exact ⟨[], rfl⟩
    | cons flange flanges ih =>
      obtain ⟨bend, isBend⟩ := each flange List.mem_cons_self
      obtain ⟨bends, made⟩ := ih fun other inside => each other (List.mem_cons_of_mem _ inside)
      exact ⟨bend :: bends, by rw [List.mapM_cons, isBend, made]; rfl⟩
  exact ⟨_, by rw [SheetMetalV1.toCurrent, made]; rfl⟩

variable (written : SheetMetalWritten serde product)

include written

theorem readPayload_ok {kind : Nat × Value} (inside : kind ∈ sheetMetalKinds product) :
    ∃ record spec bends, serde.deserialized kind.2 = some record ∧ record.toCurrent = some (spec, bends) ∧
      readPayload serde kind.1 kind.2 = .ok (serde.serialized spec, bends) := by
  obtain ⟨record, isRecord, known⟩ := written.record kind inside
  obtain ⟨⟨spec, bends⟩, made⟩ := toCurrent_isSome known
  exact ⟨record, spec, bends, isRecord, made, by simp [readPayload, isRecord, made]⟩

theorem storedSheetMetal_ids : (storedSheetMetal serde product).map Prod.fst = (sheetMetalKinds product).map Prod.fst := by
  have each : ∀ kind ∈ sheetMetalKinds product, ∃ record spec bends, serde.deserialized kind.2 = some record ∧
      record.toCurrent = some (spec, bends) := by
    intro kind inside
    obtain ⟨record, spec, bends, isRecord, made, -⟩ := readPayload_ok written inside
    exact ⟨record, spec, bends, isRecord, made⟩
  unfold storedSheetMetal
  generalize sheetMetalKinds product = kinds at each ⊢
  induction kinds with
  | nil => rfl
  | cons kind kinds ih =>
    obtain ⟨record, spec, bends, isRecord, made⟩ := each kind List.mem_cons_self
    rw [List.filterMap_cons]
    simp only [isRecord, made, Option.bind_eq_bind, Option.bind_some, List.map_cons]
    exact congrArg _ (ih fun other inside => each other (List.mem_cons_of_mem _ inside))

/-- **What is found for a feature** is its payload, with the bends of its record. -/
theorem foundFor_kind {kind : Nat × Value} (inside : kind ∈ sheetMetalKinds product) :
    ∃ record spec bends, serde.deserialized kind.2 = some record ∧ record.toCurrent = some (spec, bends) ∧
      foundFor (storedSheetMetal serde product) kind.1 = some ⟨kind.2, bends⟩ := by
  obtain ⟨record, spec, bends, isRecord, made, -⟩ := readPayload_ok written inside
  refine ⟨record, spec, bends, isRecord, made, foundFor_of_mem ?_ ?_⟩
  · rw [storedSheetMetal_ids written]
    exact written.ids
  · exact List.mem_filterMap.mpr ⟨kind, inside, by simp [isRecord, made]⟩

/-- A renaming to the paths of bends is undone. -/
theorem undoes_presentPath : AllTargets (Undoes (presentPath serde product) fun feature path =>
    (foundFor (storedSheetMetal serde product) feature).bind fun stored => flangePath path stored.bendOfFlange) product := by
  intro entries there target is
  cases found : foundFor (storedSheetMetal serde product) target.1 with
  | none => exact ⟨fun renamed made => by simp [presentPath, found] at made, fun _ => by simp [found]⟩
  | some stored =>
    have inside := List.mem_map_of_mem (f := Prod.fst) (mem_of_foundFor found)
    rw [storedSheetMetal_ids written] at inside
    obtain ⟨kind, isKind, same⟩ := List.mem_map.mp inside
    obtain ⟨record, spec, bends, -, made, foundToo⟩ := foundFor_kind written isKind
    rw [same, found, Option.some.injEq] at foundToo
    subst foundToo
    have undone := undoes_bendPath made (written.paths entries there target is inside)
    exact ⟨by simpa [presentPath, found] using undone.1, by simpa [presentPath, found] using undone.2⟩

end Read

/-! ### The conversions together -/

section Together

variable {product : Value}

/-- A payload in its present form. -/
def currentPayload (id : Nat) (payload : Value) : Value :=
  match readPayload serde id payload with
  | .ok current => current.1
  | .error _ => payload

/-- A payload by the feature it is of: what was read for that, in its present form. -/
def payloadOf (product : Value) (form : StoredSheetMetal → Value) (id : Nat) (payload : Value) : Value :=
  ((foundFor (storedSheetMetal serde product) id).map form).getD payload

variable {serde}

theorem presentPath_of_nil (none_ : storedSheetMetal serde product = []) : presentPath serde product = fun _ _ => none := by
  funext feature path
  simp [presentPath, none_, foundFor]

theorem readFormat100SheetMetal_eq (written : SheetMetalWritten serde product) {form : Value}
    (kinds : sheetMetalKinds form = sheetMetalKinds product) : readFormat100SheetMetal serde form =
      .ok (renameParameterPaths (presentPath serde product) (overSheetMetal (currentPayload serde) form),
        storedSheetMetal serde product) := by
  have each : (sheetMetalKinds form).mapM (fun kind => do
      let current ← readPayload serde kind.1 kind.2
      return (kind.1, (⟨kind.2, current.2⟩ : StoredSheetMetal))) = .ok (storedSheetMetal serde product) := by
    have ok : ∀ kind ∈ sheetMetalKinds product, ∃ record spec bends, serde.deserialized kind.2 = some record ∧
        record.toCurrent = some (spec, bends) ∧ readPayload serde kind.1 kind.2 = .ok (serde.serialized spec, bends) :=
      fun kind inside => readPayload_ok written inside
    rw [kinds]
    unfold storedSheetMetal
    generalize sheetMetalKinds product = listed at ok ⊢
    induction listed with
    | nil => rfl
    | cons kind listed ih =>
      obtain ⟨record, spec, bends, isRecord, made, isOk⟩ := ok kind List.mem_cons_self
      rw [List.mapM_cons, isOk, List.filterMap_cons, ih fun other inside => ok other (List.mem_cons_of_mem _ inside)]
      simp only [isRecord, made, Option.bind_eq_bind, Option.bind_some]
      rfl
  unfold readFormat100SheetMetal
  rw [each]
  by_cases none_ : storedSheetMetal serde product = []
  · rw [presentPath_of_nil none_, none_, renameParameterPaths_none]
    rfl
  · have some_ : (storedSheetMetal serde product).isEmpty = false := by simpa using none_
    simp only [bind, Except.bind, some_, Bool.false_eq_true, if_false]
    rfl

theorem restoreFormat100SheetMetal_eq {form : Value} : restoreFormat100SheetMetal form (storedSheetMetal serde product) =
    overSheetMetal (payloadOf serde product StoredSheetMetal.stored)
      (renameParameterPaths (fun feature path =>
        (foundFor (storedSheetMetal serde product) feature).bind fun stored => flangePath path stored.bendOfFlange) form) := by
  unfold restoreFormat100SheetMetal
  by_cases none_ : storedSheetMetal serde product = []
  · have nothing : (fun (feature : Nat) (path : String) => (foundFor (storedSheetMetal serde product) feature).bind
        fun stored => flangePath path stored.bendOfFlange) = fun _ _ => none := by
      funext feature path
      simp [none_, foundFor]
    have same : overSheetMetal (payloadOf serde product StoredSheetMetal.stored) form = form :=
      overSheetMetal_id fun kind _ => by simp [payloadOf, none_, foundFor]
    rw [nothing, renameParameterPaths_none, same, none_]
    rfl
  · have some_ : (storedSheetMetal serde product).isEmpty = false := by simpa using none_
    rw [some_]
    rfl

theorem rename_payloadOf {rename : Nat → String → Option String} {form : StoredSheetMetal → Value} (id : Nat) (payload : Value) :
    renameParameterPaths rename (payloadOf serde product form id payload) =
      payloadOf serde product (fun stored => renameParameterPaths rename (form stored)) id (renameParameterPaths rename payload) := by
  unfold payloadOf
  cases foundFor (storedSheetMetal serde product) id <;> rfl

/-- **Sheet metal read and put back**, where the products have the same features. -/
theorem sheetMetal_back (written : SheetMetalWritten serde product) {form : Value}
    (kinds : sheetMetalKinds form = sheetMetalKinds product)
    (undone : renameParameterPaths (fun feature path => (foundFor (storedSheetMetal serde product) feature).bind
      fun stored => flangePath path stored.bendOfFlange) (renameParameterPaths (presentPath serde product) form) = form) :
    restoreFormat100SheetMetal (renameParameterPaths (presentPath serde product) (overSheetMetal (currentPayload serde) form))
      (storedSheetMetal serde product) = form := by
  have known : overSheetMetal (currentPayload serde) form =
      overSheetMetal (payloadOf serde product fun stored => currentPayload serde 0 stored.stored) form := by
    refine overSheetMetal_congr fun kind inside => ?_
    rw [kinds] at inside
    obtain ⟨record, spec, bends, isRecord, made, found⟩ := foundFor_kind written inside
    simp [payloadOf, found, currentPayload, readPayload, isRecord, made]
  rw [restoreFormat100SheetMetal_eq, known, rename_overSheetMetal rename_payloadOf, rename_overSheetMetal rename_payloadOf,
    undone, overSheetMetal_overSheetMetal]
  refine overSheetMetal_id fun kind inside => ?_
  rw [kinds] at inside
  obtain ⟨record, spec, bends, isRecord, made, found⟩ := foundFor_kind written inside
  simp [payloadOf, found]

theorem restore_through {form : Value} : restoreFormat100SheetMetal
    (format102JointParticipants (format101OccurrenceTags form false) false) (storedSheetMetal serde product) =
      format102JointParticipants (format101OccurrenceTags
        (restoreFormat100SheetMetal form (storedSheetMetal serde product)) false) false := by
  rw [restoreFormat100SheetMetal_eq, rename_jointParticipants, rename_occurrenceTags, restoreFormat100SheetMetal_eq]
  refine (overSheetMetal_renameField (by decide) (by decide)).trans (congrArg _ ?_)
  exact (overSheetMetal_renameField (by decide) (by decide)).trans
    (congrArg _ (overSheetMetal_renameField (by decide) (by decide)))

/-- The order of a map is no matter to the targets in it. -/
theorem allTargets_sortedBy {holds : Nat → String → Prop} {rename : Nat → String → Option String} (keyed : KeyedByMaps product)
    (all : AllTargets holds product) : AllTargets holds (overTargetMaps (sortedBy rename) product) := by
  have each : ∀ name ∈ targetMaps, ∀ item, field name product = some item → AllTargets holds (sortedBy rename item) := by
    intro name listed item there
    have inItem := all.field there
    cases item <;> try exact inItem
    case map entries =>
      intro others inside target is
      cases inside with
      | refl =>
        rw [targetOf_of_keys fun entry inside => keyed name listed entries there entry (List.mem_mergeSort.mp inside)] at is
        cases is
      | key there inside => exact (inItem.entry (List.mem_mergeSort.mp there)).1 others inside target is
      | entry there inside => exact (inItem.entry (List.mem_mergeSort.mp there)).2 others inside target is
  refine AllTargets.overField (by decide) (AllTargets.overField (by decide) all (each _ List.mem_cons_self)) fun item there => ?_
  rw [field_over_ne (by decide)] at there
  exact each _ (List.mem_cons_of_mem _ List.mem_cons_self) item there

/-- The names of format 98 or of format 99. -/
structure Naming (names unnames : Value → Value) : Prop where
  field : ∀ name ∈ targetMaps ++ ["occurrences", "local_occurrences", "features"], ∀ form, field name (names form) = field name form
  through : ∀ rename form, renameParameterPaths rename (names form) = names (renameParameterPaths rename form)
  maps : ∀ change form, overTargetMaps change (names form) = names (overTargetMaps change form)

theorem naming_98 : Naming (renameFormat98Fields · id) (renameFormat98Fields · Prod.swap) where
  field name listed form := by
    have apart : ∀ other ∈ ["assembly_recipe", "dowel_joints", "pin_joints"], other ≠ name := by
      revert listed
      revert name
      decide
    refine (field_over_ne (apart _ (by decide))).trans ?_
    exact field_renameField_ne (apart _ (by decide)) (apart _ (by decide))
  through _ _ := rename_format98
  maps _ _ := overTargetMaps_format98

theorem naming_99 : Naming id id := ⟨fun _ _ _ => rfl, fun _ _ => rfl, fun _ _ => rfl⟩

/-- **Sheet metal, tags and participants there and back**, under either naming. -/
theorem checked_together {names unnames : Value → Value} (naming : Naming names unnames) (written : SheetMetalWritten serde product)
    (keyed : KeyedByMaps product) (noTags : NoTags product) :
    format101OccurrenceTags (format102JointParticipants (restoreFormat100SheetMetal (identityForm
      (format102JointParticipants (format101OccurrenceTags (renameParameterPaths (presentPath serde product)
        (overSheetMetal (currentPayload serde) (names product))) false) false)) (storedSheetMetal serde product)) true) true =
      names (overTargetMaps (sortedBy (presentPath serde product)) product) := by
  have keyedNames : KeyedByMaps (overSheetMetal (currentPayload serde) (names product)) := by
    intro name listed entries there
    have other : ∀ name ∈ targetMaps, name ≠ "features" := by decide
    rw [overSheetMetal, field_over_ne (Ne.symm (other name listed)), naming.field name (List.mem_append_left _ listed)] at there
    exact keyed name listed entries there
  rw [identityForm_jointParticipants, identityForm_occurrenceTags, identityForm_rename keyedNames,
    overTargetMaps_overSheetMetal, naming.maps, restore_through]
  set ordered := overTargetMaps (sortedBy (presentPath serde product)) product with isOrdered
  have sameField : ∀ name ∈ ["occurrences", "local_occurrences", "features"], field name (names ordered) = field name product := by
    intro name listed
    rw [naming.field name (List.mem_append_right _ listed), isOrdered, field_overTargetMaps]
    revert listed
    revert name
    decide
  have kinds : sheetMetalKinds (names ordered) = sheetMetalKinds product := by
    unfold sheetMetalKinds
    rw [sameField "features" (by decide)]
  have undone := renameParameterPaths_back (@allTargets_sortedBy product _ (presentPath serde product) keyed
    (undoes_presentPath written))
  rw [sheetMetal_back written kinds (by rw [naming.through, naming.through, undone]), jointParticipants_back, occurrenceTags_back]
  intro name listed entries there
  refine noTags name listed entries ?_
  rwa [sameField name (List.mem_append_left ["features"] listed)] at there

theorem noPins_overTargetMaps (fresh : NoPins product) (change : Value → Value) : NoPins (overTargetMaps change product) where
  joints := by rw [field_overTargetMaps (by decide), fresh.joints]
  joint := by rw [field_overTargetMaps (by decide)]; exact fresh.joint
  recipe := by rw [field_overTargetMaps (by decide)]; exact fresh.recipe

/-- **What is checked of a product of a format before 101**: the product with its maps in the new order. -/
theorem checkedForm_eq {format : Nat} (old : format < 101) (written : Written serde format product) :
    checkedForm serde format product = .ok (overTargetMaps (sortedBy (presentPath serde product)) product) := by
  have tags : format < 102 := by omega
  have participants : format < 103 := by omega
  have sheetMetal := written.sheetMetal old
  have keyed := written.inOrder.keyed
  have kinds : ∀ {names unnames : Value → Value}, Naming names unnames → sheetMetalKinds (names product) = sheetMetalKinds product := by
    intro names unnames naming
    unfold sheetMetalKinds
    rw [naming.field "features" (by decide)]
  unfold checkedForm upgrade
  by_cases pins : format < 99
  · simp only [pins, old, tags, participants, if_true]
    rw [readFormat100SheetMetal_eq sheetMetal (kinds naming_98)]
    have together := checked_together naming_98 sheetMetal keyed (written.noTags tags)
    have back := renameFormat98Fields_back (noPins_overTargetMaps (written.noPins pins) (sortedBy (presentPath serde product)))
    simp only [bind, Except.bind, pure, Except.pure, writerForm, pins, tags, participants, if_true]
    rw [together, back]
  · simp only [pins, old, tags, participants, if_true, if_false]
    rw [readFormat100SheetMetal_eq sheetMetal rfl]
    have together := checked_together naming_99 sheetMetal keyed (written.noTags tags)
    simp only [bind, Except.bind, pure, Except.pure, writerForm, pins, tags, participants, if_true, if_false]
    exact congrArg Except.ok together

/-- From format 101 on no name of a key changes. -/
theorem checkedForm_eq_self {format : Nat} (new : 101 ≤ format) (written : Written serde format product) :
    checkedForm serde format product = .ok product := by
  have ordered : identityForm product = product := by
    refine overTargetMaps_id_iff.mpr fun name listed item there => ?_
    cases item <;> try rfl
    case map entries =>
      have sortedAlready := (written.inOrder.ordered name listed entries there).imp fun before => decide_eq_true before
      rw [sorted, List.mergeSort_of_pairwise sortedAlready]
  have pins : ¬format < 99 := by omega
  have sheetMetal : ¬format < 101 := by omega
  unfold checkedForm upgrade
  simp only [pins, sheetMetal, if_false, bind, Except.bind, pure, Except.pure, writerForm, restoreFormat100SheetMetal,
    List.isEmpty_nil, if_true]
  by_cases tags : format < 102
  · have participants : format < 103 := by omega
    simp only [tags, participants, if_true]
    rw [identityForm_jointParticipants, identityForm_occurrenceTags, ordered, jointParticipants_back,
      occurrenceTags_back (written.noTags tags)]
  · by_cases participants : format < 103
    · simp only [tags, participants, if_true, if_false]
      rw [identityForm_jointParticipants, ordered, jointParticipants_back]
    · simp only [tags, participants, if_false]
      rw [ordered]

/-- **The check finds the product that was stored exactly where its keys keep their order.** -/
theorem checkedForm_iff {format : Nat} (written : Written serde format product) :
    checkedForm serde format product = .ok product ↔ (format < 101 → KeepsOrder serde product) := by
  by_cases old : format < 101
  · rw [checkedForm_eq old written, Except.ok.injEq, overTargetMaps_id_iff]
    simp only [old, true_imp_iff]
    refine forall₂_congr fun name _ => ?_
    constructor
    · exact fun kept entries there => sortedBy_id_iff.mp (kept _ there)
    · intro ordered item there
      cases item <;> try rfl
      case map entries => exact sortedBy_id_iff.mpr (ordered entries there)
  · simp only [old, false_imp_iff, iff_true]
    exact checkedForm_eq_self (not_lt.mp old) written

end Together

/-- **Old formats keep what their writers signed exactly where the keyed maps keep their order**; role
categories stay apart in any case. -/
theorem oldFormats_right_iff {format : Nat} (known : format = 98 ∨ format = 101 ∨ format = 102) {product : Value}
    (written : Written serde format product) :
    (checkedForm serde format product = .ok product ∧
      ∀ dimensions : List ClassificationDimension, (∀ dimension ∈ dimensions, RolesApart dimension) →
        ∀ dimension ∈ renameFormat99RoleCategories dimensions, RolesApart dimension) ↔
      (format = 98 → KeepsOrder serde product) := by
  rw [and_iff_left fun _ apart => roles_stay_apart apart, checkedForm_iff written]
  have early : format < 101 ↔ format = 98 := by omega
  rw [early]

/-! ### Two flanges -/

section TwoFlanges

def lengthOf (token : String) (value : Nat) : Dimension Nat := ⟨token, value⟩

/-- A sheet with a flange on its `MinX` side and, after it, one on its `MaxX` side. -/
def twoFlanges : SheetMetalV1 Nat where
  width := lengthOf "100 mm" 100
  depth := lengthOf "50 mm" 50
  thickness := lengthOf "2 mm" 2
  kFactor := 0
  flanges := [⟨"MinX", lengthOf "20 mm" 20, 90, lengthOf "3 mm" 3⟩, ⟨"MaxX", lengthOf "30 mm" 30, 90, lengthOf "3 mm" 3⟩]

def lengthValue (token : String) (bits : UInt64) : Value :=
  .map [(.text "source_token", .text token), (.text "millimetres", .float bits)]

def flangeValue (side token : String) (bits : UInt64) : Value :=
  .map [(.text "edge", .text side), (.text "length", lengthValue token bits),
    (.text "angle_degrees", .float 0x4056800000000000), (.text "inner_radius", lengthValue "3 mm" 0x4008000000000000)]

def twoFlangesValue : Value :=
  .map [(.text "width", lengthValue "100 mm" 0x4059000000000000), (.text "depth", lengthValue "50 mm" 0x4049000000000000),
    (.text "thickness", lengthValue "2 mm" 0x4000000000000000), (.text "k_factor", .float 0),
    (.text "flanges", .array [flangeValue "MinX" "20 mm" 0x4034000000000000, flangeValue "MaxX" "30 mm" 0x403e000000000000])]

/-- A parameter of the sheet. -/
def flangeTarget (path : String) : Value :=
  .map [(.text "feature_id", .integer 2), (.text "path", .text path), (.text "value_type", .text "Length")]

def flangeBinding (path : String) : FieldEntry :=
  (flangeTarget path, .map [(.text "target", flangeTarget path), (.text "derived_from", .null)])

/-- A product with the sheet and a binding of each flange's length. -/
def boundFlanges : Value :=
  .map [(.text "feature_parameter_bindings", .map [flangeBinding "flanges.0.length", flangeBinding "flanges.1.length"]),
    (.text "features", .map [(.integer 2, .map [(.text "id", .integer 2), (.text "kind", .map [(.text "SheetMetal", twoFlangesValue)])])])]

/-- The serde form of the sheet, read as the sheet. -/
def twoFlangesSerde : SheetMetalSerde Nat := ⟨fun _ => some twoFlanges, fun _ => .null⟩

theorem boundFlanges_kinds : sheetMetalKinds boundFlanges = [(2, twoFlangesValue)] := rfl

theorem boundFlanges_bindings : field "feature_parameter_bindings" boundFlanges =
    some (.map [flangeBinding "flanges.0.length", flangeBinding "flanges.1.length"]) := rfl

theorem boundFlanges_provenance : field "feature_parameter_provenance" boundFlanges = none := rfl

theorem flangeTarget_paths {holds : Nat → String → Prop} {path : String} (is : holds 2 path) : AllTargets holds (flangeTarget path) := by
  have target : targetOf [(.text "feature_id", .integer 2), (.text "path", .text path), (.text "value_type", .text "Length")] =
      some (2, path) := rfl
  rw [flangeTarget, allTargets_map_iff, target]
  simp [is]

theorem lengthValue_paths {holds : Nat → String → Prop} (token : String) (bits : UInt64) :
    AllTargets holds (lengthValue token bits) := by
  have target : targetOf [(.text "source_token", .text token), (.text "millimetres", .float bits)] = none := rfl
  rw [lengthValue, allTargets_map_iff, target]
  simp

theorem flangeValue_paths {holds : Nat → String → Prop} (side token : String) (bits : UInt64) :
    AllTargets holds (flangeValue side token bits) := by
  have target : targetOf [(.text "edge", .text side), (.text "length", lengthValue token bits),
      (.text "angle_degrees", .float 0x4056800000000000), (.text "inner_radius", lengthValue "3 mm" 0x4008000000000000)] = none := rfl
  rw [flangeValue, allTargets_map_iff, target]
  simp [lengthValue_paths]

theorem boundFlanges_paths {holds : Nat → String → Prop} (first : holds 2 "flanges.0.length") (second : holds 2 "flanges.1.length") :
    AllTargets holds boundFlanges := by
  have sheet : AllTargets holds twoFlangesValue := by
    rw [twoFlangesValue, allTargets_map_iff]
    refine ⟨fun target is => absurd is.symm (Option.some_ne_none target), ?_⟩
    simp [lengthValue_paths, flangeValue_paths]
  have single : ∀ {name item}, AllTargets holds name → AllTargets holds item → AllTargets holds (.map [(name, item)]) := by
    intro name item inName inItem
    rw [allTargets_map_iff, targetOf_single]
    simp [inName, inItem]
  have record : ∀ path, holds 2 path →
      AllTargets holds (.map [(.text "target", flangeTarget path), (.text "derived_from", .null)]) := by
    intro path is
    rw [allTargets_map_iff]
    refine ⟨fun target made => absurd made.symm (Option.some_ne_none target), ?_⟩
    simp [flangeTarget_paths is]
  have bindings : AllTargets holds (.map [flangeBinding "flanges.0.length", flangeBinding "flanges.1.length"]) := by
    rw [allTargets_map_iff]
    refine ⟨fun target made => absurd made.symm (Option.some_ne_none target), ?_⟩
    simp [flangeBinding, flangeTarget_paths, record, first, second]
  have feature : AllTargets holds (.map [(.text "id", .integer 2), (.text "kind", .map [(.text "SheetMetal", twoFlangesValue)])]) := by
    rw [allTargets_map_iff]
    refine ⟨fun target made => absurd made.symm (Option.some_ne_none target), ?_⟩
    have named : AllTargets holds (.text "SheetMetal") := allTargets_atom (by simp) (by simp) (by simp)
    simpa using single named sheet
  rw [boundFlanges, allTargets_map_iff]
  refine ⟨fun target made => absurd made.symm (Option.some_ne_none target), ?_⟩
  simp only [List.forall_mem_cons, List.not_mem_nil, false_imp_iff, implies_true, and_true]
  exact ⟨⟨allTargets_atom (by simp) (by simp) (by simp), bindings⟩, allTargets_atom (by simp) (by simp) (by simp),
    single (allTargets_atom (by simp) (by simp) (by simp)) feature⟩

theorem boundFlanges_written : Written twoFlangesSerde 98 boundFlanges where
  inOrder :=
    { keyed := by
        intro name listed entries there
        rcases List.mem_pair.mp listed with rfl | rfl
        · rw [boundFlanges_bindings, Option.some.injEq, Value.map.injEq] at there
          subst there
          intro entry inside
          rcases List.mem_pair.mp inside with rfl | rfl <;> exact ⟨_, rfl⟩
        · rw [boundFlanges_provenance] at there
          cases there
      ordered := by
        intro name listed entries there
        rcases List.mem_pair.mp listed with rfl | rfl
        · rw [boundFlanges_bindings, Option.some.injEq, Value.map.injEq] at there
          subst there
          have before : targetKey (flangeTarget "flanges.0.length") ≤ targetKey (flangeTarget "flanges.1.length") := by decide
          simpa [flangeBinding] using before
        · rw [boundFlanges_provenance] at there
          cases there }
  noPins _ :=
    { joints := rfl
      joint := by
        intro entries there
        have none_ : field "dowel_joints" boundFlanges = none := rfl
        rw [none_] at there
        cases there
      recipe := by
        intro recipe joinery there
        have none_ : field "assembly_recipe" boundFlanges = none := rfl
        rw [none_] at there
        cases there }
  noTags _ := by
    intro name listed entries there
    have none_ : field "occurrences" boundFlanges = none ∧ field "local_occurrences" boundFlanges = none := ⟨rfl, rfl⟩
    rcases List.mem_pair.mp listed with rfl | rfl
    · rw [none_.1] at there
      cases there
    · rw [none_.2] at there
      cases there
  sheetMetal _ :=
    { ids := by simp [boundFlanges_kinds]
      record := fun kind _ => ⟨twoFlanges, rfl, by decide⟩
      paths := boundFlanges_paths (fun _ => plainPath_flange 0 "length") fun _ => plainPath_flange 1 "length" }

theorem boundFlanges_right_iff : (checkedForm twoFlangesSerde 98 boundFlanges = .ok boundFlanges ∧
      ∀ dimensions : List ClassificationDimension, (∀ dimension ∈ dimensions, RolesApart dimension) →
        ∀ dimension ∈ renameFormat99RoleCategories dimensions, RolesApart dimension) ↔
      (98 = 98 → KeepsOrder twoFlangesSerde boundFlanges) :=
  oldFormats_right_iff twoFlangesSerde (Or.inl rfl) boundFlanges_written

theorem mergeSort_pair {A : Type} {atMost : A → A → Bool} {one two : A} (later : atMost one two = false) :
    [one, two].mergeSort atMost = [two, one] := by
  rw [List.mergeSort]
  simp [List.MergeSort.Internal.splitInTwo, later]

theorem twoFlanges_bends : twoFlanges.toCurrent.map Prod.snd = some [1, 0] := by
  have bends : twoFlanges.flanges.zipIdx.mapM (fun flange => flange.1.bend flange.2) =
      some [(0, ⟨none, 3, lengthOf "20 mm" 20, 90, lengthOf "3 mm" 3⟩), (1, ⟨none, 1, lengthOf "30 mm" 30, 90, lengthOf "3 mm" 3⟩)] := rfl
  rw [SheetMetalV1.toCurrent, bends]
  simp only [Option.bind_eq_bind, Option.bind_some, Option.map_some, Option.some.injEq]
  rw [mergeSort_pair (by decide)]
  rfl

/-- The flange on the side `MinX` comes first, its bend after that of `MaxX`. -/
theorem boundFlanges_order : ¬KeepsOrder twoFlangesSerde boundFlanges := by
  intro kept
  have pair := kept _ List.mem_cons_self _ boundFlanges_bindings
  obtain ⟨current, isCurrent, isBends⟩ := Option.map_eq_some_iff.mp twoFlanges_bends
  have stored : storedSheetMetal twoFlangesSerde boundFlanges = [(2, ⟨twoFlangesValue, [1, 0]⟩)] := by
    rw [storedSheetMetal, boundFlanges_kinds, List.filterMap_cons]
    simp [twoFlangesSerde, isCurrent, isBends]
  have first : presentPath twoFlangesSerde boundFlanges 2 "flanges.0.length" = some "bends.1.length" := by
    simp only [presentPath, stored]
    rfl
  have second : presentPath twoFlangesSerde boundFlanges 2 "flanges.1.length" = some "bends.0.length" := by
    simp only [presentPath, stored]
    rfl
  have renamed : ∀ {path newPath}, presentPath twoFlangesSerde boundFlanges 2 path = some newPath →
      presentKey (presentPath twoFlangesSerde boundFlanges) (flangeTarget path) = targetKey (flangeTarget newPath) := by
    intro path newPath is
    rw [presentKey, flangeTarget, renameParameterPaths_map, @retarget_of_some _ _ (2, path) newPath rfl is]
    rfl
  simp only [List.pairwise_cons, List.mem_singleton, forall_eq, flangeBinding, renamed first, renamed second] at pair
  exact absurd pair.1 (by decide)

theorem boundFlanges_not_back : ¬∀ (serde : SheetMetalSerde Nat) (product : Value), Written serde 98 product →
    checkedForm serde 98 product = .ok product := by
  intro holds
  have back := holds twoFlangesSerde boundFlanges boundFlanges_written
  exact boundFlanges_order ((checkedForm_iff boundFlanges_written).mp back (by decide))

end TwoFlanges

end Ketchup.Persistence.OldFormats
