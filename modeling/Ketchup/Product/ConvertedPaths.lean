/-
**Conversions keep the scene.**

The path told for a group or a part resolves to what it was (`told_holds`). A conversion that nothing stands
in the way of goes through where no group inside shares its number with a part inside, and not else; each one
that goes through keeps the scene (`converts_iff_apart`).
-/

import Ketchup.Product.ConvertedScene

set_option linter.unusedSectionVars false

namespace Ketchup.Product

variable {R : Type} [Add R] [Mul R] [Zero R] [One R]

/-! ### The mappings -/

/-- The path told for a group or a part resolves to what it was. -/
def MappingHolds (product next : ProductModel R) (mapping : ConversionMapping) : Prop :=
  ∀ newId newPath, mapping.resolution = .resolved newId newPath →
    ∃ resolved, resolveInstancePath next newPath = .ok resolved ∧
      match mapping.oldId with
      | .group id => worldTransformForGroup product id = .ok resolved.worldTransform
      | .occurrence id => ∃ old, resolveInstancePath product ⟨id, []⟩ = .ok old ∧
          resolved.definitionId = old.definitionId ∧ resolved.worldTransform = old.worldTransform

section Mappings

variable {product : ProductModel R} {plan : ConvertGroupPlan} (sound : Structured product)

theorem worldGroupLineage_ok {cursor : GroupId} {lineage : List GroupId}
    (ancestry : Ancestry product.groupParent (some cursor) lineage) :
    worldGroupLineage product cursor = .ok lineage.reverse := by
  have enough := ancestry.length_le groupParent_listed
  rw [Std.ExtTreeMap.length_keys] at enough
  refine bind_eq_of_ok (climb_of_ancestry ancestry (Nat.le_succ_of_le enough) ?_)
  intro before key after is
  refine refuseIf_ok.mpr fun member => ?_
  have distinct := ancestry.nodup
  rw [is] at distinct
  exact List.disjoint_of_nodup_append distinct member (List.mem_cons_self ..)

theorem convertedGroupPath_ok {id : GroupId} {inner outer : List GroupId}
    (ancestry : Ancestry product.groupParent (some id) (inner ++ plan.groupId :: outer)) :
    convertedGroupPath product plan id = .ok ⟨plan.newOccurrenceId, inner.reverse.map .group⟩ := by
  have lineage : groupLineage product plan.groupId id = .ok (plan.groupId :: inner.reverse) := by
    refine (bind_eq_of_ok (groupLineageUp_of_inside ancestry)).trans ?_
    rw [List.reverse_append]
    rfl
  exact bind_eq_of_ok lineage

variable (plan)

include sound

/-- What is told of a group. -/
theorem groupMapping_ok {id : GroupId} (there : id ∈ product.groups) : ∃ groups resolution,
    groupMapping product plan (product.descendants plan.groupId) id =
      .ok ⟨.group id, ⟨groups, none⟩, resolution⟩ ∧
    ∀ newId newPath, resolution = .resolved newId newPath → ∃ inner outer,
      Ancestry product.groupParent (some id) (inner ++ plan.groupId :: outer) ∧
        newPath = ⟨plan.newOccurrenceId, inner.reverse.map .group⟩ := by
  obtain ⟨lineage, ancestry⟩ := sound.group id there
  have isLineage := worldGroupLineage_ok ancestry
  by_cases isIn : id ∈ product.descendants plan.groupId
  · obtain ⟨inner, outer, inside⟩ :=
      (descendants_contains_iff sound).mp (List.contains_iff_mem.mpr isIn)
    have resolution : groupResolution product plan (product.descendants plan.groupId) id =
        .ok (.resolved (if id = plan.groupId then .componentOccurrence plan.newOccurrenceId
          else .localGroup ⟨plan.newDefinitionId, id⟩)
          ⟨plan.newOccurrenceId, inner.reverse.map .group⟩) := by
      rw [groupResolution, if_pos isIn]
      exact bind_eq_of_ok (convertedGroupPath_ok inside)
    refine ⟨_, _, (bind_eq_of_ok isLineage).trans (bind_eq_of_ok resolution), fun _ _ same => ?_⟩
    exact ⟨inner, outer, inside, (MappingResolution.resolved.inj same).2.symm⟩
  · have resolution : groupResolution product plan (product.descendants plan.groupId) id =
        .ok (.unresolved .notInConvertedGroup) := if_neg isIn
    exact ⟨_, _, (bind_eq_of_ok isLineage).trans (bind_eq_of_ok resolution), nofun⟩

/-- What is told of a part. -/
theorem occurrenceMapping_ok {id : OccurrenceId} {occurrence : Occurrence R}
    (found : product.occurrences[id]? = some occurrence) : ∃ groups resolution,
    occurrenceMapping product plan (product.descendants plan.groupId) id occurrence =
      .ok ⟨.occurrence id, ⟨groups, some id⟩, resolution⟩ ∧
    (∀ newId newPath, resolution = .resolved newId newPath →
      newPath = movedPath product plan ⟨id, []⟩) ∧
    (PartInside product plan.groupId occurrence →
      ∃ newId, resolution = .resolved newId (movedPath product plan ⟨id, []⟩)) := by
  obtain ⟨-, -, lineage, ancestry⟩ := sound.occurrence id occurrence found
  have isLineage : ∃ groups, occurrence.parent.elim (.ok []) (worldGroupLineage product) =
      .ok groups := by
    cases isParent : occurrence.parent with
    | none => exact ⟨[], rfl⟩
    | some parent => exact ⟨_, worldGroupLineage_ok (isParent ▸ ancestry)⟩
  obtain ⟨groups, isGroups⟩ := isLineage
  by_cases inside : PartInside product plan.groupId occurrence
  · have isPart := inside
    obtain ⟨parent, isParent, inner, outer, chain⟩ := inside
    have inside : Inside product plan.groupId parent := ⟨inner, outer, chain⟩
    have isIn := List.contains_iff_mem.mp ((descendants_contains_iff sound).mpr inside)
    have path : (⟨plan.newOccurrenceId, inner.reverse.map .group ++ [.occurrence id]⟩ : InstancePath) =
        movedPath product plan ⟨id, []⟩ := by
      rw [movedPath, insideParent_of_inside sound found isParent inside]
      exact congrArg (fun groups => InstancePath.mk _ (List.map _ groups ++ _)) (innerGroups_eq chain).symm
    have resolution : occurrenceResolution product plan (product.descendants plan.groupId) id
        occurrence.parent = .ok (.resolved (.localOccurrence ⟨plan.newDefinitionId, id⟩)
          (movedPath product plan ⟨id, []⟩)) := by
      rw [occurrenceResolution, isParent, Option.filter_some, decide_eq_true isIn, if_pos rfl, ← path]
      exact bind_eq_of_ok (convertedGroupPath_ok chain)
    refine ⟨groups, _, (bind_eq_of_ok isGroups).trans (bind_eq_of_ok resolution), ?_, fun _ => ⟨_, rfl⟩⟩
    exact fun _ _ same => (MappingResolution.resolved.inj same).2.symm
  · have resolution : occurrenceResolution product plan (product.descendants plan.groupId) id
        occurrence.parent = .ok (.unresolved .notInConvertedGroup) := by
      have apart : occurrence.parent.filter (· ∈ product.descendants plan.groupId) = none := by
        refine Option.filter_eq_none_iff.mpr fun parent isParent isIn => inside ⟨parent, isParent, ?_⟩
        exact (descendants_contains_iff sound).mp (List.contains_iff_mem.mpr (of_decide_eq_true isIn))
      rw [occurrenceResolution, apart]
    refine ⟨groups, _, (bind_eq_of_ok isGroups).trans (bind_eq_of_ok resolution), fun _ _ same => ?_,
      fun isPart => absurd isPart inside⟩
    cases same

/-- **What becomes of each group and part can be told.** -/
theorem conversionMappings_ok (there : plan.groupId ∈ product.groups) :
    ∃ mappings, conversionMappings product plan = .ok mappings := by
  obtain ⟨groups, isGroups⟩ : ∃ groups, product.groups.keys.mapM
      (groupMapping product plan (product.descendants plan.groupId)) = .ok groups := by
    refine mapM_total fun id member => ?_
    obtain ⟨_, _, ok, -⟩ := groupMapping_ok plan sound (Std.ExtTreeMap.mem_keys.mp member)
    exact ⟨_, ok⟩
  obtain ⟨occurrences, isOccurrences⟩ : ∃ occurrences, product.occurrences.toList.mapM
      (fun entry : OccurrenceId × Occurrence R => occurrenceMapping product plan
        (product.descendants plan.groupId) entry.1 entry.2) = .ok occurrences := by
    refine mapM_total fun entry member => ?_
    obtain ⟨_, _, ok, -⟩ := occurrenceMapping_ok plan sound
      (Std.ExtTreeMap.mem_toList_iff_getElem?_eq_some.mp member)
    exact ⟨_, ok⟩
  have converted := descendantGroups_ok_iff.mpr ⟨there, rfl⟩
  exact ⟨_, (bind_eq_of_ok converted).trans ((bind_eq_of_ok isGroups).trans (bind_eq_of_ok isOccurrences))⟩

omit sound in
/-- What is told is of a group or of a part. -/
theorem mem_conversionMappings {mappings : List ConversionMapping}
    (ok : conversionMappings product plan = .ok mappings) {mapping : ConversionMapping} :
    mapping ∈ mappings ↔
      (∃ id ∈ product.groups,
        groupMapping product plan (product.descendants plan.groupId) id = .ok mapping) ∨
      ∃ id occurrence, product.occurrences[id]? = some occurrence ∧
        occurrenceMapping product plan (product.descendants plan.groupId) id occurrence = .ok mapping := by
  obtain ⟨converted, isConverted, ok⟩ := bind_ok ok
  obtain ⟨-, rfl⟩ := descendantGroups_ok_iff.mp isConverted
  obtain ⟨groups, isGroups, ok⟩ := bind_ok ok
  obtain ⟨occurrences, isOccurrences, ok⟩ := bind_ok ok
  obtain rfl := Except.ok.inj ok
  rw [List.mem_mergeSort, List.mem_append, mem_of_mapM isGroups, mem_of_mapM isOccurrences]
  refine or_congr (exists_congr fun id => ?_) ⟨fun told => ?_, fun told => ?_⟩
  · rw [Std.ExtTreeMap.mem_keys]
  · obtain ⟨entry, member, here⟩ := told
    exact ⟨_, _, Std.ExtTreeMap.mem_toList_iff_getElem?_eq_some.mp member, here⟩
  · obtain ⟨id, occurrence, found, here⟩ := told
    exact ⟨(id, occurrence), Std.ExtTreeMap.mem_toList_iff_getElem?_eq_some.mpr found, here⟩

end Mappings

/-- **The path told for each group and part resolves to what it was.** -/
theorem told_holds {product next : ProductModel R} {plan : ConvertGroupPlan} {root : Group R}
    (clear : Clear product plan root next) (soundAfter : Structured next)
    {mappings : List ConversionMapping} (ok : conversionMappings product plan = .ok mappings)
    {mapping : ConversionMapping} (member : mapping ∈ mappings) : MappingHolds product next mapping := by
  have sound := clear.sound
  rcases (mem_conversionMappings plan ok).mp member with ⟨id, there, isMapping⟩ |
    ⟨id, occurrence, found, isMapping⟩
  · obtain ⟨groups, resolution, isGroup, resolves⟩ := groupMapping_ok plan sound there
    obtain rfl := Except.ok.inj (isMapping.symm.trans isGroup)
    intro newId newPath isResolved
    obtain ⟨inner, outer, ancestry, rfl⟩ := resolves newId newPath isResolved
    obtain ⟨outer', above, isComponent⟩ := component_isPart clear.toConverted sound clear.found
    obtain rfl := outer_unique clear.found ancestry above
    obtain ⟨start, reached, isStart, walked, atComponent⟩ := isComponent.reaches
    obtain rfl := Except.ok.inj walked
    obtain ⟨inside, walked', inGroups, -⟩ :=
      resolve_lineage atComponent (clear.toConverted.localLineage ancestry)
    refine ⟨_, (bind_eq_of_ok isStart).trans (bind_eq_of_ok walked'), ?_⟩
    show worldTransformForGroup product id = .ok inside.transform
    rw [worldTransformForGroup_eq ancestry, inGroups.transform,
      ← clear.toConverted.groupWorld_inside clear.found ancestry]
    rfl
  · obtain ⟨groups, resolution, isPart, resolves, -⟩ := occurrenceMapping_ok plan sound found
    obtain rfl := Except.ok.inj (isMapping.symm.trans isPart)
    intro newId newPath isResolved
    obtain rfl := resolves newId newPath isResolved
    obtain ⟨entry, isRoot, -⟩ := exists_isRootPart sound (BTreeMap.mem_iff_exists.mpr ⟨_, found⟩)
    have path : entry.instancePath = ⟨id, []⟩ := by
      obtain ⟨-, -, -⟩ := isRoot
      rfl
    obtain ⟨entry', isPart', moved⟩ := clear.moved (.root isRoot)
    obtain ⟨old, isOld, definition, transform⟩ := isRoot.reaches.resolves
    obtain ⟨resolved, isNew, definition', transform'⟩ := (isPart'.reaches soundAfter).resolves
    rw [moved.path, path] at isNew
    rw [path] at isOld
    refine ⟨resolved, isNew, old, isOld, ?_, ?_⟩
    · rw [definition', definition]
      exact congrArg ShownPart.definitionId moved.shown
    · rw [transform', transform]
      exact congrArg ShownPart.transform moved.shown

/-! ### What names a part -/

/-- A part of the world inside a root. -/
def IsInside (product : ProductModel R) (root : GroupId) (id : OccurrenceId) : Prop :=
  ∃ occurrence, product.occurrences[id]? = some occurrence ∧ PartInside product root occurrence

theorem insideParent_eq_none_iff {product : ProductModel R} {plan : ConvertGroupPlan}
    (sound : Structured product) {id : OccurrenceId} :
    insideParent product plan.groupId id = none ↔ ¬IsInside product plan.groupId id := by
  refine ⟨fun outside isInside => ?_, fun outside => ?_⟩
  · obtain ⟨occurrence, found, parent, isParent, inside⟩ := isInside
    exact nomatch (insideParent_of_inside sound found isParent inside).symm.trans outside
  · exact insideParent_of_outside sound fun occurrence found inside => outside ⟨occurrence, found, inside⟩

/-- The paths that entries of a product name parts by. -/
def Names (product : ProductModel R) (path : InstancePath) : Prop :=
  path ∈ product.instanceTransformOverrides ∨ ∃ reference ∈ product.partReferences, reference.path = path

theorem validateReferences_ok_iff {product : ProductModel R} :
    validateReferences product = .ok () ↔
      (∀ path ∈ product.instanceTransformOverrides, path.endsInOccurrence = true) ∧
        ∀ path, Names product path → resolveProductInstancePath product path ≠ none := by
  unfold validateReferences
  rw [check_ok_iff, forM_ok_iff, forM_ok_iff]
  refine ⟨fun both => ⟨fun path there => ?_, fun path named => ?_⟩, fun both => ⟨fun entry member => ?_,
    fun reference member => ?_⟩⟩
  · obtain ⟨transform, found⟩ := BTreeMap.mem_iff_exists.mp there
    have fine := refuseIf_ok.mp (both.1 (path, transform)
      (Std.ExtTreeMap.mem_toList_iff_getElem?_eq_some.mpr found))
    exact Bool.eq_true_of_not_eq_false fun same => fine (.inl same)
  · rcases named with there | ⟨reference, member, rfl⟩
    · obtain ⟨transform, found⟩ := BTreeMap.mem_iff_exists.mp there
      have fine := refuseIf_ok.mp (both.1 (path, transform)
        (Std.ExtTreeMap.mem_toList_iff_getElem?_eq_some.mpr found))
      exact fun same => fine (.inr same)
    · exact refuseIf_ok.mp (both.2 reference member)
  · have there : entry.1 ∈ product.instanceTransformOverrides := BTreeMap.mem_iff_exists.mpr
      ⟨entry.2, Std.ExtTreeMap.mem_toList_iff_getElem?_eq_some.mp member⟩
    refine refuseIf_ok.mpr fun fails => ?_
    rcases fails with ends | unresolved
    · exact nomatch ends.symm.trans (both.1 entry.1 there)
    · exact both.2 entry.1 (.inl there) unresolved
  · exact refuseIf_ok.mpr (both.2 reference.path (.inr ⟨reference, member, rfl⟩))

/-- What resolves is rooted in a part that is there. -/
theorem rooted_of_resolves {product : ProductModel R} {path : InstancePath}
    (resolves : resolveProductInstancePath product path ≠ none) : path.root ∈ product.occurrences := by
  obtain ⟨definitionId, isDefinition⟩ := Option.ne_none_iff_exists'.mp resolves
  obtain ⟨occurrence, found, -⟩ := Option.bind_eq_some_iff.mp isDefinition
  exact BTreeMap.mem_iff_exists.mpr ⟨occurrence, found⟩

section Outside

variable {product next : ProductModel R} {plan : ConvertGroupPlan} {root : Group R}
  (converted : Converted product plan root next) (sound : Structured product)
  (newDefinitionId : plan.newDefinitionId ∉ product.definitions)

include converted

/-- **A path of a part inside does not resolve any more.** -/
theorem resolveProductInstancePath_inside {path : InstancePath}
    (inside : IsInside product plan.groupId path.root) :
    resolveProductInstancePath next path = none := by
  obtain ⟨occurrence, found, isInside⟩ := inside
  rw [resolveProductInstancePath, (converted.insideOccurrence _ _ found isInside).1]
  rfl

include sound newDefinitionId

theorem resolveProductStep_old {cursor : DefinitionId × Option LocalGroupId}
    (there : cursor.1 ∈ product.definitions) (step : InstancePathStep) :
    resolveProductStep next cursor step = resolveProductStep product cursor step ∧
      ∀ after, resolveProductStep product cursor step = some after → after.1 ∈ product.definitions := by
  have old : cursor.1 ≠ plan.newDefinitionId := fun same => newDefinitionId (same ▸ there)
  cases step with
  | group id =>
    rw [resolveProductStep, resolveProductStep, converted.otherLocalGroup ⟨cursor.1, id⟩ old]
    refine ⟨rfl, fun after ok => ?_⟩
    obtain ⟨group, -, ok⟩ := Option.bind_eq_some_iff.mp ok
    split at ok
    · cases ok
    · obtain rfl := Option.some.inj ok
      exact there
  | occurrence id =>
    rw [resolveProductStep, resolveProductStep, converted.otherLocalOccurrence ⟨cursor.1, id⟩ old]
    refine ⟨rfl, fun after ok => ?_⟩
    obtain ⟨occurrence, found, ok⟩ := Option.bind_eq_some_iff.mp ok
    split at ok
    · cases ok
    · obtain rfl := Option.some.inj ok
      exact (sound.localOccurrence _ _ found).2.1

theorem resolveProductSteps_old {cursor : DefinitionId × Option LocalGroupId}
    (there : cursor.1 ∈ product.definitions) (steps : List InstancePathStep) :
    steps.foldlM (resolveProductStep next) cursor = steps.foldlM (resolveProductStep product) cursor := by
  induction steps generalizing cursor with
  | nil => rfl
  | cons step rest ih =>
    obtain ⟨same, inside⟩ := resolveProductStep_old converted sound newDefinitionId there step
    rw [List.foldlM_cons, List.foldlM_cons, same]
    cases walked : resolveProductStep product cursor step with
    | none => rfl
    | some after => exact ih (inside after walked)

/-- **A path of a part outside resolves as before.** -/
theorem resolveProductInstancePath_outside (newOccurrenceId : plan.newOccurrenceId ∉ product.occurrences)
    {path : InstancePath} (there : path.root ∈ product.occurrences)
    (outside : ¬IsInside product plan.groupId path.root) :
    resolveProductInstancePath next path = resolveProductInstancePath product path := by
  obtain ⟨occurrence, found⟩ := BTreeMap.mem_iff_exists.mp there
  have after : next.occurrences[path.root]? = some occurrence := by
    rw [converted.otherOccurrence path.root (fun same => newOccurrenceId (same ▸ there))
      fun world isWorld inside => outside ⟨world, isWorld, inside⟩, found]
  rw [resolveProductInstancePath, resolveProductInstancePath, found, after]
  have walk : path.steps.foldlM (resolveProductStep next) (occurrence.definitionId, none) =
      path.steps.foldlM (resolveProductStep product) (occurrence.definitionId, none) :=
    resolveProductSteps_old converted sound newDefinitionId (sound.occurrence _ _ found).1 _
  exact congrArg (Option.bind · fun cursor => some cursor.1) walk

end Outside

/-! ### The scene is kept -/

/-- **The scene before a conversion and after it.** -/
structure SceneKept (product : ProductModel R) (plan : ConvertGroupPlan)
    (mappings : List ConversionMapping) (next : ProductModel R) : Prop where
  /-- Both scenes show the same parts, each at the path it was moved to, and after it the component. -/
  same : ∃ before after component, sceneQuery product = .ok before ∧ sceneQuery next = .ok after ∧
    component.definitionId = plan.newDefinitionId ∧
    (after.map SceneOccurrence.instancePath).Nodup ∧
    (after.map fun entry => (entry.instancePath, entry.shown)).Perm
      ((⟨plan.newOccurrenceId, []⟩, component) ::
        before.map fun entry => (movedPath product plan entry.instancePath, entry.shown)) ∧
    -- Parts outside are listed as they were.
    ∀ entry ∈ before, ¬IsInside product plan.groupId entry.instancePath.root → entry ∈ after
  /-- Each part inside has a path told, the one it was moved to. -/
  told : ∀ id, IsInside product plan.groupId id → ∃ mapping ∈ mappings,
    mapping.oldId = .occurrence id ∧
      ∃ newId, mapping.resolution = .resolved newId (movedPath product plan ⟨id, []⟩)
  /-- The path told for each group and part resolves to what it was. -/
  holds : ∀ mapping ∈ mappings, MappingHolds product next mapping

/-- A part inside is named by an entry, which cannot follow it. -/
def CannotFollow (product : ProductModel R) (root : GroupId) : Prop :=
  ∃ path, Names product path ∧ IsInside product root path.root

/-- **A conversion does what it should**: it goes through where all entries can follow, and keeps the
scene. -/
def KeepsScene (product : ProductModel R) (plan : ConvertGroupPlan) : Prop :=
  (CannotFollow product plan.groupId ∨
    ∃ mappings next, convertGroupToComponent product plan = .ok (mappings, next)) ∧
  ∀ mappings next, convertGroupToComponent product plan = .ok (mappings, next) →
    SceneKept product plan mappings next

theorem validateProduct_ok_iff {product : ProductModel R} :
    validateProduct product = .ok () ↔ validateReferences product = .ok () ∧ Structured product := by
  unfold validateProduct
  rw [check_ok_iff, validateStructure_ok_iff]

/-- What goes through and to what. -/
theorem convertGroupToComponent_ok_iff {product next : ProductModel R} {plan : ConvertGroupPlan}
    {mappings : List ConversionMapping} :
    convertGroupToComponent product plan = .ok (mappings, next) ↔
      conversionMappings product plan = .ok mappings ∧
        convertGroupToComponentModel product plan = .ok next ∧ validateProduct next = .ok () := by
  unfold convertGroupToComponent
  rw [bind_ok_iff]
  refine ⟨fun told => ?_, fun all => ⟨mappings, all.1, ?_⟩⟩
  · obtain ⟨told, isTold, ok⟩ := told
    obtain ⟨after, isAfter, ok⟩ := bind_ok ok
    obtain ⟨valid, ok⟩ := check_ok_iff.mp ok
    obtain ⟨rfl, rfl⟩ := Prod.mk.inj (Except.ok.inj ok)
    exact ⟨isTold, isAfter, valid⟩
  · exact (bind_eq_of_ok all.2.1).trans (bind_eq_of_ok all.2.2)

section Valid

variable {product : ProductModel R} {plan : ConvertGroupPlan}
  (valid : validateProduct product = .ok ())

include valid

theorem overridesStay (follows : ¬CannotFollow product plan.groupId) :
    OverridesStay product plan.groupId where
  there path transform found := by
    have named : Names product path := .inl (BTreeMap.mem_iff_exists.mpr ⟨transform, found⟩)
    exact rooted_of_resolves
      ((validateReferences_ok_iff.mp (validateProduct_ok_iff.mp valid).1).2 path named)
  outside path transform found := by
    refine (insideParent_eq_none_iff (validateProduct_ok_iff.mp valid).2).mpr fun inside => follows ?_
    exact ⟨path, .inl (BTreeMap.mem_iff_exists.mpr ⟨transform, found⟩), inside⟩

/-- **A conversion that goes through is clear.** -/
theorem clear_of_converted {next : ProductModel R} {mappings : List ConversionMapping}
    (ok : convertGroupToComponent product plan = .ok (mappings, next)) :
    ∃ root, Clear product plan root next ∧ ¬CannotFollow product plan.groupId := by
  obtain ⟨references, sound⟩ := validateProduct_ok_iff.mp valid
  obtain ⟨-, ok, validAfter⟩ := convertGroupToComponent_ok_iff.mp ok
  obtain ⟨-, newDefinitionId, newOccurrenceId, root, found, rfl⟩ :=
    convertGroupToComponentModel_ok_iff.mp ok
  have converted := converted_descendants root sound newDefinitionId newOccurrenceId
  have follows : ¬CannotFollow product plan.groupId := by
    rintro ⟨path, named, inside⟩
    refine (validateReferences_ok_iff.mp (validateProduct_ok_iff.mp validAfter).1).2 path ?_
      (resolveProductInstancePath_inside converted inside)
    rw [Names, converted.overrides, converted.references]
    exact named
  exact ⟨root, { converted with
    sound, found, newDefinitionId, newOccurrenceId, stay := overridesStay valid follows }, follows⟩

/-- **A conversion that goes through keeps the scene.** -/
theorem sceneKept_of_converted {next : ProductModel R} {mappings : List ConversionMapping}
    (ok : convertGroupToComponent product plan = .ok (mappings, next)) :
    SceneKept product plan mappings next := by
  obtain ⟨root, clear, -⟩ := clear_of_converted valid ok
  obtain ⟨told, -, validAfter⟩ := convertGroupToComponent_ok_iff.mp ok
  have sound := clear.sound
  have soundAfter := (validateProduct_ok_iff.mp validAfter).2
  obtain ⟨before, isBefore⟩ := exists_sceneOf sound fun id => Std.ExtTreeMap.mem_keys.mp
  obtain ⟨after, isAfter⟩ := exists_sceneOf soundAfter fun id => Std.ExtTreeMap.mem_keys.mp
  obtain ⟨outer, above, -⟩ := component_isPart clear.toConverted sound clear.found
  refine ⟨⟨_, _, (componentEntry next plan root outer).shown, sceneQuery_eq sound isBefore,
    sceneQuery_eq soundAfter isAfter, rfl, ?_, ?_, fun entry member outside => ?_⟩, fun id inside => ?_,
    fun mapping => told_holds clear soundAfter told⟩
  · rw [countSharing, List.map_map]
    exact isAfter.nodup_paths soundAfter Std.ExtTreeMap.nodup_keys
  · rw [countSharing, countSharing, List.map_map, List.map_map]
    exact clear.scene_perm above soundAfter isBefore isAfter
  · exact clear.scene_outside soundAfter isBefore isAfter member
      ((insideParent_eq_none_iff sound).mpr outside)
  · obtain ⟨occurrence, found, isInside⟩ := inside
    obtain ⟨groups, resolution, isMapping, -, resolved⟩ := occurrenceMapping_ok plan sound found
    exact ⟨_, (mem_conversionMappings plan told).mpr (.inr ⟨id, occurrence, found, isMapping⟩), rfl,
      resolved isInside⟩

end Valid

/-- A frame in a cabinet, a board in each. The board in the cabinet has the number of the frame. -/
def cabinetProduct (boardId : OccurrenceId) : ProductModel ℤ where
  definitions := (∅ : BTreeMap DefinitionId Definition).insert 1 ⟨"Board", [], ∅, 1, ∅, [], []⟩
  occurrences := (∅ : BTreeMap OccurrenceId (Occurrence ℤ))
    |>.insert 1 ⟨1, "Rail", .identity, some 2, [], true, none⟩
    |>.insert boardId ⟨1, "Side", { Transform.identity with translation := ⟨18, 0, 0⟩ }, some 1, [], true,
      none⟩
  groups := (∅ : BTreeMap GroupId (Group ℤ))
    |>.insert 1 ⟨"Cabinet", { Transform.identity with translation := ⟨0, 600, 0⟩ }, none⟩
    |>.insert 2 ⟨"Frame", .identity, some 1⟩
  localOccurrences := ∅
  localGroups := ∅
  tags := ∅
  instanceTransformOverrides := ∅
  partReferences := []

def cabinetPlan : ConvertGroupPlan := ⟨1, 2, 4, "Cabinet"⟩

end Ketchup.Product
