/-
**The scene after a conversion.**

Each part of the product is a part after the conversion, at the path `movedPath` says, where it was and as
it was, and the component is the one part that is new (`Clear.moved`, `Clear.origin`). So both scenes show
the same parts (`Clear.scene_perm`), those outside unchanged (`Clear.scene_outside`).
-/

import Ketchup.Product.Converted
import Ketchup.Product.Resolution

set_option linter.unusedSectionVars false

namespace Ketchup.Product

variable {R : Type} [Add R] [Mul R] [Zero R] [One R]

/-! ### Where parts go -/

/-- The groups inside a root down to a group. -/
def innerGroups (product : ProductModel R) (root parent : GroupId) : List GroupId :=
  ((groupLineageUp product root parent).toOption.getD []).reverse.drop 1

/-- The group that a part inside a root hangs in. -/
def insideParent (product : ProductModel R) (root : GroupId) (id : OccurrenceId) : Option GroupId :=
  (product.occurrences[id]?.bind Occurrence.parent).filter (groupIsDescendant product root)

/-- **The path of a part after a conversion.** -/
def movedPath (product : ProductModel R) (plan : ConvertGroupPlan) (path : InstancePath) :
    InstancePath :=
  match insideParent product plan.groupId path.root with
  | none => path
  | some parent =>
    { root := plan.newOccurrenceId
      steps := (innerGroups product plan.groupId parent).map .group ++
        .occurrence path.root :: path.steps }

/-- What a scene shows of a part. -/
structure ShownPart (R : Type) where
  definitionId : DefinitionId
  occurrenceName : String
  definitionName : String
  transform : Transform R
  visible : Bool
  color : Option Color

def SceneOccurrence.shown (entry : SceneOccurrence R) : ShownPart R where
  definitionId := entry.definitionId
  occurrenceName := entry.occurrenceName
  definitionName := entry.definitionName
  transform := entry.transform
  visible := entry.visible
  color := entry.color

theorem shown_eq {one two : SceneOccurrence R} (definitionId : one.definitionId = two.definitionId)
    (occurrenceName : one.occurrenceName = two.occurrenceName)
    (definitionName : one.definitionName = two.definitionName)
    (transform : one.transform = two.transform) (visible : one.visible = two.visible)
    (color : one.color = two.color) : one.shown = two.shown := by
  rw [SceneOccurrence.shown, SceneOccurrence.shown, definitionId, occurrenceName, definitionName,
    transform, visible, color]

theorem innerGroups_eq {product : ProductModel R} {root parent : GroupId} {inner outer : List GroupId}
    (ancestry : Ancestry product.groupParent (some parent) (inner ++ root :: outer)) :
    innerGroups product root parent = inner.reverse := by
  rw [innerGroups, groupLineageUp_of_inside ancestry]
  show ((inner ++ [root]).reverse).drop 1 = _
  rw [List.reverse_append, List.reverse_singleton, List.singleton_append, List.drop_one, List.tail_cons]

section Paths

variable {product : ProductModel R} {plan : ConvertGroupPlan} (sound : Structured product)

include sound

theorem insideParent_of_inside {id : OccurrenceId} {occurrence : Occurrence R} {parent : GroupId}
    (found : product.occurrences[id]? = some occurrence) (isParent : occurrence.parent = some parent)
    (inside : Inside product plan.groupId parent) :
    insideParent product plan.groupId id = some parent := by
  rw [insideParent, found, Option.bind_some, isParent, Option.filter_some,
    (groupIsDescendant_iff sound inside.there).mpr inside, if_pos rfl]

theorem insideParent_of_outside {id : OccurrenceId}
    (outside : ∀ occurrence, product.occurrences[id]? = some occurrence →
      ¬PartInside product plan.groupId occurrence) :
    insideParent product plan.groupId id = none := by
  rw [insideParent, Option.filter_eq_none_iff]
  intro parent isParent descends
  obtain ⟨occurrence, found, same⟩ := Option.bind_eq_some_iff.mp isParent
  refine outside occurrence found ⟨parent, same, ?_⟩
  obtain ⟨-, -, lineage, ancestry⟩ := sound.occurrence id occurrence found
  rw [same] at ancestry
  obtain ⟨above, _, known, -⟩ := ancestry.known_head
  exact (groupIsDescendant_iff sound (Std.ExtTreeMap.contains_iff_mem.mp
    (groups_contains_iff.mpr ⟨above, known⟩))).mp descends

end Paths

theorem movedPath_through {product : ProductModel R} {plan : ConvertGroupPlan} {path : InstancePath}
    {groups : List LocalGroupId} {id : LocalOccurrenceId} :
    movedPath product plan (path.through groups id) = (movedPath product plan path).through groups id := by
  have root : (path.through groups id).root = path.root := rfl
  rw [movedPath, movedPath, root]
  cases insideParent product plan.groupId path.root with
  | none => rfl
  | some parent => simp only [InstancePath.through, List.append_assoc, List.cons_append]

/-! ### Parts after a conversion -/

/-- A part is the same part after the conversion, and all of it if it is outside. -/
structure Moved (product : ProductModel R) (plan : ConvertGroupPlan)
    (before after : SceneOccurrence R) : Prop where
  path : after.instancePath = movedPath product plan before.instancePath
  shown : after.shown = before.shown
  outside : insideParent product plan.groupId before.instancePath.root = none → after = before

/-- The part of the component itself. -/
def componentEntry (next : ProductModel R) (plan : ConvertGroupPlan) (root : Group R)
    (outer : List GroupId) : SceneOccurrence R where
  occurrenceId := plan.newOccurrenceId
  instancePath := ⟨plan.newOccurrenceId, []⟩
  definitionId := plan.newDefinitionId
  occurrenceName := plan.componentName
  definitionName := plan.componentName
  transform := (next.groupWorld outer).compose root.transform
  parent := root.parent
  localParent := none
  visible := true
  color := none
  sharedOccurrenceCount := 0

theorem foldl_compose_congr {K : Type} {one two : K → Transform R} {lineage : List K}
    (same : ∀ key ∈ lineage, one key = two key) (start : Transform R) :
    lineage.foldl (fun transform key => transform.compose (one key)) start =
      lineage.foldl (fun transform key => transform.compose (two key)) start := by
  induction lineage generalizing start with
  | nil => rfl
  | cons key rest ih =>
    rw [List.foldl_cons, List.foldl_cons, same key (List.mem_cons_self ..)]
    exact ih (fun other later => same other (List.mem_cons_of_mem _ later)) _

namespace Converted

variable {product next : ProductModel R} {plan : ConvertGroupPlan} {root : Group R}
  (converted : Converted product plan root next)

include converted

/-- Groups outside stay where they are. -/
theorem groupWorld_outside {cursor : Option GroupId} {lineage : List GroupId}
    (ancestry : Ancestry product.groupParent cursor lineage) (off : plan.groupId ∉ lineage) :
    next.groupWorld lineage = product.groupWorld lineage := by
  refine foldl_compose_congr (fun id member => ?_) _
  rw [ProductModel.placement, ProductModel.placement, converted.otherGroup id fun inside => off ?_]
  obtain ⟨before, after, is⟩ := List.append_of_mem (List.mem_reverse.mp member)
  obtain ⟨inner, outer, ancestry'⟩ := inside
  rw [is] at ancestry
  rw [is, ancestry.suffix.unique ancestry']
  exact List.mem_append_right _ (List.mem_append_right _ (List.mem_cons_self ..))

/-- **What is inside is where it was**, the component in place of the group. -/
theorem groupWorld_inside {parent : GroupId} {inner outer : List GroupId}
    (found : product.groups[plan.groupId]? = some root)
    (ancestry : Ancestry product.groupParent (some parent) (inner ++ plan.groupId :: outer)) :
    next.localGroupWorld plan.newDefinitionId ((next.groupWorld outer).compose root.transform) inner =
      product.groupWorld (inner ++ plan.groupId :: outer) := by
  have above : Ancestry product.groupParent (some plan.groupId) (plan.groupId :: outer) :=
    ancestry.suffix
  have distinct := above.nodup
  obtain ⟨_, _, -, rest, is⟩ := above.known_head
  obtain rfl := (List.cons.inj is).2
  have placed : product.placement plan.groupId = root.transform := by
    rw [ProductModel.placement, found]
    rfl
  rw [converted.groupWorld_outside rest (List.nodup_cons.mp distinct).1]
  unfold ProductModel.localGroupWorld ProductModel.groupWorld
  rw [List.reverse_append, List.reverse_cons, List.foldl_append, List.foldl_append, List.foldl_cons,
    List.foldl_nil, placed]
  refine foldl_compose_congr (fun id member => ?_) _
  obtain ⟨before, after, is⟩ := List.append_of_mem (List.mem_reverse.mp member)
  have chain : Ancestry product.groupParent (some id) (id :: after ++ plan.groupId :: outer) := by
    rw [is, List.append_assoc] at ancestry
    exact ancestry.suffix
  have inside : Inside product plan.groupId id := ⟨_, _, chain⟩
  have other : id ≠ plan.groupId := by
    rintro rfl
    exact (List.nodup_cons.mp chain.nodup).1 (List.mem_append_right _ (List.mem_cons_self ..))
  obtain ⟨world, isWorld⟩ := BTreeMap.mem_iff_exists.mp inside.there
  rw [ProductModel.localPlacement, ProductModel.placement, isWorld,
    (converted.insideGroup id world isWorld inside).2 other]
  rfl

end Converted

/-- **What is moved stays apart**: each override is of a part that is there and is not inside. -/
structure OverridesStay (product : ProductModel R) (root : GroupId) : Prop where
  there : ∀ (path : InstancePath) transform, product.instanceTransformOverrides[path]? = some transform →
    path.root ∈ product.occurrences
  outside : ∀ (path : InstancePath) transform, product.instanceTransformOverrides[path]? = some transform →
    insideParent product root path.root = none

theorem movedPath_of_outside {product : ProductModel R} {plan : ConvertGroupPlan} {path : InstancePath}
    (outside : insideParent product plan.groupId path.root = none) :
    movedPath product plan path = path := by
  rw [movedPath, outside]

theorem movedPath_root_of_inside {product : ProductModel R} {plan : ConvertGroupPlan}
    {path : InstancePath} {parent : GroupId}
    (inside : insideParent product plan.groupId path.root = some parent) :
    (movedPath product plan path).root = plan.newOccurrenceId := by
  rw [movedPath, inside]

/-- What the group hangs in is above it in each lineage. -/
theorem outer_unique {product : ProductModel R} {plan : ConvertGroupPlan} {root : Group R}
    (found : product.groups[plan.groupId]? = some root) {cursor : Option GroupId}
    {inner outer outer' : List GroupId}
    (ancestry : Ancestry product.groupParent cursor (inner ++ plan.groupId :: outer))
    (above : Ancestry product.groupParent root.parent outer') : outer = outer' := by
  obtain ⟨_, rest, known, above', is⟩ := ancestry.suffix.known_head
  obtain rfl := (List.cons.inj is).2
  rw [ProductModel.groupParent, found] at known
  obtain rfl := Option.some.inj known
  exact above'.unique above

section Parts

variable {product next : ProductModel R} {plan : ConvertGroupPlan} {root : Group R}
  (converted : Converted product plan root next) (sound : Structured product)
  (found : product.groups[plan.groupId]? = some root)
  (newDefinitionId : plan.newDefinitionId ∉ product.definitions)
  (newOccurrenceId : plan.newOccurrenceId ∉ product.occurrences)
  (stay : OverridesStay product plan.groupId)

include converted

/-- The override of a moved part is that of the part. -/
theorem override_moved (newOccurrenceId : plan.newOccurrenceId ∉ product.occurrences)
    (stay : OverridesStay product plan.groupId) (path : InstancePath) :
    next.instanceTransformOverrides[movedPath product plan path]? =
      product.instanceTransformOverrides[path]? := by
  rw [converted.overrides]
  cases inside : insideParent product plan.groupId path.root with
  | none => rw [movedPath_of_outside inside]
  | some parent =>
    have before : product.instanceTransformOverrides[path]? = none := by
      by_contra there
      obtain ⟨transform, isThere⟩ := Option.ne_none_iff_exists'.mp there
      exact nomatch inside.symm.trans (stay.outside path transform isThere)
    have after : product.instanceTransformOverrides[movedPath product plan path]? = none := by
      by_contra there
      obtain ⟨transform, isThere⟩ := Option.ne_none_iff_exists'.mp there
      exact newOccurrenceId (movedPath_root_of_inside inside ▸ stay.there _ transform isThere)
    rw [before, after]

include sound

/-- The component is a part. -/
theorem component_isPart (found : product.groups[plan.groupId]? = some root) :
    ∃ outer, Ancestry product.groupParent root.parent outer ∧
      IsRootPart next plan.newOccurrenceId (componentEntry next plan root outer) := by
  obtain ⟨_, _, -, -, -, isNew⟩ := converted.definition
  obtain ⟨outer, before, after⟩ := converted.component_lineage sound found
  exact ⟨outer, before, .intro converted.component isNew after⟩

/-- **A part outside stays.** -/
theorem rootPart_outside (newOccurrenceId : plan.newOccurrenceId ∉ product.occurrences)
    (newDefinitionId : plan.newDefinitionId ∉ product.definitions) {id : OccurrenceId}
    {occurrence : Occurrence R} (isThere : product.occurrences[id]? = some occurrence)
    (outside : ¬PartInside product plan.groupId occurrence) {entry : SceneOccurrence R}
    (isPart : IsRootPart product id entry) :
    IsRootPart next id entry ∧ Moved product plan entry entry := by
  obtain ⟨isThere', isDefinition, ancestry⟩ := isPart
  rename_i definition lineage
  obtain rfl := Option.some.inj (isThere.symm.trans isThere')
  have other : id ≠ plan.newOccurrenceId := by
    rintro rfl
    exact newOccurrenceId (BTreeMap.mem_iff_exists.mpr ⟨occurrence, isThere⟩)
  have old : occurrence.definitionId ≠ plan.newDefinitionId := fun same =>
    newDefinitionId (same ▸ BTreeMap.mem_iff_exists.mpr ⟨definition, isDefinition⟩)
  have each : ∀ world, product.occurrences[id]? = some world →
      ¬PartInside product plan.groupId world := by
    intro world isWorld
    rwa [← Option.some.inj (isThere.symm.trans isWorld)]
  have after : next.occurrences[id]? = some occurrence := by
    rw [converted.otherOccurrence id other each, isThere]
  have after' : next.definitions[occurrence.definitionId]? = some definition := by
    rw [converted.otherDefinition _ old, isDefinition]
  have off : plan.groupId ∉ lineage := fun on => by
    cases isParent : occurrence.parent with
    | none =>
      rw [isParent] at ancestry
      cases ancestry
      cases on
    | some parent => exact outside ⟨parent, isParent, .of_mem (isParent ▸ ancestry) on⟩
  refine ⟨?_, ?_, rfl, fun _ => rfl⟩
  · have part := IsRootPart.intro after after' (converted.lineage ancestry off)
    rw [converted.groupWorld_outside ancestry off] at part
    rw [rootEntry, allTagsVisible, ← converted.tags]
    exact part
  · exact (movedPath_of_outside (insideParent_of_outside sound each)).symm

/-- **A part inside is inside the component.** -/
theorem rootPart_inside (found : product.groups[plan.groupId]? = some root)
    (newOccurrenceId : plan.newOccurrenceId ∉ product.occurrences)
    (newDefinitionId : plan.newDefinitionId ∉ product.definitions)
    (stay : OverridesStay product plan.groupId) {outer : List GroupId}
    (above : Ancestry product.groupParent root.parent outer) {id : OccurrenceId}
    {occurrence : Occurrence R} (isThere : product.occurrences[id]? = some occurrence)
    (inside : PartInside product plan.groupId occurrence) {entry : SceneOccurrence R}
    (isPart : IsRootPart product id entry) :
    ∃ moved, IsLocalPart next (componentEntry next plan root outer) id moved ∧
      Moved product plan entry moved := by
  obtain ⟨isThere', isDefinition, ancestry⟩ := isPart
  rename_i definition lineage
  obtain rfl := Option.some.inj (isThere.symm.trans isThere')
  obtain ⟨parent, isParent, inner, outer', isLineage⟩ := inside
  have inside : Inside product plan.groupId parent := ⟨inner, outer', isLineage⟩
  rw [isParent] at ancestry
  obtain rfl := ancestry.unique isLineage
  obtain rfl := (outer_unique found isLineage above).symm
  have old : occurrence.definitionId ≠ plan.newDefinitionId := fun same =>
    newDefinitionId (same ▸ BTreeMap.mem_iff_exists.mpr ⟨definition, isDefinition⟩)
  have after : next.definitions[occurrence.definitionId]? = some definition := by
    rw [converted.otherDefinition _ old, isDefinition]
  have isInside := insideParent_of_inside sound isThere isParent inside
  have path : movedPath product plan ⟨id, []⟩ =
      (componentEntry next plan root outer).instancePath.through inner.reverse id := by
    rw [movedPath, isInside]
    exact congrArg (fun groups => InstancePath.mk _ (List.map _ groups ++ _)) (innerGroups_eq isLineage)
  have override : next.instanceTransformOverrides[
      (componentEntry next plan root outer).instancePath.through inner.reverse id]? = none := by
    rw [← path, override_moved converted newOccurrenceId stay]
    by_contra there
    obtain ⟨transform, isOverride⟩ := Option.ne_none_iff_exists'.mp there
    exact nomatch isInside.symm.trans (stay.outside _ _ isOverride)
  have isLocal := (converted.insideOccurrence id occurrence isThere ⟨parent, isParent, inside⟩).2
  have chain : Ancestry (next.localGroupParent plan.newDefinitionId)
      (occurrence.toLocal plan.groupId).parent inner := by
    rw [Occurrence.toLocal, isParent]
    exact converted.localLineage isLineage
  refine ⟨_, .intro isLocal after chain, path.symm, ?_, fun outside => nomatch isInside.symm.trans outside⟩
  refine shown_eq rfl rfl rfl ?_ ?_ ?_
  · show Transform.compose _ (Option.getD _ _) = _
    rw [override]
    exact congrArg (Transform.compose · occurrence.transform) (converted.groupWorld_inside found isLineage)
  · show (true && occurrence.visible && allTagsVisible next occurrence.tags) = _
    rw [Bool.true_and, allTagsVisible, converted.tags]
    rfl
  · exact Option.none_or

/-- **What is inside a part stays inside it.** -/
theorem localPart_moved (newOccurrenceId : plan.newOccurrenceId ∉ product.occurrences)
    (newDefinitionId : plan.newDefinitionId ∉ product.definitions)
    (stay : OverridesStay product plan.groupId) {owner owner' entry : SceneOccurrence R}
    (moved : Moved product plan owner owner') (there : owner.definitionId ∈ product.definitions)
    {id : LocalOccurrenceId} (isPart : IsLocalPart product owner id entry) :
    ∃ entry', IsLocalPart next owner' id entry' ∧ Moved product plan entry entry' := by
  obtain ⟨isThere, isDefinition, ancestry⟩ := isPart
  rename_i occurrence definition lineage
  have same : owner'.definitionId = owner.definitionId :=
    congrArg ShownPart.definitionId moved.shown
  have old : owner.definitionId ≠ plan.newDefinitionId := fun is => newDefinitionId (is ▸ there)
  have old' : occurrence.definitionId ≠ plan.newDefinitionId := fun is =>
    newDefinitionId (is ▸ BTreeMap.mem_iff_exists.mpr ⟨definition, isDefinition⟩)
  have after : next.localOccurrences[(⟨owner'.definitionId, id⟩ : LocalOccurrenceKey)]? =
      some occurrence := by
    rw [same, converted.otherLocalOccurrence ⟨owner.definitionId, id⟩ old, isThere]
  have after' : next.definitions[occurrence.definitionId]? = some definition := by
    rw [converted.otherDefinition _ old', isDefinition]
  have chain : Ancestry (next.localGroupParent owner'.definitionId) occurrence.parent lineage := by
    rw [same, converted.otherLocalGroupParent old]
    exact ancestry
  have path : owner'.instancePath.through lineage.reverse id =
      movedPath product plan (owner.instancePath.through lineage.reverse id) := by
    rw [moved.path, movedPath_through]
  have override := override_moved converted newOccurrenceId stay
    (owner.instancePath.through lineage.reverse id)
  rw [← path] at override
  have groups : next.localGroupWorld owner'.definitionId owner'.transform lineage =
      product.localGroupWorld owner.definitionId owner.transform lineage := by
    rw [same, show owner'.transform = owner.transform from congrArg ShownPart.transform moved.shown]
    refine foldl_compose_congr (fun key _ => ?_) _
    rw [ProductModel.localPlacement, converted.otherLocalGroup ⟨owner.definitionId, key⟩ old]
    rfl
  have tags : allTagsVisible next occurrence.tags = allTagsVisible product occurrence.tags := by
    rw [allTagsVisible, converted.tags]
    rfl
  refine ⟨_, .intro after after' chain, path, shown_eq rfl rfl rfl ?_ ?_ ?_, fun outside => ?_⟩
  · show Transform.compose _ (Option.getD _ _) = Transform.compose _ (Option.getD _ _)
    rw [override, groups]
  · show (owner'.visible && _ && _) = (owner.visible && _ && _)
    rw [tags, show owner'.visible = owner.visible from congrArg ShownPart.visible moved.shown]
  · show owner'.color.or _ = owner.color.or _
    rw [show owner'.color = owner.color from congrArg ShownPart.color moved.shown]
  · obtain rfl := moved.outside outside
    rw [localEntry, localEntry, override, groups, tags]

end Parts

theorem IsPart.there {product : ProductModel R} {entry : SceneOccurrence R}
    (isPart : IsPart product entry) : entry.definitionId ∈ product.definitions := by
  cases isPart with
  | root isRoot =>
    obtain ⟨-, isDefinition, -⟩ := isRoot
    exact BTreeMap.mem_iff_exists.mpr ⟨_, isDefinition⟩
  | inside _ isLocal =>
    obtain ⟨-, isDefinition, -⟩ := isLocal
    exact BTreeMap.mem_iff_exists.mpr ⟨_, isDefinition⟩

theorem IsPart.rooted {product : ProductModel R} {entry : SceneOccurrence R}
    (isPart : IsPart product entry) : entry.instancePath.root ∈ product.occurrences := by
  induction isPart with
  | root isRoot =>
    obtain ⟨isThere, -, -⟩ := isRoot
    exact BTreeMap.mem_iff_exists.mpr ⟨_, isThere⟩
  | inside _ isLocal ih =>
    obtain ⟨root, -⟩ := isLocal.under
    rw [root]
    exact ih

/-- A conversion of a sound product with fresh ids that no override stands in the way of. -/
structure Clear (product : ProductModel R) (plan : ConvertGroupPlan) (root : Group R)
    (next : ProductModel R) : Prop extends Converted product plan root next where
  sound : Structured product
  found : product.groups[plan.groupId]? = some root
  newDefinitionId : plan.newDefinitionId ∉ product.definitions
  newOccurrenceId : plan.newOccurrenceId ∉ product.occurrences
  stay : OverridesStay product plan.groupId

namespace Clear

variable {product next : ProductModel R} {plan : ConvertGroupPlan} {root : Group R}
  (clear : Clear product plan root next)

include clear

/-- **Each part is a part after the conversion.** -/
theorem moved {entry : SceneOccurrence R} (isPart : IsPart product entry) :
    ∃ entry', IsPart next entry' ∧ Moved product plan entry entry' := by
  have ⟨converted, sound, found, newDefinitionId, newOccurrenceId, stay⟩ := clear
  induction isPart with
  | @root id entry isRoot =>
    obtain ⟨occurrence, isThere⟩ : ∃ occurrence, product.occurrences[id]? = some occurrence := by
      obtain ⟨isThere, -, -⟩ := isRoot
      exact ⟨_, isThere⟩
    by_cases inside : PartInside product plan.groupId occurrence
    · obtain ⟨outer, above, isComponent⟩ := component_isPart converted sound found
      obtain ⟨entry', isLocal, moved⟩ := rootPart_inside converted sound found newOccurrenceId
        newDefinitionId stay above isThere inside isRoot
      exact ⟨entry', .inside (.root isComponent) isLocal, moved⟩
    · obtain ⟨isRoot, moved⟩ := rootPart_outside converted sound newOccurrenceId newDefinitionId
        isThere inside isRoot
      exact ⟨entry, .root isRoot, moved⟩
  | inside isOwner isLocal ih =>
    obtain ⟨owner', isOwner', moved⟩ := ih
    obtain ⟨entry', isLocal', moved'⟩ := localPart_moved converted sound newOccurrenceId
      newDefinitionId stay moved isOwner.there isLocal
    exact ⟨entry', .inside isOwner' isLocal', moved'⟩

/-- **Each part after the conversion was a part**, but for the component itself. -/
theorem origin {outer : List GroupId} (above : Ancestry product.groupParent root.parent outer)
    {entry' : SceneOccurrence R} (isPart : IsPart next entry') :
    entry' = componentEntry next plan root outer ∨
      ∃ entry, IsPart product entry ∧ Moved product plan entry entry' := by
  have ⟨converted, sound, found, newDefinitionId, newOccurrenceId, stay⟩ := clear
  obtain ⟨outer', above', isComponent⟩ := component_isPart converted sound found
  obtain rfl := above.unique above'
  induction isPart with
  | @root id entry' isRoot =>
    by_cases new : id = plan.newOccurrenceId
    · subst new
      exact .inl (isRoot.unique isComponent)
    · obtain ⟨occurrence, after⟩ : ∃ occurrence, next.occurrences[id]? = some occurrence := by
        obtain ⟨isThere, -, -⟩ := isRoot
        exact ⟨_, isThere⟩
      obtain ⟨isThere, outside⟩ := converted.old_occurrence after new
      obtain ⟨entry, isRoot', -⟩ := exists_isRootPart sound
        (BTreeMap.mem_iff_exists.mpr ⟨occurrence, isThere⟩)
      obtain ⟨isRoot'', moved⟩ := rootPart_outside converted sound newOccurrenceId newDefinitionId
        isThere outside isRoot'
      obtain rfl := isRoot.unique isRoot''
      exact .inr ⟨_, .root isRoot', moved⟩
  | @inside owner' entry' id isOwner isLocal ih =>
    obtain ⟨occurrence, after⟩ : ∃ occurrence, next.localOccurrences[
        (⟨owner'.definitionId, id⟩ : LocalOccurrenceKey)]? = some occurrence := by
      obtain ⟨isThere, -, -⟩ := isLocal
      exact ⟨_, isThere⟩
    rcases ih with rfl | ⟨owner, isOwner, moved⟩
    · obtain ⟨world, isThere, inside, -⟩ := converted.newLocalOccurrence id occurrence after
      obtain ⟨entry, isRoot, -⟩ := exists_isRootPart sound
        (BTreeMap.mem_iff_exists.mpr ⟨world, isThere⟩)
      obtain ⟨moved, isLocal', isMoved⟩ := rootPart_inside converted sound found newOccurrenceId
        newDefinitionId stay above isThere inside isRoot
      obtain rfl := isLocal.unique isLocal'
      exact .inr ⟨entry, .root isRoot, isMoved⟩
    · have there := isOwner.there
      have same : owner'.definitionId = owner.definitionId :=
        congrArg ShownPart.definitionId moved.shown
      rw [same, converted.otherLocalOccurrence ⟨owner.definitionId, id⟩
        fun is => newDefinitionId (is ▸ there)] at after
      obtain ⟨definition, isDefinition⟩ := BTreeMap.mem_iff_exists.mp there
      obtain ⟨definition', isDefinition', listed⟩ := lists_iff.mp (sound.localOccurrence _ _ after).1
      obtain rfl := Option.some.inj (isDefinition.symm.trans isDefinition')
      obtain ⟨entry, isLocal', -⟩ := exists_isLocalPart sound isDefinition listed
      obtain ⟨moved', isLocal'', isMoved⟩ := localPart_moved converted sound newOccurrenceId
        newDefinitionId stay moved there isLocal'
      obtain rfl := isLocal.unique isLocal''
      exact .inr ⟨entry, .inside isOwner isLocal', isMoved⟩

/-- No two parts come to one path. -/
theorem movedPath_injective {path path' : InstancePath} (there : path.root ∈ product.occurrences)
    (there' : path'.root ∈ product.occurrences)
    (same : movedPath product plan path = movedPath product plan path') : path = path' := by
  have new := clear.newOccurrenceId
  cases inside : insideParent product plan.groupId path.root with
  | none =>
    rw [movedPath_of_outside inside] at same
    cases inside' : insideParent product plan.groupId path'.root with
    | none => rwa [movedPath_of_outside inside'] at same
    | some parent' =>
      rw [same, movedPath_root_of_inside inside'] at there
      exact absurd there new
  | some parent =>
    have isRoot := movedPath_root_of_inside inside
    cases inside' : insideParent product plan.groupId path'.root with
    | none =>
      rw [same, movedPath_of_outside inside'] at isRoot
      exact absurd (isRoot ▸ there') new
    | some parent' =>
      rw [movedPath, movedPath, inside, inside'] at same
      have steps := congrArg InstancePath.steps same
      have isRoot := first_occurrence_unique steps
      rw [isRoot, inside'] at inside
      obtain rfl := Option.some.inj inside
      have rest := (List.cons.inj (List.append_cancel_left steps)).2
      obtain ⟨root, steps⟩ := path
      exact InstancePath.mk.injEq .. ▸ ⟨isRoot, rest⟩

/-- The component is at no moved path. -/
theorem movedPath_ne {path : InstancePath} (there : path.root ∈ product.occurrences) :
    movedPath product plan path ≠ ⟨plan.newOccurrenceId, []⟩ := by
  intro same
  cases inside : insideParent product plan.groupId path.root with
  | none =>
    rw [movedPath_of_outside inside] at same
    rw [same] at there
    exact clear.newOccurrenceId there
  | some parent =>
    rw [movedPath, inside] at same
    exact List.append_ne_nil_of_right_ne_nil _ (List.cons_ne_nil _ _) (congrArg InstancePath.steps same)

/-- **The parts after are those before at their new paths, and the component.** -/
theorem scene_perm {before after : List (SceneOccurrence R)} {outer : List GroupId}
    (above : Ancestry product.groupParent root.parent outer) (soundAfter : Structured next)
    (isBefore : SceneOf product product.occurrences.keys before)
    (isAfter : SceneOf next next.occurrences.keys after) :
    (after.map fun entry => (entry.instancePath, entry.shown)).Perm
      ((⟨plan.newOccurrenceId, []⟩, (componentEntry next plan root outer).shown) ::
        before.map fun entry => (movedPath product plan entry.instancePath, entry.shown)) := by
  have distinct := isBefore.nodup_paths clear.sound Std.ExtTreeMap.nodup_keys
  have distinct' := isAfter.nodup_paths soundAfter Std.ExtTreeMap.nodup_keys
  have rooted : ∀ entry ∈ before, entry.instancePath.root ∈ product.occurrences := fun entry member =>
    (isBefore.isPart entry member).rooted
  refine (List.perm_ext_iff_of_nodup ?_ ?_).mpr fun shown => ⟨fun member => ?_, fun member => ?_⟩
  · rw [show SceneOccurrence.instancePath = Prod.fst ∘
      fun entry : SceneOccurrence R => (entry.instancePath, entry.shown) from rfl, ← List.map_map] at distinct'
    exact distinct'.of_map _
  · refine List.nodup_cons.mpr ⟨fun member => ?_, ?_⟩
    · obtain ⟨entry, isEntry, same⟩ := List.mem_map.mp member
      exact clear.movedPath_ne (rooted entry isEntry) (Prod.mk.inj same).1
    · refine List.Nodup.of_map Prod.fst ?_
      rw [List.map_map]
      have inj := List.Nodup.map_on (f := movedPath product plan) (fun path isPath path' isPath' same => ?_) distinct
      · rw [List.map_map] at inj
        exact inj
      · obtain ⟨entry, isEntry, rfl⟩ := List.mem_map.mp isPath
        obtain ⟨entry', isEntry', rfl⟩ := List.mem_map.mp isPath'
        exact clear.movedPath_injective (rooted entry isEntry) (rooted entry' isEntry') same
  · obtain ⟨entry', isEntry, rfl⟩ := List.mem_map.mp member
    rcases clear.origin above (isAfter.isPart entry' isEntry) with rfl | ⟨entry, isPart, moved⟩
    · exact List.mem_cons_self ..
    · refine List.mem_cons_of_mem _ (List.mem_map.mpr ⟨entry, ?_, ?_⟩)
      · exact (mem_scene_iff clear.sound isBefore).mpr isPart
      · rw [moved.path, moved.shown]
  · rcases List.mem_cons.mp member with rfl | later
    · obtain ⟨outer', above', isComponent⟩ := component_isPart clear.toConverted clear.sound clear.found
      obtain rfl := above.unique above'
      exact List.mem_map.mpr ⟨_, (mem_scene_iff soundAfter isAfter).mpr (.root isComponent), rfl⟩
    · obtain ⟨entry, isEntry, rfl⟩ := List.mem_map.mp later
      obtain ⟨entry', isPart, moved⟩ := clear.moved (isBefore.isPart entry isEntry)
      refine List.mem_map.mpr ⟨entry', (mem_scene_iff soundAfter isAfter).mpr isPart, ?_⟩
      rw [moved.path, moved.shown]

/-- **Parts outside are listed as they were**, with as many that share their definition. -/
theorem scene_outside {before after : List (SceneOccurrence R)} (soundAfter : Structured next)
    (isBefore : SceneOf product product.occurrences.keys before)
    (isAfter : SceneOf next next.occurrences.keys after) {entry : SceneOccurrence R}
    (member : entry ∈ countSharing before)
    (outside : insideParent product plan.groupId entry.instancePath.root = none) :
    entry ∈ countSharing after := by
  obtain ⟨outer, above, -⟩ := component_isPart clear.toConverted clear.sound clear.found
  have perm := (clear.scene_perm above soundAfter isBefore isAfter).map fun shown => shown.2.definitionId
  rw [List.map_map, List.map_cons, List.map_map] at perm
  obtain ⟨world, isWorld, rfl⟩ := List.mem_map.mp member
  have isPart := isBefore.isPart world isWorld
  obtain ⟨moved, isMoved, is⟩ := clear.moved isPart
  obtain rfl := is.outside outside
  refine List.mem_map.mpr ⟨moved, (mem_scene_iff soundAfter isAfter).mpr isMoved, ?_⟩
  have counts := perm.countP_eq fun id => decide (id = moved.definitionId)
  have other : plan.newDefinitionId ≠ moved.definitionId := fun same =>
    clear.newDefinitionId (same ▸ isPart.there)
  rw [List.countP_map, List.countP_cons_of_neg (by exact fun same => other (of_decide_eq_true same)),
    List.countP_map] at counts
  exact congrArg (fun count => { moved with sharedOccurrenceCount := count }) counts

end Clear

end Ketchup.Product
