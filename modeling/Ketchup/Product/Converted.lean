/-
**The product after a conversion.**

`Converted` says what each collection of the product holds after a group became a component: what is inside
the group is gone from the world and is inside the new definition, all else is as it was. The product is
sound again where no group inside shares its number with a part (`Converted.structured`), and only there
(`Converted.apart_of_structured`).
-/

import Ketchup.Product.Conversion

set_option linter.unusedSectionVars false

namespace Ketchup.Product

variable {R : Type}

/-! ### What is inside a group -/

/-- The group is inside a root, or is the root. -/
def Inside (product : ProductModel R) (root id : GroupId) : Prop :=
  ∃ inner outer, Ancestry product.groupParent (some id) (inner ++ root :: outer)

theorem parentOrNone_eq {product : ProductModel R} (id : GroupId) (parent : Option GroupId)
    (isParent : product.groupParent id = some parent) : product.parentOrNone id = parent := by
  rw [ProductModel.parentOrNone, isParent]
  rfl

theorem groupLineageUp_of_inside {product : ProductModel R} {root id : GroupId}
    {inner outer : List GroupId}
    (ancestry : Ancestry product.groupParent (some id) (inner ++ root :: outer)) :
    groupLineageUp product root id = .ok (inner ++ [root]) := by
  have length := ancestry.length_le groupParent_listed
  rw [Std.ExtTreeMap.length_keys, List.length_append, List.length_cons] at length
  exact climbTo_of_ancestry parentOrNone_eq ancestry (by omega) fun _ _ => List.not_mem_nil

theorem groupIsDescendant_iff {product : ProductModel R} (sound : Structured product)
    {root id : GroupId} (there : id ∈ product.groups) :
    groupIsDescendant product root id = true ↔ Inside product root id := by
  refine ⟨fun descends => ?_, fun inside => ?_⟩
  · obtain ⟨lineage, ancestry⟩ := sound.group id there
    by_cases on : root ∈ lineage
    · obtain ⟨inner, outer, rfl⟩ := List.append_of_mem on
      exact ⟨inner, outer, ancestry⟩
    · have apart : groupLineageUp product root id = .error (.error .invalidLocalGraph) :=
        climbTo_apart parentOrNone_eq ancestry on fun _ _ => List.not_mem_nil
      rw [groupIsDescendant, apart] at descends
      cases descends
  · obtain ⟨inner, outer, ancestry⟩ := inside
    rw [groupIsDescendant, groupLineageUp_of_inside ancestry]
    rfl

/-- A part is inside a root. -/
def PartInside (product : ProductModel R) (root : GroupId) (occurrence : Occurrence R) : Prop :=
  ∃ parent, occurrence.parent = some parent ∧ Inside product root parent

theorem Inside.there {product : ProductModel R} {root id : GroupId} (inside : Inside product root id) :
    id ∈ product.groups := by
  obtain ⟨inner, outer, ancestry⟩ := inside
  obtain ⟨parent, rest, known, -⟩ := ancestry.known_head
  exact Std.ExtTreeMap.contains_iff_mem.mp (groups_contains_iff.mpr ⟨parent, known⟩)

/-! ### The converted product -/

/-- **The product after a conversion**, by what is found in it. -/
structure Converted (product : ProductModel R) (plan : ConvertGroupPlan) (root : Group R)
    (next : ProductModel R) : Prop where
  definition : ∃ localOccurrenceIds localGroupIds, (localOccurrenceIds.Nodup ∧ localGroupIds.Nodup) ∧
    (∀ id, id ∈ localOccurrenceIds ↔ ∃ occurrence, product.occurrences[id]? = some occurrence ∧
      PartInside product plan.groupId occurrence) ∧
    (∀ id, id ∈ localGroupIds ↔ Inside product plan.groupId id ∧ id ≠ plan.groupId) ∧
    next.definitions[plan.newDefinitionId]? = some { newDefinition plan.componentName with
      localOccurrenceIds, localGroupIds }
  otherDefinition : ∀ id, id ≠ plan.newDefinitionId → next.definitions[id]? = product.definitions[id]?
  component : next.occurrences[plan.newOccurrenceId]? = some {
    definitionId := plan.newDefinitionId
    name := plan.componentName
    transform := root.transform
    parent := root.parent
    tags := []
    visible := true
    color := none }
  insideOccurrence : ∀ id occurrence, product.occurrences[id]? = some occurrence →
    PartInside product plan.groupId occurrence → next.occurrences[id]? = none ∧
      next.localOccurrences[(⟨plan.newDefinitionId, id⟩ : LocalOccurrenceKey)]? =
        some (occurrence.toLocal plan.groupId)
  otherOccurrence : ∀ id, id ≠ plan.newOccurrenceId →
    (∀ occurrence, product.occurrences[id]? = some occurrence →
      ¬PartInside product plan.groupId occurrence) → next.occurrences[id]? = product.occurrences[id]?
  insideGroup : ∀ id group, product.groups[id]? = some group → Inside product plan.groupId id →
    next.groups[id]? = none ∧ (id ≠ plan.groupId →
      next.localGroups[(⟨plan.newDefinitionId, id⟩ : LocalGroupKey)]? =
        some (group.toLocal plan.groupId))
  otherGroup : ∀ id, ¬Inside product plan.groupId id → next.groups[id]? = product.groups[id]?
  otherLocalOccurrence : ∀ key : LocalOccurrenceKey, key.definitionId ≠ plan.newDefinitionId →
    next.localOccurrences[key]? = product.localOccurrences[key]?
  newLocalOccurrence : ∀ id occurrence,
    next.localOccurrences[(⟨plan.newDefinitionId, id⟩ : LocalOccurrenceKey)]? = some occurrence →
      ∃ world, product.occurrences[id]? = some world ∧ PartInside product plan.groupId world ∧
        occurrence = world.toLocal plan.groupId
  otherLocalGroup : ∀ key : LocalGroupKey, key.definitionId ≠ plan.newDefinitionId →
    next.localGroups[key]? = product.localGroups[key]?
  newLocalGroup : ∀ id group,
    next.localGroups[(⟨plan.newDefinitionId, id⟩ : LocalGroupKey)]? = some group →
      ∃ world, product.groups[id]? = some world ∧ Inside product plan.groupId id ∧
        id ≠ plan.groupId ∧ group = world.toLocal plan.groupId
  tags : next.tags = product.tags
  overrides : next.instanceTransformOverrides = product.instanceTransformOverrides
  references : next.partReferences = product.partReferences

section Lookups

variable {product : ProductModel R} {plan : ConvertGroupPlan} {root : Group R} {groups : List GroupId}
  (isInside : ∀ id, groups.contains id = true ↔ Inside product plan.groupId id)

include isInside

theorem mem_occurrencesIn {entry : OccurrenceId × Occurrence R} :
    entry ∈ occurrencesIn product groups ↔
      product.occurrences[entry.1]? = some entry.2 ∧ PartInside product plan.groupId entry.2 := by
  rw [occurrencesIn, List.mem_filter, Option.any_eq_true]
  simp only [isInside]
  exact and_congr_left fun _ => Std.ExtTreeMap.mem_toList_iff_getElem?_eq_some

theorem mem_groupsIn {entry : GroupId × Group R} :
    entry ∈ groupsIn product groups plan.groupId ↔ product.groups[entry.1]? = some entry.2 ∧
      Inside product plan.groupId entry.1 ∧ entry.1 ≠ plan.groupId := by
  rw [groupsIn, List.mem_filter, Bool.and_eq_true, isInside, decide_eq_true_iff]
  exact and_congr_left fun _ => Std.ExtTreeMap.mem_toList_iff_getElem?_eq_some

theorem mem_occurrencesIn_ids {id : OccurrenceId} :
    id ∈ (occurrencesIn product groups).map Prod.fst ↔ ∃ occurrence,
      product.occurrences[id]? = some occurrence ∧ PartInside product plan.groupId occurrence := by
  refine ⟨fun member => ?_, fun there => ?_⟩
  · obtain ⟨entry, isEntry, rfl⟩ := List.mem_map.mp member
    exact ⟨entry.2, (mem_occurrencesIn isInside).mp isEntry⟩
  · obtain ⟨occurrence, both⟩ := there
    exact List.mem_map.mpr ⟨(id, occurrence), (mem_occurrencesIn isInside).mpr both, rfl⟩

theorem mem_groupsIn_ids {id : GroupId} :
    id ∈ (groupsIn product groups plan.groupId).map Prod.fst ↔
      Inside product plan.groupId id ∧ id ≠ plan.groupId := by
  refine ⟨fun member => ?_, fun both => ?_⟩
  · obtain ⟨entry, isEntry, rfl⟩ := List.mem_map.mp member
    exact ((mem_groupsIn isInside).mp isEntry).2
  · obtain ⟨group, found⟩ := BTreeMap.mem_iff_exists.mp both.1.there
    exact List.mem_map.mpr ⟨(id, group), (mem_groupsIn isInside).mpr ⟨found, both⟩, rfl⟩

/-- A lookup among the local parts of the component. -/
theorem converted_localOccurrence {id : OccurrenceId} {occurrence : Occurrence R}
    (found : product.occurrences[id]? = some occurrence)
    (inside : PartInside product plan.groupId occurrence) :
    (convertedProduct product plan root groups).localOccurrences[
      (⟨plan.newDefinitionId, id⟩ : LocalOccurrenceKey)]? = some (occurrence.toLocal plan.groupId) :=
  BTreeMap.getElem?_foldl_insert (fun _ isOne _ isTwo same =>
    BTreeMap.entry_unique isOne isTwo (LocalOccurrenceKey.mk.inj same).2)
    ((mem_occurrencesIn isInside).mpr ⟨found, inside⟩ :
      (id, occurrence) ∈ occurrencesIn product groups)

theorem converted_localGroup {id : GroupId} {group : Group R}
    (found : product.groups[id]? = some group) (inside : Inside product plan.groupId id)
    (inner : id ≠ plan.groupId) :
    (convertedProduct product plan root groups).localGroups[
      (⟨plan.newDefinitionId, id⟩ : LocalGroupKey)]? = some (group.toLocal plan.groupId) :=
  BTreeMap.getElem?_foldl_insert (fun _ isOne _ isTwo same =>
    BTreeMap.entry_unique isOne isTwo (LocalGroupKey.mk.inj same).2)
    ((mem_groupsIn isInside).mpr ⟨found, inside, inner⟩ :
      (id, group) ∈ groupsIn product groups plan.groupId)

/-- **The converted product holds what it should.** -/
theorem converted_convertedProduct (sound : Structured product)
    (newDefinitionId : plan.newDefinitionId ∉ product.definitions)
    (newOccurrenceId : plan.newOccurrenceId ∉ product.occurrences) :
    Converted product plan root (convertedProduct product plan root groups) where
  definition := by
    refine ⟨_, _, ⟨?_, ?_⟩, fun id => mem_occurrencesIn_ids isInside, fun id => mem_groupsIn_ids isInside, ?_⟩
    · exact BTreeMap.nodup_keys_toList.sublist (List.filter_sublist.map _)
    · exact BTreeMap.nodup_keys_toList.sublist (List.filter_sublist.map _)
    · rw [convertedProduct, BTreeMap.getElem?_insert, if_pos rfl]
  otherDefinition id other := by
    rw [convertedProduct, BTreeMap.getElem?_insert, if_neg other.symm]
  component := by rw [convertedProduct, BTreeMap.getElem?_insert, if_pos rfl]
  insideOccurrence id occurrence found inside := by
    refine ⟨?_, converted_localOccurrence isInside found inside⟩
    have other : plan.newOccurrenceId ≠ id := fun same =>
      newOccurrenceId (same ▸ BTreeMap.mem_iff_exists.mpr ⟨occurrence, found⟩)
    rw [convertedProduct, BTreeMap.getElem?_insert, if_neg other, BTreeMap.getElem?_foldl_erase,
      if_pos ((mem_occurrencesIn_ids isInside).mpr ⟨occurrence, found, inside⟩)]
  otherOccurrence id other outside := by
    rw [convertedProduct, BTreeMap.getElem?_insert, if_neg other.symm, BTreeMap.getElem?_foldl_erase,
      if_neg fun member => ?_]
    obtain ⟨occurrence, found, inside⟩ := (mem_occurrencesIn_ids isInside).mp member
    exact outside occurrence found inside
  insideGroup id group found inside := by
    refine ⟨?_, converted_localGroup isInside found inside⟩
    rw [convertedProduct, BTreeMap.getElem?_foldl_erase, if_pos]
    exact List.contains_iff_mem.mp ((isInside id).mpr inside)
  otherGroup id outside := by
    rw [convertedProduct, BTreeMap.getElem?_foldl_erase, if_neg]
    exact fun member => outside ((isInside id).mp (List.contains_iff_mem.mpr member))
  otherLocalOccurrence key other := by
    refine BTreeMap.getElem?_foldl_insert_other fun entry _ same => other ?_
    rw [← same]
  newLocalOccurrence id occurrence found := by
    by_cases inside : id ∈ (occurrencesIn product groups).map Prod.fst
    · obtain ⟨world, isWorld, inGroup⟩ := (mem_occurrencesIn_ids isInside).mp inside
      rw [converted_localOccurrence isInside isWorld inGroup] at found
      exact ⟨world, isWorld, inGroup, (Option.some.inj found).symm⟩
    · have before : product.localOccurrences[(⟨plan.newDefinitionId, id⟩ : LocalOccurrenceKey)]? =
          some occurrence := by
        rw [← found]
        refine (BTreeMap.getElem?_foldl_insert_other fun entry isEntry same => inside ?_).symm
        exact List.mem_map.mpr ⟨entry, isEntry, (LocalOccurrenceKey.mk.inj same).2⟩
      obtain ⟨definition, isDefinition, -⟩ := lists_iff.mp (sound.localOccurrence _ _ before).1
      exact absurd (BTreeMap.mem_iff_exists.mpr ⟨definition, isDefinition⟩) newDefinitionId
  otherLocalGroup key other := by
    refine BTreeMap.getElem?_foldl_insert_other fun entry _ same => other ?_
    rw [← same]
  newLocalGroup id group found := by
    by_cases inside : id ∈ (groupsIn product groups plan.groupId).map Prod.fst
    · obtain ⟨inGroup, inner⟩ := (mem_groupsIn_ids isInside).mp inside
      obtain ⟨world, isWorld⟩ := BTreeMap.mem_iff_exists.mp inGroup.there
      rw [converted_localGroup isInside isWorld inGroup inner] at found
      exact ⟨world, isWorld, inGroup, inner, (Option.some.inj found).symm⟩
    · have before : product.localGroups[(⟨plan.newDefinitionId, id⟩ : LocalGroupKey)]? =
          some group := by
        rw [← found]
        refine (BTreeMap.getElem?_foldl_insert_other fun entry isEntry same => inside ?_).symm
        exact List.mem_map.mpr ⟨entry, isEntry, (LocalGroupKey.mk.inj same).2⟩
      obtain ⟨definition, isDefinition, -⟩ := lists_iff.mp
        (sound.localGroup _ (BTreeMap.mem_iff_exists.mpr ⟨group, before⟩)).1
      exact absurd (BTreeMap.mem_iff_exists.mpr ⟨definition, isDefinition⟩) newDefinitionId
  tags := rfl
  overrides := rfl
  references := rfl

end Lookups

/-- A group and those inside it, in a product that holds it. -/
def ProductModel.descendants (product : ProductModel R) (root : GroupId) : List GroupId :=
  product.groups.keys.filter (groupIsDescendant product root)

theorem descendants_contains_iff {product : ProductModel R} (sound : Structured product)
    {root id : GroupId} : (product.descendants root).contains id = true ↔ Inside product root id := by
  rw [List.contains_iff_mem, ProductModel.descendants, List.mem_filter, Std.ExtTreeMap.mem_keys]
  refine ⟨fun both => (groupIsDescendant_iff sound both.1).mp both.2, fun inside => ?_⟩
  exact ⟨inside.there, (groupIsDescendant_iff sound inside.there).mpr inside⟩

/-- The group and those inside it are what a conversion takes. -/
theorem converted_descendants {product : ProductModel R} {plan : ConvertGroupPlan} (root : Group R)
    (sound : Structured product) (newDefinitionId : plan.newDefinitionId ∉ product.definitions)
    (newOccurrenceId : plan.newOccurrenceId ∉ product.occurrences) :
    Converted product plan root
      (convertedProduct product plan root (product.descendants plan.groupId)) :=
  converted_convertedProduct (fun _ => descendants_contains_iff sound) sound newDefinitionId
    newOccurrenceId

theorem descendantGroups_ok_iff {product : ProductModel R} {root : GroupId} {groups : List GroupId} :
    descendantGroups product root = .ok groups ↔
      root ∈ product.groups ∧ groups = product.descendants root := by
  unfold descendantGroups
  rw [check_ok_iff, refuseIf_ok, not_not]
  exact and_congr_right fun _ => ⟨fun ok => (Except.ok.inj ok).symm, fun same => by rw [same]; rfl⟩

/-- **When a conversion comes to a product, and to which.** -/
theorem convertGroupToComponentModel_ok_iff {product next : ProductModel R} {plan : ConvertGroupPlan} :
    convertGroupToComponentModel product plan = .ok next ↔
      isBlank plan.componentName = false ∧ plan.newDefinitionId ∉ product.definitions ∧
        plan.newOccurrenceId ∉ product.occurrences ∧ ∃ root,
          product.groups[plan.groupId]? = some root ∧
            next = convertedProduct product plan root (product.descendants plan.groupId) := by
  unfold convertGroupToComponentModel
  rw [check_ok_iff, check_ok_iff, check_ok_iff, ensureName_ok_iff, refuseIf_ok, refuseIf_ok, bind_ok_iff]
  refine and_congr_right fun _ => and_congr_right fun _ => and_congr_right fun _ =>
    exists_congr fun root => ?_
  rw [okOr_ok_iff, bind_ok_iff]
  refine and_congr_right fun found => ⟨fun ok => ?_, fun same => ?_⟩
  · obtain ⟨groups, isGroups, ok⟩ := ok
    obtain ⟨-, rfl⟩ := descendantGroups_ok_iff.mp isGroups
    exact (Except.ok.inj ok).symm
  · refine ⟨_, descendantGroups_ok_iff.mpr ⟨BTreeMap.mem_iff_exists.mpr ⟨root, found⟩, rfl⟩, ?_⟩
    rw [same]
    rfl

/-! ### Lineages after a conversion -/

/-- No group inside shares its number with a part inside. -/
def Apart (product : ProductModel R) (root : GroupId) : Prop :=
  ∀ id, Inside product root id → id ≠ root → ∀ occurrence, product.occurrences[id]? = some occurrence →
    ¬PartInside product root occurrence

theorem Inside.of_mem {product : ProductModel R} {root id : GroupId} {lineage : List GroupId}
    (ancestry : Ancestry product.groupParent (some id) lineage) (on : root ∈ lineage) :
    Inside product root id := by
  obtain ⟨inner, outer, rfl⟩ := List.append_of_mem on
  exact ⟨inner, outer, ancestry⟩

namespace Converted

variable {product next : ProductModel R} {plan : ConvertGroupPlan} {root : Group R}
  (converted : Converted product plan root next)

include converted

/-- A lineage outside the group stays. -/
theorem lineage {cursor : Option GroupId} {lineage : List GroupId}
    (ancestry : Ancestry product.groupParent cursor lineage) (off : plan.groupId ∉ lineage) :
    Ancestry next.groupParent cursor lineage := by
  induction ancestry with
  | top => exact .top
  | @link id parent rest known above ih =>
    refine .link ?_ (ih fun on => off (List.mem_cons_of_mem _ on))
    rw [ProductModel.groupParent, converted.otherGroup id fun inside => off ?_]
    · exact known
    · obtain ⟨inner, outer, ancestry'⟩ := inside
      rw [(Ancestry.link known above).unique ancestry']
      exact List.mem_append_right _ (List.mem_cons_self ..)

/-- A lineage inside the group is one inside the component, up to the group. -/
theorem localLineage {cursor : GroupId} {inner outer : List GroupId}
    (ancestry : Ancestry product.groupParent (some cursor) (inner ++ plan.groupId :: outer)) :
    Ancestry (next.localGroupParent plan.newDefinitionId)
      ((some cursor).filter (· ≠ plan.groupId)) inner := by
  induction inner generalizing cursor with
  | nil =>
    cases ancestry with
    | link known above =>
      rw [Option.filter_some, decide_eq_false (fun ne => ne rfl), if_neg (by simp)]
      exact .top
  | cons id rest ih =>
    have inside : Inside product plan.groupId cursor := ⟨_, _, ancestry⟩
    have distinct := ancestry.nodup
    cases ancestry with
    | @link _ parent _ known above =>
      have other : id ≠ plan.groupId := by
        rintro rfl
        exact (List.nodup_cons.mp distinct).1 (List.mem_append_right _ (List.mem_cons_self ..))
      rw [Option.filter_some, decide_eq_true other, if_pos rfl]
      obtain ⟨group, found, rfl⟩ := Option.map_eq_some_iff.mp known
      cases isParent : group.parent with
      | none =>
        rw [isParent] at above
        cases rest <;> cases above
      | some parent =>
        rw [isParent] at above
        refine .link ?_ (ih above)
        rw [ProductModel.localGroupParent, (converted.insideGroup id group found inside).2 other,
          Option.map_some, Group.toLocal, isParent]

theorem otherLocalGroupParent {definitionId : DefinitionId} (other : definitionId ≠ plan.newDefinitionId) :
    next.localGroupParent definitionId = product.localGroupParent definitionId := by
  funext id
  rw [ProductModel.localGroupParent, converted.otherLocalGroup ⟨definitionId, id⟩ other]
  rfl

/-- What is placed in the other definitions stays. -/
theorem otherPlacedIn {id : DefinitionId} (other : id ≠ plan.newDefinitionId) :
    next.placedIn id = product.placedIn id := by
  unfold ProductModel.placedIn index
  rw [converted.otherDefinition id other]
  congr 1
  funext definition
  congr 1
  funext localId
  rw [converted.otherLocalOccurrence ⟨id, localId⟩ other]

/-! ### A sound structure after a conversion -/

theorem definition_there {id : DefinitionId} (there : id ∈ product.definitions)
    (other : id ≠ plan.newDefinitionId) : id ∈ next.definitions := by
  rw [BTreeMap.mem_iff_exists] at there ⊢
  rw [converted.otherDefinition id other]
  exact there

/-- No definition comes to hold itself. -/
theorem founded (sound : Structured product)
    (newDefinitionId : plan.newDefinitionId ∉ product.definitions) :
    WellFounded (LeadsTo next.placedIn) := by
  have old : ∀ id, id ∈ product.definitions → Acc (LeadsTo next.placedIn) id := by
    intro id
    induction id using sound.founded.induction with
    | _ id ih =>
      intro there
      refine .intro id fun target leadsTo => ?_
      obtain ⟨leads, isLeads, member⟩ := leadsTo
      rw [converted.otherPlacedIn fun same => newDefinitionId (same ▸ there)] at isLeads
      obtain ⟨leads', isLeads', inside⟩ := sound.placedIn id there
      obtain rfl := Except.ok.inj (isLeads.symm.trans isLeads')
      exact ih target ⟨leads, isLeads, member⟩ (inside target member)
  refine ⟨fun id => ?_⟩
  by_cases there : id ∈ product.definitions
  · exact old id there
  · refine .intro id fun target leadsTo => ?_
    obtain ⟨leads, isLeads, member⟩ := leadsTo
    obtain ⟨definition, isDefinition, placed⟩ := bind_ok isLeads
    by_cases new : id = plan.newDefinitionId
    · subst new
      obtain ⟨localId, -, isPlaced⟩ : ∃ localId ∈ definition.localOccurrenceIds,
          (index next.localOccurrences ⟨plan.newDefinitionId, localId⟩ >>= fun occurrence =>
            (Except.ok occurrence.definitionId : Outcome CanonicalError DefinitionId)) = .ok target :=
        exists_of_mem_mapM placed member
      obtain ⟨occurrence, isOccurrence, same⟩ := bind_ok isPlaced
      obtain ⟨world, isWorld, -, rfl⟩ := converted.newLocalOccurrence _ _ (index_ok isOccurrence)
      obtain rfl := Except.ok.inj same
      exact old _ (sound.occurrence _ _ isWorld).1
    · rw [converted.otherPlacedIn new] at isLeads
      obtain ⟨definition', isDefinition', -⟩ := bind_ok isLeads
      exact absurd (BTreeMap.mem_iff_exists.mpr ⟨definition', index_ok isDefinition'⟩) there

/-- A local id of the component is of one thing, where numbers are apart. -/
theorem apart_of_structured (sound : Structured next) : Apart product plan.groupId := by
  obtain ⟨localOccurrenceIds, localGroupIds, -, parts, groups, isNew⟩ := converted.definition
  have distinct := sound.localIds _ _ isNew
  intro id inside inner occurrence found isPart
  exact List.disjoint_of_nodup_append distinct ((groups id).mpr ⟨inside, inner⟩)
    ((parts id).mpr ⟨occurrence, found, isPart⟩)

/-! What is found after the conversion was there before, or is new. -/

theorem old_occurrence {id : OccurrenceId} {occurrence : Occurrence R}
    (isThere : next.occurrences[id]? = some occurrence) (other : id ≠ plan.newOccurrenceId) :
    product.occurrences[id]? = some occurrence ∧ ¬PartInside product plan.groupId occurrence := by
  cases before : product.occurrences[id]? with
  | none =>
    rw [converted.otherOccurrence id other (by rw [before]; exact nofun), before] at isThere
    cases isThere
  | some world =>
    have outside : ¬PartInside product plan.groupId world := fun inside => by
      rw [(converted.insideOccurrence id world before inside).1] at isThere
      cases isThere
    rw [converted.otherOccurrence id other fun other' same => by
      obtain rfl := Option.some.inj (before.symm.trans same)
      exact outside, before] at isThere
    obtain rfl := Option.some.inj isThere
    exact ⟨rfl, outside⟩

theorem old_group {id : GroupId} {group : Group R} (isThere : next.groups[id]? = some group) :
    product.groups[id]? = some group ∧ ¬Inside product plan.groupId id := by
  have outside : ¬Inside product plan.groupId id := fun inside => by
    obtain ⟨world, isWorld⟩ := BTreeMap.mem_iff_exists.mp inside.there
    rw [(converted.insideGroup id world isWorld inside).1] at isThere
    cases isThere
  rw [converted.otherGroup id outside] at isThere
  exact ⟨isThere, outside⟩

theorem lists_old {localIds : Definition → List Nat} {id : DefinitionId} {localId : Nat}
    (other : id ≠ plan.newDefinitionId) (listed : product.lists localIds id localId = true) :
    next.lists localIds id localId = true := by
  rw [ProductModel.lists, converted.otherDefinition id other]
  exact listed

/-- The lineage of the group hangs where the group did. -/
theorem component_lineage (sound : Structured product)
    (found : product.groups[plan.groupId]? = some root) :
    ∃ lineage, Ancestry product.groupParent root.parent lineage ∧
      Ancestry next.groupParent root.parent lineage := by
  obtain ⟨lineage, ancestry⟩ := sound.group _ (BTreeMap.mem_iff_exists.mpr ⟨root, found⟩)
  obtain ⟨parent, rest, known, above, rfl⟩ := ancestry.known_head
  rw [ProductModel.groupParent, found] at known
  obtain rfl := Option.some.inj known
  exact ⟨rest, above, converted.lineage above (List.nodup_cons.mp ancestry.nodup).1⟩

/-- The lineage of a part that is not inside stays. -/
theorem outside_lineage {parent : Option GroupId} {lineage : List GroupId}
    (ancestry : Ancestry product.groupParent parent lineage)
    (outside : ∀ id, parent = some id → ¬Inside product plan.groupId id) :
    Ancestry next.groupParent parent lineage := by
  refine converted.lineage ancestry fun on => ?_
  cases parent with
  | none => cases ancestry; cases on
  | some id => exact outside id rfl (.of_mem ancestry on)

/-- **The structure is sound again**, where numbers are apart. -/
theorem structured (sound : Structured product) (apart : Apart product plan.groupId)
    (newDefinitionId : plan.newDefinitionId ∉ product.definitions) (isId : plan.newDefinitionId ≠ 0)
    (isId' : plan.newOccurrenceId ≠ 0) (named : isBlank plan.componentName = false)
    (found : product.groups[plan.groupId]? = some root) : Structured next := by
  obtain ⟨localOccurrenceIds, localGroupIds, ⟨distinct, distinct'⟩, parts, groups, isNew⟩ :=
    converted.definition
  have newThere : plan.newDefinitionId ∈ next.definitions := BTreeMap.mem_iff_exists.mpr ⟨_, isNew⟩
  have kept : ∀ id ∈ product.definitions, id ∈ next.definitions := fun id there =>
    converted.definition_there there fun same => newDefinitionId (same ▸ there)
  have local_new : ∀ id parent, next.localGroups[(⟨plan.newDefinitionId, id⟩ : LocalGroupKey)]? =
      some parent → Inside product plan.groupId id ∧ id ≠ plan.groupId := by
    intro id group isThere
    obtain ⟨-, -, inside, inner, -⟩ := converted.newLocalGroup id group isThere
    exact ⟨inside, inner⟩
  constructor
  case definitionNamed =>
    intro id definition isThere
    by_cases new : id = plan.newDefinitionId
    · subst new
      obtain rfl := Option.some.inj (isNew.symm.trans isThere)
      exact ⟨isId, named⟩
    · exact sound.definitionNamed id definition (converted.otherDefinition id new ▸ isThere)
  case occurrenceNamed =>
    intro id occurrence isThere
    by_cases new : id = plan.newOccurrenceId
    · subst new
      obtain rfl := Option.some.inj (converted.component.symm.trans isThere)
      exact ⟨isId', named⟩
    · exact sound.occurrenceNamed id occurrence (converted.old_occurrence isThere new).1
  case groupNamed => exact fun id group isThere => sound.groupNamed id group (converted.old_group isThere).1
  case localIds =>
    intro id definition isThere
    by_cases new : id = plan.newDefinitionId
    · subst new
      obtain rfl := Option.some.inj (isNew.symm.trans isThere)
      refine List.Nodup.append distinct' distinct fun localId isGroup isPart => ?_
      obtain ⟨inside, inner⟩ := (groups localId).mp isGroup
      obtain ⟨occurrence, isOccurrence, isInside⟩ := (parts localId).mp isPart
      exact apart localId inside inner occurrence isOccurrence isInside
    · exact sound.localIds id definition (converted.otherDefinition id new ▸ isThere)
  case localGroups =>
    intro id definition isThere localId listed
    by_cases new : id = plan.newDefinitionId
    · subst new
      obtain rfl := Option.some.inj (isNew.symm.trans isThere)
      obtain ⟨inside, inner⟩ := (groups localId).mp listed
      obtain ⟨world, isWorld⟩ := BTreeMap.mem_iff_exists.mp inside.there
      exact BTreeMap.mem_iff_exists.mpr ⟨_, (converted.insideGroup localId world isWorld inside).2 inner⟩
    · have there := sound.localGroups id definition (converted.otherDefinition id new ▸ isThere) localId listed
      rw [BTreeMap.mem_iff_exists] at there ⊢
      rw [converted.otherLocalGroup ⟨id, localId⟩ new]
      exact there
  case localOccurrences =>
    intro id definition isThere localId listed
    by_cases new : id = plan.newDefinitionId
    · subst new
      obtain rfl := Option.some.inj (isNew.symm.trans isThere)
      obtain ⟨occurrence, isOccurrence, inside⟩ := (parts localId).mp listed
      exact BTreeMap.mem_iff_exists.mpr
        ⟨_, (converted.insideOccurrence localId occurrence isOccurrence inside).2⟩
    · have there := sound.localOccurrences id definition (converted.otherDefinition id new ▸ isThere)
        localId listed
      rw [BTreeMap.mem_iff_exists] at there ⊢
      rw [converted.otherLocalOccurrence ⟨id, localId⟩ new]
      exact there
  case occurrence =>
    intro id occurrence isThere
    by_cases new : id = plan.newOccurrenceId
    · subst new
      obtain rfl := Option.some.inj (converted.component.symm.trans isThere)
      obtain ⟨lineage, -, ancestry⟩ := converted.component_lineage sound found
      exact ⟨newThere, nofun, lineage, ancestry⟩
    · obtain ⟨before, outside⟩ := converted.old_occurrence isThere new
      obtain ⟨there, tags, lineage, ancestry⟩ := sound.occurrence id occurrence before
      refine ⟨kept _ there, converted.tags ▸ tags, lineage, converted.outside_lineage ancestry ?_⟩
      exact fun parent same inside => outside ⟨parent, same, inside⟩
  case group =>
    intro id there
    obtain ⟨group, isThere⟩ := BTreeMap.mem_iff_exists.mp there
    obtain ⟨before, outside⟩ := converted.old_group isThere
    obtain ⟨lineage, ancestry⟩ := sound.group id (BTreeMap.mem_iff_exists.mpr ⟨group, before⟩)
    exact ⟨lineage, converted.outside_lineage ancestry fun parent same => Option.some.inj same ▸ outside⟩
  case localGroup =>
    rintro ⟨definitionId, id⟩ there
    by_cases new : definitionId = plan.newDefinitionId
    · subst new
      obtain ⟨group, isThere⟩ := BTreeMap.mem_iff_exists.mp there
      obtain ⟨inside, inner⟩ := local_new id group isThere
      refine ⟨lists_iff.mpr ⟨_, isNew, (groups id).mpr ⟨inside, inner⟩⟩, ?_⟩
      obtain ⟨before, after, ancestry⟩ := inside
      have local_ := converted.localLineage ancestry
      rw [Option.filter_some, decide_eq_true inner, if_pos rfl] at local_
      exact ⟨before, local_⟩
    · have isThere : (⟨definitionId, id⟩ : LocalGroupKey) ∈ product.localGroups := by
        rw [BTreeMap.mem_iff_exists] at there ⊢
        rw [← converted.otherLocalGroup ⟨definitionId, id⟩ new]
        exact there
      obtain ⟨listed, lineage⟩ := sound.localGroup _ isThere
      exact ⟨converted.lists_old new listed, converted.otherLocalGroupParent new ▸ lineage⟩
  case localOccurrence =>
    rintro ⟨definitionId, id⟩ occurrence isThere
    by_cases new : definitionId = plan.newDefinitionId
    · subst new
      obtain ⟨world, isWorld, inside, rfl⟩ := converted.newLocalOccurrence id occurrence isThere
      obtain ⟨there, tags, -⟩ := sound.occurrence id world isWorld
      refine ⟨lists_iff.mpr ⟨_, isNew, (parts id).mpr ⟨world, isWorld, inside⟩⟩, kept _ there,
        converted.tags ▸ tags, ?_⟩
      obtain ⟨parent, isParent, before, after, ancestry⟩ := inside
      refine ⟨before, ?_⟩
      rw [Occurrence.toLocal, isParent]
      exact converted.localLineage ancestry
    · rw [converted.otherLocalOccurrence ⟨definitionId, id⟩ new] at isThere
      obtain ⟨listed, there, tags, lineage⟩ := sound.localOccurrence _ _ isThere
      exact ⟨converted.lists_old new listed, kept _ there, converted.tags ▸ tags,
        converted.otherLocalGroupParent new ▸ lineage⟩
  case founded => exact converted.founded sound newDefinitionId

end Converted

end Ketchup.Product
