/-
**A group becomes a component.**

`convertGroupToComponent` makes a definition of what hangs in a group and places it where the group was.
Groups and parts keep their numbers as local ids. `conversionMappings` tells what became of each group and
part.
-/

import Ketchup.Product.Scene

namespace Ketchup.Product

/-! ### What is told of a conversion -/

structure ConvertGroupPlan where
  groupId : GroupId
  newDefinitionId : DefinitionId
  newOccurrenceId : OccurrenceId
  componentName : String
  deriving DecidableEq

inductive WorldEntityId
  | group (id : GroupId)
  | occurrence (id : OccurrenceId)
  deriving DecidableEq

inductive ConvertedEntityId
  | componentOccurrence (id : OccurrenceId)
  | localGroup (key : LocalGroupKey)
  | localOccurrence (key : LocalOccurrenceKey)
  deriving DecidableEq

structure WorldEntityPath where
  groups : List GroupId
  occurrence : Option OccurrenceId
  deriving DecidableEq

inductive UnresolvedMappingReason
  | notInConvertedGroup
  deriving DecidableEq

inductive MappingResolution
  | resolved (newId : ConvertedEntityId) (newPath : InstancePath)
  | unresolved (reason : UnresolvedMappingReason)
  deriving DecidableEq

structure ConversionMapping where
  oldId : WorldEntityId
  oldPath : WorldEntityPath
  resolution : MappingResolution
  deriving DecidableEq

variable {R : Type}

/-! ### Walks up the groups -/

def ProductModel.parentOrNone (product : ProductModel R) (id : GroupId) : Option GroupId :=
  (product.groupParent id).join

/-- From a group up to a root. -/
def groupLineageUp (product : ProductModel R) (root target : GroupId) :
    Outcome CanonicalError (List GroupId) :=
  climbTo root product.parentOrNone (fun id => .error (.groupCycle id)) (.error .invalidLocalGraph)
    (product.groups.size + 2) [] (some target)

/-- The groups from a root down to one inside it. -/
def groupLineage (product : ProductModel R) (root target : GroupId) :
    Outcome CanonicalError (List GroupId) :=
  return (← groupLineageUp product root target).reverse

def groupIsDescendant (product : ProductModel R) (root target : GroupId) : Bool :=
  (groupLineageUp product root target).toOption.isSome

/-- A group and those inside it. -/
def descendantGroups (product : ProductModel R) (root : GroupId) :
    Outcome CanonicalError (List GroupId) := do
  refuseIf (root ∉ product.groups) (.error (.groupNotFound root))
  return product.groups.keys.filter (groupIsDescendant product root)

/-- The groups from the top down to one. -/
def worldGroupLineage (product : ProductModel R) (target : GroupId) :
    Outcome CanonicalError (List GroupId) := do
  let lineage ← climb (fun visited id => refuseIf (id ∈ visited) (.error (.groupCycle id)))
    product.groupParent (fun id => .error (.groupNotFound id)) .hang (product.groups.size + 1) []
    (some target)
  return lineage.reverse

/-! ### The mappings -/

/-- The path of a group inside the component. -/
def convertedGroupPath (product : ProductModel R) (plan : ConvertGroupPlan) (id : GroupId) :
    Outcome CanonicalError InstancePath := do
  let convertedLineage ← groupLineage product plan.groupId id
  return ⟨plan.newOccurrenceId, (convertedLineage.drop 1).map .group⟩

/-- Where a group is after the conversion. -/
def groupResolution (product : ProductModel R) (plan : ConvertGroupPlan) (converted : List GroupId)
    (id : GroupId) : Outcome CanonicalError MappingResolution :=
  if id ∈ converted then do
    let newPath ← convertedGroupPath product plan id
    return .resolved (if id = plan.groupId then .componentOccurrence plan.newOccurrenceId
      else .localGroup ⟨plan.newDefinitionId, id⟩) newPath
  else .ok (.unresolved .notInConvertedGroup)

def groupMapping (product : ProductModel R) (plan : ConvertGroupPlan) (converted : List GroupId)
    (id : GroupId) : Outcome CanonicalError ConversionMapping := do
  let groups ← worldGroupLineage product id
  let resolution ← groupResolution product plan converted id
  return ⟨.group id, ⟨groups, none⟩, resolution⟩

/-- Where a part of a group is after the conversion. -/
def occurrenceResolution (product : ProductModel R) (plan : ConvertGroupPlan)
    (converted : List GroupId) (id : OccurrenceId) (parent : Option GroupId) :
    Outcome CanonicalError MappingResolution :=
  match parent.filter (· ∈ converted) with
  | none => .ok (.unresolved .notInConvertedGroup)
  | some parent => do
    let groupPath ← convertedGroupPath product plan parent
    return .resolved (.localOccurrence ⟨plan.newDefinitionId, id⟩) (groupPath.withStep (.occurrence id))

def occurrenceMapping (product : ProductModel R) (plan : ConvertGroupPlan) (converted : List GroupId)
    (id : OccurrenceId) (occurrence : Occurrence R) : Outcome CanonicalError ConversionMapping := do
  let oldGroups ← occurrence.parent.elim (.ok []) (worldGroupLineage product)
  let resolution ← occurrenceResolution product plan converted id occurrence.parent
  return ⟨.occurrence id, ⟨oldGroups, some id⟩, resolution⟩

section Order

attribute [local instance] lexOrd

instance : Ord WorldEntityPath := ⟨compareOn fun path => (path.groups, path.occurrence)⟩

end Order

/-- What becomes of each group and part. -/
def conversionMappings (product : ProductModel R) (plan : ConvertGroupPlan) :
    Outcome CanonicalError (List ConversionMapping) := do
  let converted ← descendantGroups product plan.groupId
  let groups ← product.groups.keys.mapM (groupMapping product plan converted)
  let occurrences ← product.occurrences.toList.mapM fun entry =>
    occurrenceMapping product plan converted entry.1 entry.2
  return (groups ++ occurrences).mergeSort fun left right =>
    (compare left.oldPath right.oldPath).isLE

/-! ### The conversion -/

/-- The default body of a definition. -/
def defaultBodyId : BodyId := 1

def defaultBody : Body := ⟨"Body", true, none⟩

def newDefinition (name : String) : Definition where
  name := name
  featureIds := []
  bodies := (∅ : BTreeMap BodyId Body).insert defaultBodyId defaultBody
  activeBodyId := defaultBodyId
  featureBodyOwnership := ∅
  localOccurrenceIds := []
  localGroupIds := []

/-- A group of the world as one inside a component. -/
def Group.toLocal (group : Group R) (root : GroupId) : LocalGroup R where
  name := group.name
  transform := group.transform
  parent := group.parent.filter (· ≠ root)

/-- A part of the world as one inside a component. -/
def Occurrence.toLocal (occurrence : Occurrence R) (root : GroupId) : LocalOccurrence R where
  definitionId := occurrence.definitionId
  name := occurrence.name
  transform := occurrence.transform
  parent := occurrence.parent.filter (· ≠ root)
  tags := occurrence.tags
  visible := occurrence.visible
  color := occurrence.color

/-- The parts that hang in some of the groups. -/
def occurrencesIn (product : ProductModel R) (groups : List GroupId) :
    List (OccurrenceId × Occurrence R) :=
  product.occurrences.toList.filter fun entry => entry.2.parent.any fun parent => groups.contains parent

/-- Those of the groups that are not the root. -/
def groupsIn (product : ProductModel R) (groups : List GroupId) (root : GroupId) :
    List (GroupId × Group R) :=
  product.groups.toList.filter fun entry => groups.contains entry.1 && entry.1 ≠ root

/-- The product with some of its groups, the root and those inside it, in a component. -/
def convertedProduct (product : ProductModel R) (plan : ConvertGroupPlan) (root : Group R)
    (groups : List GroupId) : ProductModel R :=
  let occurrences := occurrencesIn product groups
  let innerGroups := groupsIn product groups plan.groupId
  { product with
    definitions := product.definitions.insert plan.newDefinitionId
      { newDefinition plan.componentName with
        localOccurrenceIds := occurrences.map Prod.fst
        localGroupIds := innerGroups.map Prod.fst }
    localGroups := innerGroups.foldl (fun held entry =>
      held.insert ⟨plan.newDefinitionId, entry.1⟩ (entry.2.toLocal plan.groupId)) product.localGroups
    localOccurrences := occurrences.foldl (fun held entry =>
      held.insert ⟨plan.newDefinitionId, entry.1⟩ (entry.2.toLocal plan.groupId))
      product.localOccurrences
    groups := groups.foldl (fun held id => held.erase id) product.groups
    occurrences := ((occurrences.map Prod.fst).foldl (fun held id => held.erase id)
      product.occurrences).insert plan.newOccurrenceId {
        definitionId := plan.newDefinitionId
        name := plan.componentName
        transform := root.transform
        parent := root.parent
        tags := []
        visible := true
        color := none } }

def convertGroupToComponentModel (product : ProductModel R) (plan : ConvertGroupPlan) :
    Outcome CanonicalError (ProductModel R) := do
  ensureName plan.componentName
  refuseIf (plan.newDefinitionId ∈ product.definitions)
    (.error (.definitionAlreadyExists plan.newDefinitionId))
  refuseIf (plan.newOccurrenceId ∈ product.occurrences)
    (.error (.occurrenceAlreadyExists plan.newOccurrenceId))
  let root ← okOr product.groups[plan.groupId]? (.groupNotFound plan.groupId)
  let groups ← descendantGroups product plan.groupId
  return convertedProduct product plan root groups

/-! ### The command -/

/-- The last step of a path is to an occurrence. -/
def InstancePath.endsInOccurrence (path : InstancePath) : Bool :=
  match path.steps.getLast? with
  | some (.occurrence _) => true
  | _ => false

/-- Entries that name parts, and places of parts that were moved, name parts that are there. -/
def validateReferences (product : ProductModel R) : Outcome CanonicalError Unit := do
  product.instanceTransformOverrides.toList.forM fun entry =>
    refuseIf (entry.1.endsInOccurrence = false ∨ resolveProductInstancePath product entry.1 = none)
      (.error .invalidInstancePath)
  product.partReferences.forM fun reference =>
    refuseIf (resolveProductInstancePath product reference.path = none)
      (.error (.partNotFound reference))

def validateProduct (product : ProductModel R) : Outcome CanonicalError Unit := do
  validateReferences product
  validateStructure product

/-- What is told of each group and part, and the product of the next revision. -/
def convertGroupToComponent (product : ProductModel R) (plan : ConvertGroupPlan) :
    Outcome CanonicalError (List ConversionMapping × ProductModel R) := do
  let mappings ← conversionMappings product plan
  let next ← convertGroupToComponentModel product plan
  validateProduct next
  return (mappings, next)

end Ketchup.Product
