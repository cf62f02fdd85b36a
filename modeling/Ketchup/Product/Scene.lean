/-
**The scene of a product.**

`sceneQueryBounded` lists the parts of a product, each with its path and where it is, within budgets.
`resolveInstancePath` follows one path to where its part is, and `resolveProductInstancePath` only to its
definition.
-/

import Ketchup.Product.Validation

namespace Ketchup.Product

/-! ### Parts of a scene -/

structure SceneOccurrence (R : Type) where
  occurrenceId : OccurrenceId
  instancePath : InstancePath
  definitionId : DefinitionId
  occurrenceName : String
  definitionName : String
  transform : Transform R
  parent : Option GroupId
  localParent : Option LocalGroupId
  visible : Bool
  color : Option Color
  sharedOccurrenceCount : Nat

inductive SceneQueryBudgetKind
  | occurrences
  | pathSteps
  | textBytes
  deriving DecidableEq

structure SceneQueryBudgetExceeded where
  kind : SceneQueryBudgetKind
  limit : Nat
  observedAtLeast : Nat
  deriving DecidableEq

/-- The budgets of a query. A budget of `usize::MAX`, which no length exceeds, is `none`. -/
structure SceneBudget where
  maxOccurrences : Option Nat
  maxPathSteps : Option Nat
  maxTextBytes : Option Nat
  deriving DecidableEq

/-- A bound on how long any query within budgets that end can go on. -/
def SceneBudget.total (budget : SceneBudget) : Nat :=
  budget.maxOccurrences.getD 0 + budget.maxPathSteps.getD 0 + budget.maxTextBytes.getD 0

/-- Fails where more is needed than the limit. -/
def spend (kind : SceneQueryBudgetKind) (limit : Option Nat) (needed : Nat) (observed : Nat → Nat) :
    Outcome SceneQueryBudgetExceeded Unit :=
  match limit with
  | none => .ok ()
  | some limit => refuseIf (limit < needed) (.error ⟨kind, limit, observed limit⟩)

def consumeSceneTextBudget (used additional : Nat) (limit : Option Nat) :
    Outcome SceneQueryBudgetExceeded Nat := do
  spend .textBytes limit (used + additional) fun _ => used + additional
  return used + additional

/-- What a query has listed, and the bytes of its names. -/
structure SceneState (R : Type) where
  occurrences : List (SceneOccurrence R)
  textBytes : Nat

variable {R : Type} [Add R] [Mul R] [Zero R] [One R]

/-- A transform followed by those of a lineage, from the top down. -/
def composeAlong {ε K : Type} (transformOf : K → Outcome ε (Transform R)) (start : Transform R)
    (lineage : List K) : Outcome ε (Transform R) :=
  lineage.foldlM (fun transform key => return transform.compose (← transformOf key)) start

def ProductModel.groupTransform {ε : Type} (product : ProductModel R) (id : GroupId) :
    Outcome ε (Transform R) :=
  return (← index product.groups id).transform

def ProductModel.localGroupTransform {ε : Type} (product : ProductModel R) (definitionId : DefinitionId)
    (id : LocalGroupId) : Outcome ε (Transform R) :=
  return (← index product.localGroups ⟨definitionId, id⟩).transform

def allTagsVisible (product : ProductModel R) (tags : List TagId) : Bool :=
  tags.all fun id => (product.tags[id]?).all Tag.visible

/-! ### Listing -/

def worldTransformForOccurrenceBounded (product : ProductModel R) (occurrence : Occurrence R)
    (maxGroupSteps : Option Nat) : Outcome SceneQueryBudgetExceeded (Transform R) := do
  let lineage ← climb
    (fun lineage _ => spend .pathSteps maxGroupSteps (lineage.length + 1) (· + 1))
    product.groupParent (fun _ => .panic) .hang (product.groups.size + maxGroupSteps.getD 0 + 1) []
    occurrence.parent
  let parentTransform ← composeAlong product.groupTransform .identity lineage.reverse
  return parentTransform.compose occurrence.transform

/-- The part of an occurrence itself. -/
def rootEntry (product : ProductModel R) (id : OccurrenceId) (occurrence : Occurrence R)
    (definition : Definition) (worldTransform : Transform R) : SceneOccurrence R where
  occurrenceId := id
  instancePath := ⟨id, []⟩
  definitionId := occurrence.definitionId
  occurrenceName := occurrence.name
  definitionName := definition.name
  transform := worldTransform
  parent := occurrence.parent
  localParent := none
  visible := occurrence.visible && allTagsVisible product occurrence.tags
  color := occurrence.color
  sharedOccurrenceCount := 0

/-- The path from an owner through its groups, the top one first, to a part. -/
def InstancePath.through (path : InstancePath) (groups : List LocalGroupId)
    (localId : LocalOccurrenceId) : InstancePath where
  root := path.root
  steps := path.steps ++ groups.map .group ++ [.occurrence localId]

/-- A part inside another, where its groups are at a transform. -/
def localEntry (product : ProductModel R) (owner : SceneOccurrence R) (localId : LocalOccurrenceId)
    (occurrence : LocalOccurrence R) (targetDefinition : Definition) (groupLineage : List LocalGroupId)
    (groupTransform : Transform R) : SceneOccurrence R where
  occurrenceId := owner.occurrenceId
  instancePath := owner.instancePath.through groupLineage.reverse localId
  definitionId := occurrence.definitionId
  occurrenceName := occurrence.name
  definitionName := targetDefinition.name
  transform := groupTransform.compose ((product.instanceTransformOverrides[
    owner.instancePath.through groupLineage.reverse localId]?).getD occurrence.transform)
  parent := none
  localParent := occurrence.parent
  visible := owner.visible && occurrence.visible && allTagsVisible product occurrence.tags
  color := owner.color.or occurrence.color
  sharedOccurrenceCount := 0

/-- Lists the part of an occurrence itself. -/
def projectOccurrence (product : ProductModel R) (budget : SceneBudget) (id : OccurrenceId)
    (occurrence : Occurrence R) (state : SceneState R) :
    Outcome SceneQueryBudgetExceeded (SceneOccurrence R × SceneState R) := do
  spend .occurrences budget.maxOccurrences (state.occurrences.length + 1) (· + 1)
  let definition ← index product.definitions occurrence.definitionId
  let textBytes ← consumeSceneTextBudget state.textBytes
    (occurrence.name.utf8ByteSize + definition.name.utf8ByteSize) budget.maxTextBytes
  let worldTransform ← worldTransformForOccurrenceBounded product occurrence budget.maxPathSteps
  let entry := rootEntry product id occurrence definition worldTransform
  return ⟨entry, ⟨state.occurrences ++ [entry], textBytes⟩⟩

/-- Lists a part inside another. -/
def projectLocalOccurrence (product : ProductModel R) (budget : SceneBudget)
    (owner : SceneOccurrence R) (localId : LocalOccurrenceId) (state : SceneState R) :
    Outcome SceneQueryBudgetExceeded (SceneOccurrence R × SceneState R) := do
  let occurrence ← index product.localOccurrences ⟨owner.definitionId, localId⟩
  let ownerSteps := owner.instancePath.steps.length
  let groupLineage ← climb
    (fun lineage _ => spend .pathSteps budget.maxPathSteps (ownerSteps + lineage.length + 1) (· + 1))
    (product.localGroupParent owner.definitionId) (fun _ => .panic) .hang
    (product.localGroups.size + budget.maxPathSteps.getD 0 + 1) [] occurrence.parent
  let nextPathSteps := ownerSteps + groupLineage.length + 1
  spend .pathSteps budget.maxPathSteps nextPathSteps fun _ => nextPathSteps
  let targetDefinition ← index product.definitions occurrence.definitionId
  let textBytes ← consumeSceneTextBudget state.textBytes
    (occurrence.name.utf8ByteSize + targetDefinition.name.utf8ByteSize) budget.maxTextBytes
  let groupTransform ← composeAlong (product.localGroupTransform owner.definitionId) owner.transform
    groupLineage.reverse
  spend .occurrences budget.maxOccurrences (state.occurrences.length + 1) (· + 1)
  let entry := localEntry product owner localId occurrence targetDefinition groupLineage groupTransform
  return ⟨entry, ⟨state.occurrences ++ [entry], textBytes⟩⟩

/-- Lists what is inside a part. The recursion ends where no definition holds itself. -/
def projectLocalOccurrencesBounded (product : ProductModel R) (budget : SceneBudget) :
    Nat → SceneOccurrence R → SceneState R → Outcome SceneQueryBudgetExceeded (SceneState R)
  | 0, _, _ => .error .hang
  | fuel + 1, owner, state => do
    let definition ← index product.definitions owner.definitionId
    definition.localOccurrenceIds.foldlM (fun state localId => do
      let listed ← projectLocalOccurrence product budget owner localId state
      projectLocalOccurrencesBounded product budget fuel listed.1 listed.2) state

/-- How many parts share each one's definition. -/
def countSharing (occurrences : List (SceneOccurrence R)) : List (SceneOccurrence R) :=
  occurrences.map fun occurrence => { occurrence with
    sharedOccurrenceCount :=
      occurrences.countP fun other => decide (other.definitionId = occurrence.definitionId) }

def sceneQueryBounded (product : ProductModel R) (budget : SceneBudget) :
    Outcome SceneQueryBudgetExceeded (List (SceneOccurrence R)) := do
  let state ← product.occurrences.toList.foldlM (fun state entry => do
    let listed ← projectOccurrence product budget entry.1 entry.2 state
    projectLocalOccurrencesBounded product budget (product.definitions.size + budget.total + 1)
      listed.1 listed.2) ⟨[], 0⟩
  return countSharing state.occurrences

def sceneQuery (product : ProductModel R) :
    Outcome SceneQueryBudgetExceeded (List (SceneOccurrence R)) :=
  sceneQueryBounded product ⟨none, none, none⟩

/-! ### Resolving a path -/

structure ResolvedInstance (R : Type) where
  definitionId : DefinitionId
  localTransform : Transform R
  parentWorldTransform : Transform R
  worldTransform : Transform R

def worldTransformForGroup (product : ProductModel R) (id : GroupId) :
    Outcome CanonicalError (Transform R) := do
  let lineage ← climb (fun _ _ => .ok ()) product.groupParent
    (fun _ => .error .invalidInstancePath) .hang (product.groups.size + 1) [] (some id)
  composeAlong product.groupTransform .identity lineage.reverse

def parentWorldTransform (product : ProductModel R) :
    Option GroupId → Outcome CanonicalError (Transform R)
  | none => .ok .identity
  | some parent => worldTransformForGroup product parent

/-- How far a path has been followed. -/
structure InstanceCursor (R : Type) where
  definitionId : DefinitionId
  localTransform : Transform R
  parentWorldTransform : Transform R
  transform : Transform R
  resolvedPath : InstancePath
  parent : Option LocalGroupId

def resolveStep (product : ProductModel R) (cursor : InstanceCursor R) :
    InstancePathStep → Outcome CanonicalError (InstanceCursor R)
  | .group localId =>
    match product.localGroups[(⟨cursor.definitionId, localId⟩ : LocalGroupKey)]? with
    | none => fail .invalidInstancePath
    | some group =>
      if group.parent ≠ cursor.parent then fail .invalidInstancePath
      else .ok { cursor with
        resolvedPath := cursor.resolvedPath.withStep (.group localId)
        parentWorldTransform := cursor.transform
        localTransform := group.transform
        transform := cursor.transform.compose group.transform
        parent := some localId }
  | .occurrence localId =>
    match product.localOccurrences[(⟨cursor.definitionId, localId⟩ : LocalOccurrenceKey)]? with
    | none => fail .invalidInstancePath
    | some occurrence =>
      if occurrence.parent ≠ cursor.parent then fail .invalidInstancePath
      else
        let resolvedPath := cursor.resolvedPath.withStep (.occurrence localId)
        let local_ := (product.instanceTransformOverrides[resolvedPath]?).getD occurrence.transform
        .ok {
          definitionId := occurrence.definitionId
          localTransform := local_
          parentWorldTransform := cursor.transform
          transform := cursor.transform.compose local_
          resolvedPath
          parent := none }

/-- Where the walk along a path starts. -/
def resolveRoot (product : ProductModel R) (root : OccurrenceId) :
    Outcome CanonicalError (InstanceCursor R) :=
  match product.occurrences[root]? with
  | none => fail .invalidInstancePath
  | some occurrence => do
    let parentTransform ← parentWorldTransform product occurrence.parent
    return {
      definitionId := occurrence.definitionId
      localTransform := occurrence.transform
      parentWorldTransform := parentTransform
      transform := parentTransform.compose occurrence.transform
      resolvedPath := ⟨root, []⟩
      parent := none }

def resolveInstancePath (product : ProductModel R) (path : InstancePath) :
    Outcome CanonicalError (ResolvedInstance R) := do
  let root ← resolveRoot product path.root
  let cursor ← path.steps.foldlM (resolveStep product) root
  return ⟨cursor.definitionId, cursor.localTransform, cursor.parentWorldTransform, cursor.transform⟩

/-- The definition reached and the group the walk is in. -/
def resolveProductStep (product : ProductModel R) (cursor : DefinitionId × Option LocalGroupId) :
    InstancePathStep → Option (DefinitionId × Option LocalGroupId)
  | .group localId => do
    let group ← product.localGroups[(⟨cursor.1, localId⟩ : LocalGroupKey)]?
    if group.parent ≠ cursor.2 then none else some ⟨cursor.1, some localId⟩
  | .occurrence localId => do
    let occurrence ← product.localOccurrences[(⟨cursor.1, localId⟩ : LocalOccurrenceKey)]?
    if occurrence.parent ≠ cursor.2 then none else some ⟨occurrence.definitionId, none⟩

def resolveProductInstancePath (product : ProductModel R) (path : InstancePath) :
    Option DefinitionId := do
  let root ← product.occurrences[path.root]?
  let cursor ← path.steps.foldlM (resolveProductStep product) ⟨root.definitionId, none⟩
  return cursor.1

end Ketchup.Product
