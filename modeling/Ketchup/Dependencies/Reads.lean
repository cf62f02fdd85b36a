/-
**The dependencies of a batch.**

`authoritativeDependencies` adds what each command reads to one set. Most entries are added by themselves;
features, evaluator nodes and groups are closed over what they depend on, which stops at entries that are
in the set already. What a command reads is a list of such statements, in the order of the code.
-/

import Ketchup.Dependencies.Command
import Ketchup.Library.Closure
import Mathlib.Data.Finset.Insert

namespace Ketchup.Dependencies

open Ketchup.Graph Ketchup.Product

variable {F R : Type}

/-! ### Closures -/

section Closures

/-- What the closure follows: the dependencies, but a face work plane follows the body that issued the face
only, and a sketch its projection sources only while it is being created. -/
def closureSources (kind : FeatureKind R) (created : Bool) : List FeatureId :=
  match kind with
  | .workplane spec => match spec.support with
    | .planarFace reference _ => [reference.producerFeatureId]
    | _ => kind.dependencies
  | .sketch spec => if created then kind.dependencies else [spec.workplane]
  | _ => kind.dependencies

variable (snapshot : Snapshot F R)

/-- No walk goes through more entries than there are. -/
def Snapshot.links : Nat :=
  snapshot.features.size + snapshot.evaluatorNodes.size + snapshot.product.groups.size

def addEvaluatorDependencyClosure :
    Nat → NodeId → Finset AuthoritativeDependency → Finset AuthoritativeDependency
  | 0, id, dependencies => insert (.evaluatorNode id) dependencies
  | fuel + 1, id, dependencies =>
    if .evaluatorNode id ∈ dependencies then dependencies
    else match snapshot.evaluatorNodes[id]? with
      | none => insert (.evaluatorNode id) dependencies
      | some node => node.dependencies.foldl
        (fun dependencies dependency => addEvaluatorDependencyClosure fuel dependency dependencies)
        (insert (.evaluatorNode id) dependencies)

def addFeatureDependencyClosure :
    Nat → FeatureId → Finset AuthoritativeDependency → Finset AuthoritativeDependency
  | 0, id, dependencies => insert (.feature id) dependencies
  | fuel + 1, id, dependencies =>
    if .feature id ∈ dependencies then dependencies
    else match snapshot.features[id]? with
      | none => insert (.feature id) dependencies
      | some feature => (closureSources feature.kind false).foldl
        (fun dependencies source => addFeatureDependencyClosure fuel source dependencies)
        (insert (.definition feature.definitionId) (insert (.feature id) dependencies))

def addGroupAncestry :
    Nat → Option GroupId → Finset AuthoritativeDependency → Finset AuthoritativeDependency
  | _, none, dependencies => dependencies
  | 0, some id, dependencies => insert (.group id) dependencies
  | fuel + 1, some id, dependencies =>
    if .group id ∈ dependencies then dependencies
    else addGroupAncestry fuel (snapshot.product.groups[id]?.bind Group.parent)
      (insert (.group id) dependencies)

/-- A statement of the analysis. -/
inductive Read
  | entry (dependency : AuthoritativeDependency)
  | feature (id : FeatureId)
  | evaluator (id : NodeId)
  | ancestry (parent : Option GroupId)

def Read.add (dependencies : Finset AuthoritativeDependency) : Read → Finset AuthoritativeDependency
  | entry dependency => insert dependency dependencies
  | feature id => addFeatureDependencyClosure snapshot snapshot.links id dependencies
  | evaluator id => addEvaluatorDependencyClosure snapshot snapshot.links id dependencies
  | ancestry parent => addGroupAncestry snapshot snapshot.links parent dependencies

end Closures

/-! ### What single kinds of entries read -/

def bodyKind : FeatureKind R → Option BodyKind
  | .surfaceBody _ | .surfaceTrim _ _ | .surfaceExtend _ _ | .planarOffset _ _ => some .surface
  | .surfaceKnit _ _ makeSolid => some (if makeSolid then .solid else .surface)
  | .surfaceThicken _ _ _ => some .solid
  | .pad _ | .revolve _ _ _ _ | .shell _ _ _ _ | .edgeFinish _ _ _ _ _ _ _ | .faceOffset _ _ _
  | .draft _ | .boolean _ _ _ | .sweep _ _ _ | .weldmentMember _ | .weldmentJoint _ | .loft _ _ _
  | .sheetMetal _ | .rigidTransform _ _ | .scale _ _ _ | .meshBody _ => some .solid
  | .importedExactBody spec => some spec.bodyKind
  | _ => none

def producesBody (kind : FeatureKind R) : Bool := (bodyKind kind).isSome

section Entries

variable (snapshot : Snapshot F R)

def endsInGroup (path : InstancePath) : Bool :=
  match path.steps.getLast? with
  | some (.group _) => true
  | _ => false

/-- The definitions along the path of a part that makes a body. -/
def productionCodeIdentity (path : InstancePath) : Option (List DefinitionId) := do
  if 256 < path.steps.length ∨ endsInGroup path then none
  let identity ← path.steps.inits.mapM fun steps =>
    resolveProductInstancePath snapshot.product ⟨path.root, steps⟩
  let definition ← snapshot.product.definitions[← identity.getLast?]?
  if definition.featureIds.any fun id =>
      (snapshot.features[id]?).any fun feature => producesBody feature.kind then
    return identity
  else none

def pathReads (path : InstancePath) : List Read :=
  .entry (.occurrence path.root) ::
    ((productionCodeIdentity snapshot path).getD []).map fun id => .entry (.definition id)

def entryReads {K : Type} (dependency : K → AuthoritativeDependency) (ids : List K) : List Read :=
  ids.map fun id => .entry (dependency id)

def createdInputReads (id : NodeId) (inputs : List NodeId) : List Read :=
  .entry (.evaluatorNode id) :: inputs.map .evaluator

def groundingReads (id : OccurrenceId) : List Read :=
  [.entry (.occurrence id), .entry (.groundedOccurrence id)]

def contactJointReads (joints : List ContactJoint) : List Read :=
  (joints ++ snapshot.contactJoints).flatMap fun joint =>
    pathReads snapshot joint.parts.1 ++ pathReads snapshot joint.parts.2

def importReads (receipt : ImportReceipt) : List Read :=
  .entry (.import_ receipt.id) :: receipt.outputs.map fun output => .entry <| match output with
    | .definition id => .definition id
    | .feature id => .feature id
    | .occurrence id => .occurrence id
    | .group id => .group id

/-- What suppressing features of a body reads, those and the ones suppressed now. -/
def suppressionReads (definitionId : DefinitionId) (bodyId : BodyId) (suppressed : List FeatureId) :
    List Read :=
  [.entry (.definition definitionId), .entry (.bodyFeatureSuppression definitionId bodyId)] ++
    suppressed.map .feature ++
    ((snapshot.bodyFeatureSuppression.lookup (definitionId, bodyId)).getD []).map .feature

def classificationDimensionReads (id : ClassificationDimensionId) : List Read :=
  .entry (.classificationDimension id) ::
    (snapshot.classificationAssignments.filter fun key => key.2 = id).map fun key =>
      .entry (.occurrenceClassification key.1 key.2)

/-- The entries of one definition. -/
def directMemberReads (definitionId : DefinitionId) : List Read :=
  match snapshot.product.definitions[definitionId]? with
  | none => []
  | some definition =>
    (definition.localGroupIds.map fun localId => .entry (.localGroup ⟨definitionId, localId⟩)) ++
      definition.localOccurrenceIds.map fun localId => .entry (.localOccurrence ⟨definitionId, localId⟩)

/-- The definitions that the parts of one are of. -/
def memberDefinitions (definitionId : DefinitionId) : List DefinitionId :=
  match snapshot.product.definitions[definitionId]? with
  | none => []
  | some definition => definition.localOccurrenceIds.filterMap fun localId =>
    (snapshot.product.localOccurrences[
      (⟨definitionId, localId⟩ : LocalOccurrenceKey)]?).map LocalOccurrence.definitionId

/-- A definition and all inside it, the definitions left to enter, the last one first. A definition is
entered once and its parts are pushed then. -/
def localDefinitionLoop : Nat → List DefinitionId → List DefinitionId → List Read
  | 0, _, _ => []
  | _ + 1, [], _ => []
  | fuel + 1, id :: pending, visited =>
    if id ∈ visited then localDefinitionLoop fuel pending visited
    else .entry (.definition id) :: directMemberReads snapshot id ++
      localDefinitionLoop fuel ((memberDefinitions snapshot id).reverse ++ pending) (id :: visited)

def localDefinitionReads (owner : DefinitionId) (target : Option DefinitionId) : List Read :=
  localDefinitionLoop snapshot
    ((snapshot.product.definitions.toList.map fun entry => entry.2.localOccurrenceIds.length).sum + 3)
    (target.toList ++ [owner]) []

def localGroupReads (key : LocalGroupKey) (parent : Option LocalGroupId) : List Read :=
  .entry (.localGroup key) :: (parent.toList.map fun localId =>
    .entry (.localGroup ⟨key.definitionId, localId⟩)) ++
    localDefinitionReads snapshot key.definitionId none

def localOccurrenceReads (key : LocalOccurrenceKey) (target : Option DefinitionId)
    (parent : Option LocalGroupId) (tags : List TagId) : List Read :=
  .entry (.localOccurrence key) :: entryReads .tag tags ++ (parent.toList.map fun localId =>
    .entry (.localGroup ⟨key.definitionId, localId⟩)) ++
    localDefinitionReads snapshot key.definitionId target

/-- Cloning a definition for one occurrence reads the definition, its features and bindings, and the pin
joints with holes in the occurrence. -/
def cloneDefinitionReads (plan : CloneDefinitionPlan) : List Read :=
  let path : InstancePath := ⟨plan.occurrenceId, []⟩
  [.entry (.occurrenceCollections plan.occurrenceId), .entry .assemblyRecipe] ++
    ((snapshot.pinJoints.filter fun joint => joint.physicalHolePairs.isSome &&
      (joint.first.instancePath = path || joint.second.instancePath = path)).map fun joint =>
        .entry (.pinJoint joint.id)) ++
    [.entry (.occurrence plan.occurrenceId), .entry (.definition plan.sourceDefinitionId),
      .entry (.definition plan.newDefinitionId)] ++
    plan.featureIdMap.flatMap (fun entry => [.feature entry.1,
      .entry (.featureParameterBindings entry.1), .entry (.feature entry.2)]) ++
    directMemberReads snapshot plan.sourceDefinitionId

/-- Applying a solid tool reads both occurrences and features, and writes the results. -/
def solidToolReads (plan : SolidToolPlan) : List Read :=
  [.entry (.occurrence plan.targetOccurrenceId), .entry (.occurrence plan.toolOccurrenceId),
    .entry (.occurrenceCollections plan.toolOccurrenceId), .feature plan.targetFeatureId,
    .feature plan.toolFeatureId, .entry (.definition plan.resultDefinitionId)] ++
    entryReads .feature plan.resultFeatureIds

/-- Converting a group moves its occurrences, so what names them by path depends on it. -/
def groupConversionReads (plan : ConvertGroupPlan) : List Read :=
  [.entry (.groupSubtree plan.groupId), .entry (.definition plan.newDefinitionId),
    .entry (.occurrence plan.newOccurrenceId)] ++
    (snapshot.product.occurrences.toList.filter fun entry => entry.2.parent.any fun parent =>
      groupIsDescendant snapshot.product plan.groupId parent).map fun entry =>
        .entry (.occurrenceCollections entry.1)

def featureParameterBindingsInScope (scope_ : FeatureParameterRecomputeScope) :
    List FeatureParameterBinding :=
  match scope_ with
  | .all => snapshot.featureParameterBindings
  | .affectedBy nodes =>
    let affected := dependentClosure EvaluatorNode.dependencies snapshot.evaluatorNodes nodes
    snapshot.featureParameterBindings.filter fun binding =>
      affected.contains binding.derivedFrom.rootRuleNodeId

def bindingReads (binding : FeatureParameterBinding) : List Read :=
  [.entry (.featureParameterBinding binding.target), .feature binding.target.featureId,
    .evaluator binding.derivedFrom.rootRuleNodeId]

def participantReads : JointParticipant → List Read
  | .derived identity => [.evaluator identity.rootRuleNodeId]
  | .part path => pathReads snapshot path

def mateProducerReads (mate : AssemblyMate) : List Read :=
  [mate.endpointA, mate.endpointB].map fun endpoint => .feature endpoint.reference.producerFeatureId

/-- The occurrence and the producer of both ends. -/
def mateEndpointReads (mate : AssemblyMate) : List Read :=
  [mate.endpointA, mate.endpointB].flatMap fun endpoint =>
    [.entry (.occurrence endpoint.occurrenceId), .feature endpoint.reference.producerFeatureId]

def assemblyJointReads : List Read :=
  entryReads .assemblyJoint (snapshot.assemblyJoints.map AssemblyJoint.id)

def motionReads : List Read :=
  entryReads .assemblyMotionStudy (snapshot.assemblyMotionStudies.map AssemblyMotionStudy.id) ++
    entryReads .assemblyMotionCoupling (snapshot.assemblyMotionCouplings.map AssemblyMotionCoupling.id)

def jointOccurrenceReads (joint : AssemblyJoint) : List Read :=
  [.entry (.occurrence joint.parentInstancePath.root), .entry (.occurrence joint.childInstancePath.root)]

/-- The features of a definition that is there. -/
def definitionFeatureReads (id : DefinitionId) : List Read :=
  ((snapshot.product.definitions[id]?).elim [] Definition.featureIds).map fun id => .entry (.feature id)

/-- The mates with an end at one of some places. -/
def mateReads (isPlace : AssemblyMateEndpoint → Bool) : List Read :=
  entryReads .assemblyMate ((snapshot.assemblyMates.filter fun mate =>
    isPlace mate.endpointA || isPlace mate.endpointB).map AssemblyMate.id)

section Drawings

variable [Add R] [Mul R] [Zero R] [One R]

/-- The definitions that a path goes through below its root. -/
def pathDefinitionReads (path : InstancePath) : List Read :=
  path.steps.inits.flatMap fun steps =>
    match steps.getLast? with
    | some (.occurrence _) =>
      match resolveInstancePath snapshot.product ⟨path.root, steps⟩ with
      | .ok resolved =>
        .entry (.definition resolved.definitionId) ::
          definitionFeatureReads snapshot resolved.definitionId
      | .error _ => []
    | _ => []

def drawingSourceReads : DrawingSource → List Read
  | .definition id => .entry (.definition id) :: definitionFeatureReads snapshot id
  | .rigidAssembly occurrenceIds =>
    (occurrenceIds.flatMap fun occurrenceId =>
      match snapshot.product.occurrences[occurrenceId]? with
      | none => []
      | some occurrence =>
        if occurrence.definitionId ∈ snapshot.product.definitions then
          .entry (.definition occurrence.definitionId) ::
            definitionFeatureReads snapshot occurrence.definitionId
        else []) ++
      entryReads .occurrence occurrenceIds ++ entryReads .groundedOccurrence occurrenceIds ++
      mateReads snapshot fun endpoint => occurrenceIds.contains endpoint.occurrenceId
  | .rigidAssemblyInstances instancePaths =>
    entryReads .occurrence (instancePaths.map InstancePath.root) ++
      entryReads .groundedOccurrence (instancePaths.map InstancePath.root) ++
      (instancePaths.flatMap fun path =>
        (match snapshot.product.occurrences[path.root]? with
        | none => []
        | some root =>
          .entry (.definition root.definitionId) :: definitionFeatureReads snapshot root.definitionId) ++
        pathDefinitionReads snapshot path) ++
      mateReads snapshot fun endpoint => instancePaths.contains endpoint.instancePath

end Drawings

end Entries

/-! ### What commands read -/

section Commands

variable [Binary64 F] [Add R] [Mul R] [Zero R] [One R] (snapshot : Snapshot F R)

/-- The nodes that a text refers to, where it is an expression. -/
def expressionReads (expression : String) : List Read :=
  match (ExpressionAst.parse expression : Except GraphError (ExpressionAst F)) with
  | .ok ast => ast.dependencies.map .evaluator
  | .error _ => []

/-- **What a command reads**, in the order it is added. -/
def commandReads : CanonicalCommand R → List Read
  | .setTolerance => [.entry .tolerance]
  | .setFloorHeight => [.entry .floorHeight]
  | .setGroundedInstances paths =>
    .entry .groundedInstances :: (paths ++ snapshot.groundedInstances).flatMap (pathReads snapshot)
  | .setContactJoints joints => .entry .contactJoints :: contactJointReads snapshot joints
  | .setProductionCode instancePath => .entry .productionCodes :: pathReads snapshot instancePath
  | .setHoleThread id | .setShaftThread id => [.feature id]
  | .setModeledThreads => .entry .modeledThreads :: snapshot.holeThreads.map .feature
  | .createEvaluatorNode id inputs => createdInputReads id inputs
  | .setEvaluatorDimension id | .renameEvaluatorNode id | .deleteEvaluatorNode id => [.evaluator id]
  | .recordImport receipt => importReads receipt
  | .createDefinition id | .renameDefinition id => [.entry (.definition id)]
  | .deleteDefinition id => [.entry (.definition id), .entry (.definitionUsers id)]
  | .createBody definitionId _ | .deleteBody definitionId _ | .renameBody definitionId _
  | .setActiveBody definitionId _ | .setBodyVisibility definitionId _ =>
    [.entry (.definition definitionId)]
  | .consumeBody definitionId _ byFeatureId =>
    [.entry (.definition definitionId), .feature byFeatureId]
  | .setFeatureBodyOwnership id =>
    .feature id :: (snapshot.features[id]?.toList.map fun feature =>
      .entry (.definition feature.definitionId))
  | .setBodyFeatureSuppression definitionId bodyId suppressed =>
    suppressionReads snapshot definitionId bodyId suppressed
  | .createFeature id definitionId kind =>
    [.entry (.feature id), .entry (.definition definitionId)] ++ (closureSources kind true).map .feature
  | .deleteFeature id => [.feature id, .entry (.featureUsers id)]
  | .projectSketchEntity id source | .setCutTarget id source => [.feature id, .feature source]
  | .setFeatureParameter target => [.feature target.featureId]
  | .setFeatureDimension id | .createSketchConstraint id | .replaceSketchConstraint id
  | .deleteSketchConstraint id | .setSketchConstraintDimension id | .splitSketchEntity id
  | .joinSketchEntities id | .trimSketchEntity id | .extendSketchEntity id | .offsetSketchEntity id
  | .setSketchEntityConstruction id | .translateProfile id | .setProfilePoints id => [.feature id]
  | .guardAssemblyRecompute =>
    entryReads .occurrence snapshot.product.occurrences.keys ++
      entryReads .groundedOccurrence snapshot.groundedOccurrences ++
      (snapshot.assemblyMates.flatMap fun mate =>
        .entry (.assemblyMate mate.id) :: mateProducerReads mate) ++
      assemblyJointReads snapshot ++ motionReads snapshot
  | .applyAssemblySolve transforms instanceTransforms =>
    entryReads .occurrence transforms ++
      entryReads .occurrence (instanceTransforms.map InstancePath.root) ++
      entryReads .groundedOccurrence snapshot.groundedOccurrences ++
      (snapshot.assemblyMates.flatMap fun mate =>
        .entry (.assemblyMate mate.id) :: mateEndpointReads mate) ++
      assemblyJointReads snapshot ++ motionReads snapshot
  | .setOccurrenceGrounded id => groundingReads id
  | .createAssemblyMate mate | .rebindAssemblyMate mate =>
    .entry (.assemblyMate mate.id) :: [mate.endpointA, mate.endpointB].flatMap fun endpoint =>
      [.entry (.occurrence endpoint.occurrenceId), .feature endpoint.reference.profileFeatureId,
        .feature endpoint.reference.producerFeatureId]
  | .setAssemblyMateKind id =>
    .entry (.assemblyMate id) ::
      ((snapshot.assemblyMates.find? fun mate => mate.id = id).elim [] mateEndpointReads)
  | .deleteAssemblyMate id => [.entry (.assemblyMate id)]
  | .createAssemblyJoint joint =>
    .entry (.assemblyJoint joint.id) :: jointOccurrenceReads joint ++ assemblyJointReads snapshot
  | .setAssemblyJointKind id | .setAssemblyJointPosition id | .setAssemblyJointLimits id =>
    .entry (.assemblyJoint id) ::
      ((snapshot.assemblyJoints.find? fun joint => joint.id = id).elim [] jointOccurrenceReads) ++
      assemblyJointReads snapshot ++ motionReads snapshot
  | .deleteAssemblyJoint id => .entry (.assemblyJoint id) :: motionReads snapshot
  | .createAssemblyMotionCoupling coupling | .updateAssemblyMotionCoupling coupling =>
    [.entry (.assemblyMotionCoupling coupling.id), .entry (.assemblyJoint coupling.inputJointId),
      .entry (.assemblyJoint coupling.outputJointId)] ++
      entryReads .assemblyMotionCoupling
        (snapshot.assemblyMotionCouplings.map AssemblyMotionCoupling.id)
  | .deleteAssemblyMotionCoupling id => [.entry (.assemblyMotionCoupling id)]
  | .createAssemblyMotionStudy study | .updateAssemblyMotionStudy study =>
    .entry (.assemblyMotionStudy study.id) ::
      entryReads .assemblyJoint (study.drivers.map AssemblyMotionDriver.jointId)
  | .deleteAssemblyMotionStudy id => [.entry (.assemblyMotionStudy id)]
  | .createMechanicalInterface interface | .updateMechanicalInterface interface =>
    [.entry (.mechanicalInterface interface.id), .entry (.occurrence interface.occurrenceId)]
  | .deleteMechanicalInterface id =>
    .entry (.mechanicalInterface id) ::
      entryReads .mechanicalCondition (snapshot.mechanicalConditions.map MechanicalCondition.id)
  | .createMechanicalCondition condition | .updateMechanicalCondition condition =>
    .entry (.mechanicalCondition condition.id) ::
      entryReads .mechanicalInterface condition.kind.interfaces ++
      entryReads .assemblyJoint condition.kind.jointId.toList
  | .deleteMechanicalCondition id => [.entry (.mechanicalCondition id)]
  | .createDrawingSheet sheet | .updateDrawingSheet sheet =>
    .entry (.drawingSheet sheet.id) :: drawingSourceReads snapshot sheet.source
  | .deleteDrawingSheet id => [.entry (.drawingSheet id)]
  | .createOccurrence id definitionId parent tags =>
    [.entry (.occurrence id), .entry (.definition definitionId)] ++ entryReads .tag tags ++
      [.ancestry parent]
  | .setOccurrenceTransform id | .renameEntity id | .setOccurrenceColor id
  | .setOccurrenceVisibility id => [.entry (.occurrence id)]
  -- Edits inside a definition.
  | .createLocalOccurrence key definitionId parent tags =>
    localOccurrenceReads snapshot key (some definitionId) parent tags
  | .repointLocalOccurrence key definitionId =>
    .entry (.partReferencesThrough key.definitionId) ::
      localOccurrenceReads snapshot key (some definitionId) none []
  | .setLocalOccurrenceParent key parent =>
    .entry (.partReferencesThrough key.definitionId) ::
      localOccurrenceReads snapshot key none parent []
  | .setLocalOccurrenceTags key tags => localOccurrenceReads snapshot key none none tags
  | .deleteLocalOccurrence key =>
    .entry (.partReferencesThrough key.definitionId) ::
      localOccurrenceReads snapshot key none none []
  | .renameLocalOccurrence key | .setLocalOccurrenceColor key | .setLocalOccurrenceTransform key =>
    localOccurrenceReads snapshot key none none []
  | .createLocalGroup key parent => localGroupReads snapshot key parent
  | .setLocalGroupParent key parent =>
    .entry (.partReferencesThrough key.definitionId) :: localGroupReads snapshot key parent
  | .deleteLocalGroup key =>
    .entry (.partReferencesThrough key.definitionId) :: localGroupReads snapshot key none
  | .setLocalGroupTransform key => localGroupReads snapshot key none
  -- The structure of the world, and views.
  | .deleteOccurrence id => [.entry (.occurrence id), .entry (.occurrenceCollections id)]
  | .setOccurrenceTags id tags => .entry (.occurrence id) :: entryReads .tag tags
  | .repointOccurrence id definitionId =>
    [.entry (.occurrence id), .entry (.occurrenceCollections id), .entry (.definition definitionId)]
  | .setOccurrenceParent id parent => [.entry (.occurrence id), .ancestry parent]
  | .createGroup id parent | .setGroupParent id parent => [.entry (.group id), .ancestry parent]
  | .deleteGroup id => [.entry (.group id), .entry (.groupChildren id)]
  | .setGroupTransform id | .setGroupLogical id => [.entry (.group id)]
  | .upsertSavedView view => .entry (.savedView view.id) :: entryReads .tag view.hiddenTags
  | .deleteSavedView id => [.entry (.savedView id)]
  | .upsertUnderlay underlay => .entry (.underlay underlay.id) :: entryReads .tag underlay.tags
  | .deleteUnderlay id => [.entry (.underlay id)]
  | .setAnnotations annotations =>
    .entry .annotations :: entryReads .tag (annotations.flatMap Annotation.tags)
  | .cloneDefinitionAndRepoint plan => cloneDefinitionReads snapshot plan
  | .convertGroupToComponent plan => groupConversionReads snapshot plan
  | .applySolidTool plan => solidToolReads plan
  -- Rules and what they derive.
  | .createExpressionNode id expression | .createRuleNode id expression =>
    .entry (.evaluatorNode id) :: expressionReads (F := F) expression
  | .setNodeExpression id expression => .evaluator id :: expressionReads (F := F) expression
  | .setRuleOutputs id => [.evaluator id]
  | .upsertOverride value => [.entry (.override value.id), .evaluator value.target.rootRuleNodeId]
  | .deleteOverride id => [.entry (.override id)]
  | .upsertFeatureParameterBinding binding => bindingReads binding
  | .deleteFeatureParameterBinding target => [.entry (.featureParameterBinding target)]
  | .recomputeFeatureParameters scope_ =>
    (featureParameterBindingsInScope snapshot scope_).flatMap bindingReads
  | .upsertJoint joint =>
    .entry (.joint joint.id) ::
      [joint.participantA, joint.participantB].flatMap (participantReads snapshot)
  | .deleteJoint id => [.entry (.joint id)]
  | .upsertSpace space =>
    .entry (.space space.id) :: entryReads .space (space.adjacentTo ++ space.accessibleTo)
  | .deleteSpace id => [.entry (.space id)]
  | .upsertClearanceVolume clearance =>
    [.entry (.clearanceVolume clearance.id), match clearance.owner with
      | .occurrence path => .entry (.occurrence path.root)
      | .space id => .entry (.space id)] ++
      clearance.derivedFrom.toList.map fun identity => .evaluator identity.rootRuleNodeId
  | .deleteClearanceVolume id => [.entry (.clearanceVolume id)]
  | .upsertCamPlan plan => [.entry (.camPlan plan.id), .feature plan.target.featureId]
  | .deleteCamPlan id => [.entry (.camPlan id)]
  | .upsertPinJoint joint =>
    [.entry (.pinJoint joint.id), .entry (.occurrence joint.first.instancePath.root),
      .entry (.occurrence joint.second.instancePath.root)]
  | .deletePinJoint id => [.entry (.pinJoint id)]
  | .setAssemblyRecipe recipe =>
    .entry .assemblyRecipe :: (recipe.parts.flatMap fun part =>
      [.entry (.occurrence part.instancePath.root), .entry (.definition part.definitionId)]) ++
      entryReads .feature (recipe.ownedFeatures.map RecipeOwnedFeature.featureId) ++
      entryReads .pinJoint (recipe.joinery.map RecipeJoinery.pinJointId)
  | .clearAssemblyRecipe => [.entry .assemblyRecipe]
  | .upsertPersistentDimension dimension =>
    .entry (.persistentDimension dimension.id) :: match dimension.target with
      | .featureParameter target => [.feature target.featureId]
      | .derivedOutput identity => [.evaluator identity.rootRuleNodeId]
      | .exactFeatureParameter _ _ => []
  | .deletePersistentDimension id => [.entry (.persistentDimension id)]
  | .createTag id | .deleteTag id | .setTagVisibility id | .setTagName id => [.entry (.tag id)]
  | .upsertClassificationDimension id => classificationDimensionReads snapshot id
  | .setOccurrenceClassification occurrenceId dimensionId =>
    [.entry (.occurrence occurrenceId), .entry (.classificationDimension dimensionId),
      .entry (.occurrenceClassification occurrenceId dimensionId)]
  | .createCollection id | .deleteCollection id => [.entry (.collection id)]
  | .setCollectionOccurrences id occurrenceIds =>
    .entry (.collection id) :: entryReads .occurrence occurrenceIds

/-- **The dependencies of a batch.** -/
def authoritativeDependencies (batch : CommandBatch R) : Finset AuthoritativeDependency :=
  (batch.flatMap (commandReads snapshot)).foldl (Read.add snapshot) ∅

end Commands

end Ketchup.Dependencies
