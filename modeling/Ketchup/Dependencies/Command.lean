/-
**What commands name and what they may read.**

An `AuthoritativeDependency` is an entry of the document that a command reads. The commands carry what their
dependencies are found from; the rest of their payload (names, transforms, values) is left out.
-/

import Ketchup.Product.Binding
import Ketchup.Product.Conversion

namespace Ketchup.Dependencies

open Ketchup.Graph Ketchup.Product

/-! ### Identifiers -/

abbrev JointId := Nat
abbrev SpaceId := Nat
abbrev ClearanceVolumeId := Nat
abbrev CamPlanId := Nat
abbrev PinJointId := Nat
abbrev PersistentDimensionId := Nat
abbrev SavedViewId := Nat
abbrev UnderlayId := Nat
abbrev ClassificationDimensionId := Nat
abbrev CollectionId := Nat
abbrev AssemblyMateId := Nat
abbrev AssemblyJointId := Nat
abbrev AssemblyMotionCouplingId := Nat
abbrev AssemblyMotionStudyId := Nat
abbrev MechanicalInterfaceId := Nat
abbrev MechanicalConditionId := Nat
abbrev DrawingSheetId := Nat

inductive AuthoritativeDependency
  | evaluatorNode (id : NodeId)
  | override (id : Nat)
  | featureParameterBinding (target : FeatureParameterTarget)
  | joint (id : JointId)
  | space (id : SpaceId)
  | clearanceVolume (id : ClearanceVolumeId)
  | camPlan (id : CamPlanId)
  | pinJoint (id : PinJointId)
  | tolerance
  | floorHeight
  | groundedInstances
  | contactJoints
  | productionCodes
  | modeledThreads
  | assemblyRecipe
  | persistentDimension (id : PersistentDimensionId)
  | tag (id : TagId)
  | savedView (id : SavedViewId)
  | underlay (id : UnderlayId)
  | annotations
  | classificationDimension (id : ClassificationDimensionId)
  | occurrenceClassification (occurrence : OccurrenceId) (dimension : ClassificationDimensionId)
  | collection (id : CollectionId)
  | import_ (id : ImportId)
  | definition (id : DefinitionId)
  | feature (id : FeatureId)
  | bodyFeatureSuppression (definition : DefinitionId) (body : BodyId)
  | occurrence (id : OccurrenceId)
  | groundedOccurrence (id : OccurrenceId)
  | assemblyMate (id : AssemblyMateId)
  | assemblyJoint (id : AssemblyJointId)
  | assemblyMotionCoupling (id : AssemblyMotionCouplingId)
  | assemblyMotionStudy (id : AssemblyMotionStudyId)
  | mechanicalInterface (id : MechanicalInterfaceId)
  | mechanicalCondition (id : MechanicalConditionId)
  | drawingSheet (id : DrawingSheetId)
  | group (id : GroupId)
  | localGroup (key : LocalGroupKey)
  | localOccurrence (key : LocalOccurrenceKey)
  | definitionUsers (id : DefinitionId)
  | featureUsers (id : FeatureId)
  | featureParameterBindings (id : FeatureId)
  | groupChildren (id : GroupId)
  | groupSubtree (id : GroupId)
  | occurrenceCollections (id : OccurrenceId)
  /-- References to parts whose nested path goes through the definition. -/
  | partReferencesThrough (id : DefinitionId)
  deriving DecidableEq

/-! ### Assemblies -/

structure AssemblyMateEndpoint where
  instancePath : InstancePath
  reference : BodySubshapeRef

def AssemblyMateEndpoint.occurrenceId (endpoint : AssemblyMateEndpoint) : OccurrenceId :=
  endpoint.instancePath.root

structure AssemblyMate where
  id : AssemblyMateId
  endpointA : AssemblyMateEndpoint
  endpointB : AssemblyMateEndpoint

structure AssemblyJoint where
  id : AssemblyJointId
  parentInstancePath : InstancePath
  childInstancePath : InstancePath

structure AssemblyMotionCoupling where
  id : AssemblyMotionCouplingId
  inputJointId : AssemblyJointId
  outputJointId : AssemblyJointId

structure AssemblyMotionDriver where
  jointId : AssemblyJointId

structure AssemblyMotionStudy where
  id : AssemblyMotionStudyId
  drivers : List AssemblyMotionDriver

structure MechanicalInterface where
  id : MechanicalInterfaceId
  occurrenceId : OccurrenceId

inductive MechanicalConditionKind
  | planarContact (first second : MechanicalInterfaceId)
  | support (supported supporting : MechanicalInterfaceId)
  | jointAxisAlignment (jointId : AssemblyJointId) (interface : MechanicalInterfaceId)
  | jointTravel (jointId : AssemblyJointId)

def MechanicalConditionKind.interfaces : MechanicalConditionKind → List MechanicalInterfaceId
  | planarContact first second => [first, second]
  | support supported supporting => [supported, supporting]
  | jointAxisAlignment _ interface => [interface]
  | jointTravel _ => []

def MechanicalConditionKind.jointId : MechanicalConditionKind → Option AssemblyJointId
  | planarContact _ _ | support _ _ => none
  | jointAxisAlignment jointId _ | jointTravel jointId => some jointId

structure MechanicalCondition where
  id : MechanicalConditionId
  kind : MechanicalConditionKind

structure ContactJoint where
  parts : InstancePath × InstancePath

inductive JointParticipant
  | derived (identity : DerivedIdentity)
  | part (path : InstancePath)

structure DocumentJoint where
  id : JointId
  participantA : JointParticipant
  participantB : JointParticipant

structure PinJointFace where
  instancePath : InstancePath

structure PinPhysicalHolePair where
  firstPocketFeatureId : FeatureId
  secondPocketFeatureId : FeatureId

structure PinJointContract where
  id : PinJointId
  first : PinJointFace
  second : PinJointFace
  physicalHolePairs : Option (List PinPhysicalHolePair)

structure RecipePart where
  instancePath : InstancePath
  definitionId : DefinitionId

structure RecipeJoinery where
  pinJointId : PinJointId

structure RecipeOwnedFeature where
  featureId : FeatureId

structure AssemblyRecipe where
  parts : List RecipePart
  joinery : List RecipeJoinery
  ownedFeatures : List RecipeOwnedFeature

/-! ### Other entries -/

inductive DrawingSource
  | definition (id : DefinitionId)
  | rigidAssembly (occurrenceIds : List OccurrenceId)
  | rigidAssemblyInstances (instancePaths : List InstancePath)

structure DrawingSheet where
  id : DrawingSheetId
  source : DrawingSource

structure CanonicalSpace where
  id : SpaceId
  adjacentTo : List SpaceId
  accessibleTo : List SpaceId

inductive ClearanceOwner
  | occurrence (path : InstancePath)
  | space (id : SpaceId)

structure CanonicalClearanceVolume where
  id : ClearanceVolumeId
  owner : ClearanceOwner
  derivedFrom : Option DerivedIdentity

structure CamTarget where
  definitionId : DefinitionId
  featureId : FeatureId

structure CamPlan where
  id : CamPlanId
  target : CamTarget

inductive PersistentDimensionTarget
  | featureParameter (target : FeatureParameterTarget)
  | derivedOutput (identity : DerivedIdentity)
  | exactFeatureParameter (definitionId : DefinitionId) (producerFeatureId : FeatureId)

structure PersistentDimension where
  id : PersistentDimensionId
  target : PersistentDimensionTarget

structure SavedView where
  id : SavedViewId
  hiddenTags : List TagId

structure UnderlayLayer where
  tag : TagId

structure Underlay where
  id : UnderlayId
  tag : TagId
  layers : List UnderlayLayer

def Underlay.tags (underlay : Underlay) : List TagId :=
  underlay.tag :: underlay.layers.map UnderlayLayer.tag

structure Annotation where
  tags : List TagId

structure CanonicalOverride where
  id : Nat
  target : DerivedIdentity

inductive ImportOutputRef
  | definition (id : DefinitionId)
  | feature (id : FeatureId)
  | occurrence (id : OccurrenceId)
  | group (id : GroupId)

structure ImportReceipt where
  id : ImportId
  outputs : List ImportOutputRef

structure CloneDefinitionPlan where
  occurrenceId : OccurrenceId
  sourceDefinitionId : DefinitionId
  newDefinitionId : DefinitionId
  featureIdMap : List (FeatureId × FeatureId)

structure SolidToolPlan where
  targetOccurrenceId : OccurrenceId
  targetFeatureId : FeatureId
  toolOccurrenceId : OccurrenceId
  toolFeatureId : FeatureId
  resultDefinitionId : DefinitionId
  resultFeatureIds : List FeatureId

/-! ### Commands -/

inductive CanonicalCommand (R : Type)
  | setTolerance
  | setFloorHeight
  | setGroundedInstances (paths : List InstancePath)
  | setContactJoints (joints : List ContactJoint)
  | setProductionCode (instancePath : InstancePath)
  | createEvaluatorNode (id : NodeId) (dependencies : List NodeId)
  | setEvaluatorDimension (id : NodeId)
  | renameEvaluatorNode (id : NodeId)
  | deleteEvaluatorNode (id : NodeId)
  | createExpressionNode (id : NodeId) (expression : String)
  | createRuleNode (id : NodeId) (expression : String)
  | setNodeExpression (id : NodeId) (expression : String)
  | setRuleOutputs (id : NodeId)
  | upsertOverride (value : CanonicalOverride)
  | deleteOverride (id : Nat)
  | upsertFeatureParameterBinding (binding : FeatureParameterBinding)
  | deleteFeatureParameterBinding (target : FeatureParameterTarget)
  | recomputeFeatureParameters (scope_ : FeatureParameterRecomputeScope)
  | upsertJoint (joint : DocumentJoint)
  | deleteJoint (id : JointId)
  | upsertSpace (space : CanonicalSpace)
  | deleteSpace (id : SpaceId)
  | upsertClearanceVolume (clearance : CanonicalClearanceVolume)
  | deleteClearanceVolume (id : ClearanceVolumeId)
  | upsertCamPlan (plan : CamPlan)
  | deleteCamPlan (id : CamPlanId)
  | upsertPinJoint (joint : PinJointContract)
  | deletePinJoint (id : PinJointId)
  | setAssemblyRecipe (recipe : AssemblyRecipe)
  | clearAssemblyRecipe
  | upsertPersistentDimension (dimension : PersistentDimension)
  | deletePersistentDimension (id : PersistentDimensionId)
  | createTag (id : TagId)
  | deleteTag (id : TagId)
  | setTagVisibility (id : TagId)
  | setTagName (id : TagId)
  | upsertSavedView (view : SavedView)
  | deleteSavedView (id : SavedViewId)
  | upsertUnderlay (underlay : Underlay)
  | deleteUnderlay (id : UnderlayId)
  | setAnnotations (annotations : List Annotation)
  | upsertClassificationDimension (id : ClassificationDimensionId)
  | setOccurrenceClassification (occurrenceId : OccurrenceId) (dimensionId : ClassificationDimensionId)
  | createCollection (id : CollectionId)
  | deleteCollection (id : CollectionId)
  | setCollectionOccurrences (id : CollectionId) (occurrenceIds : List OccurrenceId)
  | recordImport (receipt : ImportReceipt)
  | createDefinition (id : DefinitionId)
  | deleteDefinition (id : DefinitionId)
  | renameDefinition (id : DefinitionId)
  | createBody (definitionId : DefinitionId) (id : BodyId)
  | deleteBody (definitionId : DefinitionId) (id : BodyId)
  | renameBody (definitionId : DefinitionId) (id : BodyId)
  | setActiveBody (definitionId : DefinitionId) (id : BodyId)
  | setBodyVisibility (definitionId : DefinitionId) (id : BodyId)
  | consumeBody (definitionId : DefinitionId) (id : BodyId) (byFeatureId : FeatureId)
  | setFeatureBodyOwnership (id : FeatureId)
  | setBodyFeatureSuppression (definitionId : DefinitionId) (bodyId : BodyId)
      (suppressedFeatureIds : List FeatureId)
  | createFeature (id : FeatureId) (definitionId : DefinitionId) (kind : FeatureKind R)
  | deleteFeature (id : FeatureId)
  | setCutTarget (id target : FeatureId)
  | setFeatureDimension (id : FeatureId)
  | setFeatureParameter (target : FeatureParameterTarget)
  | setHoleThread (id : FeatureId)
  | setModeledThreads
  | setShaftThread (id : FeatureId)
  | createSketchConstraint (id : FeatureId)
  | replaceSketchConstraint (id : FeatureId)
  | deleteSketchConstraint (id : FeatureId)
  | setSketchConstraintDimension (id : FeatureId)
  | splitSketchEntity (id : FeatureId)
  | joinSketchEntities (id : FeatureId)
  | trimSketchEntity (id : FeatureId)
  | extendSketchEntity (id : FeatureId)
  | offsetSketchEntity (id : FeatureId)
  | projectSketchEntity (id sourceFeatureId : FeatureId)
  | setSketchEntityConstruction (id : FeatureId)
  | translateProfile (id : FeatureId)
  | setProfilePoints (id : FeatureId)
  | createOccurrence (id : OccurrenceId) (definitionId : DefinitionId) (parent : Option GroupId)
      (tags : List TagId)
  | deleteOccurrence (id : OccurrenceId)
  | setOccurrenceTransform (id : OccurrenceId)
  | createLocalOccurrence (key : LocalOccurrenceKey) (definitionId : DefinitionId)
      (parent : Option LocalGroupId) (tags : List TagId)
  | deleteLocalOccurrence (key : LocalOccurrenceKey)
  | repointLocalOccurrence (key : LocalOccurrenceKey) (definitionId : DefinitionId)
  | setLocalOccurrenceParent (key : LocalOccurrenceKey) (parent : Option LocalGroupId)
  | setLocalOccurrenceTransform (key : LocalOccurrenceKey)
  | setLocalOccurrenceColor (key : LocalOccurrenceKey)
  | setLocalOccurrenceTags (key : LocalOccurrenceKey) (tags : List TagId)
  | renameLocalOccurrence (key : LocalOccurrenceKey)
  | renameEntity (id : OccurrenceId)
  | applyAssemblySolve (transforms : List OccurrenceId) (instanceTransforms : List InstancePath)
  | guardAssemblyRecompute
  | setOccurrenceGrounded (id : OccurrenceId)
  | createAssemblyMate (mate : AssemblyMate)
  | rebindAssemblyMate (mate : AssemblyMate)
  | setAssemblyMateKind (id : AssemblyMateId)
  | deleteAssemblyMate (id : AssemblyMateId)
  | createAssemblyJoint (joint : AssemblyJoint)
  | setAssemblyJointKind (id : AssemblyJointId)
  | setAssemblyJointPosition (id : AssemblyJointId)
  | setAssemblyJointLimits (id : AssemblyJointId)
  | deleteAssemblyJoint (id : AssemblyJointId)
  | createAssemblyMotionCoupling (coupling : AssemblyMotionCoupling)
  | updateAssemblyMotionCoupling (coupling : AssemblyMotionCoupling)
  | deleteAssemblyMotionCoupling (id : AssemblyMotionCouplingId)
  | createAssemblyMotionStudy (study : AssemblyMotionStudy)
  | updateAssemblyMotionStudy (study : AssemblyMotionStudy)
  | deleteAssemblyMotionStudy (id : AssemblyMotionStudyId)
  | createMechanicalInterface (interface : MechanicalInterface)
  | updateMechanicalInterface (interface : MechanicalInterface)
  | deleteMechanicalInterface (id : MechanicalInterfaceId)
  | createMechanicalCondition (condition : MechanicalCondition)
  | updateMechanicalCondition (condition : MechanicalCondition)
  | deleteMechanicalCondition (id : MechanicalConditionId)
  | createDrawingSheet (sheet : DrawingSheet)
  | updateDrawingSheet (sheet : DrawingSheet)
  | deleteDrawingSheet (id : DrawingSheetId)
  | setOccurrenceColor (id : OccurrenceId)
  | setOccurrenceVisibility (id : OccurrenceId)
  | setOccurrenceTags (id : OccurrenceId) (tags : List TagId)
  | repointOccurrence (id : OccurrenceId) (definitionId : DefinitionId)
  | setOccurrenceParent (id : OccurrenceId) (parent : Option GroupId)
  | createGroup (id : GroupId) (parent : Option GroupId)
  | createLocalGroup (key : LocalGroupKey) (parent : Option LocalGroupId)
  | deleteLocalGroup (key : LocalGroupKey)
  | setLocalGroupTransform (key : LocalGroupKey)
  | setLocalGroupParent (key : LocalGroupKey) (parent : Option LocalGroupId)
  | deleteGroup (id : GroupId)
  | setGroupTransform (id : GroupId)
  | setGroupParent (id : GroupId) (parent : Option GroupId)
  | setGroupLogical (id : GroupId)
  | cloneDefinitionAndRepoint (plan : CloneDefinitionPlan)
  | convertGroupToComponent (plan : ConvertGroupPlan)
  | applySolidTool (plan : SolidToolPlan)

abbrev CommandBatch (R : Type) := List (CanonicalCommand R)

/-! ### The snapshot -/

/-- The entries of a snapshot that dependencies are found from. -/
structure Snapshot (F R : Type) where
  product : ProductModel R
  evaluatorNodes : Nodes F
  features : BTreeMap FeatureId (Feature R)
  bodyFeatureSuppression : List ((DefinitionId × BodyId) × List FeatureId)
  /-- The features that cut holes with a thread. -/
  holeThreads : List FeatureId
  featureParameterBindings : List FeatureParameterBinding
  classificationAssignments : List (OccurrenceId × ClassificationDimensionId)
  groundedOccurrences : List OccurrenceId
  groundedInstances : List InstancePath
  contactJoints : List ContactJoint
  assemblyMates : List AssemblyMate
  assemblyJoints : List AssemblyJoint
  assemblyMotionCouplings : List AssemblyMotionCoupling
  assemblyMotionStudies : List AssemblyMotionStudy
  mechanicalConditions : List MechanicalCondition
  pinJoints : List PinJointContract

end Ketchup.Dependencies
