/-
**Features.**

What the definition of a part is made of: work planes, sketches, profiles and the bodies swept, cut,
joined and finished from them. A feature names others by id, and faces and edges of bodies by references
that name the features that produced them.

Coordinates may be of any type; a length keeps the text it was entered as (`Dimension`).
-/

import Ketchup.Graph.Node
import Ketchup.Product.Transform

namespace Ketchup.Product

open Ketchup.Graph

/-! ### Identifiers -/

abbrev DocumentId := Nat
abbrev DefinitionId := Nat
abbrev FeatureId := Nat
abbrev BodyId := Nat
abbrev ImportId := Nat
abbrev SketchEntityId := Nat
abbrev SketchConstraintId := Nat
abbrev SketchRegionId := Nat

/-- A point in a plane. -/
structure Vec2 (R : Type) where
  x : R
  y : R
  deriving DecidableEq

/-! ### References to faces and edges -/

structure BodySubshapeRef where
  schema : String
  documentId : DocumentId
  definitionId : DefinitionId
  profileFeatureId : FeatureId
  producerFeatureId : FeatureId
  semanticRole : String
  sourceElementId : String
  expectedType : String
  expectedCardinality : Nat
  canonicalInputDigest : String
  exactInputDigest : String
  resultFingerprint : String
  evaluator : String
  backend : String
  tolerance : String
  lineageDigest : String
  corroboratingGeometryFingerprint : String
  deriving DecidableEq

inductive TopologicalElementKind
  | face
  | edge
  | vertex
  deriving DecidableEq

inductive TopologicalReferenceStability
  | guaranteed
  | bestEffort
  | ephemeral
  deriving DecidableEq

structure TopologicalElementRef where
  schema : String
  documentId : DocumentId
  definitionId : DefinitionId
  sourceFeatureId : FeatureId
  producerFeatureId : FeatureId
  kind : TopologicalElementKind
  sourceElementId : String
  producerElementId : String
  stability : TopologicalReferenceStability
  lineageDigest : String
  evaluator : String
  backend : String
  tolerance : String
  resultFingerprint : String
  corroboratingGeometryFingerprint : String
  deriving DecidableEq

inductive ProfileFaceReference
  | start
  | end_
  | segment (entityId : Nat) (sourceName : String)
  | namedResult (name : String)
  deriving DecidableEq

structure ProfileEdgeReference where
  first : ProfileFaceReference
  second : ProfileFaceReference
  deriving DecidableEq

/-- A face picked by a feature: a recorded element of the target body, or one its profile names. -/
inductive FaceRef
  | topological (reference : TopologicalElementRef)
  | named (reference : ProfileFaceReference)
  deriving DecidableEq

inductive EdgeRef
  | topological (reference : TopologicalElementRef)
  | named (reference : ProfileEdgeReference)
  deriving DecidableEq

structure ChamferEdgeSide where
  edge : TopologicalElementRef
  sideFace : TopologicalElementRef
  deriving DecidableEq

/-! ### Work planes -/

inductive PrincipalPlane
  | xy
  | yz
  | xz
  deriving DecidableEq

inductive WorkplaneSupportHealth
  | resolved
  | ambiguous
  | lost
  | stale
  deriving DecidableEq

section Kinds

variable (R : Type)

inductive WorkplaneSupport
  | free
  | principal (plane : PrincipalPlane)
  | offset (base : FeatureId) (distance : Dimension R)
  | planarFace (reference : BodySubshapeRef) (health : WorkplaneSupportHealth)
  | constructionPlane (feature : FeatureId)
  deriving DecidableEq

structure WorkplaneFrame where
  originMm : Vec3 R
  xAxis : Vec3 R
  yAxis : Vec3 R
  normal : Vec3 R
  deriving DecidableEq

structure WorkplaneSpec where
  support : WorkplaneSupport R
  frame : WorkplaneFrame R
  deriving DecidableEq

/-! ### Sketches -/

inductive SketchPointKind
  | start
  | end_
  | center
  | control1
  | control2
  deriving DecidableEq

structure SketchPointRef where
  entity : SketchEntityId
  point : SketchPointKind
  deriving DecidableEq

inductive SketchEntity
  | line (id : SketchEntityId) (startMm endMm : Vec2 R)
  | arc (id : SketchEntityId) (startMm endMm centerMm : Vec2 R) (clockwise : Bool)
  | circle (id : SketchEntityId) (centerMm : Vec2 R) (radiusMm : R)
  | cubicBezier (id : SketchEntityId) (startMm control1Mm control2Mm endMm : Vec2 R)
  deriving DecidableEq

inductive SketchConstraintKind
  | horizontal (entity : SketchEntityId)
  | vertical (entity : SketchEntityId)
  | coincident (a b : SketchPointRef)
  | distance (a b : SketchPointRef) (value : Dimension R)
  | radius (entity : SketchEntityId) (value : Dimension R)
  | fixedPoint (point : SketchPointRef) (positionMm : Vec2 R)
  | parallel (a b : SketchEntityId)
  | perpendicular (a b : SketchEntityId)
  | tangent (a b : SketchEntityId)
  | angle (a b : SketchEntityId) (angleDegrees : R)
  | equal (a b : SketchEntityId)
  | symmetric (a b : SketchPointRef) (axis : SketchEntityId)
  | concentric (a b : SketchEntityId)
  | collinear (a b : SketchEntityId)
  | midpoint (point : SketchPointRef) (line : SketchEntityId)
  | pointOnCurve (point : SketchPointRef) (curve : SketchEntityId)
  | projection (entity : SketchEntityId) (sourceFeature : FeatureId) (sourceEntity : SketchEntityId)
      (target : SketchEntity R)
  | construction (entity : SketchEntityId)
  deriving DecidableEq

structure SketchConstraint where
  id : SketchConstraintId
  kind : SketchConstraintKind R
  deriving DecidableEq

structure SketchSpec where
  workplane : FeatureId
  entities : List (SketchEntity R)
  constraints : List (SketchConstraint R)
  deriving DecidableEq

/-! ### Profiles and paths -/

inductive ProfileSegment
  | line (startMm endMm : Vec2 R)
  | circularArc (startMm endMm centerMm : Vec2 R) (clockwise : Bool)
  | cubicBezier (startMm control1Mm control2Mm endMm : Vec2 R)
  /-- A smooth curve through points. -/
  | spline (pointsMm : List (Vec2 R))
  deriving DecidableEq

inductive SpatialPathSegment
  | line (startMm endMm : Vec3 R)
  | circularArc (startMm endMm centerMm normal : Vec3 R) (clockwise : Bool)
  | cubicBezier (startMm control1Mm control2Mm endMm : Vec3 R)
  deriving DecidableEq

/-! ### Pads -/

inductive PadProfile
  | feature (id : FeatureId)
  | sketchRegion (sketch : FeatureId) (region : SketchRegionId)
  deriving DecidableEq

inductive FeatureDirection
  | alongNormal
  | oppositeNormal
  | vector (direction : Vec3 R)
  deriving DecidableEq

inductive FeatureExtentEnd
  | blind (distance : Dimension R)
  | throughAll
  | upToFace (reference : BodySubshapeRef)
  deriving DecidableEq

inductive FeatureExtent
  | blind (distance : Dimension R)
  | throughAll
  | upToFace (reference : BodySubshapeRef)
  | symmetric (distance : Dimension R)
  | bidirectional (along opposite : FeatureExtentEnd R)
  deriving DecidableEq

/-- Where a cut measures its extent from. -/
inductive CutStart
  | profilePlane
  | support (reference : BodySubshapeRef)
  | targetFace
  deriving DecidableEq

inductive PadOperation
  | newBody
  | cut (target : FeatureId) (start : CutStart)
  deriving DecidableEq

structure PadSpec where
  profile : PadProfile
  direction : FeatureDirection R
  extent : FeatureExtent R
  operation : PadOperation
  deriving DecidableEq

/-! ### Finishes and bodies -/

inductive ShellDirection
  | inward
  | outward
  | symmetric
  deriving DecidableEq

inductive EdgeFinishKind
  | fillet
  | chamfer
  deriving DecidableEq

inductive ChamferMode
  | symmetric
  | twoDistance (secondDistance : Dimension R)
  | distanceAngle (angleDegrees : R)
  deriving DecidableEq

structure FilletRadiusStation where
  position : R
  radius : Dimension R
  deriving DecidableEq

structure DraftSpec where
  target : FeatureId
  faces : List FaceRef
  neutral : FaceRef
  angleDegrees : R
  deriving DecidableEq

inductive BooleanOperation
  | cut
  | union
  | intersect
  | split
  deriving DecidableEq

structure WeldmentMemberSpec where
  profile : FeatureId
  path : FeatureId
  orientationDegrees : R
  deriving DecidableEq

inductive WeldmentJointPolicy
  | butt
  | miter
  deriving DecidableEq

inductive WeldmentJointPrimary
  | first
  | second
  deriving DecidableEq

structure WeldmentJointSpec where
  firstMember : FeatureId
  secondMember : FeatureId
  policy : WeldmentJointPolicy
  primary : WeldmentJointPrimary
  deriving DecidableEq

inductive LoftContinuity
  | position
  | tangent
  | curvature
  deriving DecidableEq

structure LoftSection where
  profile : FeatureId
  elevationMm : R
  deriving DecidableEq

inductive SurfaceBodySpec
  | planar (profile : FeatureId)
  | loft (sections : List (LoftSection R)) (guide : Option FeatureId) (continuity : LoftContinuity)
  deriving DecidableEq

structure SheetMetalBend where
  /-- The face the bend leaves: the base, or the flange of a bend. -/
  parent : Option Nat
  edge : Nat
  length : Dimension R
  angleDegrees : R
  innerRadius : Dimension R
  deriving DecidableEq

structure SheetMetalSpec where
  baseMm : List (Vec2 R)
  thickness : Dimension R
  kFactor : R
  bends : List (SheetMetalBend R)
  deriving DecidableEq

inductive BodyKind
  | solid
  | surface
  deriving DecidableEq

structure ImportedExactBodySpec where
  schema : String
  importId : ImportId
  sourceSha256 : List UInt8
  sourceByteLen : Nat
  sourcePartIndex : Option Nat
  resultFingerprint : String
  bodyKind : BodyKind
  solidCount : Nat
  topologyCounts : Option (List Nat)
  areaMm2 : R
  volumeMm3 : R
  boundsMm : Vec3 R × Vec3 R
  backend : String
  tolerance : String
  deriving DecidableEq

structure ExactToMeshConversion where
  sourceDocumentId : DocumentId
  sourceRevision : Nat
  sourceDigest : String
  sourceDefinitionId : DefinitionId
  sourceFeatureId : FeatureId
  sourceResultFingerprint : String
  sourceEvaluator : String
  sourceBackend : String
  sourceTolerance : String
  tessellationTolerance : String
  destinationDefinitionId : DefinitionId
  destinationFeatureId : FeatureId
  unsupportedSemantics : List String
  deriving DecidableEq

inductive MeshAuthority
  | authored (provenance : String)
  | exactConversion (conversion : ExactToMeshConversion)
  | importedStl (importId : ImportId)
  | importedSketchupScene (importId : ImportId)
  | importedGlb (importId : ImportId)
  deriving DecidableEq

structure MeshBodySpec where
  schema : String
  verticesMm : List (Vec3 R)
  triangles : List (Nat × Nat × Nat)
  authority : MeshAuthority
  deriving DecidableEq

/-! ### Kinds of features -/

inductive FeatureKind
  | workplane (spec : WorkplaneSpec R)
  | sketch (spec : SketchSpec R)
  | profile (segments : List (ProfileSegment R)) (closed : Bool)
  | spatialPath (segments : List (SpatialPathSegment R))
  | constructionPoint (positionMm : Vec3 R)
  | constructionAxis (originMm direction : Vec3 R)
  | constructionPlane (originMm normal xDirection : Vec3 R)
  | pad (spec : PadSpec R)
  | revolve (profile : FeatureId) (axisStartMm axisEndMm : Vec2 R) (angleDegrees : R)
  | shell (target : FeatureId) (removedFaces : List FaceRef) (thickness : Dimension R)
      (direction : ShellDirection)
  | edgeFinish (target : FeatureId) (edges : List EdgeRef) (kind : EdgeFinishKind)
      (amount : Dimension R) (filletRadiusStations : List (FilletRadiusStation R))
      (chamferMode : ChamferMode R) (chamferEdgeSides : List ChamferEdgeSide)
  | faceOffset (target : FeatureId) (face : FaceRef) (distance : Dimension R)
  | draft (spec : DraftSpec R)
  | boolean (operation : BooleanOperation) (target tool : FeatureId)
  | planarOffset (profile : FeatureId) (distance : Dimension R)
  | sweep (profile path : FeatureId) (up : Option (Vec3 R))
  | weldmentMember (spec : WeldmentMemberSpec R)
  | weldmentJoint (spec : WeldmentJointSpec)
  | surfaceBody (spec : SurfaceBodySpec R)
  | surfaceTrim (target cutter : FeatureId)
  | surfaceExtend (target : FeatureId) (distance : Dimension R)
  | surfaceKnit (surfaces : List FeatureId) (tolerance : Dimension R) (makeSolid : Bool)
  | surfaceThicken (target : FeatureId) (thickness : Dimension R) (direction : ShellDirection)
  | loft (sections : List (LoftSection R)) (guide : Option FeatureId) (continuity : LoftContinuity)
  | sheetMetal (spec : SheetMetalSpec R)
  | importedExactBody (spec : ImportedExactBodySpec R)
  | rigidTransform (target : FeatureId) (transform : Transform R)
  | scale (target : FeatureId) (originMm factors : Vec3 R)
  | meshBody (spec : MeshBodySpec R)
  deriving DecidableEq

structure Feature where
  definitionId : DefinitionId
  name : String
  kind : FeatureKind R
  deriving DecidableEq

end Kinds

variable {R : Type}

/-! ### Which features a feature depends on -/

def PadProfile.featureId : PadProfile → FeatureId
  | feature id => id
  | sketchRegion sketch _ => sketch

def PadOperation.target : PadOperation → Option FeatureId
  | newBody => none
  | cut target _ => some target

def SketchConstraintKind.projectionSource? : SketchConstraintKind R → Option FeatureId
  | projection _ sourceFeature _ _ => some sourceFeature
  | _ => none

/-- The features a feature depends on. -/
def FeatureKind.dependencies : FeatureKind R → List FeatureId
  | workplane spec =>
    match spec.support with
    | .free | .principal _ => []
    | .offset base _ => [base]
    | .constructionPlane feature => [feature]
    | .planarFace reference _ => [reference.profileFeatureId, reference.producerFeatureId]
  | sketch spec =>
    spec.workplane :: spec.constraints.filterMap fun constraint => constraint.kind.projectionSource?
  | profile _ _ | sheetMetal _ | spatialPath _ | constructionPoint _ | constructionAxis _ _
  | constructionPlane _ _ _ | importedExactBody _ | meshBody _ => []
  | rigidTransform target _ | scale target _ _ => [target]
  | revolve source _ _ _ | planarOffset source _ => [source]
  | pad spec => spec.operation.target.toList ++ [spec.profile.featureId]
  | shell target _ _ _ | edgeFinish target _ _ _ _ _ _ | faceOffset target _ _ => [target]
  | draft spec => [spec.target]
  | boolean _ target tool => [target, tool]
  | sweep source path _ => [source, path]
  | weldmentMember spec => [spec.profile, spec.path]
  | weldmentJoint spec => [spec.firstMember, spec.secondMember]
  | loft sections guide _ | surfaceBody (.loft sections guide _) =>
    sections.map LoftSection.profile ++ guide.toList
  | surfaceBody (.planar source) => [source]
  | surfaceTrim target cutter => [target, cutter]
  | surfaceExtend target _ | surfaceThicken target _ _ => [target]
  | surfaceKnit surfaces _ _ => surfaces

end Ketchup.Product
