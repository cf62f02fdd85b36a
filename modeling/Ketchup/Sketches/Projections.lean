/-
**Sketches that project entities of other sketches.**

A projection constraint draws an entity of another sketch in its own plane: the sketch holds the projected
entity, and the constraint a copy of it, the target. `refreshSketchProjections` draws each anew, one sketch
after another in the order of `fromProduct`, the dependency graph of the features;
`validateSketchProjections` refuses a product with a projection that is not as it would be drawn.

Coordinates are exact. `Lengths` is the length of vectors and `Solver` what solving a sketch is made of
besides its own checks.
-/

import Ketchup.Library.Refresh
import Ketchup.Product.Parameters
import Ketchup.References.Faces

namespace Ketchup.Sketches

open Ketchup.Graph Ketchup.Product Ketchup.References

/-! ### Errors -/

inductive SketchError
  | invalidWorkplaneFrame
  | missingWorkplaneSupport (id : FeatureId)
  | workplaneCycle (id : FeatureId)
  | invalidPlanarFaceSupport
  | unresolvedWorkplaneSupport (health : WorkplaneSupportHealth)
  | reservedEntityId
  | reservedConstraintId
  | entitiesNotCanonical
  | constraintsNotCanonical
  | invalidEntity (id : SketchEntityId)
  | entityNotFound (id : SketchEntityId)
  | invalidProjectionSource
  | invalidConstraintReference (id : SketchConstraintId)
  | dimension (error : DimensionError)
  | resourceLimit
  /-- What else solving may fail with. -/
  | unsolved (reason : String)
  deriving DecidableEq

inductive CanonicalError
  | featureNotFound (id : FeatureId)
  | invalidFeatureOwnership (id : FeatureId)
  | featureIsNotProfile (id : FeatureId)
  | featureDependencyCycle (id : FeatureId)
  | sketch (error : SketchError)
  deriving DecidableEq

/-! ### The dependency graph -/

/-- What the graph reads of a feature. -/
structure Link where
  definitionId : DefinitionId
  dependencies : List FeatureId
  isWorkplane : Bool
  deriving DecidableEq

section Graph

variable {R : Type}

def authoritativeDependencies (kind : FeatureKind R) : List FeatureId :=
  kind.dependencies ++ match kind with
    | .pad spec => (padReferences spec).flatMap fun reference =>
      [reference.profileFeatureId, reference.producerFeatureId]
    | _ => []

/-- A pad may name itself by its references only. -/
def featureDependencies (id : FeatureId) (kind : FeatureKind R) : List FeatureId :=
  let listed := (Std.ExtTreeSet.ofList (authoritativeDependencies kind) compare).toList
  if id ∈ kind.dependencies then listed else listed.filter (· ≠ id)

def linkOf (id : FeatureId) (feature : Feature R) : Link where
  definitionId := feature.definitionId
  dependencies := featureDependencies id feature.kind
  isWorkplane := feature.kind matches .workplane _

def linksOf (features : BTreeMap FeatureId (Feature R)) : BTreeMap FeatureId Link := features.map linkOf

def checkDependency (links : BTreeMap FeatureId Link) (id : FeatureId) (link : Link) (dependency : FeatureId) :
    Except CanonicalError Unit :=
  match links[dependency]? with
  | none => .error (.featureNotFound dependency)
  | some source =>
    if source.definitionId ≠ link.definitionId then .error (.invalidFeatureOwnership id) else .ok ()

/-- The topological order of linked features. -/
def orderOf (links : BTreeMap FeatureId Link) : Except CanonicalError (List FeatureId) := do
  links.toList.forM fun entry => entry.2.dependencies.forM (checkDependency links entry.1 entry.2)
  match Kahn.order Link.dependencies links with
  | .ok order => .ok order
  | .error (.missing id) => .error (.featureNotFound id)
  | .error (.cyclic cycle) =>
    -- An order that is not complete leaves a feature over.
    let id := cycle.getD 0
    if (links[id]?.map Link.isWorkplane).getD false then .error (.sketch (.workplaneCycle id))
    else .error (.featureDependencyCycle id)

/-- `FeatureDependencyGraph::from_product`, of which the order is read. -/
def fromProduct (features : BTreeMap FeatureId (Feature R)) : Except CanonicalError (List FeatureId) :=
  orderOf (linksOf features)

end Graph

/-! ### Work planes -/

/-- The length of vectors. -/
class Lengths (R : Type) where
  hypot : R → R → R
  sqrt : R → R

section Checks

variable {R : Type} [Field R] [LinearOrder R] [Lengths R]

def maxCoordinateMm : R := 1000000

def rounding : R := 1 / 10 ^ 9

/-- `EPSILON_MM` of sketches. -/
def epsilonMm : R := 1 / 10 ^ 7

def distance2 (a b : Vec2 R) : R := Lengths.hypot (a.x - b.x) (a.y - b.y)

def distance3 (a b : Vec3 R) : R :=
  Lengths.sqrt ((a.x - b.x) ^ 2 + (a.y - b.y) ^ 2 + (a.z - b.z) ^ 2)

def isRemote (vector : Vec3 R) : Prop :=
  maxCoordinateMm < |vector.x| ∨ maxCoordinateMm < |vector.y| ∨ maxCoordinateMm < |vector.z|

instance (vector : Vec3 R) : Decidable (isRemote vector) := inferInstanceAs (Decidable (_ ∨ _ ∨ _))

def isUnit (axis : Vec3 R) : Prop := |axis.dot axis - 1| ≤ rounding

instance (axis : Vec3 R) : Decidable (isUnit axis) := inferInstanceAs (Decidable (_ ≤ _))

def validateFrame (frame : WorkplaneFrame R) : Except SketchError Unit := do
  refuseIf (isRemote frame.originMm ∨ isRemote frame.xAxis ∨ isRemote frame.yAxis ∨ isRemote frame.normal)
    .invalidWorkplaneFrame
  refuseIf (¬isUnit frame.xAxis ∨ ¬isUnit frame.yAxis ∨ ¬isUnit frame.normal ∨
      rounding < |frame.xAxis.dot frame.yAxis| ∨ rounding < |frame.xAxis.dot frame.normal| ∨
      rounding < |frame.yAxis.dot frame.normal| ∨
      rounding < distance3 (References.cross frame.xAxis frame.yAxis) frame.normal)
    .invalidWorkplaneFrame

def principalFrame : PrincipalPlane → WorkplaneFrame R
  | .xy => ⟨⟨0, 0, 0⟩, ⟨1, 0, 0⟩, ⟨0, 1, 0⟩, ⟨0, 0, 1⟩⟩
  | .yz => ⟨⟨0, 0, 0⟩, ⟨0, 1, 0⟩, ⟨0, 0, 1⟩, ⟨1, 0, 0⟩⟩
  | .xz => ⟨⟨0, 0, 0⟩, ⟨1, 0, 0⟩, ⟨0, 0, 1⟩, ⟨0, -1, 0⟩⟩

/-- `Dimension::new` of a dimension's own token and value. -/
def checkDimension (dimension : Graph.Dimension R) : Except DimensionError Unit := do
  refuseIf ((trim dimension.sourceToken).isEmpty = true) .emptySourceToken
  refuseIf (maxCoordinateMm < |dimension.millimetres|) .outsideEnvelope

def validateLocal (spec : WorkplaneSpec R) : Except SketchError Unit := do
  validateFrame spec.frame
  match spec.support with
  | .free => .ok ()
  | .principal plane => refuseIf (spec.frame ≠ principalFrame plane) .invalidWorkplaneFrame
  | .offset base distance =>
    refuseIf (base = 0) (.missingWorkplaneSupport base)
    (checkDimension distance).mapError .dimension
  | .planarFace reference health =>
    refuseIf (health ≠ .resolved) (.unresolvedWorkplaneSupport health)
    refuseIf (reference.expectedType ≠ "planar_face" ∨ reference.expectedCardinality ≠ 1 ∨
      hasValidLineage reference = false) .invalidPlanarFaceSupport
  | .constructionPlane feature => refuseIf (feature = 0) (.missingWorkplaneSupport feature)

/-! ### Entities -/

def degreesOfFreedom : SketchEntity R → Nat
  | .line .. => 4
  | .arc .. => 5
  | .circle .. => 3
  | .cubicBezier .. => 8

def validPoint (point : Vec2 R) : Prop := |point.x| ≤ maxCoordinateMm ∧ |point.y| ≤ maxCoordinateMm

instance (point : Vec2 R) : Decidable (validPoint point) := inferInstanceAs (Decidable (_ ∧ _))

def cubicControlPolygonLength (start control1 control2 end_ : Vec2 R) : R :=
  distance2 start control1 + distance2 control1 control2 + distance2 control2 end_

def validateEntity (entity : SketchEntity R) : Except SketchError Unit := do
  refuseIf (entity.id = 0) .reservedEntityId
  match entity with
  | .line id start end_ =>
    refuseIf (¬validPoint start ∨ ¬validPoint end_ ∨ distance2 start end_ ≤ epsilonMm) (.invalidEntity id)
  | .arc id start end_ center _ =>
    refuseIf (¬validPoint start ∨ ¬validPoint end_ ∨ ¬validPoint center ∨
      distance2 start center ≤ epsilonMm ∨
      epsilonMm < |distance2 start center - distance2 end_ center| ∨
      distance2 start end_ ≤ epsilonMm) (.invalidEntity id)
  | .circle id center radius =>
    refuseIf (¬validPoint center ∨ radius ≤ epsilonMm ∨ maxCoordinateMm < radius) (.invalidEntity id)
  | .cubicBezier id start control1 control2 end_ =>
    refuseIf (¬validPoint start ∨ ¬validPoint control1 ∨ ¬validPoint control2 ∨ ¬validPoint end_ ∨
      distance2 start end_ ≤ epsilonMm ∨
      cubicControlPolygonLength start control1 control2 end_ ≤ epsilonMm) (.invalidEntity id)

/-! ### Solving -/

def maxSketchEntities : Nat := 4096

def maxSketchConstraints : Nat := 8192

def maxSketchSolverDof : Nat := 512

/-- Solving besides the checks of ids, entities and projections: `note` takes a constraint into what the
round over the constraints has gathered, with all checks of a constraint of another kind, and `finish` does
what follows the round. -/
structure Solver (R : Type) where
  State : Type
  start : State
  note : SketchSpec R → State → SketchConstraint R → Except SketchError State
  finish : SketchSpec R → State → Except SketchError Unit

/-- Each entity is valid, and their ids ascend. -/
def checkEntities : Option SketchEntityId → List (SketchEntity R) → Except SketchError Unit
  | _, [] => .ok ()
  | previous, entity :: rest => do
    validateEntity entity
    refuseIf (∃ id, previous = some id ∧ entity.id ≤ id) .entitiesNotCanonical
    checkEntities (some entity.id) rest

def findEntity (entities : List (SketchEntity R)) (id : SketchEntityId) : Option (SketchEntity R) :=
  entities.find? fun entity => entity.id = id

/-- `evaluate_constraint`, for a projection. -/
def checkProjection (entities : List (SketchEntity R)) (constraint : SketchConstraint R) :
    Except SketchError Unit :=
  match constraint.kind with
  | .projection entity sourceFeature sourceEntity target =>
    match findEntity entities entity with
    | none => .error (.invalidConstraintReference constraint.id)
    | some actual => do
      refuseIf (sourceFeature = 0 ∨ sourceEntity = 0 ∨ target.id ≠ entity ∨ actual ≠ target)
        .invalidProjectionSource
      validateEntity target
  | _ => .ok ()

def Solver.checkConstraints (solver : Solver R) (spec : SketchSpec R) :
    Option SketchConstraintId → solver.State → List (SketchConstraint R) → Except SketchError solver.State
  | _, state, [] => .ok state
  | previous, state, constraint :: rest => do
    refuseIf (constraint.id = 0) .reservedConstraintId
    refuseIf (∃ id, previous = some id ∧ constraint.id ≤ id) .constraintsNotCanonical
    checkProjection spec.entities constraint
    let state ← solver.note spec state constraint
    solver.checkConstraints spec (some constraint.id) state rest

/-- `SketchSpec::solve`. -/
def Solver.solve (solver : Solver R) (spec : SketchSpec R) : Except SketchError Unit := do
  refuseIf (spec.workplane = 0) (.missingWorkplaneSupport spec.workplane)
  refuseIf (spec.entities = [] ∨ maxSketchEntities < spec.entities.length ∨
    maxSketchConstraints < spec.constraints.length) .resourceLimit
  checkEntities none spec.entities
  refuseIf (maxSketchSolverDof < (spec.entities.map degreesOfFreedom).sum) .resourceLimit
  let state ← solver.checkConstraints spec none solver.start spec.constraints
  solver.finish spec state

/-! ### Refreshing -/

def projectionOf? : SketchConstraintKind R → Option (SketchEntityId × FeatureId × SketchEntityId)
  | .projection entity sourceFeature sourceEntity _ => some (entity, sourceFeature, sourceEntity)
  | _ => none

def projectionsOf (spec : SketchSpec R) : List (SketchEntityId × FeatureId × SketchEntityId) :=
  spec.constraints.filterMap fun constraint => projectionOf? constraint.kind

/-- A constraint with another target. -/
def withTarget (target : SketchEntity R) (constraint : SketchConstraint R) : SketchConstraint R :=
  match constraint.kind with
  | .projection entity sourceFeature sourceEntity _ =>
    ⟨constraint.id, .projection entity sourceFeature sourceEntity target⟩
  | _ => constraint

def isProjectionOf (entity : SketchEntityId) (constraint : SketchConstraint R) : Bool :=
  (projectionOf? constraint.kind).any fun projection => projection.1 = entity

/-- `SketchSpec::refresh_projection`. -/
def Solver.refreshProjection (solver : Solver R) (spec : SketchSpec R) (entity : SketchEntityId)
    (target : SketchEntity R) : Except SketchError (SketchSpec R) := do
  refuseIf (target.id ≠ entity) .invalidProjectionSource
  validateEntity target
  match changeFirst (fun other => other.id = entity) (fun _ => some target) spec.entities with
  | none => .error (.entityNotFound entity)
  | some entities =>
    match changeFirst (isProjectionOf entity) (fun other => some (withTarget target other)) spec.constraints with
    | none => .error .invalidProjectionSource
    | some constraints =>
      let spec : SketchSpec R := { spec with entities, constraints }
      solver.solve spec
      .ok spec

def workplaneAt (features : BTreeMap FeatureId (Feature R)) (id : FeatureId) : Option (WorkplaneSpec R) :=
  match features[id]?.map Feature.kind with
  | some (.workplane spec) => some spec
  | _ => none

def sketchWorkplaneFrame (features : BTreeMap FeatureId (Feature R)) (sketchFeatureId : FeatureId) :
    Except CanonicalError (WorkplaneFrame R) :=
  match features[sketchFeatureId]? with
  | none => .error (.featureNotFound sketchFeatureId)
  | some sketch =>
    match sketch.kind with
    | .sketch spec =>
      match workplaneAt features spec.workplane with
      | none => .error (.sketch (.missingWorkplaneSupport spec.workplane))
      | some workplane => do
        (validateLocal workplane).mapError .sketch
        .ok workplane.frame
    | _ => .error (.featureIsNotProfile sketchFeatureId)

/-- A point of one plane, seen along the other's axes. -/
def projectPoint (source target : WorkplaneFrame R) (point : Vec2 R) : Vec2 R :=
  let world : Vec3 R :=
    ⟨source.originMm.x + source.xAxis.x * point.x + source.yAxis.x * point.y,
      source.originMm.y + source.xAxis.y * point.x + source.yAxis.y * point.y,
      source.originMm.z + source.xAxis.z * point.x + source.yAxis.z * point.y⟩
  let delta := References.sub world target.originMm
  -- No negative zeros.
  let plain (value : R) : R := if value = 0 then 0 else value
  ⟨plain (delta.dot target.xAxis), plain (delta.dot target.yAxis)⟩

/-- An entity of the source's plane drawn in the target's; an arc or a circle only in a parallel plane. -/
def projectedEntity (source target : WorkplaneFrame R) (newEntityId : SketchEntityId) :
    SketchEntity R → Option (SketchEntity R)
  | .line _ start end_ => some (.line newEntityId (projectPoint source target start) (projectPoint source target end_))
  | .arc _ start end_ center clockwise =>
    if 1 - rounding ≤ |source.normal.dot target.normal| then
      some (.arc newEntityId (projectPoint source target start) (projectPoint source target end_)
        (projectPoint source target center)
        (if source.normal.dot target.normal < 0 then !clockwise else clockwise))
    else none
  | .circle _ center radius =>
    if 1 - rounding ≤ |source.normal.dot target.normal| then
      some (.circle newEntityId (projectPoint source target center) radius)
    else none
  | .cubicBezier _ start control1 control2 end_ =>
    some (.cubicBezier newEntityId (projectPoint source target start) (projectPoint source target control1)
      (projectPoint source target control2) (projectPoint source target end_))

def projectSketchEntity (features : BTreeMap FeatureId (Feature R)) (targetFeatureId sourceFeatureId : FeatureId)
    (sourceEntityId newEntityId : SketchEntityId) : Except CanonicalError (SketchEntity R) := do
  refuseIf (targetFeatureId = sourceFeatureId ∨ sourceEntityId = 0 ∨ newEntityId = 0)
    (.sketch .invalidProjectionSource)
  match features[targetFeatureId]?, features[sourceFeatureId]? with
  | none, _ => .error (.featureNotFound targetFeatureId)
  | some _, none => .error (.featureNotFound sourceFeatureId)
  | some targetFeature, some sourceFeature => do
    refuseIf (targetFeature.definitionId ≠ sourceFeature.definitionId) (.sketch .invalidProjectionSource)
    match sourceFeature.kind with
    | .sketch sourceSpec =>
      match findEntity sourceSpec.entities sourceEntityId with
      | none => .error (.sketch (.entityNotFound sourceEntityId))
      | some source => do
        let sourceFrame ← sketchWorkplaneFrame features sourceFeatureId
        let targetFrame ← sketchWorkplaneFrame features targetFeatureId
        match projectedEntity sourceFrame targetFrame newEntityId source with
        | some projected => .ok projected
        | none => .error (.sketch .invalidProjectionSource)
    | _ => .error (.featureIsNotProfile sourceFeatureId)

/-- One projection of a sketch, drawn anew. -/
def Solver.refreshOne (solver : Solver R) (features : BTreeMap FeatureId (Feature R)) (id : FeatureId)
    (updated : SketchSpec R) (projection : SketchEntityId × FeatureId × SketchEntityId) :
    Except CanonicalError (SketchSpec R) := do
  let target ← projectSketchEntity features id projection.2.1 projection.2.2 projection.1
  (solver.refreshProjection updated projection.1 target).mapError .sketch

/-- The step of a feature: a sketch with projections is drawn anew. -/
def Solver.refreshFeature (solver : Solver R) (features : BTreeMap FeatureId (Feature R)) (id : FeatureId) :
    Except CanonicalError (Option (Feature R)) :=
  match features[id]? with
  | none => .ok none
  | some feature =>
    match feature.kind with
    | .sketch spec =>
      if projectionsOf spec = [] then .ok none
      else do
        let updated ← (projectionsOf spec).foldlM (solver.refreshOne features id) spec
        .ok (some { feature with kind := .sketch updated })
    | _ => .ok none

def Solver.refreshSketchProjections (solver : Solver R) (features : BTreeMap FeatureId (Feature R)) :
    Except CanonicalError (BTreeMap FeatureId (Feature R)) := do
  let order ← fromProduct features
  Refresh.refresh solver.refreshFeature order features

/-- One projection is as it would be drawn, in the sketch and in the constraint. -/
def validateProjection (features : BTreeMap FeatureId (Feature R)) (id : FeatureId) (spec : SketchSpec R)
    (constraint : SketchConstraint R) : Except CanonicalError Unit :=
  match constraint.kind with
  | .projection entity sourceFeature sourceEntity target => do
    let expected ← projectSketchEntity features id sourceFeature sourceEntity entity
    match findEntity spec.entities entity with
    | none => .error (.sketch .invalidProjectionSource)
    | some actual => refuseIf (actual ≠ expected ∨ target ≠ expected) (.sketch .invalidProjectionSource)
  | _ => .ok ()

def validateSketchProjections (features : BTreeMap FeatureId (Feature R)) : Except CanonicalError Unit := do
  let _ ← fromProduct features
  features.toList.forM fun entry =>
    match entry.2.kind with
    | .sketch spec => spec.constraints.forM (validateProjection features entry.1 spec)
    | _ => .ok ()

end Checks

end Ketchup.Sketches
