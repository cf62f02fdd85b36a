/-
**The exact graph of a body, and the plane of a face it makes.**

`ExactBRepGraph` is what a producer of a body compiles to; `Kernel` holds the compiler. A work plane on a
planar face takes its frame from the face: `refreshSupportedPlanarFaceFrames` moves each onto its face, and
fails where a face is not there any more.
-/

import Ketchup.Library.Places
import Ketchup.References.Lineage

namespace Ketchup.References

open Ketchup.Graph Ketchup.Product

section Vectors

variable {R : Type} [Field R]

def sub (left right : Vec3 R) : Vec3 R := ⟨left.x - right.x, left.y - right.y, left.z - right.z⟩

def scale (vector : Vec3 R) (factor : R) : Vec3 R :=
  ⟨vector.x * factor, vector.y * factor, vector.z * factor⟩

def cross (left right : Vec3 R) : Vec3 R :=
  ⟨left.y * right.z - left.z * right.y, left.z * right.x - left.x * right.z,
    left.x * right.y - left.y * right.x⟩

end Vectors

/-! ### Graphs -/

section Graphs

variable (R : Type)

inductive ExactBRepPlanarSegment
  | line (start end_ : Vec2 R)
  | circularArc (start end_ center : Vec2 R) (clockwise : Bool)
  | cubicBezier (start control1 control2 end_ : Vec2 R)

/-- Only boundaries have sides that are named. -/
inductive ExactBRepPlanarGeometry
  | boundary (closed : Bool) (segments : List (ExactBRepPlanarSegment R))
  | circle (center : Vec2 R) (radius : R)
  | spline (controlPoints : List (Vec2 R))
  | region

structure ExactBRepProfile where
  sourceFeatureId : FeatureId
  originMm : Vec3 R
  xAxis : Vec3 R
  yAxis : Vec3 R
  geometry : ExactBRepPlanarGeometry R

structure ExactBRepLinearInterval where
  direction : Vec3 R
  startMm : R
  endMm : R

/-- The operations that references speak of. -/
inductive ExactBRepOperation
  | extrude (profile : Nat) (interval : ExactBRepLinearInterval R)
  | sheetMetal
  | other

structure ExactBRepNode where
  sourceFeatureId : FeatureId
  operation : ExactBRepOperation R

structure ExactBRepGraph where
  documentId : DocumentId
  definitionId : DefinitionId
  producerFeatureId : FeatureId
  profiles : List (ExactBRepProfile R)
  nodes : List (ExactBRepNode R)
  canonicalInputDigest : String
  /-- The linear tolerance the graph is for. -/
  linearMm : R

end Graphs

def exactBrepGraphEvaluatorV1 : String := "ketchup.exact-brep-graph-evaluator.v1"

section Faces

variable {R : Type}

def ExactBRepPlanarSegment.ends : ExactBRepPlanarSegment R → Vec2 R × Vec2 R
  | line start end_ => (start, end_)
  | circularArc start end_ _ _ => (start, end_)
  | cubicBezier start _ _ end_ => (start, end_)

def ExactBRepPlanarSegment.line? : ExactBRepPlanarSegment R → Option (Vec2 R × Vec2 R)
  | line start end_ => some (start, end_)
  | _ => none

def ExactBRepPlanarSegment.isArc : ExactBRepPlanarSegment R → Bool
  | circularArc _ _ _ _ => true
  | _ => false

def ExactBRepGraph.namesDurableReference (graph : ExactBRepGraph R) (reference : BodySubshapeRef) : Bool :=
  hasValidLineage reference && reference.documentId == graph.documentId &&
    reference.definitionId == graph.definitionId &&
    reference.producerFeatureId == graph.producerFeatureId &&
    (graph.profiles.any (fun profile => profile.sourceFeatureId == reference.profileFeatureId) ||
      reference.profileFeatureId == reference.producerFeatureId)

/-- The graph makes the face, and the reference carries the evidence of evaluating this graph. -/
def ExactBRepGraph.namesEvaluatedReference (graph : ExactBRepGraph R) (reference : BodySubshapeRef) :
    Bool :=
  hasValidLineage reference && reference.documentId == graph.documentId &&
    reference.definitionId == graph.definitionId &&
    reference.producerFeatureId == graph.producerFeatureId &&
    (graph.profiles.any (fun profile => profile.sourceFeatureId == reference.profileFeatureId) ||
      (reference.profileFeatureId == reference.producerFeatureId &&
        graph.nodes.any fun node => node.sourceFeatureId == graph.producerFeatureId &&
          node.operation matches .sheetMetal)) &&
    reference.canonicalInputDigest == graph.canonicalInputDigest &&
    reference.evaluator == exactBrepGraphEvaluatorV1 && !reference.exactInputDigest.isEmpty &&
    !reference.resultFingerprint.isEmpty && !reference.backend.isEmpty && !reference.tolerance.isEmpty &&
    !reference.corroboratingGeometryFingerprint.isEmpty

variable [Field R] [LinearOrder R]

/-- Twice the signed area inside a boundary: positive for a counter-clockwise one. -/
def doubledArea (segments : List (ExactBRepPlanarSegment R)) : R :=
  (segments.map fun segment =>
    let (start, end_) := segment.ends
    start.x * end_.y - end_.x * start.y).sum

/-- The profile that a feature gives, and how far it is extruded. -/
def ExactBRepGraph.extruded (graph : ExactBRepGraph R) (profileFeatureId : FeatureId) :
    Option (ExactBRepProfile R × ExactBRepLinearInterval R) :=
  graph.nodes.findSome? fun node =>
    match node.operation with
    | .extrude profile interval =>
      graph.profiles[profile]?.bind fun profile =>
        if profile.sourceFeatureId = profileFeatureId then some (profile, interval) else none
    | .sheetMetal | .other => none

/-- The frame of the side that a boundary's first line sweeps. -/
def sideFrame (hypot : R → R → R) (linearMm : R) (profile : ExactBRepProfile R)
    (interval : ExactBRepLinearInterval R) (segments : List (ExactBRepPlanarSegment R)) :
    Option (WorkplaneFrame R) :=
  let direction := interval.direction
  let at_ (point : Vec2 R) : Vec3 R :=
    ((profile.originMm.add (scale profile.xAxis point.x)).add (scale profile.yAxis point.y)).add
      (scale direction interval.startMm)
  -- The evaluator names the first line only when the profile has no arc.
  if segments.any ExactBRepPlanarSegment.isArc then none
  else match segments.findSome? ExactBRepPlanarSegment.line? with
    | none => none
    | some (start, end_) =>
      let area := doubledArea segments
      let edge : Vec2 R := ⟨end_.x - start.x, end_.y - start.y⟩
      let length := hypot edge.x edge.y
      if length ≤ linearMm ∨ |area| ≤ linearMm then none
      else
        let outward : Vec2 R :=
          if 0 < area then ⟨edge.y / length, -edge.x / length⟩ else ⟨-edge.y / length, edge.x / length⟩
        let normal := (scale profile.xAxis outward.x).add (scale profile.yAxis outward.y)
        let sideXAxis := cross direction normal
        let first := at_ start
        let second := at_ end_
        some {
          originMm := if 0 ≤ (sub second first).dot sideXAxis then first else second
          xAxis := sideXAxis
          yAxis := direction
          normal }

def ExactBRepGraph.extrusionFaceFrame (hypot : R → R → R) (graph : ExactBRepGraph R)
    (profileFeatureId : FeatureId) (semanticRole : String) : Option (WorkplaneFrame R) :=
  match graph.extruded profileFeatureId with
  | none => none
  | some (profile, interval) =>
    let direction := interval.direction
    if semanticRole = "extrusion.top" then
      some ⟨profile.originMm.add (scale direction interval.endMm), cross profile.yAxis direction,
        profile.yAxis, direction⟩
    else if semanticRole = "extrusion.bottom" then
      let normal := scale direction (-1)
      some ⟨profile.originMm.add (scale direction interval.startMm), profile.xAxis,
        cross normal profile.xAxis, normal⟩
    else if semanticRole = "extrusion.side(profile_edge=line.0)" then
      match profile.geometry with
      | .boundary true segments => sideFrame hypot graph.linearMm profile interval segments
      | _ => none
    else none

/-! ### Frames of work planes -/

/-- A work plane lies on a face when it has the face's axes and its origin is in the face's plane. -/
def liesOnPlanarFace (frame face : WorkplaneFrame R) (toleranceMm : R) : Bool :=
  let same (left right : Vec3 R) : Bool :=
    |left.x - right.x| ≤ toleranceMm ∧ |left.y - right.y| ≤ toleranceMm ∧ |left.z - right.z| ≤ toleranceMm
  same frame.xAxis face.xAxis && same frame.yAxis face.yAxis && same frame.normal face.normal &&
    |(sub frame.originMm face.originMm).dot face.normal| ≤ toleranceMm

/-- The frame moved along the face's normal onto the face, or else the face's own. -/
def frameOnPlanarFace (stored face : WorkplaneFrame R) (toleranceMm : R) : WorkplaneFrame R :=
  let offset := (sub face.originMm stored.originMm).dot face.normal
  let moved := { stored with originMm := stored.originMm.add (scale face.normal offset) }
  if liesOnPlanarFace moved face toleranceMm then moved else face

end Faces

/-! ### Products -/

section Products

variable (R Rest : Type)

/-- A product; `Rest` are the collections that no reference is about. -/
structure ProductModel where
  documentId : DocumentId
  /-- The linear tolerance. -/
  linearMm : R
  definitions : BTreeMap DefinitionId Definition
  features : BTreeMap FeatureId (Feature R)
  exactReferenceEvidence : BTreeMap String BodySubshapeRef
  rest : Rest

/-- What registration takes from the code around it: `ExactBRepGraph::from_snapshot` of a product at a
revision, where it gives a graph, and the length of a vector. -/
structure Kernel where
  compile : Nat → ProductModel R Rest → DefinitionId → FeatureId → Option (ExactBRepGraph R)
  hypot : R → R → R

end Products

variable {R Rest : Type}

/-- Entries put in their places. -/
def ProductModel.replaceFeatures (product : ProductModel R Rest) (entries : List (FeatureId × Feature R)) :
    ProductModel R Rest :=
  { product with
    features := entries.foldl (fun features entry => features.insert entry.1 entry.2) product.features }

/-- The evidence for a lineage is the reference. -/
def ProductModel.holdReferenceEvidence (product : ProductModel R Rest) (reference : BodySubshapeRef) :
    ProductModel R Rest :=
  if product.exactReferenceEvidence[reference.lineageDigest]? = some reference then product
  else { product with
    exactReferenceEvidence := product.exactReferenceEvidence.insert reference.lineageDigest reference }

section Refresh

variable [Field R] [LinearOrder R]

def Kernel.supportedPlanarFaceFrame (K : Kernel R Rest) (product : ProductModel R Rest)
    (reference : BodySubshapeRef) : Option (WorkplaneFrame R) :=
  match K.compile 0 product reference.definitionId reference.producerFeatureId with
  | none => none
  | some graph =>
    if graph.namesDurableReference reference then
      graph.extrusionFaceFrame K.hypot reference.profileFeatureId reference.semanticRole
    else none

/-- A feature as it is on its face: `none` where the face is not there. -/
def Kernel.refreshed (K : Kernel R Rest) (product : ProductModel R Rest) (feature : Feature R) :
    Option (Feature R) :=
  match feature.kind with
  | .workplane ⟨.planarFace reference health, frame⟩ =>
    match K.supportedPlanarFaceFrame product reference with
    | none => none
    | some face =>
      let spec : WorkplaneSpec R :=
        ⟨.planarFace reference health, frameOnPlanarFace frame face product.linearMm⟩
      some { feature with kind := .workplane spec }
  | _ => some feature

/-- `refresh_supported_planar_face_frames` with no earlier snapshot; `none` is its error. -/
def Kernel.refreshSupportedPlanarFaceFrames (K : Kernel R Rest) (product : ProductModel R Rest) :
    Option (ProductModel R Rest) :=
  let frames := product.features.toList.mapM fun entry =>
    (K.refreshed product entry.2).map fun feature => (entry, feature)
  frames.map fun frames => product.replaceFeatures (frames.filterMap fun update =>
    if update.1.2 ≠ update.2 then some (update.1.1, update.2) else none)

/-- `rebind_planar_face_reference`. -/
def Kernel.rebindPlanarFaceReference (K : Kernel R Rest) (product : ProductModel R Rest)
    (reference : BodySubshapeRef) : Option (ProductModel R Rest) :=
  let updated := product.features.toList.filterMap fun entry =>
    let kind := rebindKind reference entry.2.kind
    if reference.lineageDigest ∈ lineagesOf entry.2.kind ∧ kind ≠ entry.2.kind then
      some (entry.1, { entry.2 with kind })
    else none
  K.refreshSupportedPlanarFaceFrames (product.replaceFeatures updated)

end Refresh

end Ketchup.References
