/-
**The parameters of a feature: which there are, what they read, and how they are set.**

Three functions go by the kind of a feature and the segments of a path: `parameterDescriptors` lists the
paths, `featureKindParameterValue` reads one and `setFeatureKindParameter` sets one. Numbers are exact.
A function that changes what it is given and says whether it did returns the changed value here, and
`none` where it did not.
-/

import Ketchup.Library.Places
import Ketchup.Library.Text
import Ketchup.Product.Binding
import Mathlib.Data.Rat.Floor

namespace Ketchup.Product

open Ketchup.Graph

/-! ### Tolerances -/

/-- `ROUNDING`. -/
def profileEpsilonMm : ℚ := 1 / 10 ^ 9

/-- `DEFAULT_LINEAR_TOLERANCE_MM`, the `EPSILON_MM` of sketches. -/
def epsilonMm : ℚ := 1 / 10 ^ 7

/-! ### Coordinates -/

inductive Axis
  | x
  | y
  deriving DecidableEq

def Axis.other : Axis → Axis
  | x => y
  | y => x

def Axis.name : Axis → String
  | x => "x"
  | y => "y"

/-- The axis a segment of a path names. -/
def Axis.parse (name : String) : Option Axis :=
  if name = "x" then some x else if name = "y" then some y else none

section Coordinates

variable {R : Type}

def Vec2.get (point : Vec2 R) : Axis → R
  | .x => point.x
  | .y => point.y

def Vec2.put (point : Vec2 R) (value : R) : Axis → Vec2 R
  | .x => { point with x := value }
  | .y => { point with y := value }

def pointCoordinate (point : Vec2 R) (axis : String) : Option R := (Axis.parse axis).map point.get

def setPointCoordinate (axis : String) (value : R) (point : Vec2 R) : Option (Vec2 R) :=
  (Axis.parse axis).map (point.put value)

@[simp] theorem pointCoordinate_name (point : Vec2 R) (axis : Axis) :
    pointCoordinate point axis.name = some (point.get axis) := by
  cases axis with
  | _ => rfl

@[simp] theorem setPointCoordinate_name (value : R) (point : Vec2 R) (axis : Axis) :
    setPointCoordinate axis.name value point = some (point.put value axis) := by
  cases axis with
  | _ => rfl

@[simp] theorem Vec2.get_put (point : Vec2 R) (value : R) (axis : Axis) :
    (point.put value axis).get axis = value := by
  cases axis with
  | _ => rfl

theorem Vec2.get_put_of_ne {point : Vec2 R} {value : R} {axis other : Axis} (apart : other ≠ axis) :
    (point.put value axis).get other = point.get other := by
  cases axis with
  | x => cases other with
    | x => exact absurd rfl apart
    | y => rfl
  | y => cases other with
    | x => rfl
    | y => exact absurd rfl apart

theorem Vec2.ext_get {first second : Vec2 R} (same : ∀ axis, first.get axis = second.get axis) :
    first = second := by
  obtain ⟨x, y⟩ := first
  obtain ⟨x', y'⟩ := second
  have one : x = x' := same .x
  have two : y = y' := same .y
  rw [one, two]

def pointCoordinate3d (point : Vec3 R) : String → Option R
  | "x" => some point.x
  | "y" => some point.y
  | "z" => some point.z
  | _ => none

def setPointCoordinate3d (point : Vec3 R) (axis : String) (value : R) : Option (Vec3 R) :=
  match axis with
  | "x" => some { point with x := value }
  | "y" => some { point with y := value }
  | "z" => some { point with z := value }
  | _ => none

/-! ### Segments of a profile -/

/-- Where a segment starts; a spline without points starts at no point. -/
def ProfileSegment.startMm : ProfileSegment R → Option (Vec2 R)
  | line startMm _ | circularArc startMm _ _ _ | cubicBezier startMm _ _ _ => some startMm
  | spline pointsMm => pointsMm.head?

def ProfileSegment.endMm : ProfileSegment R → Option (Vec2 R)
  | line _ endMm | circularArc _ endMm _ _ | cubicBezier _ _ _ endMm => some endMm
  | spline pointsMm => pointsMm.getLast?

/-- The change of a start (`start_mut`). -/
def ProfileSegment.changeStart (change : Vec2 R → Option (Vec2 R)) :
    ProfileSegment R → Option (ProfileSegment R)
  | line startMm endMm => (change startMm).map fun startMm => line startMm endMm
  | circularArc startMm endMm centerMm clockwise =>
    (change startMm).map fun startMm => circularArc startMm endMm centerMm clockwise
  | cubicBezier startMm control1Mm control2Mm endMm =>
    (change startMm).map fun startMm => cubicBezier startMm control1Mm control2Mm endMm
  | spline pointsMm => (changeAt pointsMm 0 change).map spline

/-- The change of an end (`end_mut`). -/
def ProfileSegment.changeEnd (change : Vec2 R → Option (Vec2 R)) :
    ProfileSegment R → Option (ProfileSegment R)
  | line startMm endMm => (change endMm).map fun endMm => line startMm endMm
  | circularArc startMm endMm centerMm clockwise =>
    (change endMm).map fun endMm => circularArc startMm endMm centerMm clockwise
  | cubicBezier startMm control1Mm control2Mm endMm =>
    (change endMm).map fun endMm => cubicBezier startMm control1Mm control2Mm endMm
  | spline pointsMm => (changeAt pointsMm (pointsMm.length - 1) change).map spline

variable [DecidableEq R]

/-- `end_mm() == start_mm()`: a missing point is like no other. -/
def ProfileSegment.meets (segment next : ProfileSegment R) : Bool :=
  match segment.endMm, next.startMm with
  | some endMm, some startMm => endMm = startMm
  | _, _ => false

/-- Each element with the one after it; the first comes after the last. -/
def withNext {A : Type} (list : List A) : List (A × A) := list.zip (list.tail ++ list.take 1)

/-- The corners of a closed chain of straight lines. -/
def polygonPoints (segments : List (ProfileSegment R)) : Option (List (Vec2 R)) :=
  (withNext segments).mapM fun pair =>
    match pair.1 with
    | .line startMm _ => if pair.1.meets pair.2 then some startMm else none
    | _ => none

def polygonSegments (pointsMm : List (Vec2 R)) : List (ProfileSegment R) :=
  (withNext pointsMm).map fun pair => .line pair.1 pair.2

def FeatureKind.polygon (pointsMm : List (Vec2 R)) : FeatureKind R :=
  profile (polygonSegments pointsMm) true

def FeatureKind.polygonPoints : FeatureKind R → Option (List (Vec2 R))
  | profile segments true => Product.polygonPoints segments
  | _ => none

end Coordinates

/-! ### Rectangles -/

/-- The rectangle of four corners with sides along the axes, from its lowest corner around. -/
def isAxisAlignedRectangle : List (Vec2 ℚ) → Bool
  | [a, b, c, d] => a.y = b.y ∧ b.x = c.x ∧ c.y = d.y ∧ d.x = a.x ∧ a.x < b.x ∧ a.y < d.y
  | _ => false

inductive ParameterError (E : Type)
  | invalidFeatureParameterBinding (target : FeatureParameterTarget)
  | dimensionOutsideEnvelope
  /-- An error of the checks of a kind. -/
  | kind (error : E)
  deriving DecidableEq

section Resize

variable {E : Type} (validateFeatureKind : FeatureKind ℚ → ℚ → Except E Unit)

/-- The corners with another width or height. -/
def resized (pointsMm : List (Vec2 ℚ)) (path : List String) (valueMm : ℚ) : Option (List (Vec2 ℚ)) :=
  match pointsMm, path with
  | [a, b, c, d], ["bounds", "width"] =>
    some [a, b.put (a.x + valueMm) .x, c.put (a.x + valueMm) .x, d]
  | [a, b, c, d], ["bounds", "height"] =>
    some [a, b, c.put (a.y + valueMm) .y, d.put (a.y + valueMm) .y]
  | _, _ => none

def resizeAxisAlignedRectangle (pointsMm : List (Vec2 ℚ)) (target : FeatureParameterTarget)
    (valueMm toleranceMm : ℚ) : Except (ParameterError E) (List (Vec2 ℚ)) :=
  if ¬isAxisAlignedRectangle pointsMm then .error (.invalidFeatureParameterBinding target)
  else if valueMm ≤ profileEpsilonMm then .error .dimensionOutsideEnvelope
  else match resized pointsMm target.path.segments valueMm with
    | none => .error (.invalidFeatureParameterBinding target)
    | some pointsMm =>
      match validateFeatureKind (.polygon pointsMm) toleranceMm with
      | .error error => .error (.kind error)
      | .ok () => .ok pointsMm

end Resize

/-- The two ends of a line of a sketch. -/
def SketchEntity.lineEnds : SketchEntity ℚ → Option (Vec2 ℚ × Vec2 ℚ)
  | line _ startMm endMm => some (startMm, endMm)
  | _ => none

/-- Whether a coordinate is the greatest of a rectangle, of one that is its least or its greatest. -/
def maximumSide (minimum maximum : Vec2 ℚ) (axis : Axis) (coordinate : ℚ) : Option Bool :=
  if coordinate = minimum.get axis then some false
  else if coordinate = maximum.get axis then some true
  else none

/-- The side of a rectangle that a line draws: the axis it is across, and whether at the far end. -/
def rectangleSide (minimum maximum : Vec2 ℚ) (line : Vec2 ℚ × Vec2 ℚ) : Option (Axis × Bool) := do
  let axis ← [Axis.x, Axis.y].find? fun axis => line.1.get axis = line.2.get axis
  let far ← maximumSide minimum maximum axis (line.1.get axis)
  if min (line.1.get axis.other) (line.2.get axis.other) ≠ minimum.get axis.other ∨
      max (line.1.get axis.other) (line.2.get axis.other) ≠ maximum.get axis.other then none
  else some (axis, far)

/-- The least and the greatest corner around the ends of lines. -/
def extremes (lines : List (Vec2 ℚ × Vec2 ℚ)) : Option (Vec2 ℚ × Vec2 ℚ) := do
  let ends := lines.flatMap fun line => [line.1, line.2]
  let minimumX ← (ends.map Vec2.x).min?
  let minimumY ← (ends.map Vec2.y).min?
  let maximumX ← (ends.map Vec2.x).max?
  let maximumY ← (ends.map Vec2.y).max?
  some (⟨minimumX, minimumY⟩, ⟨maximumX, maximumY⟩)

/-- The corners of the rectangle that four lines draw, if they draw one. -/
def rectangleOf (lines : List (Vec2 ℚ × Vec2 ℚ)) : Option (Vec2 ℚ × Vec2 ℚ) := do
  let (minimum, maximum) ← extremes lines
  if maximum.x - minimum.x ≤ epsilonMm ∨ maximum.y - minimum.y ≤ epsilonMm then none
  else
    let sides ← lines.mapM (rectangleSide minimum maximum)
    if sides.Nodup then some (minimum, maximum) else none

/-- Corners of the axis-aligned rectangle this sketch draws, if it is one. -/
def SketchSpec.rectangleBounds (spec : SketchSpec ℚ) : Option (Vec2 ℚ × Vec2 ℚ) :=
  if spec.constraints ≠ [] ∨ spec.entities.length ≠ 4 then none
  else (spec.entities.mapM SketchEntity.lineEnds).bind rectangleOf

/-! ### The parameters there are -/

structure ParameterDescriptor where
  path : ParameterPath
  valueType : ParameterValueType
  deriving DecidableEq

def described (valueType : ParameterValueType) (segments : List String) : ParameterDescriptor :=
  ⟨⟨segments⟩, valueType⟩

/-- The parameter of a feature that is described. -/
abbrev ParameterDescriptor.target (descriptor : ParameterDescriptor) (featureId : FeatureId) :
    FeatureParameterTarget :=
  ⟨featureId, descriptor.path, descriptor.valueType⟩

/-- The two coordinates of a point. -/
def pointDescriptors (point : List String) : List ParameterDescriptor :=
  ["x", "y"].map fun axis => described .length (point ++ [axis])

theorem mem_pointDescriptors {descriptor : ParameterDescriptor} {point : List String} :
    descriptor ∈ pointDescriptors point ↔
      ∃ axis : Axis, descriptor = described .length (point ++ [axis.name]) := by
  simp only [pointDescriptors, List.map_cons, List.map_nil, List.mem_cons, List.not_mem_nil, or_false]
  constructor
  · rintro (rfl | rfl)
    · exact ⟨.x, rfl⟩
    · exact ⟨.y, rfl⟩
  · rintro ⟨axis, rfl⟩
    cases axis with
    | x => exact .inl rfl
    | y => exact .inr rfl

section Descriptors

variable {R : Type}

def SketchEntity.id : SketchEntity R → SketchEntityId
  | line id _ _ | arc id _ _ _ _ | circle id _ _ | cubicBezier id _ _ _ _ => id

def SketchSpec.isProjectedEntity (spec : SketchSpec R) (entity : SketchEntityId) : Bool :=
  spec.constraints.any fun constraint =>
    match constraint.kind with
    | .projection projected _ _ _ => projected = entity
    | _ => false

/-- The points of an entity that are parameters. -/
def SketchEntity.pointNames : SketchEntity R → List String
  | line _ _ _ => ["start", "end"]
  | arc _ _ _ _ _ => ["start", "end", "center"]
  | circle _ _ _ => ["center"]
  | cubicBezier _ _ _ _ _ => ["start", "control_1", "control_2", "end"]

def SketchEntity.descriptors (entity : SketchEntity R) : List ParameterDescriptor :=
  (entity.pointNames.flatMap fun point => pointDescriptors ["entities", toString entity.id, point]) ++
    match entity with
    | circle id _ _ => [described .length ["entities", toString id, "radius"]]
    | _ => []

def SketchConstraint.descriptors (constraint : SketchConstraint R) : List ParameterDescriptor :=
  match constraint.kind with
  | .distance _ _ _ | .radius _ _ =>
    [described .length ["constraints", toString constraint.id, "value"]]
  | .angle _ _ _ => [described .angle ["constraints", toString constraint.id, "angle"]]
  | .fixedPoint _ _ => pointDescriptors ["constraints", toString constraint.id, "position"]
  | .horizontal _ | .vertical _ | .coincident _ _ | .parallel _ _ | .perpendicular _ _
  | .tangent _ _ | .equal _ _ | .symmetric _ _ _ | .concentric _ _ | .collinear _ _ | .midpoint _ _
  | .pointOnCurve _ _ | .projection _ _ _ _ | .construction _ => []

/-- The points of a segment between its ends. -/
def ProfileSegment.innerPoints : ProfileSegment R → List (List String)
  | circularArc _ _ _ _ => [["center"]]
  | spline pointsMm => (List.range' 1 (pointsMm.length - 2)).map fun point => ["points", toString point]
  | line _ _ | cubicBezier _ _ _ _ => []

/-- The segment whose start an end may share. -/
def segmentAfter (segments : List (ProfileSegment R)) (closed : Bool) (index : Nat) :
    Option (ProfileSegment R) :=
  segments[index + 1]? <|> if closed ∧ index + 1 = segments.length then segments[0]? else none

/-- A vertex shared with the next segment is that segment's start. -/
def segmentDescriptors [DecidableEq R] (segments : List (ProfileSegment R)) (closed : Bool)
    (index : Nat) (segment : ProfileSegment R) : List ParameterDescriptor :=
  let endIsShared := (segmentAfter segments closed index).any segment.meets
  let ends := if endIsShared then ["start"] else ["start", "end"]
  (ends.flatMap fun point => pointDescriptors ["segments", toString index, point]) ++
    segment.innerPoints.flatMap fun point => pointDescriptors (["segments", toString index] ++ point)

def FeatureExtentEnd.descriptors (before : List String) : FeatureExtentEnd R → List ParameterDescriptor
  | blind _ => [described .length (before ++ ["distance"])]
  | throughAll | upToFace _ => []

def FeatureExtent.descriptors (before : List String) : FeatureExtent R → List ParameterDescriptor
  | blind _ | symmetric _ => [described .length (before ++ ["distance"])]
  | bidirectional along opposite =>
    along.descriptors (before ++ ["along"]) ++ opposite.descriptors (before ++ ["opposite"])
  | throughAll | upToFace _ => []

def ChamferMode.descriptors : ChamferMode R → List ParameterDescriptor
  | twoDistance _ => [described .length ["chamfer_second_distance"]]
  | distanceAngle _ => [described .angle ["chamfer_angle"]]
  | symmetric => []

/-- The width and the height of a rectangle. -/
def boundsDescriptors : List ParameterDescriptor :=
  [described .length ["bounds", "width"], described .length ["bounds", "height"]]

end Descriptors

/-- The parameters of a feature, in the order they are shown. -/
def FeatureKind.parameterDescriptors (kind : FeatureKind ℚ) : List ParameterDescriptor :=
  match kind with
  | workplane spec =>
    match spec.support with
    | .free => ["x", "y", "z"].map fun axis => described .length ["frame", "origin", axis]
    | .offset _ _ => [described .length ["support", "offset", "distance"]]
    | _ => []
  | sketch spec =>
    (if spec.rectangleBounds.isSome then boundsDescriptors else []) ++
      (spec.entities.flatMap fun entity =>
        if spec.isProjectedEntity entity.id then [] else entity.descriptors) ++
      spec.constraints.flatMap SketchConstraint.descriptors
  | profile segments closed =>
    (if kind.polygonPoints.any isAxisAlignedRectangle then boundsDescriptors else []) ++
      segments.zipIdx.flatMap fun entry => segmentDescriptors segments closed entry.2 entry.1
  | pad spec => spec.extent.descriptors ["extent"]
  | revolve _ _ _ _ =>
    pointDescriptors ["axis_start"] ++ pointDescriptors ["axis_end"] ++ [described .angle ["angle"]]
  | shell _ _ _ _ | surfaceThicken _ _ _ => [described .length ["thickness"]]
  | edgeFinish _ _ _ _ filletRadiusStations chamferMode _ =>
    [described .length ["amount"]] ++ chamferMode.descriptors ++
      (List.range filletRadiusStations.length).map fun index =>
        described .length ["fillet_radius_stations", toString index, "radius"]
  | faceOffset _ _ _ | planarOffset _ _ | surfaceExtend _ _ => [described .length ["distance"]]
  | draft _ => [described .angle ["angle"]]
  | surfaceKnit _ _ _ => [described .length ["tolerance"]]
  | weldmentMember _ => [described .angle ["orientation"]]
  | sheetMetal spec =>
    [described .length ["thickness"], described .scalar ["k_factor"]] ++
      ((List.range spec.baseMm.length).flatMap fun index => pointDescriptors ["base", toString index]) ++
      (List.range spec.bends.length).flatMap fun index =>
        [described .length ["bends", toString index, "length"],
          described .angle ["bends", toString index, "angle"],
          described .length ["bends", toString index, "inner_radius"]]
  | loft sections _ _ | surfaceBody (.loft sections _ _) =>
    (List.range sections.length).map fun index =>
      described .length ["sections", toString index, "elevation"]
  | weldmentJoint _ | boolean _ _ _ | sweep _ _ _ | spatialPath _ | constructionPoint _
  | constructionAxis _ _ | constructionPlane _ _ _ | importedExactBody _ | surfaceBody (.planar _)
  | surfaceTrim _ _ | rigidTransform _ _ | scale _ _ _ | meshBody _ => []

/-! ### Reading -/

section Points

variable {R : Type}

/-- A point of an entity by its name. -/
def SketchEntity.point : SketchEntity R → String → Option (Vec2 R)
  | line _ startMm _, "start" | arc _ startMm _ _ _, "start" | cubicBezier _ startMm _ _ _, "start" =>
    some startMm
  | line _ _ endMm, "end" | arc _ _ endMm _ _, "end" | cubicBezier _ _ _ _ endMm, "end" => some endMm
  | cubicBezier _ _ control1Mm _ _, "control_1" => some control1Mm
  | cubicBezier _ _ _ control2Mm _, "control_2" => some control2Mm
  | arc _ _ _ centerMm _, "center" | circle _ centerMm _, "center" => some centerMm
  | _, _ => none

/-- The entity with that point changed. -/
def SketchEntity.changePoint (change : Vec2 R → Option (Vec2 R)) :
    SketchEntity R → String → Option (SketchEntity R)
  | line id startMm endMm, "start" => (change startMm).map fun startMm => line id startMm endMm
  | arc id startMm endMm centerMm clockwise, "start" =>
    (change startMm).map fun startMm => arc id startMm endMm centerMm clockwise
  | cubicBezier id startMm control1Mm control2Mm endMm, "start" =>
    (change startMm).map fun startMm => cubicBezier id startMm control1Mm control2Mm endMm
  | line id startMm endMm, "end" => (change endMm).map fun endMm => line id startMm endMm
  | arc id startMm endMm centerMm clockwise, "end" =>
    (change endMm).map fun endMm => arc id startMm endMm centerMm clockwise
  | cubicBezier id startMm control1Mm control2Mm endMm, "end" =>
    (change endMm).map fun endMm => cubicBezier id startMm control1Mm control2Mm endMm
  | cubicBezier id startMm control1Mm control2Mm endMm, "control_1" =>
    (change control1Mm).map fun control1Mm => cubicBezier id startMm control1Mm control2Mm endMm
  | cubicBezier id startMm control1Mm control2Mm endMm, "control_2" =>
    (change control2Mm).map fun control2Mm => cubicBezier id startMm control1Mm control2Mm endMm
  | arc id startMm endMm centerMm clockwise, "center" =>
    (change centerMm).map fun centerMm => arc id startMm endMm centerMm clockwise
  | circle id centerMm radiusMm, "center" =>
    (change centerMm).map fun centerMm => circle id centerMm radiusMm
  | _, _ => none

/-- A point of a profile segment named by a parameter path. -/
inductive SegmentPoint
  | start
  | end_
  | center
  /-- A spline point between its ends (`points.N`). -/
  | inner (index : Nat)
  deriving DecidableEq

def SegmentPoint.parse (name : String) (index : Option Nat) : Option SegmentPoint :=
  match name, index with
  | "start", none => some start
  | "end", none => some end_
  | "center", none => some center
  | "points", some index => some (inner index)
  | _, _ => none

/-- The segment, the point and the axis of a path, as reading and setting take it apart. -/
def segmentPath : List String → Option (Nat × SegmentPoint × String)
  | ["segments", index, point, axis] => do
    some (← parseIndex index, ← SegmentPoint.parse point none, axis)
  | ["segments", index, "points", point, axis] => do
    some (← parseIndex index, ← SegmentPoint.parse "points" (some (← parseIndex point)), axis)
  | _ => none

def ProfileSegment.point : ProfileSegment R → SegmentPoint → Option (Vec2 R)
  | segment, .start => segment.startMm
  | segment, .end_ => segment.endMm
  | circularArc _ _ centerMm _, .center => some centerMm
  | spline pointsMm, .inner point =>
    if 0 < point ∧ point + 1 < pointsMm.length then pointsMm[point]? else none
  | _, _ => none

def segmentParameterValue (segments : List (ProfileSegment R)) (parts : List String) : Option R := do
  let (index, point, axis) ← segmentPath parts
  pointCoordinate (← (← segments[index]?).point point) axis

def extentEndParameterValue : FeatureExtentEnd R → Option R
  | .blind distance => some distance.millimetres
  | .throughAll | .upToFace _ => none

def extentParameterValue : FeatureExtent R → List String → Option R
  | .blind distance, ["distance"] | .symmetric distance, ["distance"] => some distance.millimetres
  | .bidirectional along _, ["along", "distance"] => extentEndParameterValue along
  | .bidirectional _ opposite, ["opposite", "distance"] => extentEndParameterValue opposite
  | _, _ => none

/-- The first entity with the id a segment of a path names. -/
def SketchSpec.entity (spec : SketchSpec R) (id : String) : Option (SketchEntity R) :=
  (parseIndex id).bind fun id => spec.entities.find? fun entity => entity.id = id

def SketchSpec.constraint (spec : SketchSpec R) (id : String) : Option (SketchConstraint R) :=
  (parseIndex id).bind fun id => spec.constraints.find? fun constraint => constraint.id = id

def SketchEntity.radius : SketchEntity R → Option R
  | circle _ _ radiusMm => some radiusMm
  | _ => none

def SketchConstraint.value (constraint : SketchConstraint R) : Option R :=
  match constraint.kind with
  | .distance _ _ value | .radius _ value => some value.millimetres
  | _ => none

def SketchConstraint.angle (constraint : SketchConstraint R) : Option R :=
  match constraint.kind with
  | .angle _ _ angleDegrees => some angleDegrees
  | _ => none

def SketchConstraint.position (constraint : SketchConstraint R) : Option (Vec2 R) :=
  match constraint.kind with
  | .fixedPoint _ positionMm => some positionMm
  | _ => none

end Points

/-- The extent between two corners along the axis a width or a height is along. -/
def boundsSize (bounds : Vec2 ℚ × Vec2 ℚ) (size : String) : Option ℚ :=
  if size = "width" then some (bounds.2.x - bounds.1.x)
  else if size = "height" then some (bounds.2.y - bounds.1.y)
  else none

def sketchParameterValue (spec : SketchSpec ℚ) : List String → Option ℚ
  | ["bounds", size] => spec.rectangleBounds.bind fun bounds => boundsSize bounds size
  | ["entities", id, point, axis] =>
    ((spec.entity id).bind fun entity => entity.point point).bind fun point => pointCoordinate point axis
  | ["entities", id, "radius"] => (spec.entity id).bind SketchEntity.radius
  | ["constraints", id, "value"] => (spec.constraint id).bind SketchConstraint.value
  | ["constraints", id, "angle"] => (spec.constraint id).bind SketchConstraint.angle
  | ["constraints", id, "position", axis] =>
    ((spec.constraint id).bind SketchConstraint.position).bind fun point => pointCoordinate point axis
  | _ => none

/-- The corners of the rectangle a profile is, from its lowest one around. -/
def FeatureKind.rectangle (kind : FeatureKind ℚ) : Option (List (Vec2 ℚ)) :=
  kind.polygonPoints.filter isAxisAlignedRectangle

def featureKindParameterValue (kind : FeatureKind ℚ) (parts : List String) : Option ℚ :=
  match kind with
  | .workplane spec =>
    match spec.support, parts with
    | .free, ["frame", "origin", axis] => pointCoordinate3d spec.frame.originMm axis
    | .offset _ distance, ["support", "offset", "distance"] => some distance.millimetres
    | _, _ => none
  | .sketch spec => sketchParameterValue spec parts
  | .profile segments _ =>
    match parts with
    | ["bounds", dimension] =>
      match kind.rectangle with
      | some [a, b, _, d] => boundsSize (a, ⟨b.x, d.y⟩) dimension
      | _ => none
    | _ => segmentParameterValue segments parts
  | .pad spec =>
    match parts with
    | "extent" :: rest => extentParameterValue spec.extent rest
    | _ => none
  | .revolve _ axisStartMm axisEndMm angleDegrees =>
    match parts with
    | ["axis_start", axis] => pointCoordinate axisStartMm axis
    | ["axis_end", axis] => pointCoordinate axisEndMm axis
    | ["angle"] => some angleDegrees
    | _ => none
  | .shell _ _ thickness _ | .surfaceThicken _ thickness _ =>
    if parts = ["thickness"] then some thickness.millimetres else none
  | .edgeFinish _ _ _ amount filletRadiusStations chamferMode _ =>
    match parts, chamferMode with
    | ["amount"], _ => some amount.millimetres
    | ["chamfer_second_distance"], .twoDistance secondDistance => some secondDistance.millimetres
    | ["chamfer_angle"], .distanceAngle angleDegrees => some angleDegrees
    | ["fillet_radius_stations", index, "radius"], _ => do
      some (← filletRadiusStations[← parseIndex index]?).radius.millimetres
    | _, _ => none
  | .faceOffset _ _ distance | .planarOffset _ distance =>
    if parts = ["distance"] then some distance.millimetres else none
  | .draft spec => if parts = ["angle"] then some spec.angleDegrees else none
  | .weldmentMember spec => if parts = ["orientation"] then some spec.orientationDegrees else none
  | .sheetMetal spec =>
    match parts with
    | ["thickness"] => some spec.thickness.millimetres
    | ["k_factor"] => some spec.kFactor
    | ["base", index, axis] => do pointCoordinate (← spec.baseMm[← parseIndex index]?) axis
    | ["bends", index, "length"] => do some (← spec.bends[← parseIndex index]?).length.millimetres
    | ["bends", index, "angle"] => do some (← spec.bends[← parseIndex index]?).angleDegrees
    | ["bends", index, "inner_radius"] => do
      some (← spec.bends[← parseIndex index]?).innerRadius.millimetres
    | _ => none
  | .loft sections _ _ =>
    match parts with
    | ["sections", index, "elevation"] => do some (← sections[← parseIndex index]?).elevationMm
    | _ => none
  | _ => none

/-! ### Setting -/

section Setters

variable {R : Type}

def SketchSpec.changeEntity (spec : SketchSpec R) (id : String)
    (change : SketchEntity R → Option (SketchEntity R)) : Option (SketchSpec R) :=
  (parseIndex id).bind fun id =>
    (changeFirst (fun entity => entity.id = id) change spec.entities).map fun entities =>
      { spec with entities }

def SketchSpec.changeConstraint (spec : SketchSpec R) (id : String)
    (change : SketchConstraintKind R → Option (SketchConstraintKind R)) : Option (SketchSpec R) :=
  (parseIndex id).bind fun id =>
    (changeFirst (fun constraint => constraint.id = id)
      (fun constraint => (change constraint.kind).map fun kind => { constraint with kind })
      spec.constraints).map fun constraints => { spec with constraints }

def SketchEntity.withRadius (value : R) : SketchEntity R → Option (SketchEntity R)
  | circle id centerMm _ => some (circle id centerMm value)
  | _ => none

def SketchConstraintKind.withValue (dimension : Dimension R) :
    SketchConstraintKind R → Option (SketchConstraintKind R)
  | distance a b _ => some (distance a b dimension)
  | radius entity _ => some (radius entity dimension)
  | _ => none

def SketchConstraintKind.withAngle (value : R) :
    SketchConstraintKind R → Option (SketchConstraintKind R)
  | angle a b _ => some (angle a b value)
  | _ => none

def SketchConstraintKind.changePosition (change : Vec2 R → Option (Vec2 R)) :
    SketchConstraintKind R → Option (SketchConstraintKind R)
  | fixedPoint point positionMm => (change positionMm).map (fixedPoint point)
  | _ => none

/-- The change of the named point of a segment; its ends are changed elsewhere. -/
def ProfileSegment.changeInner (change : Vec2 R → Option (Vec2 R)) :
    ProfileSegment R → SegmentPoint → Option (ProfileSegment R)
  | circularArc startMm endMm centerMm clockwise, .center =>
    (change centerMm).map fun centerMm => circularArc startMm endMm centerMm clockwise
  | spline pointsMm, .inner point =>
    if 0 < point ∧ point + 1 < pointsMm.length then (changeAt pointsMm point change).map spline else none
  | _, _ => none

/-- The segment before one: of a closed profile the last before the first. -/
def previousIndex (count : Nat) (closed : Bool) (index : Nat) : Option Nat :=
  if 0 < index ∨ closed then some ((index + count - 1) % count) else none

def nextIndex (count : Nat) (closed : Bool) (index : Nat) : Option Nat :=
  if index + 1 < count ∨ closed then some ((index + 1) % count) else none

/-- Whether one segment ends where another starts. -/
def meetsAt [DecidableEq R] (segments : List (ProfileSegment R)) (first second : Nat) : Bool :=
  match segments[first]?, segments[second]? with
  | some first, some second => first.meets second
  | _, _ => false

/-- A further change at an index, where there is one and the change is not refused. -/
def alsoAt {A : Type} (list : List A) (index : Option Nat) (change : A → Option A) : List A :=
  match index with
  | some index => (changeAt list index change).getD list
  | none => list

/-- Sets one coordinate of a segment point. A segment end shared with the neighbouring segment is one
vertex: both segments move with it. -/
def setSegmentParameter [DecidableEq R] (segments : List (ProfileSegment R)) (closed : Bool)
    (parts : List String) (value : R) : Option (List (ProfileSegment R)) := do
  let (index, point, axis) ← segmentPath parts
  if segments.length ≤ index then none
  else
    let change := setPointCoordinate axis value
    match point with
    | .start =>
      let shared := (previousIndex segments.length closed index).filter fun previous =>
        meetsAt segments previous index
      let moved ← changeAt segments index (ProfileSegment.changeStart change)
      some (alsoAt moved shared (ProfileSegment.changeEnd change))
    | .end_ =>
      let shared := (nextIndex segments.length closed index).filter fun next =>
        meetsAt segments index next
      let moved ← changeAt segments index (ProfileSegment.changeEnd change)
      some (alsoAt moved shared (ProfileSegment.changeStart change))
    | point => changeAt segments index fun segment => segment.changeInner change point

def setExtentEndParameter (dimension : Dimension R) : FeatureExtentEnd R → Option (FeatureExtentEnd R)
  | .blind _ => some (.blind dimension)
  | .throughAll | .upToFace _ => none

def setExtentParameter (extent : FeatureExtent R) (parts : List String) (dimension : Dimension R) :
    Option (FeatureExtent R) :=
  match extent, parts with
  | .blind _, ["distance"] => some (.blind dimension)
  | .symmetric _, ["distance"] => some (.symmetric dimension)
  | .bidirectional along opposite, ["along", "distance"] =>
    (setExtentEndParameter dimension along).map fun along => .bidirectional along opposite
  | .bidirectional along opposite, ["opposite", "distance"] =>
    (setExtentEndParameter dimension opposite).map fun opposite => .bidirectional along opposite
  | _, _ => none

end Setters

/-- A point at the far side of a rectangle, moved along the axis; any other as it is. -/
def Vec2.withFarSide (farSide value : ℚ) (axis : Axis) (point : Vec2 ℚ) : Vec2 ℚ :=
  if point.get axis = farSide then point.put value axis else point

def SketchEntity.withFarSide (farSide value : ℚ) (axis : Axis) : SketchEntity ℚ → SketchEntity ℚ
  | line id startMm endMm =>
    line id (startMm.withFarSide farSide value axis) (endMm.withFarSide farSide value axis)
  | entity => entity

/-- The axis that a width or a height is along. -/
def sizeAxis (size : String) : Option Axis :=
  if size = "width" then some .x else if size = "height" then some .y else none

def setSketchParameter (spec : SketchSpec ℚ) (parts : List String) (dimension : Dimension ℚ) :
    Option (SketchSpec ℚ) :=
  let value := dimension.millimetres
  match parts with
  | ["bounds", size] => do
    let axis ← sizeAxis size
    let (minimum, maximum) ← spec.rectangleBounds
    if value ≤ profileEpsilonMm then none
    else some { spec with
      entities := spec.entities.map
        (SketchEntity.withFarSide (maximum.get axis) (minimum.get axis + value) axis) }
  | ["entities", id, point, axis] =>
    spec.changeEntity id fun entity => entity.changePoint (setPointCoordinate axis value) point
  | ["entities", id, "radius"] => spec.changeEntity id (SketchEntity.withRadius value)
  | ["constraints", id, "value"] => spec.changeConstraint id (SketchConstraintKind.withValue dimension)
  | ["constraints", id, "angle"] => spec.changeConstraint id (SketchConstraintKind.withAngle value)
  | ["constraints", id, "position", axis] =>
    spec.changeConstraint id (SketchConstraintKind.changePosition (setPointCoordinate axis value))
  | _ => none

section SetKind

variable {E : Type} (validateFeatureKind : FeatureKind ℚ → ℚ → Except E Unit)

/-- The kind with the parameter of a path set; `none` where the path is of no parameter it can set. -/
def setFeatureKindParameter (kind : FeatureKind ℚ) (target : FeatureParameterTarget)
    (dimension : Dimension ℚ) (toleranceMm : ℚ) :
    Except (ParameterError E) (Option (FeatureKind ℚ)) :=
  let parts := target.path.segments
  let value := dimension.millimetres
  match kind with
  | .workplane spec => .ok <|
    match spec.support, parts with
    | .free, ["frame", "origin", axis] =>
      (setPointCoordinate3d spec.frame.originMm axis value).map fun originMm =>
        .workplane { spec with frame := { spec.frame with originMm } }
    | .offset base _, ["support", "offset", "distance"] =>
      some (.workplane { spec with support := .offset base dimension })
    | _, _ => none
  | .sketch spec => .ok ((setSketchParameter spec parts dimension).map .sketch)
  | .profile segments closed =>
    match parts with
    | ["bounds", "width"] | ["bounds", "height"] =>
      match resizeAxisAlignedRectangle validateFeatureKind (kind.polygonPoints.getD []) target value
          toleranceMm with
      | .error error => .error error
      | .ok pointsMm => .ok (some (.polygon pointsMm))
    | _ => .ok ((setSegmentParameter segments closed parts value).map fun segments =>
      .profile segments closed)
  | .pad spec => .ok <|
    match parts with
    | "extent" :: rest =>
      (setExtentParameter spec.extent rest dimension).map fun extent => .pad { spec with extent }
    | _ => none
  | .revolve source axisStartMm axisEndMm angleDegrees => .ok <|
    match parts with
    | ["axis_start", axis] =>
      (setPointCoordinate axis value axisStartMm).map fun axisStartMm =>
        .revolve source axisStartMm axisEndMm angleDegrees
    | ["axis_end", axis] =>
      (setPointCoordinate axis value axisEndMm).map fun axisEndMm =>
        .revolve source axisStartMm axisEndMm angleDegrees
    | ["angle"] => some (.revolve source axisStartMm axisEndMm value)
    | _ => none
  | .shell target removedFaces _ direction => .ok <|
    if parts = ["thickness"] then some (.shell target removedFaces dimension direction) else none
  | .surfaceThicken target _ direction => .ok <|
    if parts = ["thickness"] then some (.surfaceThicken target dimension direction) else none
  | .edgeFinish target edges finish amount filletRadiusStations chamferMode chamferEdgeSides => .ok <|
    match parts, chamferMode with
    | ["amount"], _ =>
      some (.edgeFinish target edges finish dimension filletRadiusStations chamferMode chamferEdgeSides)
    | ["chamfer_second_distance"], .twoDistance _ =>
      some (.edgeFinish target edges finish amount filletRadiusStations (.twoDistance dimension)
        chamferEdgeSides)
    | ["chamfer_angle"], .distanceAngle _ =>
      some (.edgeFinish target edges finish amount filletRadiusStations (.distanceAngle value)
        chamferEdgeSides)
    | ["fillet_radius_stations", index, "radius"], _ => do
      let stations ← changeAt filletRadiusStations (← parseIndex index) fun station =>
        some { station with radius := dimension }
      some (.edgeFinish target edges finish amount stations chamferMode chamferEdgeSides)
    | _, _ => none
  | .faceOffset target face _ => .ok <|
    if parts = ["distance"] then some (.faceOffset target face dimension) else none
  | .planarOffset source _ => .ok <|
    if parts = ["distance"] then some (.planarOffset source dimension) else none
  | .draft spec => .ok <|
    if parts = ["angle"] then some (.draft { spec with angleDegrees := value }) else none
  | .surfaceKnit surfaces _ makeSolid => .ok <|
    if parts = ["tolerance"] then some (.surfaceKnit surfaces dimension makeSolid) else none
  | .weldmentMember spec => .ok <|
    if parts = ["orientation"] then some (.weldmentMember { spec with orientationDegrees := value })
    else none
  | .sheetMetal spec => .ok <|
    match parts with
    | ["thickness"] => some (.sheetMetal { spec with thickness := dimension })
    | ["k_factor"] => some (.sheetMetal { spec with kFactor := value })
    | ["base", index, axis] => do
      let baseMm ← changeAt spec.baseMm (← parseIndex index) (setPointCoordinate axis value)
      some (.sheetMetal { spec with baseMm })
    | ["bends", index, "length"] => do
      let bends ← changeAt spec.bends (← parseIndex index) fun bend =>
        some { bend with length := dimension }
      some (.sheetMetal { spec with bends })
    | ["bends", index, "angle"] => do
      let bends ← changeAt spec.bends (← parseIndex index) fun bend =>
        some { bend with angleDegrees := value }
      some (.sheetMetal { spec with bends })
    | ["bends", index, "inner_radius"] => do
      let bends ← changeAt spec.bends (← parseIndex index) fun bend =>
        some { bend with innerRadius := dimension }
      some (.sheetMetal { spec with bends })
    | _ => none
  | .loft sections guide continuity => .ok <|
    match parts with
    | ["sections", index, "elevation"] => do
      let sections ← changeAt sections (← parseIndex index) fun section_ =>
        some { section_ with elevationMm := value }
      some (.loft sections guide continuity)
    | _ => none
  | _ => .ok none

end SetKind

end Ketchup.Product
