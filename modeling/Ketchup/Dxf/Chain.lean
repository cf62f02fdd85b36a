/-
**Loose lines and arcs chained into profiles, layer by layer.**

Ends of arcs within the tolerance of each other become one of them, ends of lines within it of one arc end
move onto it; a segment whose ends cannot be moved so without choosing is left out, and so is a repeated
line. What is left is chained run by run: a run that branches or is too long is left out as one group of
the report, each other one becomes a profile.

Coordinates are exact. `bits` gives each point the key it is compared and ordered by, and a missing point
(an end of a spline without points) its own.
-/

import Ketchup.Library.Meeting
import Ketchup.Library.Search
import Ketchup.Product.Parameters
import Mathlib.Data.Finset.Max
import Mathlib.Data.List.Dedup
import Mathlib.Data.List.MinMax

namespace Ketchup.Dxf

open Product (ProfileSegment Vec2)

abbrev Point := Vec2 ℚ

/-- `ROUNDING`. -/
def dxfGeometryEpsilonMm : ℚ := 1 / 10 ^ 9

structure LooseSegment where
  layer : String
  ordinal : Nat
  segment : ProfileSegment ℚ
  deriving DecidableEq

structure OrderedProfile where
  layer : String
  ordinal : Nat
  segments : List (ProfileSegment ℚ)
  closed : Bool
  deriving DecidableEq

inductive DxfImportError
  | ambiguousGeometry
  | degenerateGeometry
  | tooManySegments
  deriving DecidableEq

/-- What is left out as one: each segment with the ordinal of its entity. -/
structure Group where
  layer : String
  kind : String
  drawn : List (Nat × ProfileSegment ℚ)
  error : DxfImportError
  deriving DecidableEq

/-! ### Ends near each other -/

/-- The points are within the tolerance of each other. -/
def Near (point other : Point) : Prop :=
  (point.x - other.x) ^ 2 + (point.y - other.y) ^ 2 ≤ dxfGeometryEpsilonMm ^ 2

instance (point other : Point) : Decidable (Near point other) := by
  unfold Near
  infer_instance

/-- The ends of the arcs, in their order (`arc_endpoint_buckets`). -/
def arcEndpoints (segments : List LooseSegment) : List Point :=
  segments.flatMap fun segment =>
    match segment.segment with
    | .circularArc startMm endMm _ _ => [startMm, endMm]
    | _ => []

def connectivityBucket (point : Point) : ℤ × ℤ :=
  (⌊point.x / dxfGeometryEpsilonMm⌋, ⌊point.y / dxfGeometryEpsilonMm⌋)

/-- The different points among the arc ends that are near `point`, looked up in its bucket and those
around it. -/
def nearbyArcEndpoints (point : Point) (arcEndpoints : List Point) : List Point :=
  let bucket := connectivityBucket point
  ([-1, 0, 1].flatMap fun xOffset => [-1, 0, 1].flatMap fun yOffset =>
    arcEndpoints.filter fun candidate =>
      connectivityBucket candidate = (bucket.1 + xOffset, bucket.2 + yOffset) ∧ Near point candidate).dedup

def ensureDistinct (start stop : Point) : Except DxfImportError Unit :=
  if Near start stop then .error .degenerateGeometry else .ok ()

variable {B : Type} [LinearOrder B] (bits : Option Point → B)

/-- The point an arc end shares with at most one other arc end near it: the first by its bits. -/
def sharedArcEndpoint (arcEndpoints : List Point) (point : Point) : Except DxfImportError Point :=
  let near := nearbyArcEndpoints point arcEndpoints
  if near.length > 2 then .error .ambiguousGeometry
  else .ok ((near.argmin fun candidate => bits (some candidate)).getD point)

def unambiguousArcEndpoint (arcEndpoints : List Point) (point : Point) : Except DxfImportError Point :=
  match nearbyArcEndpoints point arcEndpoints with
  | [] => .ok point
  | [candidate] => .ok candidate
  | _ => .error .ambiguousGeometry

/-- Both ends moved, if they stay apart. -/
def movedEnds (move : Point → Except DxfImportError Point) (start stop : Point) :
    Except DxfImportError (Point × Point) := do
  let start ← move start
  let stop ← move stop
  ensureDistinct start stop
  return (start, stop)

def snapArc (arcEndpoints : List Point) (segment : LooseSegment) : Except DxfImportError LooseSegment :=
  match segment.segment with
  | .circularArc startMm endMm centerMm clockwise => do
    let ends ← movedEnds (sharedArcEndpoint bits arcEndpoints) startMm endMm
    return { segment with segment := .circularArc ends.1 ends.2 centerMm clockwise }
  | _ => .ok segment

def snapLine (arcEndpoints : List Point) (segment : LooseSegment) : Except DxfImportError LooseSegment :=
  match segment.segment with
  | .line startMm endMm => do
    let ends ← movedEnds (unambiguousArcEndpoint arcEndpoints) startMm endMm
    return { segment with segment := .line ends.1 ends.2 }
  | _ => .ok segment

/-- The segments as `snap` makes them, without those it refuses, which come second (`take_out`). -/
def takeOut (snap : LooseSegment → Except DxfImportError LooseSegment) (segments : List LooseSegment) :
    List LooseSegment × List (LooseSegment × DxfImportError) :=
  (segments.filterMap fun segment => (snap segment).toOption,
    segments.filterMap fun segment =>
      match snap segment with
      | .ok _ => none
      | .error error => some (segment, error))

def snapLinesToUnambiguousArcEndpoints (segments : List LooseSegment) :
    List LooseSegment × List (LooseSegment × DxfImportError) :=
  let arcs := takeOut (snapArc bits (arcEndpoints segments)) segments
  let lines := takeOut (snapLine (arcEndpoints arcs.1)) arcs.1
  (lines.1, arcs.2 ++ lines.2)

/-! ### Repeated lines -/

/-- The ends of a line, the smaller first. -/
def lineKey (segment : ProfileSegment ℚ) : Option (B × B) :=
  match segment with
  | .line startMm endMm =>
    let start := bits (some startMm)
    let stop := bits (some endMm)
    some (if start ≤ stop then (start, stop) else (stop, start))
  | _ => none

/-- The segments without each line between two points that have one already, and those lines. -/
def withoutRepeated (duplicateLines : List (B × B)) :
    List LooseSegment → List LooseSegment × List LooseSegment
  | [] => ([], [])
  | segment :: rest =>
    match lineKey bits segment.segment with
    | none =>
      let others := withoutRepeated duplicateLines rest
      (segment :: others.1, others.2)
    | some key =>
      if key ∈ duplicateLines then
        let others := withoutRepeated duplicateLines rest
        (others.1, segment :: others.2)
      else
        let others := withoutRepeated (key :: duplicateLines) rest
        (segment :: others.1, others.2)

/-! ### Runs -/

def reverseSegment : ProfileSegment ℚ → ProfileSegment ℚ
  | .line startMm endMm => .line endMm startMm
  | .circularArc startMm endMm centerMm clockwise => .circularArc endMm startMm centerMm !clockwise
  | .cubicBezier startMm control1Mm control2Mm endMm => .cubicBezier endMm control2Mm control1Mm startMm
  | .spline pointsMm => .spline pointsMm.reverse

section Runs

variable (segments : List LooseSegment)

def segmentAt (index : Fin segments.length) : ProfileSegment ℚ := (segments.get index).segment

def ordinalAt (index : Fin segments.length) : Nat := (segments.get index).ordinal

/-- The point of an end of a segment. -/
def endKey (pieceEnd : PieceEnd segments.length) : B :=
  bits (if pieceEnd.2 then (segmentAt segments pieceEnd.1).endMm else (segmentAt segments pieceEnd.1).startMm)

/-- The segments that end at a point, each as often as it does. -/
def endpoints (point : B) : List (Fin segments.length) :=
  (endsAt (endKey bits segments) point).map Prod.fst

/-- The segments that end where one does. -/
def incident (index : Fin segments.length) : List (Fin segments.length) :=
  endpoints bits segments (endKey bits segments (index, false)) ++
    endpoints bits segments (endKey bits segments (index, true))

/-- The segments of a connected run in order from `current`, and where it ends. -/
def chainFrom (unused : Finset (Fin segments.length)) (current : B) : Option (List (ProfileSegment ℚ) × B) :=
  if unused = ∅ then some ([], current)
  else
    match _h : ((endpoints bits segments current).filter (· ∈ unused)).argmin (ordinalAt segments) with
    | none => none
    | some index =>
      let oriented := if endKey bits segments (index, false) = current then segmentAt segments index
        else reverseSegment (segmentAt segments index)
      (chainFrom (unused.erase index) (bits oriented.endMm)).map fun rest => (oriented :: rest.1, rest.2)
termination_by unused.card
decreasing_by
  have inside := (List.mem_filter.mp (List.argmin_mem _h)).2
  exact Finset.card_erase_lt_of_mem (of_decide_eq_true inside)

/-- How many ends of `component` are at a point. -/
def degree (component : Finset (Fin segments.length)) (point : B) : Nat :=
  ((endpoints bits segments point).filter (· ∈ component)).length

def componentPoints (component : Finset (Fin segments.length)) : Finset B :=
  component.image (fun index => endKey bits segments (index, false)) ∪
    component.image fun index => endKey bits segments (index, true)

/-- The segments of `component` in order from its smaller open end, or from the start of `seed` when it
closes, and whether it closes; or why they do not chain into one profile. -/
def chainComponent (component : Finset (Fin segments.length)) (seed : Fin segments.length) (maxSegments : Nat) :
    Except (DxfImportError × String) (List (ProfileSegment ℚ) × Bool) :=
  let degreeOne := (componentPoints bits segments component).filter fun point =>
    degree bits segments component point = 1
  if ∃ point ∈ componentPoints bits segments component, degree bits segments component point > 2 then
    .error (.ambiguousGeometry, "a T-junction (lines that branch)")
  else if component.card > maxSegments then .error (.tooManySegments, "a run of too many segments")
  else if degreeOne.card ≠ 0 ∧ degreeOne.card ≠ 2 then .error (.ambiguousGeometry, "lines that do not chain")
  else
    let closed : Bool := degreeOne.card = 0
    let startPoint := degreeOne.min.untopD (endKey bits segments (seed, false))
    match chainFrom bits segments component startPoint with
    | none => .error (.ambiguousGeometry, "lines that do not chain")
    | some (ordered, current) =>
      if (closed ∧ current ≠ startPoint) ∨ (¬closed ∧ current ∉ degreeOne) then
        .error (.ambiguousGeometry, "lines that do not chain")
      else .ok (ordered, closed)

/-- The segments not in a run yet, the profiles and the groups left out. -/
structure Assembly (count : Nat) where
  unused : Finset (Fin count)
  profiles : List OrderedProfile
  groups : List Group

/-- The segments of a connected run, by index. -/
def listed (component : Finset (Fin segments.length)) : List (Fin segments.length) :=
  (List.finRange segments.length).filter (· ∈ component)

/-- Takes out the run of `seed`, as a profile or as a group of the report. -/
def assembleRun (layer : String) (maxSegments : Nat) (assembly : Assembly segments.length)
    (seed : Fin segments.length) : Assembly segments.length :=
  if seed ∉ assembly.unused then assembly
  else
    let component := search (incident bits segments) ∅ [seed]
    let indices := listed segments component
    let ordinal := (indices.map (ordinalAt segments)).min?.getD 0
    match chainComponent bits segments component seed maxSegments with
    | .ok (ordered, closed) =>
      { assembly with
        unused := assembly.unused \ component
        profiles := assembly.profiles ++ [⟨layer, ordinal, ordered, closed⟩] }
    | .error (error, detail) =>
      { assembly with
        unused := assembly.unused \ component
        groups := assembly.groups ++
          [⟨layer, detail, indices.map fun index => (ordinalAt segments index, segmentAt segments index), error⟩] }

/-- All runs of a layer, by the ordinal of their first segment. -/
def assembleRuns (layer : String) (maxSegments : Nat) : Assembly segments.length :=
  let seeds := (List.finRange segments.length).mergeSort fun one other =>
    ordinalAt segments one ≤ ordinalAt segments other
  seeds.foldl (assembleRun bits segments layer maxSegments) ⟨Finset.univ, [], []⟩

end Runs

/-! ### The layers -/

/-- The profiles and the groups left out of one layer. -/
def assembleLayer (layer : String) (segments : List LooseSegment) (maxSegments : Nat) :
    List OrderedProfile × List Group :=
  let snapped := snapLinesToUnambiguousArcEndpoints bits segments
  let unrepeated := withoutRepeated bits [] snapped.1
  let runs := assembleRuns bits unrepeated.1 layer maxSegments
  (runs.profiles,
    (snapped.2.map fun removed =>
      ⟨layer, "an end near several arc ends", [(removed.1.ordinal, removed.1.segment)], removed.2⟩) ++
    (unrepeated.2.map fun repeated =>
      ⟨layer, "a repeated line", [(repeated.ordinal, repeated.segment)], .ambiguousGeometry⟩) ++
    runs.groups)

/-- The layers of the segments, in order. -/
def layers (loose : List LooseSegment) : List String :=
  (loose.map LooseSegment.layer).dedup.mergeSort fun one other => decide (one ≤ other)

/-- The profiles the segments chain into, and the groups left out. -/
def assembled (loose : List LooseSegment) (maxSegments : Nat) : List OrderedProfile × List Group :=
  let parts := (layers loose).map fun layer =>
    assembleLayer bits layer (loose.filter fun segment => segment.layer = layer) maxSegments
  (parts.flatMap Prod.fst, parts.flatMap Prod.snd)

/-- Without a report, the first group left out refuses the whole reading. -/
def assembleLooseSegments (loose : List LooseSegment) (maxSegments : Nat) (report : Bool) :
    Except DxfImportError (List OrderedProfile × List Group) :=
  let parts := assembled bits loose maxSegments
  match report, parts.2 with
  | false, group :: _ => .error group.error
  | _, _ => .ok parts

end Ketchup.Dxf
