/-
**The width and the height of a profile are read back.**

A profile read as corners is the chain of lines around them and nothing else (`polygonPoints_eq_some`). So a
rectangle that is rebuilt from its corners, with the far side moved, is read as those corners again.
-/

import Ketchup.Product.ProfileParameters

namespace Ketchup.Product

open Ketchup.Graph

/-! ### Chains of lines -/

section Chains

variable {segments : List (ProfileSegment ℚ)} {pointsMm : List (Vec2 ℚ)} {index : Nat}

theorem length_withNext {A : Type} (list : List A) : (withNext list).length = list.length := by
  cases list with
  | nil => rfl
  | cons head rest => simp [withNext]

/-- Each element is with the one after it, and the last with the first. -/
theorem getElem?_withNext {A : Type} (list : List A) (index : Nat) : (withNext list)[index]? =
    (list[index]?).bind fun one => (list[(index + 1) % list.length]?).map fun next => (one, next) := by
  by_cases inside : index < list.length
  · have first : 0 < list.length := by omega
    have follows : (list.tail ++ list.take 1)[index]? = list[(index + 1) % list.length]? := by
      by_cases more : index + 1 < list.length
      · rw [Nat.mod_eq_of_lt more, List.getElem?_append_left (by rw [List.length_tail]; omega),
          List.getElem?_tail]
      · have last : index + 1 = list.length := by omega
        rw [last, Nat.mod_self, List.getElem?_append_right (by rw [List.length_tail]; omega),
          List.length_tail, show index - (list.length - 1) = 0 by omega, List.getElem?_take_of_lt (by omega)]
    have next : (index + 1) % list.length < list.length := Nat.mod_lt _ first
    rw [List.getElem?_eq_getElem next] at follows
    have both : (withNext list)[index]? = some (list[index], list[(index + 1) % list.length]) :=
      List.getElem?_zip_eq_some.mpr ⟨List.getElem?_eq_getElem inside, follows⟩
    rw [List.getElem?_eq_getElem inside, List.getElem?_eq_getElem next, both]
    rfl
  · rw [List.getElem?_eq_none (by rw [length_withNext]; omega), List.getElem?_eq_none (by omega)]
    rfl

theorem getElem?_polygonSegments (pointsMm : List (Vec2 ℚ)) (index : Nat) :
    (polygonSegments pointsMm)[index]? = (pointsMm[index]?).bind fun one =>
      (pointsMm[(index + 1) % pointsMm.length]?).map fun next => .line one next := by
  rw [polygonSegments, List.getElem?_map, getElem?_withNext]
  cases pointsMm[index]? with
  | none => rfl
  | some one => cases pointsMm[(index + 1) % pointsMm.length]? <;> rfl

theorem length_polygonSegments (pointsMm : List (Vec2 ℚ)) :
    (polygonSegments pointsMm).length = pointsMm.length := by
  rw [polygonSegments, List.length_map, length_withNext]

/-- The corner that a segment of a chain has. -/
def cornerOf (pair : ProfileSegment ℚ × ProfileSegment ℚ) : Option (Vec2 ℚ) :=
  match pair.1 with
  | .line startMm _ => if pair.1.meets pair.2 then some startMm else none
  | _ => none

theorem polygonPoints_eq (segments : List (ProfileSegment ℚ)) :
    polygonPoints segments = (withNext segments).mapM cornerOf := by
  unfold polygonPoints
  congr 1
  funext pair
  obtain ⟨one, next⟩ := pair
  cases one <;> rfl

theorem meets_iff {one next : ProfileSegment ℚ} :
    one.meets next = true ↔ ∃ place, one.endMm = some place ∧ next.startMm = some place := by
  unfold ProfileSegment.meets
  cases one.endMm with
  | none => simp
  | some first =>
    cases next.startMm with
    | none => simp
    | some second => simp [eq_comm]

theorem cornerOf_eq_some {one next : ProfileSegment ℚ} {corner : Vec2 ℚ} :
    cornerOf (one, next) = some corner ↔
      ∃ endMm, one = .line corner endMm ∧ next.startMm = some endMm := by
  cases one with
  | line startMm endMm =>
    have meets : (ProfileSegment.line startMm endMm).meets next = true ↔ next.startMm = some endMm := by
      simp [meets_iff, ProfileSegment.endMm]
    by_cases its : next.startMm = some endMm
    · simp [cornerOf, meets.mpr its, its]
    · have apart : (ProfileSegment.line startMm endMm).meets next = false := by
        rw [← Bool.not_eq_true, meets]
        exact its
      simp only [cornerOf, apart, Bool.false_eq_true, if_false]
      refine iff_of_false (fun is => by cases is) ?_
      rintro ⟨_, ⟨⟩, is⟩
      exact its is
  | _ => simp [cornerOf]

/-- **A profile is read as corners where it is the chain of lines around them.** -/
theorem polygonPoints_eq_some :
    polygonPoints segments = some pointsMm ↔ segments = polygonSegments pointsMm := by
  have read : polygonPoints segments = some pointsMm ↔
      (withNext segments).map cornerOf = pointsMm.map some := by
    rw [polygonPoints_eq]
    exact mapM_eq_some_iff
  rw [read]
  constructor
  · intro same
    have count : segments.length = pointsMm.length := by
      simpa [length_withNext] using congrArg List.length same
    have corner (index : Nat) (inside : index < pointsMm.length) : ∃ place endMm next,
        pointsMm[index]? = some place ∧ segments[index]? = some (.line place endMm) ∧
          segments[(index + 1) % segments.length]? = some next ∧ next.startMm = some endMm := by
      have inside' : index < segments.length := count ▸ inside
      have next : (index + 1) % segments.length < segments.length := Nat.mod_lt _ (by omega)
      have here := congrArg (fun list : List (Option (Vec2 ℚ)) => list[index]?) same
      simp only [List.getElem?_map, getElem?_withNext, List.getElem?_eq_getElem inside,
        List.getElem?_eq_getElem inside', List.getElem?_eq_getElem next, Option.bind_some, Option.map_some,
        Option.some.injEq] at here
      obtain ⟨endMm, is, starts⟩ := cornerOf_eq_some.mp here
      refine ⟨_, endMm, _, List.getElem?_eq_getElem inside, ?_, List.getElem?_eq_getElem next, starts⟩
      rw [List.getElem?_eq_getElem inside', is]
    refine List.ext_getElem? fun index => ?_
    by_cases inside : index < pointsMm.length
    · obtain ⟨place, endMm, next, at_, is, follows, starts⟩ := corner index inside
      have after : (index + 1) % segments.length < pointsMm.length := count ▸ Nat.mod_lt _ (by omega)
      obtain ⟨second, _, _, there, its, _, _⟩ := corner _ after
      rw [follows] at its
      obtain rfl := Option.some.inj its
      obtain rfl := Option.some.inj starts
      rw [count] at there
      rw [is, getElem?_polygonSegments, at_, there]
      rfl
    · rw [List.getElem?_eq_none (by omega), List.getElem?_eq_none (by rw [length_polygonSegments]; omega)]
  · rintro rfl
    refine List.ext_getElem? fun index => ?_
    rw [List.getElem?_map, List.getElem?_map, getElem?_withNext, length_polygonSegments,
      getElem?_polygonSegments, getElem?_polygonSegments]
    by_cases inside : index < pointsMm.length
    · have next (index : Nat) : (index + 1) % pointsMm.length < pointsMm.length := Nat.mod_lt _ (by omega)
      simp only [List.getElem?_eq_getElem inside, List.getElem?_eq_getElem (next _), Option.bind_some,
        Option.map_some, Option.some.injEq]
      exact cornerOf_eq_some.mpr ⟨_, rfl, rfl⟩
    · rw [List.getElem?_eq_none (by omega)]
      rfl

/-- The start of each segment of a chain is a corner. -/
theorem pointAt_polygonSegments (pointsMm : List (Vec2 ℚ)) (index : Nat) :
    pointAt (polygonSegments pointsMm) index .start = pointsMm[index]? := by
  rw [pointAt, getElem?_polygonSegments]
  by_cases inside : index < pointsMm.length
  · have next : (index + 1) % pointsMm.length < pointsMm.length := Nat.mod_lt _ (by omega)
    rw [List.getElem?_eq_getElem inside, List.getElem?_eq_getElem next]
    rfl
  · rw [List.getElem?_eq_none (by omega)]
    rfl

/-- Every two segments of a chain around share a vertex. -/
theorem polygon_shares (inside : index < pointsMm.length) :
    (FeatureKind.polygon pointsMm).SharesVertex index := by
  have next (index : Nat) : (index + 1) % pointsMm.length < pointsMm.length := Nat.mod_lt _ (by omega)
  refine sharesVertex_iff.mpr ⟨(index + 1) % pointsMm.length, ?_, meetsAt_iff.mpr ?_⟩
  · rw [length_polygonSegments, nextIndex, if_pos (Or.inr rfl)]
  · refine ⟨_, ?_, (pointAt_polygonSegments ..).trans (List.getElem?_eq_getElem (next _))⟩
    rw [pointAt, getElem?_polygonSegments, List.getElem?_eq_getElem inside,
      List.getElem?_eq_getElem (next _)]
    rfl

theorem polygon_closed (pointsMm : List (Vec2 ℚ)) : (FeatureKind.polygon pointsMm).IsClosedProfile := by
  refine ⟨rfl, fun index inside => polygon_shares ?_⟩
  rwa [length_polygonSegments] at inside

theorem lt_of_sharesVertex {closed : Bool} (shares : (FeatureKind.profile segments closed).SharesVertex index) :
    index < segments.length := by
  obtain ⟨next, _, meets⟩ := sharesVertex_iff.mp shares
  obtain ⟨vertex, ends, _⟩ := meetsAt_iff.mp meets
  obtain ⟨segment, at_, _⟩ := Option.bind_eq_some_iff.mp ends
  exact (List.getElem?_eq_some_iff.mp at_).1

/-- The only points of a chain around that are listed are its corners. -/
theorem listed_polygon {point : SegmentPoint}
    (listed : ListedPoint (polygonSegments pointsMm) true index point) :
    point = .start ∧ index < pointsMm.length := by
  obtain ⟨place, there⟩ := Option.isSome_iff_exists.mp listed.there
  obtain ⟨segment, at_, is⟩ := Option.bind_eq_some_iff.mp there
  have inside : index < pointsMm.length := by
    have := (List.getElem?_eq_some_iff.mp at_).1
    rwa [length_polygonSegments] at this
  refine ⟨?_, inside⟩
  have next : (index + 1) % pointsMm.length < pointsMm.length := Nat.mod_lt _ (by omega)
  rw [getElem?_polygonSegments, List.getElem?_eq_getElem inside, List.getElem?_eq_getElem next] at at_
  obtain rfl := Option.some.inj at_
  cases point with
  | start => rfl
  | end_ => exact absurd (polygon_shares inside) (listed.own rfl)
  | _ => cases is

end Chains

/-! ### Rectangles -/

/-- A rectangle of four corners with sides along the axes. -/
structure Upright (a b c d : Vec2 ℚ) : Prop where
  low : a.y = b.y
  right : b.x = c.x
  high : c.y = d.y
  left : d.x = a.x
  wide : a.x < b.x
  tall : a.y < d.y

theorem isAxisAlignedRectangle_iff {pointsMm : List (Vec2 ℚ)} :
    isAxisAlignedRectangle pointsMm = true ↔ ∃ a b c d, pointsMm = [a, b, c, d] ∧ Upright a b c d := by
  constructor
  · intro is
    unfold isAxisAlignedRectangle at is
    split at is
    case h_1 a b c d =>
      obtain ⟨low, right, high, left, wide, tall⟩ := of_decide_eq_true is
      exact ⟨a, b, c, d, rfl, low, right, high, left, wide, tall⟩
    case h_2 => cases is
  · rintro ⟨a, b, c, d, rfl, upright⟩
    exact decide_eq_true ⟨upright.low, upright.right, upright.high, upright.left, upright.wide, upright.tall⟩

section Rectangles

variable {segments : List (ProfileSegment ℚ)} {closed : Bool} {pointsMm : List (Vec2 ℚ)} {a b c d : Vec2 ℚ}

theorem rectangle_eq_some : (FeatureKind.profile segments closed).rectangle = some pointsMm ↔
    FeatureKind.profile segments closed = .polygon pointsMm ∧ isAxisAlignedRectangle pointsMm = true := by
  rw [FeatureKind.rectangle, Option.filter_eq_some_iff, FeatureKind.polygon, FeatureKind.profile.injEq]
  refine and_congr_left fun _ => ?_
  cases closed with
  | true =>
    rw [FeatureKind.polygonPoints, polygonPoints_eq_some]
    exact (and_iff_left rfl).symm
  | false => exact iff_of_false (fun is => by cases is) fun both => by cases both.2

/-- The far side of a rectangle moved. -/
def withSize (a c : Vec2 ℚ) (axis : Axis) (value : ℚ) (point : Vec2 ℚ) : Vec2 ℚ :=
  point.withFarSide (c.get axis) (a.get axis + value) axis

theorem withSize_near {a c point : Vec2 ℚ} {axis : Axis} (near : point.get axis = a.get axis)
    (wide : a.get axis < c.get axis) (value : ℚ) : withSize a c axis value point = point :=
  if_neg (near ▸ wide.ne)

theorem withSize_far {a c point : Vec2 ℚ} {axis : Axis} (far : point.get axis = c.get axis) (value : ℚ) :
    withSize a c axis value point = point.put (a.get axis + value) axis :=
  if_pos far

theorem Upright.withWidth (upright : Upright a b c d) (value : ℚ) :
    [a, b, c, d].map (withSize a c .x value) =
      [a, b.put (a.x + value) .x, c.put (a.x + value) .x, d] := by
  have far : b.get .x = c.get .x := upright.right
  have near : d.get .x = a.get .x := upright.left
  have across : a.get .x < c.get .x := far ▸ upright.wide
  simp only [List.map_cons, List.map_nil, withSize_near rfl across, withSize_far far, withSize_far rfl,
    withSize_near near across]
  rfl

theorem Upright.withHeight (upright : Upright a b c d) (value : ℚ) :
    [a, b, c, d].map (withSize a c .y value) =
      [a, b, c.put (a.y + value) .y, d.put (a.y + value) .y] := by
  have far : d.get .y = c.get .y := upright.high.symm
  have near : b.get .y = a.get .y := upright.low.symm
  have up : a.get .y < c.get .y := far ▸ upright.tall
  simp only [List.map_cons, List.map_nil, withSize_near rfl up, withSize_far far, withSize_far rfl,
    withSize_near near up]
  rfl

/-- A rectangle resized is itself with the far side moved. -/
theorem resized_upright (upright : Upright a b c d) {size : String} {axis : Axis}
    (is : sizeAxis size = some axis) (value : ℚ) :
    resized [a, b, c, d] ["bounds", size] value = some ([a, b, c, d].map (withSize a c axis value)) := by
  rcases sizeAxis_eq_some.mp is with ⟨rfl, rfl⟩ | ⟨rfl, rfl⟩
  · rw [upright.withWidth]
    rfl
  · rw [upright.withHeight]
    rfl

theorem Upright.resized (upright : Upright a b c d) (axis : Axis) {value : ℚ} (positive : 0 < value) :
    Upright (withSize a c axis value a) (withSize a c axis value b) (withSize a c axis value c)
      (withSize a c axis value d) := by
  have more (coordinate : ℚ) : coordinate < coordinate + value := lt_add_of_pos_right coordinate positive
  cases axis with
  | x =>
    have corners := upright.withWidth value
    simp only [List.map_cons, List.map_nil, List.cons.injEq, and_true] at corners
    obtain ⟨one, two, three, four⟩ := corners
    rw [one, two, three, four]
    exact ⟨upright.low, rfl, upright.high, upright.left, more _, upright.tall⟩
  | y =>
    have corners := upright.withHeight value
    simp only [List.map_cons, List.map_nil, List.cons.injEq, and_true] at corners
    obtain ⟨one, two, three, four⟩ := corners
    rw [one, two, three, four]
    exact ⟨upright.low, upright.right, rfl, upright.left, upright.wide, more _⟩

theorem rectangle_polygon (upright : Upright a b c d) :
    (FeatureKind.polygon [a, b, c, d]).rectangle = some [a, b, c, d] :=
  rectangle_eq_some.mpr ⟨rfl, isAxisAlignedRectangle_iff.mpr ⟨a, b, c, d, rfl, upright⟩⟩

/-- The size of a rectangle of a profile. -/
theorem value_bounds (upright : Upright a b c d) {size : String} {axis : Axis}
    (is : sizeAxis size = some axis) :
    featureKindParameterValue (.polygon [a, b, c, d]) ["bounds", size] = some (c.get axis - a.get axis) := by
  have corner : (⟨b.x, d.y⟩ : Vec2 ℚ) = c := by
    rw [upright.right, ← upright.high]
  have read : featureKindParameterValue (.polygon [a, b, c, d]) ["bounds", size] =
      boundsSize (a, ⟨b.x, d.y⟩) size := by
    have rectangle := rectangle_polygon upright
    rw [FeatureKind.polygon] at rectangle
    rw [FeatureKind.polygon, featureKindParameterValue, rectangle]
  rw [read, corner, boundsSize_of_axis is]

section Set

variable {E : Type} {validateFeatureKind : FeatureKind ℚ → ℚ → Except E Unit} {featureId : FeatureId}
  {valueType : ParameterValueType} {dimension : Dimension ℚ} {toleranceMm : ℚ} {after : FeatureKind ℚ}

theorem resize_upright (upright : Upright a b c d) {size : String} {axis : Axis} (is : sizeAxis size = some axis)
    {target : FeatureParameterTarget} (path : target.path.segments = ["bounds", size]) {value : ℚ}
    (done : resizeAxisAlignedRectangle validateFeatureKind [a, b, c, d] target value toleranceMm = .ok pointsMm) :
    profileEpsilonMm < value ∧ pointsMm = [a, b, c, d].map (withSize a c axis value) := by
  have drawn : isAxisAlignedRectangle [a, b, c, d] = true :=
    isAxisAlignedRectangle_iff.mpr ⟨a, b, c, d, rfl, upright⟩
  rw [resizeAxisAlignedRectangle, if_neg (not_not.mpr drawn), path, resized_upright upright is] at done
  split at done
  case isTrue => cases done
  case isFalse more =>
    dsimp only at done
    split at done
    · cases done
    · cases done
      exact ⟨not_le.mp more, rfl⟩

/-- A rectangle whose size is set is the one with the far side moved. -/
theorem set_bounds (upright : Upright a b c d) {size : String} {axis : Axis} (is : sizeAxis size = some axis)
    (done : setFeatureKindParameter validateFeatureKind (.polygon [a, b, c, d])
      ⟨featureId, ⟨["bounds", size]⟩, valueType⟩ dimension toleranceMm = .ok (some after)) :
    profileEpsilonMm < dimension.millimetres ∧
      after = .polygon ([a, b, c, d].map (withSize a c axis dimension.millimetres)) := by
  have corners : (FeatureKind.profile (polygonSegments [a, b, c, d]) true).polygonPoints.getD [] =
      [a, b, c, d] := by
    rw [FeatureKind.polygonPoints, polygonPoints_eq_some.mpr rfl, Option.getD_some]
  cases made : resizeAxisAlignedRectangle validateFeatureKind [a, b, c, d]
      ⟨featureId, ⟨["bounds", size]⟩, valueType⟩ dimension.millimetres toleranceMm with
  | error error =>
    rcases sizeAxis_eq_some.mp is with ⟨rfl, rfl⟩ | ⟨rfl, rfl⟩
    all_goals
      simp only [FeatureKind.polygon, setFeatureKindParameter, corners, made] at done
      cases done
  | ok pointsMm =>
    obtain ⟨more, rfl⟩ := resize_upright upright is rfl made
    refine ⟨more, ?_⟩
    rcases sizeAxis_eq_some.mp is with ⟨rfl, rfl⟩ | ⟨rfl, rfl⟩
    all_goals
      simp only [FeatureKind.polygon, setFeatureKindParameter, corners, made] at done
      cases done
      rfl

end Set

end Rectangles

/-! ### Every parameter of a profile -/

section Profiles

variable {segments : List (ProfileSegment ℚ)} {closed : Bool} {descriptor : ParameterDescriptor}

/-- The paths of the parameters of a profile. -/
inductive ListedProfile (segments : List (ProfileSegment ℚ)) (closed : Bool) : List String → Prop
  | bounds (drawn : (FeatureKind.profile segments closed).rectangle.isSome) {axis : Axis} {size : String}
      (is : sizeAxis size = some axis) : ListedProfile segments closed ["bounds", size]
  | point {index : Nat} {point : SegmentPoint} (listed : ListedPoint segments closed index point) (axis : Axis) :
      ListedProfile segments closed (segmentParts index point axis)

theorem ends_listed {segment : ProfileSegment ℚ} (sound : segment.Sound) {index : Nat}
    (at_ : segments[index]? = some segment) {name : String}
    (is : name ∈ if (segmentAfter segments closed index).any segment.meets then ["start"] else ["start", "end"]) :
    ∃ point : SegmentPoint, point.names = [name] ∧ ListedPoint segments closed index point := by
  obtain ⟨_, _, _, start⟩ := move_start sound .x 0
  obtain ⟨_, _, _, end_⟩ := move_end sound .x 0
  have starts : ListedPoint segments closed index .start := by
    refine ⟨?_, fun is => by cases is⟩
    rw [pointAt, at_, Option.bind_some, start.was, Option.isSome_some]
  split at is
  case isTrue shared =>
    obtain rfl := List.mem_singleton.mp is
    exact ⟨.start, rfl, starts⟩
  case isFalse own =>
    rw [segmentAfter_any at_] at own
    simp only [List.mem_cons, List.not_mem_nil, or_false] at is
    rcases is with rfl | rfl
    · exact ⟨.start, rfl, starts⟩
    · refine ⟨.end_, rfl, ?_, fun _ => own⟩
      rw [pointAt, at_, Option.bind_some, end_.was, Option.isSome_some]

theorem inner_listed {segment : ProfileSegment ℚ} {index : Nat} (at_ : segments[index]? = some segment)
    {names : List String} (is : names ∈ segment.innerPoints) :
    ∃ point : SegmentPoint, point.names = names ∧ ListedPoint segments closed index point := by
  cases segment with
  | line startMm endMm => cases is
  | cubicBezier startMm control1Mm control2Mm endMm => cases is
  | circularArc startMm endMm centerMm clockwise =>
    obtain rfl := List.mem_singleton.mp is
    refine ⟨.center, rfl, ?_, fun is => by cases is⟩
    rw [pointAt, at_, Option.bind_some]
    rfl
  | spline pointsMm =>
    obtain ⟨place, there, rfl⟩ := List.mem_map.mp is
    rw [List.mem_range'_1] at there
    refine ⟨.inner place, rfl, ?_, fun is => by cases is⟩
    have inside : 0 < place ∧ place + 1 < pointsMm.length := by omega
    rw [pointAt, at_, Option.bind_some, ProfileSegment.point, if_pos inside,
      List.getElem?_eq_getElem (by omega), Option.isSome_some]

theorem listed_profile (formed : (FeatureKind.profile segments closed).WellFormed)
    (listed : descriptor ∈ (FeatureKind.profile segments closed).parameterDescriptors) :
    ListedProfile segments closed descriptor.path.segments := by
  rw [FeatureKind.parameterDescriptors, List.mem_append] at listed
  rcases listed with drawn | listed
  · split at drawn
    case isFalse => cases drawn
    case isTrue rectangle =>
      obtain ⟨axis, size, is, rfl⟩ := mem_bounds.mp drawn
      refine .bounds ?_ is
      rw [FeatureKind.rectangle, Option.isSome_filter]
      exact rectangle
  · obtain ⟨⟨segment, index⟩, entry, listed⟩ := List.mem_flatMap.mp listed
    have at_ : segments[index]? = some segment := List.mem_zipIdx_iff_getElem?.mp entry
    have sound : segment.Sound := by
      rintro pointsMm rfl
      exact formed pointsMm (List.mem_of_getElem? at_)
    rw [segmentDescriptors, List.mem_append] at listed
    rcases listed with listed | listed
    · obtain ⟨name, is, listed⟩ := List.mem_flatMap.mp listed
      obtain ⟨axis, rfl⟩ := mem_pointDescriptors.mp listed
      obtain ⟨point, names, listed⟩ := ends_listed sound at_ is
      have place : segmentParts index point axis = ["segments", toString index, name] ++ [axis.name] := by
        rw [segmentParts, names]
        rfl
      exact place ▸ .point listed axis
    · obtain ⟨names, is, listed⟩ := List.mem_flatMap.mp listed
      obtain ⟨axis, rfl⟩ := mem_pointDescriptors.mp listed
      obtain ⟨point, rfl, listed⟩ := inner_listed at_ is
      exact .point listed axis

variable {E : Type} {validateFeatureKind : FeatureKind ℚ → ℚ → Except E Unit} {featureId : FeatureId}
  {valueType : ParameterValueType} {dimension : Dimension ℚ} {toleranceMm : ℚ}

/-- A coordinate of a profile reads what its point has. -/
theorem value_point (segments : List (ProfileSegment ℚ)) (closed : Bool) (index : Nat) (point : SegmentPoint)
    (axis : Axis) : featureKindParameterValue (.profile segments closed) (segmentParts index point axis) =
      (pointAt segments index point).map fun place => place.get axis := by
  rw [← segmentParameterValue_parts]
  cases point with
  | _ => rfl

theorem set_point (index : Nat) (point : SegmentPoint) (axis : Axis) :
    setFeatureKindParameter validateFeatureKind (.profile segments closed)
      ⟨featureId, ⟨segmentParts index point axis⟩, valueType⟩ dimension toleranceMm =
      .ok ((setSegmentParameter segments closed (segmentParts index point axis) dimension.millimetres).map
        fun segments => .profile segments closed) := by
  cases point with
  | _ => rfl

theorem segmentParts_injective {index other : Nat} {point its : SegmentPoint} {axis along : Axis}
    (same : segmentParts index point axis = segmentParts other its along) :
    index = other ∧ point = its ∧ axis.name = along.name := by
  have paths := congrArg segmentPath same
  rw [segmentPath_parts, segmentPath_parts] at paths
  simpa using paths

theorem readsBack_segment (formed : (FeatureKind.profile segments closed).WellFormed) {index : Nat}
    {point : SegmentPoint} (listed : ListedPoint segments closed index point) (axis : Axis) :
    ReadsBack validateFeatureKind (.profile segments closed)
      ⟨featureId, ⟨segmentParts index point axis⟩, valueType⟩ dimension toleranceMm := by
  have sound (segment : ProfileSegment ℚ) (there : segment ∈ segments) : segment.Sound := by
    rintro pointsMm rfl
    exact formed pointsMm there
  obtain ⟨after, done, set_⟩ := set_listed sound listed axis dimension.millimetres
  obtain ⟨place, before, moved⟩ := set_.moved
  have only (made : FeatureKind ℚ) (again : setFeatureKindParameter validateFeatureKind (.profile segments closed)
      ⟨featureId, ⟨segmentParts index point axis⟩, valueType⟩ dimension toleranceMm = .ok (some made)) :
      made = .profile after closed := by
    rw [set_point, done] at again
    exact (Option.some.inj (Except.ok.inj again)).symm
  refine ⟨⟨place.get axis, ?_⟩, fun made again => ?_, fun made again other there apart => ?_,
    fun made again => ?_⟩
  · rw [value_point, before, Option.map_some]
  · rw [only made again, value_point, moved, Option.map_some, Vec2.get_put]
  · rw [only made again]
    have kind := listed_profile formed there
    generalize other.path.segments = path at apart kind
    cases kind with
    | bounds drawn is => exact absurd (.bounds (by simp [segmentParts]) _) apart
    | @point second its listed along =>
      rw [value_point, value_point]
      by_cases same : second = index ∧ its = point
      · obtain ⟨rfl, rfl⟩ := same
        have differs : along ≠ axis := by
          rintro rfl
          exact apart (.itself _)
        rw [before, moved, Option.map_some, Option.map_some, Vec2.get_put_of_ne differs]
      · rw [set_.others second its listed same]
  · rw [only made again]
    refine ⟨set_.vertices, fun around => ⟨around.1, fun second inside => ?_⟩⟩
    rw [set_.length] at inside
    exact set_.vertices second (around.2 second inside)

/-- **The width and the height of a rectangle of a profile are read back.** -/
theorem readsBack_rectangle (formed : (FeatureKind.profile segments closed).WellFormed)
    (drawn : (FeatureKind.profile segments closed).rectangle.isSome) {size : String} {axis : Axis}
    (is : sizeAxis size = some axis) :
    ReadsBack validateFeatureKind (.profile segments closed) ⟨featureId, ⟨["bounds", size]⟩, valueType⟩
      dimension toleranceMm := by
  obtain ⟨pointsMm, rectangle⟩ := Option.isSome_iff_exists.mp drawn
  obtain ⟨same, straight⟩ := rectangle_eq_some.mp rectangle
  obtain ⟨a, b, c, d, rfl, upright⟩ := isAxisAlignedRectangle_iff.mp straight
  have least : 0 < profileEpsilonMm := by norm_num [profileEpsilonMm]
  have wide : a.get axis < c.get axis := by
    cases axis with
    | x => exact upright.wide.trans_eq upright.right
    | y => exact upright.tall.trans_eq upright.high.symm
  have corners : withSize a c axis dimension.millimetres a = a ∧
      withSize a c axis dimension.millimetres c = c.put (a.get axis + dimension.millimetres) axis :=
    ⟨withSize_near rfl wide _, withSize_far rfl _⟩
  refine ⟨⟨_, same ▸ value_bounds upright is⟩, fun after done => ?_, fun after done other there apart => ?_,
    fun after done => ?_⟩
  all_goals
    rw [same] at done
    obtain ⟨more, rfl⟩ := set_bounds upright is done
    have resized := upright.resized axis (least.trans more)
  · refine (value_bounds resized is).trans ?_
    rw [corners.1, corners.2, Vec2.get_put, add_sub_cancel_left]
  · have kind := listed_profile formed there
    generalize other.path.segments = path at apart kind
    cases kind with
    | @bounds _ along other itsAxis =>
      have differs : along ≠ axis := by
        rintro rfl
        refine apart ?_
        rw [sizeAxis_injective itsAxis is]
        exact .itself _
      rw [same, value_bounds upright itsAxis]
      refine (value_bounds resized itsAxis).trans ?_
      rw [corners.1, corners.2, Vec2.get_put_of_ne differs]
    | @point second its listed along =>
      obtain ⟨rfl, rfl⟩ := (FeatureKind.profile.injEq ..).mp same
      obtain ⟨rfl, inside⟩ := listed_polygon listed
      obtain ⟨place, at_⟩ : ∃ place, [a, b, c, d][second]? = some place :=
        ⟨_, List.getElem?_eq_getElem inside⟩
      have before := value_point (polygonSegments [a, b, c, d]) true second .start along
      have now := value_point (polygonSegments ([a, b, c, d].map (withSize a c axis dimension.millimetres))) true
        second .start along
      rw [pointAt_polygonSegments, at_, Option.map_some] at before
      rw [pointAt_polygonSegments, List.getElem?_map, at_, Option.map_some, Option.map_some] at now
      refine now.trans (Eq.trans (congrArg some ?_) before.symm)
      refine get_withFarSide fun far => apart (.side ⟨axis, c, is, ?_, ?_, ?_⟩)
      · rw [FeatureKind.farCorner, rectangle]
      · rw [far.1]
        rfl
      · rw [before, far.1, far.2]
  · refine ⟨fun index shares => ?_, fun _ => polygon_closed _⟩
    rw [same] at shares
    have inside := lt_of_sharesVertex shares
    rw [length_polygonSegments] at inside
    exact polygon_shares (by rwa [List.length_map])

end Profiles

end Ketchup.Product
