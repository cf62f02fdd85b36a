/-
**The parameters of a profile are read back.**

Setting a coordinate moves one point, and with the start or the end of a segment the end or the start that
meets it (`PointsMoved`). A vertex that two segments share is listed once, as a start, so each listed coordinate
is read back, the others stay, and segments that met still meet (`readsBack_segment`). A rectangle is
rebuilt from its corners when its width or height is set (`readsBack_rectangle`).
-/

import Ketchup.Product.SketchParameters

namespace Ketchup.Product

open Ketchup.Graph

/-! ### One segment -/

section Segments

variable {segment : ProfileSegment ℚ}

/-- A spline has two ends. -/
def ProfileSegment.Sound (segment : ProfileSegment ℚ) : Prop :=
  ∀ pointsMm, segment = .spline pointsMm → 2 ≤ pointsMm.length

/-- A segment with one of its points moved along an axis. -/
structure PointMoved (before after : ProfileSegment ℚ) (point : SegmentPoint) (place : Vec2 ℚ) (axis : Axis)
    (value : ℚ) : Prop where
  was : before.point point = some place
  now : after.point point = some (place.put value axis)
  others : ∀ other ≠ point, after.point other = before.point other
  sound : after.Sound

/-- Where a spline of a number of points has a point. -/
def splineSlot (length : Nat) : SegmentPoint → Option Nat
  | .start => some 0
  | .end_ => some (length - 1)
  | .center => none
  | .inner index => if 0 < index ∧ index + 1 < length then some index else none

theorem splineSlot_injective {length : Nat} (sound : 2 ≤ length) {first second : SegmentPoint} {index : Nat}
    (one : splineSlot length first = some index) (two : splineSlot length second = some index) :
    first = second := by
  cases first <;> cases second <;> simp_all [splineSlot] <;> omega

theorem spline_point (pointsMm : List (Vec2 ℚ)) (point : SegmentPoint) :
    (ProfileSegment.spline pointsMm).point point =
      (splineSlot pointsMm.length point).bind fun index => pointsMm[index]? := by
  cases point with
  | start => exact List.head?_eq_getElem?
  | end_ => exact List.getLast?_eq_getElem?
  | center => rfl
  | inner index =>
    simp only [ProfileSegment.point, splineSlot]
    by_cases inside : 0 < index ∧ index + 1 < pointsMm.length
    · rw [if_pos inside, if_pos inside, Option.bind_some]
    · rw [if_neg inside, if_neg inside, Option.bind_none]

/-- A spline with a point set is one with the point moved. -/
theorem PointMoved.spline {pointsMm : List (Vec2 ℚ)} (sound : 2 ≤ pointsMm.length) {index : Nat}
    (inside : index < pointsMm.length) {point : SegmentPoint}
    (slot : splineSlot pointsMm.length point = some index) (axis : Axis) (value : ℚ) :
    PointMoved (.spline pointsMm) (.spline (pointsMm.set index (pointsMm[index].put value axis))) point
      pointsMm[index] axis value where
  was := by rw [spline_point, slot, Option.bind_some, List.getElem?_eq_getElem inside]
  now := by rw [spline_point, List.length_set, slot, Option.bind_some, List.getElem?_set_self inside]
  others other apart := by
    rw [spline_point, spline_point, List.length_set]
    cases its : splineSlot pointsMm.length other with
    | none => rfl
    | some second =>
      have differs : index ≠ second := by
        rintro rfl
        exact apart (splineSlot_injective sound its slot)
      rw [Option.bind_some, Option.bind_some, List.getElem?_set_ne differs]
  sound := by
    rintro _ ⟨⟩
    rwa [List.length_set]

theorem changeAt_put {points : List (Vec2 ℚ)} {index : Nat} (inside : index < points.length) (axis : Axis)
    (value : ℚ) : changeAt points index (setPointCoordinate axis.name value) =
      some (points.set index (points[index].put value axis)) :=
  changeAt_eq_some.mpr ⟨_, _, List.getElem?_eq_getElem inside, setPointCoordinate_name value _ axis, rfl⟩

theorem move_start (sound : segment.Sound) (axis : Axis) (value : ℚ) :
    ∃ place after, segment.changeStart (setPointCoordinate axis.name value) = some after ∧
      PointMoved segment after .start place axis value := by
  cases segment with
  | spline pointsMm =>
    have ends := sound pointsMm rfl
    have inside : 0 < pointsMm.length := by omega
    exact ⟨_, _, congrArg (Option.map _) (changeAt_put inside axis value), .spline ends inside rfl axis value⟩
  | _ =>
    refine ⟨_, _, congrArg (Option.map _) (setPointCoordinate_name value _ axis), rfl, rfl,
      fun other apart => ?_, fun pointsMm is => by cases is⟩
    cases other with
    | start => exact absurd rfl apart
    | _ => rfl

theorem move_end (sound : segment.Sound) (axis : Axis) (value : ℚ) :
    ∃ place after, segment.changeEnd (setPointCoordinate axis.name value) = some after ∧
      PointMoved segment after .end_ place axis value := by
  cases segment with
  | spline pointsMm =>
    have ends := sound pointsMm rfl
    have inside : pointsMm.length - 1 < pointsMm.length := by omega
    exact ⟨_, _, congrArg (Option.map _) (changeAt_put inside axis value), .spline ends inside rfl axis value⟩
  | _ =>
    refine ⟨_, _, congrArg (Option.map _) (setPointCoordinate_name value _ axis), rfl, rfl,
      fun other apart => ?_, fun pointsMm is => by cases is⟩
    cases other with
    | end_ => exact absurd rfl apart
    | _ => rfl

/-- The points between the ends that a segment has. -/
def ProfileSegment.HasInner (segment : ProfileSegment ℚ) (point : SegmentPoint) : Prop :=
  point ≠ .start ∧ point ≠ .end_ ∧ (segment.point point).isSome

theorem move_inner (sound : segment.Sound) {point : SegmentPoint} (has : segment.HasInner point)
    (axis : Axis) (value : ℚ) :
    ∃ place after, segment.changeInner (setPointCoordinate axis.name value) point = some after ∧
      PointMoved segment after point place axis value := by
  obtain ⟨noStart, noEnd, has⟩ := has
  cases point with
  | start => exact absurd rfl noStart
  | end_ => exact absurd rfl noEnd
  | center =>
    cases segment with
    | circularArc startMm endMm centerMm clockwise =>
      refine ⟨_, _, congrArg (Option.map _) (setPointCoordinate_name value _ axis), rfl, rfl,
        fun other apart => ?_, fun pointsMm is => by cases is⟩
      cases other with
      | center => exact absurd rfl apart
      | _ => rfl
    | _ => cases has
  | inner index =>
    cases segment with
    | spline pointsMm =>
      have inside : 0 < index ∧ index + 1 < pointsMm.length := by
        by_contra outside
        rw [ProfileSegment.point, if_neg outside] at has
        cases has
      have less : index < pointsMm.length := by omega
      have changed := changeAt_put less axis value
      have slot : splineSlot pointsMm.length (.inner index) = some index := if_pos inside
      refine ⟨_, .spline (pointsMm.set index (pointsMm[index].put value axis)), ?_,
        .spline (sound pointsMm rfl) less slot axis value⟩
      rw [ProfileSegment.changeInner, if_pos inside, changed, Option.map_some]
    | _ => cases has

end Segments

/-! ### The segments before and after one -/

section Around

variable {segments : List (ProfileSegment ℚ)} {closed : Bool} {index other : Nat}

theorem nextIndex_lt (inside : index < segments.length)
    (is : nextIndex segments.length closed index = some other) : other < segments.length := by
  unfold nextIndex at is
  split at is
  case isFalse => cases is
  case isTrue =>
    obtain rfl := Option.some.inj is
    exact Nat.mod_lt _ (by omega)

/-- One segment is before another that is after it. -/
theorem previousIndex_iff {count : Nat} (one : index < count) (two : other < count) :
    previousIndex count closed index = some other ↔ nextIndex count closed other = some index := by
  have wraps : (index + count - 1) % count = if index = 0 then count - 1 else index - 1 := by
    by_cases first : index = 0
    · rw [if_pos first, first, Nat.zero_add, Nat.mod_eq_of_lt (by omega)]
    · rw [if_neg first, show index + count - 1 = index - 1 + count by omega, Nat.add_mod_right,
        Nat.mod_eq_of_lt (by omega)]
  have goesOn : (other + 1) % count = if other + 1 = count then 0 else other + 1 := by
    by_cases last : other + 1 = count
    · rw [if_pos last, last, Nat.mod_self]
    · rw [if_neg last, Nat.mod_eq_of_lt (by omega)]
  unfold previousIndex nextIndex
  rw [wraps, goesOn]
  cases closed with
  | true =>
    simp only [or_true, if_true, Option.some.injEq]
    split <;> split <;> omega
  | false =>
    simp only [Bool.false_eq_true, or_false]
    constructor
    · intro is
      split at is
      case isFalse => cases is
      case isTrue => grind
    · intro is
      split at is
      case isFalse => cases is
      case isTrue => grind

/-- The start, the end or another point of a segment of a profile. -/
def pointAt (segments : List (ProfileSegment ℚ)) (index : Nat) (point : SegmentPoint) : Option (Vec2 ℚ) :=
  (segments[index]?).bind fun segment => segment.point point

theorem meetsAt_iff : meetsAt segments index other = true ↔
    ∃ place, pointAt segments index .end_ = some place ∧ pointAt segments other .start = some place := by
  unfold meetsAt pointAt ProfileSegment.meets
  cases segments[index]? with
  | none => simp
  | some first =>
    cases segments[other]? with
    | none => simp
    | some second =>
      simp only [Option.bind_some, ProfileSegment.point]
      cases first.endMm with
      | none => simp
      | some one =>
        cases second.startMm with
        | none => simp
        | some two => simp [eq_comm]

/-- The end of a segment is the start of the one after it. -/
theorem sharesVertex_iff : (FeatureKind.profile segments closed).SharesVertex index ↔
    ∃ next, nextIndex segments.length closed index = some next ∧ meetsAt segments index next = true :=
  Iff.rfl

theorem segmentAfter_any {segment : ProfileSegment ℚ} (at_ : segments[index]? = some segment) :
    (segmentAfter segments closed index).any segment.meets = true ↔
      (FeatureKind.profile segments closed).SharesVertex index := by
  obtain ⟨inside, _⟩ := List.getElem?_eq_some_iff.mp at_
  rw [sharesVertex_iff]
  by_cases more : index + 1 < segments.length
  · have next : nextIndex segments.length closed index = some (index + 1) := by
      rw [nextIndex, if_pos (Or.inl more), Nat.mod_eq_of_lt more]
    have after : segmentAfter segments closed index = segments[index + 1]? := by
      rw [segmentAfter, List.getElem?_eq_getElem more]
      rfl
    rw [after, List.getElem?_eq_getElem more, next]
    simp [meetsAt, at_, more]
  · have last : index + 1 = segments.length := by omega
    have after : segmentAfter segments closed index = if closed then segments[0]? else none := by
      rw [segmentAfter, List.getElem?_eq_none (by omega)]
      cases closed <;> simp [last]
    rw [after, nextIndex]
    cases closed with
    | false => simp [more]
    | true =>
      have first : 0 < segments.length := by omega
      rw [if_pos rfl, if_pos (Or.inr rfl), last, Nat.mod_self]
      simp [meetsAt, at_, first]

end Around

/-! ### Moving points of a profile -/

/-- The segments with some of their points, all at one place, moved along an axis. -/
structure PointsMoved (before after : List (ProfileSegment ℚ)) (moves : Nat → SegmentPoint → Prop)
    (place : Vec2 ℚ) (axis : Axis) (value : ℚ) : Prop where
  length : after.length = before.length
  sound : ∀ segment ∈ after, segment.Sound
  moved : ∀ index point, moves index point →
    pointAt before index point = some place ∧ pointAt after index point = some (place.put value axis)
  kept : ∀ index point, ¬moves index point → pointAt after index point = pointAt before index point

section Moving

variable {segments after later : List (ProfileSegment ℚ)} {closed : Bool} {index : Nat} {point : SegmentPoint}
  {place : Vec2 ℚ} {axis : Axis} {value : ℚ}

/-- One point moved, by a change of its segment. -/
theorem PointsMoved.of_changeAt (sound : ∀ segment ∈ segments, segment.Sound) {segment changed : ProfileSegment ℚ}
    (at_ : segments[index]? = some segment) {change : ProfileSegment ℚ → Option (ProfileSegment ℚ)}
    (made : change segment = some changed) (one : PointMoved segment changed point place axis value) :
    ∃ after, changeAt segments index change = some after ∧
      PointsMoved segments after (fun other its => other = index ∧ its = point) place axis value := by
  have done := changeAt_eq_some.mpr ⟨segment, changed, at_, made, rfl⟩
  have here (other : Nat) := getElem?_changeAt done other
  refine ⟨_, done, length_changeAt done, fun other there => ?_, ?_, fun other its apart => ?_⟩
  · rcases List.mem_or_eq_of_mem_set there with before | rfl
    · exact sound other before
    · exact one.sound
  · rintro _ _ ⟨rfl, rfl⟩
    refine ⟨?_, ?_⟩
    · rw [pointAt, at_, Option.bind_some, one.was]
    · rw [pointAt, here, if_pos rfl, at_, Option.bind_some, made, Option.bind_some, one.now]
  · rw [pointAt, pointAt, here]
    by_cases same : other = index
    · rw [if_pos same, same, at_, Option.bind_some, made, Option.bind_some, Option.bind_some]
      exact one.others its fun alike => apart ⟨same, alike⟩
    · rw [if_neg same]

theorem PointsMoved.congr {moves same : Nat → SegmentPoint → Prop} (moved : PointsMoved segments after moves place axis value)
    (alike : ∀ index point, same index point ↔ moves index point) :
    PointsMoved segments after same place axis value where
  length := moved.length
  sound := moved.sound
  moved index point its := moved.moved index point ((alike index point).mp its)
  kept index point away := moved.kept index point fun its => away ((alike index point).mpr its)

/-- Points moved one after another. -/
theorem PointsMoved.trans {first second : Nat → SegmentPoint → Prop} (one : PointsMoved segments after first place axis value)
    (two : PointsMoved after later second place axis value)
    (apart : ∀ index point, first index point → ¬second index point) :
    PointsMoved segments later (fun index point => first index point ∨ second index point) place axis value where
  length := two.length.trans one.length
  sound := two.sound
  moved index point := by
    rintro (its | its)
    · exact ⟨(one.moved index point its).1,
        (two.kept index point (apart index point its)).trans (one.moved index point its).2⟩
    · have none_ : ¬first index point := fun both => apart index point both its
      exact ⟨(one.kept index point none_).symm.trans (two.moved index point its).1, (two.moved index point its).2⟩
  kept index point neither := by
    rw [not_or] at neither
    exact (two.kept index point neither.2).trans (one.kept index point neither.1)

/-- Where the two points of each shared vertex move together, the vertices stay shared. -/
theorem PointsMoved.sharesVertex {moves : Nat → SegmentPoint → Prop}
    (moved : PointsMoved segments after moves place axis value)
    (together : ∀ index next, nextIndex segments.length closed index = some next →
      meetsAt segments index next = true → (moves index .end_ ↔ moves next .start))
    (shares : (FeatureKind.profile segments closed).SharesVertex index) :
    (FeatureKind.profile after closed).SharesVertex index := by
  obtain ⟨next, follows, meets⟩ := sharesVertex_iff.mp shares
  refine sharesVertex_iff.mpr ⟨next, by rw [moved.length, follows], meetsAt_iff.mpr ?_⟩
  obtain ⟨vertex, ends, starts⟩ := meetsAt_iff.mp meets
  have both := together index next follows meets
  by_cases its : moves index .end_
  · exact ⟨_, (moved.moved _ _ its).2, (moved.moved _ _ (both.mp its)).2⟩
  · refine ⟨vertex, ?_, ?_⟩
    · rw [moved.kept _ _ its, ends]
    · rw [moved.kept _ _ fun start => its (both.mpr start), starts]

/-! ### Setting a listed point -/

/-- A point whose coordinates are parameters: the end of a segment is one where no start is shared. -/
structure ListedPoint (segments : List (ProfileSegment ℚ)) (closed : Bool) (index : Nat)
    (point : SegmentPoint) : Prop where
  there : (pointAt segments index point).isSome
  own : point = .end_ → ¬(FeatureKind.profile segments closed).SharesVertex index

/-- What setting a coordinate of a listed point does. -/
structure PointSet (segments after : List (ProfileSegment ℚ)) (closed : Bool) (index : Nat)
    (point : SegmentPoint) (axis : Axis) (value : ℚ) : Prop where
  length : after.length = segments.length
  moved : ∃ place, pointAt segments index point = some place ∧
    pointAt after index point = some (place.put value axis)
  others : ∀ other its, ListedPoint segments closed other its → ¬(other = index ∧ its = point) →
    pointAt after other its = pointAt segments other its
  vertices : ∀ index, (FeatureKind.profile segments closed).SharesVertex index →
    (FeatureKind.profile after closed).SharesVertex index

/-- Where no vertex that is shared moves, only the point itself does. -/
theorem PointSet.of_alone
    (moved : PointsMoved segments after (fun other its => other = index ∧ its = point) place axis value)
    (noStart : point ≠ .start) (own : point = .end_ → ¬(FeatureKind.profile segments closed).SharesVertex index) :
    PointSet segments after closed index point axis value where
  length := moved.length
  moved := ⟨place, moved.moved index point ⟨rfl, rfl⟩⟩
  others other its _ apart := moved.kept other its apart
  vertices _ shares := by
    refine moved.sharesVertex (fun first next follows meets => iff_of_false ?_ ?_) shares
    · rintro ⟨rfl, is⟩
      exact own is.symm (sharesVertex_iff.mpr ⟨next, follows, meets⟩)
    · exact fun is => noStart is.2.symm

/-- The end that starts with a start. -/
def SharedEnd (segments : List (ProfileSegment ℚ)) (closed : Bool) (index other : Nat) (point : SegmentPoint) :
    Prop :=
  point = .end_ ∧ nextIndex segments.length closed other = some index ∧ meetsAt segments other index = true

/-- A start that moves with the end that meets it. -/
theorem PointSet.of_start
    (moved : PointsMoved segments after (fun other its => (other = index ∧ its = .start) ∨
      SharedEnd segments closed index other its) place axis value) :
    PointSet segments after closed index .start axis value where
  length := moved.length
  moved := ⟨place, moved.moved index .start (.inl ⟨rfl, rfl⟩)⟩
  others other its listed apart := by
    refine moved.kept other its fun moves => ?_
    rcases moves with alike | ⟨is, follows, meets⟩
    · exact apart alike
    · exact listed.own is (sharesVertex_iff.mpr ⟨index, follows, meets⟩)
  vertices _ shares := by
    refine moved.sharesVertex (fun first next follows meets => ?_) shares
    constructor
    · rintro (⟨_, is⟩ | ⟨_, its, _⟩)
      · cases is
      · obtain rfl := Option.some.inj (follows.symm.trans its)
        exact .inl ⟨rfl, rfl⟩
    · rintro (⟨rfl, _⟩ | ⟨is, _⟩)
      · exact .inr ⟨rfl, follows, meets⟩
      · cases is

/-- A point as a path names it. -/
def SegmentPoint.names : SegmentPoint → List String
  | .start => ["start"]
  | .end_ => ["end"]
  | .center => ["center"]
  | .inner index => ["points", toString index]

/-- The path of a coordinate of a point. -/
def segmentParts (index : Nat) (point : SegmentPoint) (axis : Axis) : List String :=
  "segments" :: toString index :: (point.names ++ [axis.name])

@[simp] theorem segmentPath_parts (index : Nat) (point : SegmentPoint) (axis : Axis) :
    segmentPath (segmentParts index point axis) = some (index, point, axis.name) := by
  cases point with
  | _ => simp [segmentParts, SegmentPoint.names, segmentPath, SegmentPoint.parse]

theorem segmentParameterValue_parts (index : Nat) (point : SegmentPoint) (axis : Axis) :
    segmentParameterValue segments (segmentParts index point axis) =
      (pointAt segments index point).map fun place => place.get axis := by
  simp only [segmentParameterValue, segmentPath_parts, pointAt, Option.bind_eq_bind, Option.bind_some]
  cases segments[index]? with
  | none => rfl
  | some segment =>
    simp only [Option.bind_some, pointCoordinate_name]
    cases segment.point point <;> rfl

theorem sharedEnd_iff (inside : index < segments.length) {other : Nat} :
    SharedEnd segments closed index other point ↔ point = .end_ ∧
      ((previousIndex segments.length closed index).filter fun previous =>
        meetsAt segments previous index) = some other := by
  refine and_congr_right fun _ => ?_
  rw [Option.filter_eq_some_iff]
  refine and_congr_left fun meets => ?_
  obtain ⟨vertex, ends, _⟩ := meetsAt_iff.mp meets
  obtain ⟨segment, at_, _⟩ := Option.bind_eq_some_iff.mp ends
  exact (previousIndex_iff inside (List.getElem?_eq_some_iff.mp at_).1).symm

theorem set_start (sound : ∀ segment ∈ segments, segment.Sound) (inside : index < segments.length)
    (axis : Axis) (value : ℚ) :
    ∃ after, setSegmentParameter segments closed (segmentParts index .start axis) value = some after ∧
      PointSet segments after closed index .start axis value := by
  obtain ⟨place, changed, made, one⟩ := move_start (sound _ (List.getElem_mem inside)) axis value
  obtain ⟨moved, done, first⟩ := PointsMoved.of_changeAt sound (List.getElem?_eq_getElem inside) made one
  simp only [setSegmentParameter, segmentPath_parts, Option.bind_eq_bind, Option.bind_some,
    if_neg (not_le.mpr inside), done]
  cases shared : (previousIndex segments.length closed index).filter fun previous =>
      meetsAt segments previous index with
  | none =>
    refine ⟨moved, rfl, .of_start (first.congr fun other its => ?_)⟩
    rw [sharedEnd_iff inside, shared]
    simp
  | some previous =>
    have meets : meetsAt segments previous index = true := (Option.filter_eq_some_iff.mp shared).2
    obtain ⟨vertex, ends, starts⟩ := meetsAt_iff.mp meets
    obtain rfl : vertex = place := by
      have := (first.moved index .start ⟨rfl, rfl⟩).1
      exact Option.some.inj (starts.symm.trans this)
    -- the end that meets the start is still where it was, also where it is of the same segment
    have ends : pointAt moved previous .end_ = some vertex := by
      rw [first.kept previous .end_ fun both => SegmentPoint.noConfusion both.2, ends]
    obtain ⟨segment, at_, its⟩ := Option.bind_eq_some_iff.mp ends
    obtain ⟨second, changed, made, two⟩ := move_end (first.sound _ (List.mem_of_getElem? at_)) axis value
    obtain rfl : second = vertex := Option.some.inj (two.was.symm.trans its)
    obtain ⟨after, also_, last⟩ := PointsMoved.of_changeAt first.sound at_ made two
    refine ⟨after, ?_, .of_start ((first.trans last ?_).congr fun other its => ?_)⟩
    · rw [alsoAt, also_, Option.getD_some]
    · rintro _ _ ⟨_, rfl⟩ ⟨_, is⟩
      cases is
    · rw [sharedEnd_iff inside, shared, Option.some.injEq, and_comm (a := its = .end_),
        eq_comm (a := previous)]

theorem set_end (sound : ∀ segment ∈ segments, segment.Sound) (inside : index < segments.length)
    (own : ¬(FeatureKind.profile segments closed).SharesVertex index) (axis : Axis) (value : ℚ) :
    ∃ after, setSegmentParameter segments closed (segmentParts index .end_ axis) value = some after ∧
      PointSet segments after closed index .end_ axis value := by
  obtain ⟨place, changed, made, one⟩ := move_end (sound _ (List.getElem_mem inside)) axis value
  obtain ⟨after, done, first⟩ := PointsMoved.of_changeAt sound (List.getElem?_eq_getElem inside) made one
  have alone : ((nextIndex segments.length closed index).filter fun next =>
      meetsAt segments index next) = none := by
    refine Option.eq_none_iff_forall_not_mem.mpr fun next shared => own ?_
    obtain ⟨follows, meets⟩ := Option.filter_eq_some_iff.mp shared
    exact sharesVertex_iff.mpr ⟨next, follows, meets⟩
  refine ⟨after, ?_, .of_alone first (by simp) fun _ => own⟩
  simp only [setSegmentParameter, segmentPath_parts, Option.bind_eq_bind, Option.bind_some,
    if_neg (not_le.mpr inside), done, alone, alsoAt]

theorem set_inner (sound : ∀ segment ∈ segments, segment.Sound) (inside : index < segments.length)
    (has : segments[index].HasInner point) (axis : Axis) (value : ℚ) :
    ∃ after, setSegmentParameter segments closed (segmentParts index point axis) value = some after ∧
      PointSet segments after closed index point axis value := by
  obtain ⟨place, changed, made, one⟩ := move_inner (sound _ (List.getElem_mem inside)) has axis value
  let change (segment : ProfileSegment ℚ) := segment.changeInner (setPointCoordinate axis.name value) point
  have made : change segments[index] = some changed := made
  obtain ⟨after, done, first⟩ := PointsMoved.of_changeAt sound (List.getElem?_eq_getElem inside) made one
  refine ⟨after, ?_, .of_alone first has.1 fun is => absurd is has.2.1⟩
  simp only [setSegmentParameter, segmentPath_parts, Option.bind_eq_bind, Option.bind_some,
    if_neg (not_le.mpr inside)]
  cases point with
  | start => exact absurd rfl has.1
  | end_ => exact absurd rfl has.2.1
  | _ => exact done

/-- **A coordinate of a listed point can be set**, and moves that point and what meets it. -/
theorem set_listed (sound : ∀ segment ∈ segments, segment.Sound)
    (listed : ListedPoint segments closed index point) (axis : Axis) (value : ℚ) :
    ∃ after, setSegmentParameter segments closed (segmentParts index point axis) value = some after ∧
      PointSet segments after closed index point axis value := by
  obtain ⟨place, there⟩ := Option.isSome_iff_exists.mp listed.there
  obtain ⟨segment, at_, is⟩ := Option.bind_eq_some_iff.mp there
  obtain ⟨inside, rfl⟩ := List.getElem?_eq_some_iff.mp at_
  cases point with
  | start => exact set_start sound inside axis value
  | end_ => exact set_end sound inside (listed.own rfl) axis value
  | _ => exact set_inner sound inside ⟨by simp, by simp, Option.isSome_of_mem is⟩ axis value

end Moving

end Ketchup.Product
