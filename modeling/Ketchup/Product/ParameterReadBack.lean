/-
**What is set is read back.**

`ReadsBack` is what setting a parameter is for: the parameter can be read, reads the value once it is
set, and the parameters not coupled with it and the vertices of a profile are as before.
-/

import Ketchup.Product.Parameters
import Mathlib.Order.Monotone.Basic
import Mathlib.Tactic.Linarith
import Mathlib.Tactic.NormNum

namespace Ketchup.Product

open Ketchup.Graph

/-! ### Which parameters move together -/

/-- The corner of a rectangle that its width and its height move. -/
def FeatureKind.farCorner (kind : FeatureKind ℚ) : Option (Vec2 ℚ) :=
  match kind with
  | sketch spec => spec.rectangleBounds.map Prod.snd
  | profile _ _ =>
    match kind.rectangle with
    | some [_, _, corner, _] => some corner
    | _ => none
  | _ => none

/-- A coordinate on the side that a width or a height moves. -/
def FeatureKind.OnFarSide (kind : FeatureKind ℚ) (size : String) (path : List String) : Prop :=
  ∃ axis corner, sizeAxis size = some axis ∧ kind.farCorner = some corner ∧
    path.getLast? = some axis.name ∧ featureKindParameterValue kind path = some (corner.get axis)

/-- The parameters that setting one moves. -/
inductive FeatureKind.Coupled (kind : FeatureKind ℚ) : List String → List String → Prop
  | itself (path : List String) : Coupled kind path path
  | side {size : String} {path : List String} (far : kind.OnFarSide size path) :
      Coupled kind ["bounds", size] path
  /-- The rectangle of a profile or a sketch goes by all its coordinates. -/
  | bounds {path : List String} (coordinate : path.head? ≠ some "bounds") (size : String) :
      Coupled kind path ["bounds", size]

/-- Two segments of a profile share the vertex at the end of one. -/
def FeatureKind.SharesVertex (kind : FeatureKind ℚ) (index : Nat) : Prop :=
  match kind with
  | profile segments closed =>
    ∃ next, nextIndex segments.length closed index = some next ∧ meetsAt segments index next = true
  | _ => False

/-- A profile each of whose segments starts where the one before it ends, around to the first. -/
def FeatureKind.IsClosedProfile (kind : FeatureKind ℚ) : Prop :=
  match kind with
  | profile segments closed =>
    closed = true ∧ ∀ index < segments.length, (profile segments closed).SharesVertex index
  | _ => False

/-! ### What a kind that passed the checks is like -/

/-- Of the checks of a kind: the ids in a sketch are all different, and a spline has two ends. -/
def FeatureKind.WellFormed : FeatureKind ℚ → Prop
  | sketch spec =>
    (spec.entities.map SketchEntity.id).Nodup ∧ (spec.constraints.map SketchConstraint.id).Nodup
  | profile segments _ => ∀ pointsMm, .spline pointsMm ∈ segments → 2 ≤ pointsMm.length
  | _ => True

section Contract

variable {E : Type} (validateFeatureKind : FeatureKind ℚ → ℚ → Except E Unit)

structure ReadsBack (kind : FeatureKind ℚ) (target : FeatureParameterTarget) (dimension : Dimension ℚ)
    (toleranceMm : ℚ) : Prop where
  read : ∃ value, featureKindParameterValue kind target.path.segments = some value
  back : ∀ after, setFeatureKindParameter validateFeatureKind kind target dimension toleranceMm =
      .ok (some after) →
    featureKindParameterValue after target.path.segments = some dimension.millimetres
  others : ∀ after, setFeatureKindParameter validateFeatureKind kind target dimension toleranceMm =
      .ok (some after) →
    ∀ other ∈ kind.parameterDescriptors, ¬kind.Coupled target.path.segments other.path.segments →
      featureKindParameterValue after other.path.segments =
        featureKindParameterValue kind other.path.segments
  vertices : ∀ after, setFeatureKindParameter validateFeatureKind kind target dimension toleranceMm =
      .ok (some after) →
    (∀ index, kind.SharesVertex index → after.SharesVertex index) ∧
      (kind.IsClosedProfile → after.IsClosedProfile)

/-! ### Kinds whose parameters are each a place of its own -/

/-- Setting one parameter of a kind changes that one, and no vertex is involved. -/
structure Plain (kind : FeatureKind ℚ) (target : FeatureParameterTarget) (dimension : Dimension ℚ)
    (toleranceMm : ℚ) : Prop where
  read : ∃ value, featureKindParameterValue kind target.path.segments = some value
  set_ : ∀ after, setFeatureKindParameter validateFeatureKind kind target dimension toleranceMm =
      .ok (some after) →
    featureKindParameterValue after target.path.segments = some dimension.millimetres ∧
      ∀ other ∈ kind.parameterDescriptors, other.path.segments ≠ target.path.segments →
        featureKindParameterValue after other.path.segments =
          featureKindParameterValue kind other.path.segments

variable {validateFeatureKind} {kind : FeatureKind ℚ} {target : FeatureParameterTarget}
  {dimension : Dimension ℚ} {toleranceMm : ℚ}

theorem Plain.readsBack (plain : Plain validateFeatureKind kind target dimension toleranceMm)
    (noProfile : ∀ segments closed, kind ≠ .profile segments closed) :
    ReadsBack validateFeatureKind kind target dimension toleranceMm where
  read := plain.read
  back after done := (plain.set_ after done).1
  others after done other listed apart := by
    refine (plain.set_ after done).2 other listed fun same => apart ?_
    rw [same]
    exact .itself _
  vertices after done := by
    cases kind with
    | profile segments closed => exact absurd rfl (noProfile segments closed)
    | _ => exact ⟨fun _ shared => shared.elim, fun closed => closed.elim⟩

end Contract

section Flat

variable {E : Type} {validateFeatureKind : FeatureKind ℚ → ℚ → Except E Unit} {kind : FeatureKind ℚ}
  {descriptor : ParameterDescriptor} {featureId : FeatureId} {dimension : Dimension ℚ} {toleranceMm : ℚ}

theorem Plain.of_set {target : FeatureParameterTarget} {after : FeatureKind ℚ}
    (read : ∃ value, featureKindParameterValue kind target.path.segments = some value)
    (done : setFeatureKindParameter validateFeatureKind kind target dimension toleranceMm = .ok (some after))
    (back : featureKindParameterValue after target.path.segments = some dimension.millimetres)
    (others : ∀ other ∈ kind.parameterDescriptors, other.path.segments ≠ target.path.segments →
        featureKindParameterValue after other.path.segments =
          featureKindParameterValue kind other.path.segments) :
    Plain validateFeatureKind kind target dimension toleranceMm := by
  refine ⟨read, fun made again => ?_⟩
  have same : after = made := Option.some.inj (Except.ok.inj (done.symm.trans again))
  rw [← same]
  exact ⟨back, others⟩

theorem plain_single {segments : List String} {valueType : ParameterValueType}
    (only : kind.parameterDescriptors = [described valueType segments])
    (listed : descriptor ∈ kind.parameterDescriptors) {value : ℚ} {after : FeatureKind ℚ}
    (read : featureKindParameterValue kind segments = some value)
    (done : setFeatureKindParameter validateFeatureKind kind ⟨featureId, ⟨segments⟩, valueType⟩ dimension
      toleranceMm = .ok (some after))
    (back : featureKindParameterValue after segments = some dimension.millimetres) :
    Plain validateFeatureKind kind (descriptor.target featureId) dimension toleranceMm := by
  rw [only] at listed
  obtain rfl := List.mem_singleton.mp listed
  refine Plain.of_set ⟨value, read⟩ done back ?_
  intro other there apart
  rw [only] at there
  obtain rfl := List.mem_singleton.mp there
  exact absurd rfl apart

theorem plain_workplane {spec : WorkplaneSpec ℚ}
    (listed : descriptor ∈ (FeatureKind.workplane spec).parameterDescriptors) :
    Plain validateFeatureKind (.workplane spec) (descriptor.target featureId)
      dimension toleranceMm := by
  obtain ⟨support, frame⟩ := spec
  cases support with
  | free =>
    simp only [FeatureKind.parameterDescriptors, List.map_cons, List.map_nil, List.mem_cons,
      List.not_mem_nil, or_false] at listed
    rcases listed with rfl | rfl | rfl
    all_goals
      refine Plain.of_set ⟨_, rfl⟩ rfl rfl fun other there apart => ?_
      simp only [FeatureKind.parameterDescriptors, List.map_cons, List.map_nil, List.mem_cons,
        List.not_mem_nil, or_false] at there
      rcases there with rfl | rfl | rfl
      all_goals first | exact absurd rfl apart | rfl
  | offset base distance => exact plain_single rfl listed rfl rfl rfl
  | _ => cases listed

theorem plain_pad {spec : PadSpec ℚ}
    (listed : descriptor ∈ (FeatureKind.pad spec).parameterDescriptors) :
    Plain validateFeatureKind (.pad spec) (descriptor.target featureId)
      dimension toleranceMm := by
  obtain ⟨profile, direction, extent, operation⟩ := spec
  cases extent with
  | blind distance | symmetric distance => exact plain_single rfl listed rfl rfl rfl
  | bidirectional along opposite =>
    cases along with
    | blind distance =>
      cases opposite with
      | blind second =>
        simp only [FeatureKind.parameterDescriptors, FeatureExtent.descriptors,
          FeatureExtentEnd.descriptors, List.mem_cons, List.mem_append, List.not_mem_nil,
          or_false] at listed
        rcases listed with rfl | rfl
        all_goals
          refine Plain.of_set ⟨_, rfl⟩ rfl rfl fun other there apart => ?_
          simp only [FeatureKind.parameterDescriptors, FeatureExtent.descriptors,
            FeatureExtentEnd.descriptors, List.mem_cons, List.mem_append, List.not_mem_nil,
            or_false] at there
          rcases there with rfl | rfl
          all_goals first | exact absurd rfl apart | rfl
      | _ => exact plain_single rfl listed rfl rfl rfl
    | _ =>
      cases opposite with
      | blind second => exact plain_single rfl listed rfl rfl rfl
      | _ => cases listed
  | _ => cases listed

theorem plain_revolve {source : FeatureId} {axisStartMm axisEndMm : Vec2 ℚ} {angleDegrees : ℚ}
    (listed : descriptor ∈
      (FeatureKind.revolve source axisStartMm axisEndMm angleDegrees).parameterDescriptors) :
    Plain validateFeatureKind (.revolve source axisStartMm axisEndMm angleDegrees)
      (descriptor.target featureId) dimension toleranceMm := by
  simp only [FeatureKind.parameterDescriptors, pointDescriptors, List.map_cons, List.map_nil,
    List.mem_cons, List.not_mem_nil, or_false, List.cons_append, List.nil_append] at listed
  rcases listed with rfl | rfl | rfl | rfl | rfl
  all_goals
    refine Plain.of_set ⟨_, rfl⟩ rfl rfl fun other there apart => ?_
    simp only [FeatureKind.parameterDescriptors, pointDescriptors, List.map_cons, List.map_nil,
      List.mem_cons, List.not_mem_nil, or_false, List.cons_append, List.nil_append] at there
    rcases there with rfl | rfl | rfl | rfl | rfl
    all_goals first | exact absurd rfl apart | rfl

/-! Places of a list are read and set as its elements. -/

theorem value_section {sections : List (LoftSection ℚ)} {guide : Option FeatureId}
    {continuity : LoftContinuity} (index : Nat) :
    featureKindParameterValue (.loft sections guide continuity) ["sections", toString index, "elevation"] =
      sections[index]?.map LoftSection.elevationMm := by
  show ((parseIndex (toString index)).bind fun place => sections[place]?.bind fun one => some one.elevationMm) = _
  rw [parseIndex_toString, Option.bind_some]
  exact Option.map_eq_bind.symm

theorem value_station {target : FeatureId} {edges : List EdgeRef} {finish : EdgeFinishKind}
    {amount : Dimension ℚ} {stations : List (FilletRadiusStation ℚ)} {mode : ChamferMode ℚ}
    {sides : List ChamferEdgeSide} (index : Nat) :
    featureKindParameterValue (.edgeFinish target edges finish amount stations mode sides)
        ["fillet_radius_stations", toString index, "radius"] =
      stations[index]?.map fun station => station.radius.millimetres := by
  show ((parseIndex (toString index)).bind fun place =>
    stations[place]?.bind fun one => some one.radius.millimetres) = _
  rw [parseIndex_toString, Option.bind_some]
  exact Option.map_eq_bind.symm

theorem value_base (spec : SheetMetalSpec ℚ) (index : Nat) (axis : String) :
    featureKindParameterValue (.sheetMetal spec) ["base", toString index, axis] =
      spec.baseMm[index]?.bind fun point => pointCoordinate point axis := by
  show ((parseIndex (toString index)).bind fun place => spec.baseMm[place]?.bind fun one => pointCoordinate one axis) = _
  rw [parseIndex_toString, Option.bind_some]

theorem plain_loft {sections : List (LoftSection ℚ)} {guide : Option FeatureId}
    {continuity : LoftContinuity}
    (listed : descriptor ∈ (FeatureKind.loft sections guide continuity).parameterDescriptors) :
    Plain validateFeatureKind (.loft sections guide continuity)
      (descriptor.target featureId) dimension toleranceMm := by
  obtain ⟨index, inside, rfl⟩ := List.mem_map.mp listed
  rw [List.mem_range] at inside
  have done : setFeatureKindParameter validateFeatureKind (.loft sections guide continuity)
      ⟨featureId, ⟨["sections", toString index, "elevation"]⟩, .length⟩ dimension toleranceMm =
      .ok (some (.loft (sections.set index { sections[index] with elevationMm := dimension.millimetres })
        guide continuity)) := by
    have changed := changeAt_some inside fun section_ : LoftSection ℚ =>
      { section_ with elevationMm := dimension.millimetres }
    show Except.ok ((parseIndex (toString index)).bind fun place => (changeAt sections place _).bind _) = _
    rw [parseIndex_toString, Option.bind_some, changed]
    rfl
  refine Plain.of_set ⟨sections[index].elevationMm, ?_⟩ done ?_ ?_
  · exact (value_section index).trans (by rw [List.getElem?_eq_getElem inside, Option.map_some])
  · exact (value_section index).trans (by rw [List.getElem?_set_self inside, Option.map_some])
  · intro other there apart
    obtain ⟨second, _, rfl⟩ := List.mem_map.mp there
    have differs : index ≠ second := fun same => apart (by rw [same])
    exact (value_section second).trans
      ((congrArg _ (List.getElem?_set_ne differs)).trans (value_section second).symm)

theorem plain_edgeFinish {target : FeatureId} {edges : List EdgeRef} {finish : EdgeFinishKind}
    {amount : Dimension ℚ} {stations : List (FilletRadiusStation ℚ)} {mode : ChamferMode ℚ}
    {sides : List ChamferEdgeSide}
    (listed : descriptor ∈
      (FeatureKind.edgeFinish target edges finish amount stations mode sides).parameterDescriptors) :
    Plain validateFeatureKind (.edgeFinish target edges finish amount stations mode sides)
      (descriptor.target featureId) dimension toleranceMm := by
  rw [FeatureKind.parameterDescriptors, List.mem_append, List.mem_append, List.mem_singleton] at listed
  rcases listed with (rfl | listed) | listed
  · refine Plain.of_set ⟨_, rfl⟩ rfl rfl fun other there apart => ?_
    rw [FeatureKind.parameterDescriptors, List.mem_append, List.mem_append, List.mem_singleton] at there
    rcases there with (rfl | there) | there
    · exact absurd rfl apart
    · cases mode with
      | symmetric => cases there
      | twoDistance secondDistance | distanceAngle angleDegrees =>
        obtain rfl := List.mem_singleton.mp there
        rfl
    · obtain ⟨index, _, rfl⟩ := List.mem_map.mp there
      rfl
  · cases mode with
    | symmetric => cases listed
    | twoDistance secondDistance | distanceAngle angleDegrees =>
      obtain rfl := List.mem_singleton.mp listed
      refine Plain.of_set ⟨_, rfl⟩ rfl rfl fun other there apart => ?_
      rw [FeatureKind.parameterDescriptors, List.mem_append, List.mem_append, List.mem_singleton] at there
      rcases there with (rfl | there) | there
      · rfl
      · obtain rfl := List.mem_singleton.mp there
        exact absurd rfl apart
      · obtain ⟨index, _, rfl⟩ := List.mem_map.mp there
        rfl
  · obtain ⟨index, inside, rfl⟩ := List.mem_map.mp listed
    rw [List.mem_range] at inside
    have done : setFeatureKindParameter validateFeatureKind
        (.edgeFinish target edges finish amount stations mode sides)
        ⟨featureId, ⟨["fillet_radius_stations", toString index, "radius"]⟩, .length⟩ dimension toleranceMm =
        .ok (some (.edgeFinish target edges finish amount
          (stations.set index { stations[index] with radius := dimension }) mode sides)) := by
      have changed := changeAt_some inside fun station : FilletRadiusStation ℚ =>
        { station with radius := dimension }
      show Except.ok ((parseIndex (toString index)).bind fun place => (changeAt stations place _).bind _) = _
      rw [parseIndex_toString, Option.bind_some, changed]
      rfl
    refine Plain.of_set ⟨stations[index].radius.millimetres, ?_⟩ done ?_ ?_
    · exact (value_station index).trans (by rw [List.getElem?_eq_getElem inside, Option.map_some])
    · exact (value_station index).trans (by rw [List.getElem?_set_self inside, Option.map_some])
    · intro other there apart
      rw [FeatureKind.parameterDescriptors, List.mem_append, List.mem_append, List.mem_singleton] at there
      rcases there with (rfl | there) | there
      · rfl
      · cases mode with
        | symmetric => cases there
        | twoDistance secondDistance | distanceAngle angleDegrees =>
          obtain rfl := List.mem_singleton.mp there
          rfl
      · obtain ⟨second, _, rfl⟩ := List.mem_map.mp there
        have differs : index ≠ second := fun same => apart (by rw [same])
        exact (value_station second).trans
          ((congrArg _ (List.getElem?_set_ne differs)).trans (value_station second).symm)

/-- The parameters of a sheet metal part. -/
theorem mem_sheetMetal {spec : SheetMetalSpec ℚ} :
    descriptor ∈ (FeatureKind.sheetMetal spec).parameterDescriptors ↔
      descriptor = described .length ["thickness"] ∨ descriptor = described .scalar ["k_factor"] ∨
      (∃ index < spec.baseMm.length, ∃ axis : Axis,
        descriptor = described .length ["base", toString index, axis.name]) ∨
      ∃ index < spec.bends.length,
        descriptor = described .length ["bends", toString index, "length"] ∨
        descriptor = described .angle ["bends", toString index, "angle"] ∨
        descriptor = described .length ["bends", toString index, "inner_radius"] := by
  simp only [FeatureKind.parameterDescriptors, List.cons_append, List.nil_append, List.mem_cons,
    List.mem_append, List.mem_flatMap, List.mem_range, mem_pointDescriptors, List.not_mem_nil, or_false]

/-- A number of a bend by its name. -/
def SheetMetalBend.field (bend : SheetMetalBend ℚ) : String → Option ℚ
  | "length" => some bend.length.millimetres
  | "angle" => some bend.angleDegrees
  | "inner_radius" => some bend.innerRadius.millimetres
  | _ => none

theorem value_bend (spec : SheetMetalSpec ℚ) (index : Nat) {field : String}
    (known : field = "length" ∨ field = "angle" ∨ field = "inner_radius") :
    featureKindParameterValue (.sheetMetal spec) ["bends", toString index, field] =
      spec.bends[index]?.bind fun bend => bend.field field := by
  rcases known with rfl | rfl | rfl
  all_goals
    show ((parseIndex (toString index)).bind fun place => spec.bends[place]?.bind _) = _
    rw [parseIndex_toString, Option.bind_some]
    rfl

theorem plain_bend {spec : SheetMetalSpec ℚ} {index : Nat} (inside : index < spec.bends.length)
    {field : String} {valueType : ParameterValueType}
    (known : field = "length" ∨ field = "angle" ∨ field = "inner_radius") (bend : SheetMetalBend ℚ)
    (done : setFeatureKindParameter validateFeatureKind (.sheetMetal spec)
        ⟨featureId, ⟨["bends", toString index, field]⟩, valueType⟩ dimension toleranceMm =
        .ok (some (.sheetMetal { spec with bends := spec.bends.set index bend })))
    (back : bend.field field = some dimension.millimetres)
    (kept : ∀ other ≠ field, bend.field other = spec.bends[index].field other) :
    Plain validateFeatureKind (.sheetMetal spec) ⟨featureId, ⟨["bends", toString index, field]⟩, valueType⟩
      dimension toleranceMm := by
  have bends (second : Nat) (other : String)
      (known : other = "length" ∨ other = "angle" ∨ other = "inner_radius")
      (apart : ["bends", toString second, other] ≠ ["bends", toString index, field]) :
      featureKindParameterValue (.sheetMetal { spec with bends := spec.bends.set index bend })
        ["bends", toString second, other] =
      featureKindParameterValue (.sheetMetal spec) ["bends", toString second, other] := by
    rw [value_bend _ _ known, value_bend _ _ known]
    by_cases same : second = index
    · have differs : other ≠ field := fun alike => apart (by rw [same, alike])
      rw [same, List.getElem?_set_self inside, List.getElem?_eq_getElem inside, Option.bind_some,
        Option.bind_some, kept other differs]
    · rw [List.getElem?_set_ne (Ne.symm same)]
  refine Plain.of_set ?_ done ?_ fun other there apart => ?_
  · rw [value_bend _ _ known, List.getElem?_eq_getElem inside, Option.bind_some]
    rcases known with rfl | rfl | rfl
    all_goals exact ⟨_, rfl⟩
  · rw [value_bend _ _ known, List.getElem?_set_self inside, Option.bind_some, back]
  · rcases mem_sheetMetal.mp there with rfl | rfl | ⟨_, _, _, rfl⟩ | ⟨second, _, rfl | rfl | rfl⟩
    · rfl
    · rfl
    · rfl
    · exact bends second "length" (.inl rfl) apart
    · exact bends second "angle" (.inr (.inl rfl)) apart
    · exact bends second "inner_radius" (.inr (.inr rfl)) apart

theorem plain_sheetMetal {spec : SheetMetalSpec ℚ}
    (listed : descriptor ∈ (FeatureKind.sheetMetal spec).parameterDescriptors) :
    Plain validateFeatureKind (.sheetMetal spec)
      (descriptor.target featureId) dimension toleranceMm := by
  rcases mem_sheetMetal.mp listed with rfl | rfl | ⟨index, inside, axis, rfl⟩ |
    ⟨index, inside, rfl | rfl | rfl⟩
  · refine Plain.of_set ⟨_, rfl⟩ rfl rfl fun other there apart => ?_
    rcases mem_sheetMetal.mp there with rfl | rfl | ⟨_, _, _, rfl⟩ | ⟨_, _, rfl | rfl | rfl⟩
    · exact absurd rfl apart
    all_goals rfl
  · refine Plain.of_set ⟨_, rfl⟩ rfl rfl fun other there apart => ?_
    rcases mem_sheetMetal.mp there with rfl | rfl | ⟨_, _, _, rfl⟩ | ⟨_, _, rfl | rfl | rfl⟩
    · rfl
    · exact absurd rfl apart
    all_goals rfl
  · have done : setFeatureKindParameter validateFeatureKind (.sheetMetal spec)
        ⟨featureId, ⟨["base", toString index, axis.name]⟩, .length⟩ dimension toleranceMm =
        .ok (some (.sheetMetal { spec with
          baseMm := spec.baseMm.set index (spec.baseMm[index].put dimension.millimetres axis) })) := by
      have changed := changeAt_eq_some.mpr
        ⟨_, _, List.getElem?_eq_getElem inside, setPointCoordinate_name dimension.millimetres _ axis, rfl⟩
      show Except.ok ((parseIndex (toString index)).bind fun place => (changeAt spec.baseMm place _).bind _) = _
      rw [parseIndex_toString, Option.bind_some, changed]
      rfl
    refine Plain.of_set ⟨spec.baseMm[index].get axis, ?_⟩ done ?_ fun other there apart => ?_
    · refine (value_base _ index axis.name).trans ?_
      rw [List.getElem?_eq_getElem inside, Option.bind_some, pointCoordinate_name]
    · refine (value_base _ index axis.name).trans ?_
      rw [List.getElem?_set_self inside, Option.bind_some, pointCoordinate_name, Vec2.get_put]
    rcases mem_sheetMetal.mp there with rfl | rfl | ⟨second, _, axis', rfl⟩ | ⟨_, _, rfl | rfl | rfl⟩
    · rfl
    · rfl
    · refine (value_base _ second axis'.name).trans (Eq.trans ?_ (value_base _ second axis'.name).symm)
      by_cases same : second = index
      · subst same
        have differs : axis' ≠ axis := fun same => apart (by rw [same])
        rw [List.getElem?_set_self inside, List.getElem?_eq_getElem inside, Option.bind_some, Option.bind_some,
          pointCoordinate_name, pointCoordinate_name, Vec2.get_put_of_ne differs]
      · rw [List.getElem?_set_ne (Ne.symm same)]
    all_goals rfl
  · have done := changeAt_some inside fun bend : SheetMetalBend ℚ =>
      { bend with length := dimension }
    refine plain_bend inside (.inl rfl) { spec.bends[index] with length := dimension } ?_ rfl ?_
    · show Except.ok ((parseIndex (toString index)).bind fun place => (changeAt spec.bends place _).bind _) = _
      rw [parseIndex_toString, Option.bind_some, done]
      rfl
    intro other differs
    unfold SheetMetalBend.field
    split
    · exact absurd rfl differs
    all_goals rfl
  · have done := changeAt_some inside fun bend : SheetMetalBend ℚ =>
      { bend with angleDegrees := dimension.millimetres }
    refine plain_bend inside (.inr (.inl rfl)) { spec.bends[index] with angleDegrees := dimension.millimetres } ?_ rfl ?_
    · show Except.ok ((parseIndex (toString index)).bind fun place => (changeAt spec.bends place _).bind _) = _
      rw [parseIndex_toString, Option.bind_some, done]
      rfl
    intro other differs
    unfold SheetMetalBend.field
    split
    · rfl
    · exact absurd rfl differs
    all_goals rfl
  · have done := changeAt_some inside fun bend : SheetMetalBend ℚ =>
      { bend with innerRadius := dimension }
    refine plain_bend inside (.inr (.inr rfl)) { spec.bends[index] with innerRadius := dimension } ?_ rfl ?_
    · show Except.ok ((parseIndex (toString index)).bind fun place => (changeAt spec.bends place _).bind _) = _
      rw [parseIndex_toString, Option.bind_some, done]
      rfl
    intro other differs
    unfold SheetMetalBend.field
    split
    · rfl
    · rfl
    · exact absurd rfl differs
    · rfl

end Flat

end Ketchup.Product
