/-
**The parameters of a sketch are read back.**

An entity or a constraint is found by its id, which is its own, so one coordinate set is read back and the
others stay (`readsBack_sketch`). The width and the height of a rectangle are measured again after its far
side has moved: they are read back unless they are so small that what is drawn is no rectangle any more.
-/

import Ketchup.Product.Rectangles
import Mathlib.Data.List.Nodup

namespace Ketchup.Product

open Ketchup.Graph

/-! ### Entities and constraints by themselves -/

section Entities

variable {entity changed : SketchEntity ℚ} {point : String}

theorem SketchEntity.id_changePoint {change : Vec2 ℚ → Option (Vec2 ℚ)}
    (done : entity.changePoint change point = some changed) : changed.id = entity.id := by
  unfold SketchEntity.changePoint at done
  split at done
  case h_11 => cases done
  all_goals
    obtain ⟨moved, _, rfl⟩ := Option.map_eq_some_iff.mp done
    rfl

theorem SketchEntity.id_withRadius {value : ℚ} (done : entity.withRadius value = some changed) :
    changed.id = entity.id := by
  cases entity with
  | circle id centerMm radiusMm =>
    obtain rfl := Option.some.inj done
    rfl
  | _ => cases done

/-- A named point can be moved along an axis, and the rest of the entity stays. -/
theorem SketchEntity.move_point (named : point ∈ entity.pointNames) (axis : Axis) (value : ℚ) :
    ∃ before changed, entity.point point = some before ∧
      entity.changePoint (setPointCoordinate axis.name value) point = some changed ∧
      changed.point point = some (before.put value axis) ∧
      (∀ other ∈ entity.pointNames, other ≠ point → changed.point other = entity.point other) ∧
      changed.radius = entity.radius := by
  cases entity with
  | line id startMm endMm =>
    simp only [SketchEntity.pointNames, List.mem_cons, List.not_mem_nil, or_false] at named ⊢
    rcases named with rfl | rfl
    all_goals
      refine ⟨_, _, rfl, congrArg (Option.map _) (setPointCoordinate_name value _ axis), rfl, ?_, rfl⟩
      rintro other (rfl | rfl) differs
      all_goals first | exact absurd rfl differs | rfl
  | arc id startMm endMm centerMm clockwise =>
    simp only [SketchEntity.pointNames, List.mem_cons, List.not_mem_nil, or_false] at named ⊢
    rcases named with rfl | rfl | rfl
    all_goals
      refine ⟨_, _, rfl, congrArg (Option.map _) (setPointCoordinate_name value _ axis), rfl, ?_, rfl⟩
      rintro other (rfl | rfl | rfl) differs
      all_goals first | exact absurd rfl differs | rfl
  | circle id centerMm radiusMm =>
    obtain rfl := List.mem_singleton.mp named
    refine ⟨_, _, rfl, congrArg (Option.map _) (setPointCoordinate_name value _ axis), rfl, ?_, rfl⟩
    exact fun other listed differs => absurd (List.mem_singleton.mp listed) differs
  | cubicBezier id startMm control1Mm control2Mm endMm =>
    simp only [SketchEntity.pointNames, List.mem_cons, List.not_mem_nil, or_false] at named ⊢
    rcases named with rfl | rfl | rfl | rfl
    all_goals
      refine ⟨_, _, rfl, congrArg (Option.map _) (setPointCoordinate_name value _ axis), rfl, ?_, rfl⟩
      rintro other (rfl | rfl | rfl | rfl) differs
      all_goals first | exact absurd rfl differs | rfl

end Entities

section Sketches

variable {spec : SketchSpec ℚ} {descriptor : ParameterDescriptor}

theorem mem_entity {entity : SketchEntity ℚ} :
    descriptor ∈ entity.descriptors ↔
      (∃ point ∈ entity.pointNames, ∃ axis : Axis,
        descriptor = described .length ["entities", toString entity.id, point, axis.name]) ∨
      entity.radius.isSome ∧ descriptor = described .length ["entities", toString entity.id, "radius"] := by
  unfold SketchEntity.descriptors
  rw [List.mem_append, List.mem_flatMap]
  refine or_congr (exists_congr fun point => and_congr_right fun _ => mem_pointDescriptors) ?_
  cases entity with
  | circle id centerMm radiusMm => simp [SketchEntity.radius, SketchEntity.id]
  | _ => simp [SketchEntity.radius]

theorem mem_constraint {constraint : SketchConstraint ℚ} :
    descriptor ∈ constraint.descriptors ↔
      constraint.value.isSome ∧
        descriptor = described .length ["constraints", toString constraint.id, "value"] ∨
      constraint.angle.isSome ∧
        descriptor = described .angle ["constraints", toString constraint.id, "angle"] ∨
      constraint.position.isSome ∧ ∃ axis : Axis,
        descriptor = described .length ["constraints", toString constraint.id, "position", axis.name] := by
  obtain ⟨id, kind⟩ := constraint
  cases kind with
  | fixedPoint point positionMm =>
    simp [SketchConstraint.descriptors, mem_pointDescriptors, SketchConstraint.value,
      SketchConstraint.angle, SketchConstraint.position]
  | _ =>
    simp [SketchConstraint.descriptors, SketchConstraint.value, SketchConstraint.angle,
      SketchConstraint.position]

theorem sizeAxis_eq_some {size : String} {axis : Axis} :
    sizeAxis size = some axis ↔ size = "width" ∧ axis = .x ∨ size = "height" ∧ axis = .y := by
  unfold sizeAxis
  by_cases wide : size = "width"
  · subst wide
    simp [eq_comm]
  · by_cases high : size = "height"
    · subst high
      simp [eq_comm]
    · simp [wide, high]

theorem sizeAxis_injective {first second : String} {axis : Axis} (one : sizeAxis first = some axis)
    (two : sizeAxis second = some axis) : first = second := by
  rcases sizeAxis_eq_some.mp one with ⟨rfl, rfl⟩ | ⟨rfl, rfl⟩
  · rcases sizeAxis_eq_some.mp two with ⟨rfl, _⟩ | ⟨_, is⟩
    · rfl
    · cases is
  · rcases sizeAxis_eq_some.mp two with ⟨_, is⟩ | ⟨rfl, _⟩
    · cases is
    · rfl

theorem mem_bounds :
    descriptor ∈ boundsDescriptors ↔ ∃ axis size, sizeAxis size = some axis ∧
      descriptor = described .length ["bounds", size] := by
  simp only [boundsDescriptors, List.mem_cons, List.not_mem_nil, or_false, sizeAxis_eq_some]
  constructor
  · rintro (rfl | rfl)
    · exact ⟨.x, "width", .inl ⟨rfl, rfl⟩, rfl⟩
    · exact ⟨.y, "height", .inr ⟨rfl, rfl⟩, rfl⟩
  · rintro ⟨axis, size, ⟨rfl, rfl⟩ | ⟨rfl, rfl⟩, rfl⟩
    · exact .inl rfl
    · exact .inr rfl

theorem mem_sketch :
    descriptor ∈ (FeatureKind.sketch spec).parameterDescriptors ↔
      (spec.rectangleBounds.isSome ∧ descriptor ∈ boundsDescriptors) ∨
      (∃ entity ∈ spec.entities, ¬spec.isProjectedEntity entity.id ∧ descriptor ∈ entity.descriptors) ∨
      ∃ constraint ∈ spec.constraints, descriptor ∈ constraint.descriptors := by
  have shown : descriptor ∈ (if spec.rectangleBounds.isSome then boundsDescriptors else []) ↔
      spec.rectangleBounds.isSome ∧ descriptor ∈ boundsDescriptors := by
    by_cases drawn : spec.rectangleBounds.isSome = true
    · simp [drawn]
    · simp [drawn]
  have own (entity : SketchEntity ℚ) :
      descriptor ∈ (if spec.isProjectedEntity entity.id then [] else entity.descriptors) ↔
        ¬spec.isProjectedEntity entity.id ∧ descriptor ∈ entity.descriptors := by
    by_cases projected : spec.isProjectedEntity entity.id = true
    · simp [projected]
    · simp [projected]
  rw [FeatureKind.parameterDescriptors, List.mem_append, List.mem_append, List.mem_flatMap,
    List.mem_flatMap, shown, or_assoc]
  simp only [own]

/-! ### Setting an entity or a constraint -/

theorem entity_of_mem (distinct : (spec.entities.map SketchEntity.id).Nodup) {entity : SketchEntity ℚ}
    (there : entity ∈ spec.entities) : spec.entity (toString entity.id) = some entity := by
  rw [SketchSpec.entity, parseIndex_toString, Option.bind_some]
  exact find?_of_mem distinct there

theorem constraint_of_mem (distinct : (spec.constraints.map SketchConstraint.id).Nodup)
    {constraint : SketchConstraint ℚ} (there : constraint ∈ spec.constraints) :
    spec.constraint (toString constraint.id) = some constraint := by
  rw [SketchSpec.constraint, parseIndex_toString, Option.bind_some]
  exact find?_of_mem distinct there

/-- The sketch with one entity in place of one with its id. -/
structure EntitySet (before after : SketchSpec ℚ) (entity changed : SketchEntity ℚ) : Prop where
  constraints : after.constraints = before.constraints
  entity : ∀ id : SketchEntityId, after.entity (toString id) =
    if id = entity.id then some changed else before.entity (toString id)

/-- An entity that is there can be changed where the change is not refused. -/
theorem changeEntity_of_mem (distinct : (spec.entities.map SketchEntity.id).Nodup)
    {entity changed : SketchEntity ℚ} (there : entity ∈ spec.entities)
    {change : SketchEntity ℚ → Option (SketchEntity ℚ)} (made : change entity = some changed)
    (keeps : ∀ entity changed, change entity = some changed → changed.id = entity.id) :
    ∃ after, spec.changeEntity (toString entity.id) change = some after ∧
      EntitySet spec after entity changed := by
  have found := find?_of_mem distinct there
  obtain ⟨entities, done⟩ := changeFirst_of_find? found made
  refine ⟨{ spec with entities }, ?_, rfl, fun id => ?_⟩
  · rw [SketchSpec.changeEntity, parseIndex_toString, Option.bind_some, done]
    rfl
  · simp only [SketchSpec.entity, parseIndex_toString, Option.bind_some]
    rw [find?_changeFirst (fun one two _ => keeps one two) done id, found, Option.bind_some, made]

structure ConstraintSet (before after : SketchSpec ℚ) (constraint changed : SketchConstraint ℚ) : Prop where
  entities : after.entities = before.entities
  constraint : ∀ id : SketchConstraintId, after.constraint (toString id) =
    if id = constraint.id then some changed else before.constraint (toString id)

theorem changeConstraint_of_mem (distinct : (spec.constraints.map SketchConstraint.id).Nodup)
    {constraint : SketchConstraint ℚ} (there : constraint ∈ spec.constraints)
    {change : SketchConstraintKind ℚ → Option (SketchConstraintKind ℚ)} {kind : SketchConstraintKind ℚ}
    (made : change constraint.kind = some kind) :
    ∃ after, spec.changeConstraint (toString constraint.id) change = some after ∧
      ConstraintSet spec after constraint { constraint with kind } := by
  have found := find?_of_mem distinct there
  have changed : (change constraint.kind).map (fun kind => { constraint with kind }) =
      some { constraint with kind } := congrArg (Option.map _) made
  have changes : ∃ after, changeFirst (fun other => other.id = constraint.id)
      (fun constraint : SketchConstraint ℚ => (change constraint.kind).map fun kind =>
        { constraint with kind }) spec.constraints = some after := changeFirst_of_find? found changed
  obtain ⟨constraints, done⟩ := changes
  refine ⟨{ spec with constraints }, ?_, rfl, fun id => ?_⟩
  · rw [SketchSpec.changeConstraint, parseIndex_toString, Option.bind_some, done]
    rfl
  · simp only [SketchSpec.constraint, parseIndex_toString, Option.bind_some]
    rw [find?_changeFirst (fun one two _ is => ?_) done id, found, Option.bind_some, changed]
    obtain ⟨_, _, rfl⟩ := Option.map_eq_some_iff.mp is
    rfl

/-! ### What a path of a sketch reads -/

/-- What is read of an entity after its id. -/
def SketchEntity.read (entity : SketchEntity ℚ) : List String → Option ℚ
  | [point, axis] => (entity.point point).bind fun point => pointCoordinate point axis
  | ["radius"] => entity.radius
  | _ => none

def SketchConstraint.read (constraint : SketchConstraint ℚ) : List String → Option ℚ
  | ["value"] => constraint.value
  | ["angle"] => constraint.angle
  | ["position", axis] => constraint.position.bind fun point => pointCoordinate point axis
  | _ => none

/-- The parameters of an entity, after its id. -/
inductive SketchEntity.Place (entity : SketchEntity ℚ) : List String → Prop
  | point {point : String} (named : point ∈ entity.pointNames) (axis : Axis) : Place entity [point, axis.name]
  | radius (round : entity.radius.isSome) : Place entity ["radius"]

inductive SketchConstraint.Place (constraint : SketchConstraint ℚ) : List String → Prop
  | value (is : constraint.value.isSome) : Place constraint ["value"]
  | angle (is : constraint.angle.isSome) : Place constraint ["angle"]
  | position (is : constraint.position.isSome) (axis : Axis) : Place constraint ["position", axis.name]

theorem value_entity {entity : SketchEntity ℚ} {place : List String} (is : entity.Place place)
    (of : SketchSpec ℚ) (id : String) :
    sketchParameterValue of ("entities" :: id :: place) =
      (of.entity id).bind fun entity => entity.read place := by
  cases is with
  | point named axis =>
    simp only [sketchParameterValue, SketchEntity.read]
    cases of.entity id <;> rfl
  | radius round =>
    simp only [sketchParameterValue, SketchEntity.read]

theorem value_constraint {constraint : SketchConstraint ℚ} {place : List String}
    (is : constraint.Place place) (of : SketchSpec ℚ) (id : String) :
    sketchParameterValue of ("constraints" :: id :: place) =
      (of.constraint id).bind fun constraint => constraint.read place := by
  cases is with
  | position is axis =>
    simp only [sketchParameterValue, SketchConstraint.read]
    cases of.constraint id <;> rfl
  | _ => rfl

/-- What setting one parameter of an entity does to it. -/
structure EntityPlaceSet (entity changed : SketchEntity ℚ) (place : List String) (dimension : Dimension ℚ)
    (change : SketchEntity ℚ → Option (SketchEntity ℚ)) : Prop where
  set_ : ∀ (of : SketchSpec ℚ) (id : String),
    setSketchParameter of ("entities" :: id :: place) dimension = of.changeEntity id change
  made : change entity = some changed
  keeps : ∀ entity changed, change entity = some changed → changed.id = entity.id
  read : ∃ value, entity.read place = some value
  back : changed.read place = some dimension.millimetres
  others : ∀ other, entity.Place other → other ≠ place → changed.read other = entity.read other

theorem SketchEntity.Place.set_ {entity : SketchEntity ℚ} {place : List String} (is : entity.Place place)
    (dimension : Dimension ℚ) : ∃ changed change, EntityPlaceSet entity changed place dimension change := by
  cases is with
  | @point point named axis =>
    obtain ⟨before, changed, found, made, moved, others, radius⟩ :=
      entity.move_point named axis dimension.millimetres
    refine ⟨changed, _, fun _ _ => rfl, made, fun _ _ done => SketchEntity.id_changePoint done,
      ⟨before.get axis, ?_⟩, ?_, fun other place apart => ?_⟩
    · simp [SketchEntity.read, found]
    · simp [SketchEntity.read, moved]
    · cases place with
      | radius round => exact radius
      | @point second its axis' =>
        by_cases same : second = point
        · subst same
          have differs : axis' ≠ axis := fun same => apart (by rw [same])
          simp [SketchEntity.read, found, moved, Vec2.get_put_of_ne differs]
        · simp only [SketchEntity.read, others second its same]
  | radius round =>
    cases entity with
    | circle id centerMm radiusMm =>
      refine ⟨.circle id centerMm dimension.millimetres, _, fun _ _ => rfl, rfl,
        fun _ _ done => SketchEntity.id_withRadius done, ⟨_, rfl⟩, rfl, fun other place apart => ?_⟩
      cases place with
      | radius round => exact absurd rfl apart
      | point named axis =>
        obtain rfl := List.mem_singleton.mp named
        rfl
    | _ => cases round

structure ConstraintPlaceSet (constraint : SketchConstraint ℚ) (kind : SketchConstraintKind ℚ)
    (place : List String) (dimension : Dimension ℚ)
    (change : SketchConstraintKind ℚ → Option (SketchConstraintKind ℚ)) : Prop where
  set_ : ∀ (of : SketchSpec ℚ) (id : String),
    setSketchParameter of ("constraints" :: id :: place) dimension = of.changeConstraint id change
  made : change constraint.kind = some kind
  read : ∃ value, constraint.read place = some value
  back : ({ constraint with kind } : SketchConstraint ℚ).read place = some dimension.millimetres
  others : ∀ other, constraint.Place other → other ≠ place →
    ({ constraint with kind } : SketchConstraint ℚ).read other = constraint.read other

theorem SketchConstraint.Place.set_ {constraint : SketchConstraint ℚ} {place : List String}
    (is : constraint.Place place) (dimension : Dimension ℚ) :
    ∃ kind change, ConstraintPlaceSet constraint kind place dimension change := by
  obtain ⟨id, kind⟩ := constraint
  cases is with
  | value is =>
    cases kind with
    | distance a b value | radius entity value =>
      refine ⟨_, _, fun _ _ => rfl, rfl, ⟨_, rfl⟩, rfl, fun other place apart => ?_⟩
      cases place with
      | value => exact absurd rfl apart
      | angle is => cases is
      | position is => cases is
    | _ => cases is
  | angle is =>
    cases kind with
    | angle a b angleDegrees =>
      refine ⟨_, _, fun _ _ => rfl, rfl, ⟨_, rfl⟩, rfl, fun other place apart => ?_⟩
      cases place with
      | angle => exact absurd rfl apart
      | value is => cases is
      | position is => cases is
    | _ => cases is
  | position is axis =>
    cases kind with
    | fixedPoint point positionMm =>
      refine ⟨_, _, fun _ _ => rfl,
        congrArg (Option.map _) (setPointCoordinate_name dimension.millimetres positionMm axis),
        ⟨positionMm.get axis, ?_⟩, ?_, fun other place apart => ?_⟩
      · simp [SketchConstraint.read, SketchConstraint.position]
      · simp [SketchConstraint.read, SketchConstraint.position]
      · cases place with
        | value is => cases is
        | angle is => cases is
        | position is axis' =>
          have differs : axis' ≠ axis := fun same => apart (by rw [same])
          simp [SketchConstraint.read, SketchConstraint.position, Vec2.get_put_of_ne differs]
    | _ => cases is

/-- The kinds of parameters of a sketch. -/
inductive SketchSpec.Listed (spec : SketchSpec ℚ) : List String → Prop
  | bounds {axis : Axis} {size : String} (drawn : spec.rectangleBounds.isSome)
      (is : sizeAxis size = some axis) : Listed spec ["bounds", size]
  | entity {entity : SketchEntity ℚ} (there : entity ∈ spec.entities) {place : List String}
      (is : entity.Place place) : Listed spec ("entities" :: toString entity.id :: place)
  | constraint {constraint : SketchConstraint ℚ} (there : constraint ∈ spec.constraints)
      {place : List String} (is : constraint.Place place) :
      Listed spec ("constraints" :: toString constraint.id :: place)

theorem listed_sketch (listed : descriptor ∈ (FeatureKind.sketch spec).parameterDescriptors) :
    spec.Listed descriptor.path.segments := by
  rcases mem_sketch.mp listed with ⟨drawn, member⟩ | ⟨entity, there, _, member⟩ | ⟨constraint, there, member⟩
  · obtain ⟨axis, size, is, rfl⟩ := mem_bounds.mp member
    exact .bounds drawn is
  · rcases mem_entity.mp member with ⟨point, named, axis, rfl⟩ | ⟨round, rfl⟩
    · exact .entity there (.point named axis)
    · exact .entity there (.radius round)
  · rcases mem_constraint.mp member with ⟨is, rfl⟩ | ⟨is, rfl⟩ | ⟨is, axis, rfl⟩
    · exact .constraint there (.value is)
    · exact .constraint there (.angle is)
    · exact .constraint there (.position is axis)

section Setting

variable {E : Type} {validateFeatureKind : FeatureKind ℚ → ℚ → Except E Unit} {featureId : FeatureId}
  {valueType : ParameterValueType} {dimension : Dimension ℚ} {toleranceMm : ℚ}

/-- A kind other than a profile, in which setting a parameter gives one that reads it. -/
theorem ReadsBack.of_set {kind after : FeatureKind ℚ} {target : FeatureParameterTarget}
    (noProfile : ∀ segments closed, kind ≠ .profile segments closed)
    (read : ∃ value, featureKindParameterValue kind target.path.segments = some value)
    (done : setFeatureKindParameter validateFeatureKind kind target dimension toleranceMm = .ok (some after))
    (back : featureKindParameterValue after target.path.segments = some dimension.millimetres)
    (others : ∀ other ∈ kind.parameterDescriptors, ¬kind.Coupled target.path.segments other.path.segments →
      featureKindParameterValue after other.path.segments =
        featureKindParameterValue kind other.path.segments) :
    ReadsBack validateFeatureKind kind target dimension toleranceMm := by
  have only (made : FeatureKind ℚ)
      (again : setFeatureKindParameter validateFeatureKind kind target dimension toleranceMm =
        .ok (some made)) : made = after := Option.some.inj (Except.ok.inj (again.symm.trans done))
  refine ⟨read, fun made again => only made again ▸ back, fun made again => only made again ▸ others,
    fun made _ => ?_⟩
  cases kind with
  | profile segments closed => exact absurd rfl (noProfile segments closed)
  | _ => exact ⟨fun _ shared => shared.elim, fun closed => closed.elim⟩

theorem readsBack_entity (formed : (FeatureKind.sketch spec).WellFormed) {entity : SketchEntity ℚ}
    (there : entity ∈ spec.entities) {place : List String} (is : entity.Place place) :
    ReadsBack validateFeatureKind (.sketch spec)
      ⟨featureId, ⟨"entities" :: toString entity.id :: place⟩, valueType⟩ dimension toleranceMm := by
  obtain ⟨changed, change, placed⟩ := is.set_ dimension
  obtain ⟨after, done, put⟩ := changeEntity_of_mem formed.1 there placed.made placed.keeps
  obtain ⟨value, read⟩ := placed.read
  have set_ : setFeatureKindParameter validateFeatureKind (.sketch spec)
      ⟨featureId, ⟨"entities" :: toString entity.id :: place⟩, valueType⟩ dimension toleranceMm =
        .ok (some (.sketch after)) := by
    rw [setFeatureKindParameter, placed.set_, done]
    rfl
  refine ReadsBack.of_set (fun _ _ is => by cases is) ⟨value, ?_⟩ set_ ?_ ?_
  · rw [featureKindParameterValue, value_entity is, entity_of_mem formed.1 there, Option.bind_some, read]
  · rw [featureKindParameterValue, value_entity is, put.entity, if_pos rfl, Option.bind_some, placed.back]
  · intro other listed apart
    rw [featureKindParameterValue, featureKindParameterValue]
    have kind := listed_sketch listed
    generalize other.path.segments = path at apart kind
    cases kind with
    | bounds drawn size => exact absurd (.bounds (by simp) _) apart
    | @entity second its other where_ =>
      rw [value_entity where_, value_entity where_, put.entity, entity_of_mem formed.1 its]
      by_cases same : second.id = entity.id
      · obtain rfl := List.inj_on_of_nodup_map formed.1 its there same
        have differs : other ≠ place := fun same => apart (same ▸ .itself _)
        rw [if_pos rfl, Option.bind_some, Option.bind_some, placed.others other where_ differs]
      · rw [if_neg same]
    | constraint its where_ =>
      rw [value_constraint where_, value_constraint where_, SketchSpec.constraint, SketchSpec.constraint,
        put.constraints]

theorem readsBack_constraint (formed : (FeatureKind.sketch spec).WellFormed)
    {constraint : SketchConstraint ℚ} (there : constraint ∈ spec.constraints) {place : List String}
    (is : constraint.Place place) :
    ReadsBack validateFeatureKind (.sketch spec)
      ⟨featureId, ⟨"constraints" :: toString constraint.id :: place⟩, valueType⟩ dimension toleranceMm := by
  obtain ⟨kind, change, placed⟩ := is.set_ dimension
  obtain ⟨after, done, put⟩ := changeConstraint_of_mem formed.2 there placed.made
  obtain ⟨value, read⟩ := placed.read
  have set_ : setFeatureKindParameter validateFeatureKind (.sketch spec)
      ⟨featureId, ⟨"constraints" :: toString constraint.id :: place⟩, valueType⟩ dimension toleranceMm =
        .ok (some (.sketch after)) := by
    rw [setFeatureKindParameter, placed.set_, done]
    rfl
  refine ReadsBack.of_set (fun _ _ is => by cases is) ⟨value, ?_⟩ set_ ?_ ?_
  · rw [featureKindParameterValue, value_constraint is, constraint_of_mem formed.2 there, Option.bind_some,
      read]
  · rw [featureKindParameterValue, value_constraint is, put.constraint, if_pos rfl, Option.bind_some,
      placed.back]
  · intro other listed apart
    rw [featureKindParameterValue, featureKindParameterValue]
    have kind := listed_sketch listed
    generalize other.path.segments = path at apart kind
    cases kind with
    | bounds drawn size => exact absurd (.bounds (by simp) _) apart
    | entity its where_ =>
      rw [value_entity where_, value_entity where_, SketchSpec.entity, SketchSpec.entity, put.entities]
    | @constraint second its other where_ =>
      rw [value_constraint where_, value_constraint where_, put.constraint, constraint_of_mem formed.2 its]
      by_cases same : second.id = constraint.id
      · obtain rfl := List.inj_on_of_nodup_map formed.2 its there same
        have differs : other ≠ place := fun same => apart (same ▸ .itself _)
        rw [if_pos rfl, Option.bind_some, Option.bind_some, placed.others other where_ differs]
      · rw [if_neg same]

/-! ### The width and the height of a rectangle -/

theorem lineEnds_withFarSide (farSide value : ℚ) (axis : Axis) (entities : List (SketchEntity ℚ)) :
    (entities.map (SketchEntity.withFarSide farSide value axis)).mapM SketchEntity.lineEnds =
      (entities.mapM SketchEntity.lineEnds).map
        (List.map (mapEnds (Vec2.withFarSide farSide value axis))) := by
  induction entities with
  | nil => rfl
  | cons entity rest ih =>
    rw [List.map_cons, List.mapM_cons, List.mapM_cons, ih]
    cases entity with
    | line id startMm endMm => cases rest.mapM SketchEntity.lineEnds <;> rfl
    | _ => rfl

/-- The sketch of a rectangle with its far side moved. -/
def SketchSpec.withSize (spec : SketchSpec ℚ) (minimum maximum : Vec2 ℚ) (axis : Axis) (value : ℚ) :
    SketchSpec ℚ :=
  let move := SketchEntity.withFarSide (maximum.get axis) (minimum.get axis + value) axis
  { spec with entities := spec.entities.map move }

/-- The bounds after the far side has moved. -/
theorem rectangleBounds_withSize {minimum maximum : Vec2 ℚ} (axis : Axis) {value : ℚ}
    (drawn : spec.rectangleBounds = some (minimum, maximum)) (positive : 0 < value) :
    (spec.withSize minimum maximum axis value).rectangleBounds =
      if value ≤ epsilonMm then none else some (minimum, maximum.put (minimum.get axis + value) axis) := by
  unfold SketchSpec.withSize SketchSpec.rectangleBounds at *
  dsimp only
  rw [List.length_map]
  split at drawn
  case isTrue => cases drawn
  case isFalse free =>
    obtain ⟨lines, all, drawn⟩ := Option.bind_eq_some_iff.mp drawn
    rw [if_neg free, lineEnds_withFarSide, all, Option.map_some, Option.bind_some]
    exact rectangleOf_resized drawn positive

theorem boundsSize_of_axis {size : String} {axis : Axis} (is : sizeAxis size = some axis)
    (bounds : Vec2 ℚ × Vec2 ℚ) : boundsSize bounds size = some (bounds.2.get axis - bounds.1.get axis) := by
  rcases sizeAxis_eq_some.mp is with ⟨rfl, rfl⟩ | ⟨rfl, rfl⟩
  · rfl
  · rfl

theorem get_withFarSide {farSide value : ℚ} {axis along : Axis} {point : Vec2 ℚ}
    (away : ¬(along = axis ∧ point.get axis = farSide)) :
    (point.withFarSide farSide value axis).get along = point.get along := by
  unfold Vec2.withFarSide
  by_cases far : point.get axis = farSide
  · rw [if_pos far, Vec2.get_put_of_ne fun same => away ⟨same, far⟩]
  · rw [if_neg far]

theorem SketchEntity.id_withFarSide (farSide value : ℚ) (axis : Axis) (entity : SketchEntity ℚ) :
    (entity.withFarSide farSide value axis).id = entity.id := by
  cases entity <;> rfl

/-- What is not on the far side reads as before. -/
theorem SketchEntity.read_withFarSide {farSide value : ℚ} {axis : Axis} {entity : SketchEntity ℚ}
    {place : List String} (is : entity.Place place)
    (away : ¬(place.getLast? = some axis.name ∧ entity.read place = some farSide)) :
    (entity.withFarSide farSide value axis).read place = entity.read place := by
  cases entity with
  | line id startMm endMm =>
    cases is with
    | radius round => cases round
    | point named along =>
      simp only [SketchEntity.pointNames, List.mem_cons, List.not_mem_nil, or_false] at named
      rcases named with rfl | rfl
      all_goals
        simp only [SketchEntity.read, SketchEntity.withFarSide, SketchEntity.point, Option.bind_some,
          pointCoordinate_name, Option.some.injEq] at away ⊢
        refine get_withFarSide fun both => away ⟨?_, ?_⟩
        · rw [both.1]
          rfl
        · rw [both.1, both.2]
  | _ => rfl

theorem readsBack_bounds (formed : (FeatureKind.sketch spec).WellFormed)
    (drawn : spec.rectangleBounds.isSome) {size : String} {axis : Axis} (is : sizeAxis size = some axis) :
    ReadsBack validateFeatureKind (.sketch spec) ⟨featureId, ⟨["bounds", size]⟩, valueType⟩ dimension
        toleranceMm ↔
      dimension.millimetres ≤ profileEpsilonMm ∨ epsilonMm < dimension.millimetres := by
  obtain ⟨⟨minimum, maximum⟩, drawn⟩ := Option.isSome_iff_exists.mp drawn
  have read : sketchParameterValue spec ["bounds", size] = some (maximum.get axis - minimum.get axis) := by
    rw [sketchParameterValue, drawn, Option.bind_some, boundsSize_of_axis is]
  have set_ : setFeatureKindParameter validateFeatureKind (.sketch spec)
      ⟨featureId, ⟨["bounds", size]⟩, valueType⟩ dimension toleranceMm =
        .ok (if dimension.millimetres ≤ profileEpsilonMm then none
          else some (.sketch (spec.withSize minimum maximum axis dimension.millimetres))) := by
    simp only [setFeatureKindParameter, setSketchParameter, is, drawn, Option.bind_eq_bind,
      Option.bind_some]
    split <;> rfl
  have small : profileEpsilonMm < epsilonMm := by norm_num [profileEpsilonMm, epsilonMm]
  have least : 0 < profileEpsilonMm := by norm_num [profileEpsilonMm]
  by_cases refused : dimension.millimetres ≤ profileEpsilonMm
  · rw [if_pos refused] at set_
    refine iff_of_true ⟨⟨_, read⟩, fun after done => ?_, fun after done => ?_, fun after done => ?_⟩
      (.inl refused)
    all_goals
      rw [set_] at done
      cases done
  · rw [if_neg refused] at set_
    have resized := rectangleBounds_withSize axis drawn (least.trans (not_le.mp refused))
    constructor
    · intro back
      have again := back.back _ set_
      rw [featureKindParameterValue, sketchParameterValue, resized] at again
      refine .inr (not_le.mp fun narrow => ?_)
      rw [if_pos narrow] at again
      cases again
    · intro wide
      have wide := wide.resolve_left refused
      rw [if_neg (not_le.mpr wide)] at resized
      refine ReadsBack.of_set (fun _ _ is => by cases is) ⟨_, read⟩ set_ ?_ ?_
      · rw [featureKindParameterValue, sketchParameterValue, resized, Option.bind_some,
          boundsSize_of_axis is, Vec2.get_put, add_sub_cancel_left]
      · intro other listed apart
        rw [featureKindParameterValue, featureKindParameterValue]
        have kind := listed_sketch listed
        generalize other.path.segments = path at apart kind
        cases kind with
        | @bounds along other _ itsAxis =>
          have differs : along ≠ axis := by
            rintro rfl
            refine apart ?_
            rw [sizeAxis_injective itsAxis is]
            exact .itself _
          rw [sketchParameterValue, sketchParameterValue, resized, drawn, Option.bind_some, Option.bind_some,
            boundsSize_of_axis itsAxis, boundsSize_of_axis itsAxis, Vec2.get_put_of_ne differs]
        | @entity second its place where_ =>
          have found : (spec.withSize minimum maximum axis dimension.millimetres).entity
              (toString second.id) = some (second.withFarSide (maximum.get axis)
                (minimum.get axis + dimension.millimetres) axis) := by
            have kept := SketchEntity.id_withFarSide (maximum.get axis)
              (minimum.get axis + dimension.millimetres) axis
            rw [← kept second]
            refine entity_of_mem ?_ (List.mem_map_of_mem its)
            rw [SketchSpec.withSize, List.map_map]
            simpa only [Function.comp_def, kept] using formed.1
          rw [value_entity where_, value_entity where_, found, entity_of_mem formed.1 its, Option.bind_some,
            Option.bind_some]
          refine SketchEntity.read_withFarSide where_ fun far => apart (.side ?_)
          refine ⟨axis, maximum, is, by rw [FeatureKind.farCorner, drawn]; rfl, ?_, ?_⟩
          · cases where_ with
            | point named along => exact far.1
            | radius round => exact far.1
          · rw [featureKindParameterValue, value_entity where_, entity_of_mem formed.1 its, Option.bind_some,
              far.2]
        | constraint its where_ => rw [value_constraint where_, value_constraint where_]; rfl

/-- **The parameters of a sketch are read back**, but for a width or a height of a rectangle that is more
than nothing and too small to be drawn. -/
theorem readsBack_sketch_iff (formed : (FeatureKind.sketch spec).WellFormed)
    (listed : descriptor ∈ (FeatureKind.sketch spec).parameterDescriptors) :
    ReadsBack validateFeatureKind (.sketch spec) (descriptor.target featureId) dimension toleranceMm ↔
      (descriptor.path.segments.head? = some "bounds" →
        dimension.millimetres ≤ profileEpsilonMm ∨ epsilonMm < dimension.millimetres) := by
  have kind := listed_sketch listed
  obtain ⟨⟨segments⟩, valueType⟩ := descriptor
  cases kind with
  | bounds drawn is =>
    rw [readsBack_bounds formed drawn is]
    exact ⟨fun small _ => small, fun small => small rfl⟩
  | entity there is => exact iff_of_true (readsBack_entity formed there is) (by simp)
  | constraint there is => exact iff_of_true (readsBack_constraint formed there is) (by simp)

end Setting

end Sketches

end Ketchup.Product
