/-
**After a refresh every projection is as it would be drawn.**

What a refresh may change is in `OnlyProjections`: the entities that a projection names, and the targets of
the projections. Such a change leaves the work planes and the dependency graph as they are, so that
a sketch is drawn from what the refresh has drawn before it (`refreshFeature_sound`). In one sketch
`refreshFold_drawn` takes the projections one after another: a second projection of an entity keeps its own
target, which solving compares with the entity, so it draws the same.

* `refreshSketchProjections_drawn` — a refreshed product passes the check, and a second refresh
  changes nothing.
-/

import Ketchup.Sketches.Projections

set_option linter.unusedSectionVars false

namespace Ketchup.Sketches

open Ketchup.Graph Ketchup.Product Ketchup.References

variable {R : Type} [Field R] [LinearOrder R] [Lengths R]

/-! ### What a refresh may change -/

def SameButTarget (old new : SketchConstraint R) : Prop := new = old ∨ ∃ target, new = withTarget target old

/-- Entities that a projection names are other ones, with their ids; targets are other ones. -/
structure Retargeted (before after : SketchSpec R) : Prop where
  workplane : after.workplane = before.workplane
  entities : List.Forall₂ (fun old new => new.id = old.id ∧
    (old.id ∉ (projectionsOf before).map Prod.fst → new = old)) before.entities after.entities
  constraints : List.Forall₂ SameButTarget before.constraints after.constraints

def FeatureRetargeted (before after : Feature R) : Prop :=
  after = before ∨ ∃ spec updated, before.kind = .sketch spec ∧ Retargeted spec updated ∧
    after = { before with kind := .sketch updated }

/-- Every feature is there, as it was but for what projections draw. -/
def OnlyProjections (before after : BTreeMap FeatureId (Feature R)) : Prop :=
  ∀ id : FeatureId, Option.Rel FeatureRetargeted before[id]? after[id]?

section Retargeting

variable {before after third : SketchSpec R} {entity : SketchEntityId} {target : SketchEntity R}

@[simp]
theorem projectionOf?_withTarget (constraint : SketchConstraint R) :
    projectionOf? (withTarget target constraint).kind = projectionOf? constraint.kind := by
  obtain ⟨id, kind⟩ := constraint
  cases kind <;> rfl

theorem withTarget_withTarget (first second : SketchEntity R) (constraint : SketchConstraint R) :
    withTarget second (withTarget first constraint) = withTarget second constraint := by
  obtain ⟨id, kind⟩ := constraint
  cases kind <;> rfl

theorem SameButTarget.projection {old new : SketchConstraint R} (same : SameButTarget old new) :
    projectionOf? new.kind = projectionOf? old.kind := by
  rcases same with rfl | ⟨target, rfl⟩
  · rfl
  · exact projectionOf?_withTarget old

theorem SameButTarget.trans {one two three : SketchConstraint R} (first : SameButTarget one two)
    (second : SameButTarget two three) : SameButTarget one three := by
  rcases second with rfl | ⟨target, rfl⟩
  · exact first
  · rcases first with rfl | ⟨earlier, rfl⟩
    · exact Or.inr ⟨target, rfl⟩
    · exact Or.inr ⟨target, withTarget_withTarget earlier target one⟩

theorem Retargeted.projections (retargeted : Retargeted before after) :
    projectionsOf after = projectionsOf before := by
  have same := retargeted.constraints
  unfold projectionsOf
  generalize before.constraints = olds at same
  generalize after.constraints = news at same
  induction same with
  | nil => rfl
  | cons one _ ih => rw [List.filterMap_cons, List.filterMap_cons, one.projection, ih]

theorem Retargeted.refl (spec : SketchSpec R) : Retargeted spec spec where
  workplane := rfl
  entities := List.forall₂_same.mpr fun _ _ => ⟨rfl, fun _ => rfl⟩
  constraints := List.forall₂_same.mpr fun _ _ => Or.inl rfl

theorem Retargeted.trans (first : Retargeted before after) (second : Retargeted after third) :
    Retargeted before third where
  workplane := second.workplane.trans first.workplane
  entities := by
    have later := second.entities
    rw [first.projections] at later
    refine forall₂_through (fun one two => ⟨two.1.trans one.1, fun free => ?_⟩) first.entities later
    rw [two.2 (by rwa [one.1]), one.2 free]
  constraints := forall₂_through (fun one two => one.trans two) first.constraints second.constraints

theorem FeatureRetargeted.refl (feature : Feature R) : FeatureRetargeted feature feature := Or.inl rfl

theorem FeatureRetargeted.trans {one two three : Feature R} (first : FeatureRetargeted one two)
    (second : FeatureRetargeted two three) : FeatureRetargeted one three := by
  rcases second with rfl | ⟨spec, updated, isSketch, retargeted, rfl⟩
  · exact first
  · rcases first with rfl | ⟨earlier, between, isEarlier, changed, rfl⟩
    · exact Or.inr ⟨spec, updated, isSketch, retargeted, rfl⟩
    · obtain rfl : between = spec := FeatureKind.sketch.inj isSketch
      exact Or.inr ⟨earlier, updated, isEarlier, changed.trans retargeted, rfl⟩

end Retargeting

section Products

variable {features one two three : BTreeMap FeatureId (Feature R)} {id : FeatureId}

theorem OnlyProjections.refl (features : BTreeMap FeatureId (Feature R)) : OnlyProjections features features := by
  intro id
  cases features[id]? with
  | none => exact .none
  | some feature => exact .some (FeatureRetargeted.refl feature)

theorem OnlyProjections.trans (first : OnlyProjections one two) (second : OnlyProjections two three) :
    OnlyProjections one three := by
  intro id
  have here := first id
  have next := second id
  revert here next
  cases one[id]? <;> cases two[id]? <;> cases three[id]? <;> simp
  exact FeatureRetargeted.trans

/-- A retargeted feature depends on the same features. -/
theorem FeatureRetargeted.linkOf {before after : Feature R} (retargeted : FeatureRetargeted before after)
    (id : FeatureId) : linkOf id after = linkOf id before := by
  rcases retargeted with rfl | ⟨spec, updated, isSketch, changed, rfl⟩
  · rfl
  · have sources : ∀ spec : SketchSpec R, (FeatureKind.sketch spec).dependencies =
        spec.workplane :: (projectionsOf spec).map fun projection => projection.2.1 := by
      intro spec
      rw [FeatureKind.dependencies, projectionsOf, List.map_filterMap]
      refine congrArg (spec.workplane :: ·) (congrArg (List.filterMap · spec.constraints) (funext fun constraint => ?_))
      cases constraint.kind <;> rfl
    have depends : (FeatureKind.sketch updated).dependencies = before.kind.dependencies := by
      rw [isSketch, sources, sources, changed.workplane, changed.projections]
    have authoritative : authoritativeDependencies (.sketch updated) = authoritativeDependencies before.kind := by
      simp only [authoritativeDependencies, depends, isSketch]
    simp only [Sketches.linkOf, featureDependencies, authoritative, depends, isSketch]

theorem OnlyProjections.linksOf (only : OnlyProjections one two) : linksOf two = linksOf one := by
  apply Std.ExtTreeMap.ext_getElem?
  intro id
  have here := only id
  simp only [Sketches.linksOf, Std.ExtTreeMap.getElem?_map]
  revert here
  cases one[id]? <;> cases two[id]? <;> simp
  intro retargeted
  exact retargeted.linkOf id

theorem OnlyProjections.workplaneAt (only : OnlyProjections one two) (id : FeatureId) :
    workplaneAt two id = workplaneAt one id := by
  have here := only id
  unfold Sketches.workplaneAt
  revert here
  cases one[id]? <;> cases two[id]? <;> simp
  rintro (rfl | ⟨spec, updated, isSketch, _, rfl⟩)
  · rfl
  · simp only [isSketch]

theorem OnlyProjections.sketchWorkplaneFrame (only : OnlyProjections one two) (id : FeatureId) :
    sketchWorkplaneFrame two id = sketchWorkplaneFrame one id := by
  have here := only id
  unfold Sketches.sketchWorkplaneFrame
  revert here
  cases one[id]? <;> cases two[id]? <;> simp
  rintro (rfl | ⟨spec, updated, isSketch, changed, rfl⟩)
  · cases Feature.kind _ <;> simp only [only.workplaneAt]
  · simp only [isSketch, changed.workplane, only.workplaneAt]

/-- A projection is drawn from its source, the two frames and the two definitions. -/
theorem projectSketchEntity_congr (frames : ∀ id, sketchWorkplaneFrame two id = sketchWorkplaneFrame one id)
    {target source : FeatureId} (definition : two[target]?.map Feature.definitionId = one[target]?.map Feature.definitionId)
    (same : two[source]? = one[source]?) (sourceEntity newEntity : SketchEntityId) :
    projectSketchEntity two target source sourceEntity newEntity =
      projectSketchEntity one target source sourceEntity newEntity := by
  unfold projectSketchEntity
  rw [same]
  simp only [frames]
  revert definition
  cases one[target]? <;> cases two[target]? <;> simp
  intro definition
  cases one[source]? with
  | none => rfl
  | some feature => simp only [definition]

theorem OnlyProjections.definition (only : OnlyProjections one two) (id : FeatureId) :
    two[id]?.map Feature.definitionId = one[id]?.map Feature.definitionId := by
  have here := only id
  revert here
  cases one[id]? <;> cases two[id]? <;> simp
  rintro (rfl | ⟨_, _, _, _, rfl⟩) <;> rfl

theorem projectSketchEntity_ne {target source : FeatureId} {sourceEntity newEntity : SketchEntityId}
    {projected : SketchEntity R} (drawn : projectSketchEntity features target source sourceEntity newEntity = .ok projected) :
    target ≠ source := by
  obtain ⟨apart, _⟩ := check_ok_iff.mp drawn
  rw [refuseIf_ok, not_or] at apart
  exact apart.1

end Products

/-! ### One sketch -/

section Solving

variable {solver : Solver R} {spec updated : SketchSpec R} {entity : SketchEntityId} {target : SketchEntity R}

theorem Solver.checkConstraints_ok {state final : solver.State} {previous : Option SketchConstraintId}
    {constraints : List (SketchConstraint R)}
    (checked : solver.checkConstraints spec previous state constraints = .ok final) :
    ∀ constraint ∈ constraints, checkProjection spec.entities constraint = .ok () := by
  induction constraints generalizing previous state with
  | nil => simp
  | cons constraint rest ih =>
    obtain ⟨_, checked⟩ := check_ok_iff.mp checked
    obtain ⟨_, checked⟩ := check_ok_iff.mp checked
    obtain ⟨projection, checked⟩ := check_ok_iff.mp checked
    obtain ⟨next, _, checked⟩ := bind_ok checked
    intro other there
    rcases List.mem_cons.mp there with rfl | later
    · exact projection
    · exact ih checked other later

/-- A sketch that solves holds, for each projection, the target under the entity's id. -/
theorem Solver.solve_ok (solved : solver.solve spec = .ok ()) {constraint : SketchConstraint R}
    (there : constraint ∈ spec.constraints) {sourceFeature : FeatureId} {sourceEntity : SketchEntityId}
    (is : constraint.kind = .projection entity sourceFeature sourceEntity target) :
    findEntity spec.entities entity = some target ∧ target.id = entity ∧ validateEntity target = .ok () := by
  obtain ⟨_, solved⟩ := check_ok_iff.mp solved
  obtain ⟨_, solved⟩ := check_ok_iff.mp solved
  obtain ⟨_, solved⟩ := check_ok_iff.mp solved
  obtain ⟨_, solved⟩ := check_ok_iff.mp solved
  obtain ⟨state, checked, _⟩ := bind_ok solved
  have held := Solver.checkConstraints_ok checked constraint there
  simp only [checkProjection, is] at held
  split at held
  case h_1 => cases held
  case h_2 actual found =>
    obtain ⟨same, valid⟩ := check_ok_iff.mp held
    simp only [refuseIf_ok, not_or, not_not] at same
    obtain ⟨_, _, named, rfl⟩ := same
    exact ⟨found, named, valid⟩

/-- What a refresh of one projection does. -/
theorem Solver.refreshProjection_ok (refreshed : solver.refreshProjection spec entity target = .ok updated) :
    ∃ entities constraints, target.id = entity ∧
      changeFirst (fun other => other.id = entity) (fun _ => some target) spec.entities = some entities ∧
      changeFirst (isProjectionOf entity) (fun other => some (withTarget target other)) spec.constraints =
        some constraints ∧
      updated = { spec with entities, constraints } ∧ solver.solve updated = .ok () := by
  obtain ⟨named, refreshed⟩ := check_ok_iff.mp refreshed
  obtain ⟨_, refreshed⟩ := check_ok_iff.mp refreshed
  split at refreshed
  case h_1 => cases refreshed
  case h_2 entities drawn =>
    split at refreshed
    case h_1 => cases refreshed
    case h_2 constraints kept =>
      obtain ⟨solved, is⟩ := check_ok_iff.mp refreshed
      obtain rfl := Except.ok.inj is
      exact ⟨entities, constraints, by simpa [refuseIf_ok] using named, drawn, kept, rfl, solved⟩

theorem isProjectionOf_iff {constraint : SketchConstraint R} :
    isProjectionOf entity constraint = true ↔
      ∃ sourceFeature sourceEntity target, constraint.kind = .projection entity sourceFeature sourceEntity target := by
  obtain ⟨id, kind⟩ := constraint
  cases kind <;> simp [isProjectionOf, projectionOf?]

theorem countP_isProjectionOf (spec : SketchSpec R) (entity : SketchEntityId) :
    spec.constraints.countP (isProjectionOf entity) = (projectionsOf spec).countP fun p => p.1 = entity := by
  rw [projectionsOf, List.countP_filterMap]
  refine List.countP_congr fun constraint _ => ?_
  rw [isProjectionOf]
  cases projectionOf? constraint.kind <;> rfl

theorem mem_projectionsOf {entity : SketchEntityId} {sourceFeature : FeatureId} {sourceEntity : SketchEntityId} :
    (entity, sourceFeature, sourceEntity) ∈ projectionsOf spec ↔ ∃ constraint ∈ spec.constraints,
      ∃ target, constraint.kind = .projection entity sourceFeature sourceEntity target := by
  rw [projectionsOf, List.mem_filterMap]
  refine exists_congr fun constraint => and_congr_right fun _ => ?_
  obtain ⟨id, kind⟩ := constraint
  cases kind <;> simp [projectionOf?]

theorem Solver.refreshProjection_retargeted (named : entity ∈ (projectionsOf spec).map Prod.fst)
    (refreshed : solver.refreshProjection spec entity target = .ok updated) : Retargeted spec updated := by
  obtain ⟨entities, constraints, isNamed, drawn, kept, rfl, _⟩ := solver.refreshProjection_ok refreshed
  refine ⟨rfl, (changeFirst_forall₂ drawn).imp fun old new changed => ?_,
    (changeFirst_forall₂ kept).imp fun old new changed => ?_⟩
  · rcases changed with rfl | ⟨is, made⟩
    · exact ⟨rfl, fun _ => rfl⟩
    · obtain rfl : target = new := Option.some.inj made
      have is : old.id = entity := of_decide_eq_true is
      exact ⟨isNamed.trans is.symm, fun free => absurd (is ▸ named) free⟩
  · rcases changed with rfl | ⟨_, made⟩
    · exact Or.inl rfl
    · exact Or.inr ⟨target, (Option.some.inj made).symm⟩

theorem Solver.find_refreshProjection (refreshed : solver.refreshProjection spec entity target = .ok updated)
    (other : SketchEntityId) : findEntity updated.entities other =
      if other = entity then some target else findEntity spec.entities other := by
  obtain ⟨entities, constraints, isNamed, drawn, _, rfl, _⟩ := solver.refreshProjection_ok refreshed
  have takes : ∀ element changed : SketchEntity R, element.id = entity → some target = some changed →
      changed.id = element.id := by
    intro element changed is made
    obtain rfl := Option.some.inj made
    exact isNamed.trans is.symm
  obtain ⟨old, there⟩ := Option.isSome_iff_exists.mp (find?_isSome_of_changeFirst drawn)
  rw [findEntity, find?_changeFirst takes drawn other, there]
  rfl

/-- With two projections of one entity, one target stays: the entity is drawn as it was. -/
theorem Solver.refreshProjection_twice (solved : solver.solve spec = .ok ())
    (refreshed : solver.refreshProjection spec entity target = .ok updated)
    (two : 2 ≤ (projectionsOf spec).countP fun p => p.1 = entity) : findEntity spec.entities entity = some target := by
  have after := solver.find_refreshProjection refreshed entity
  rw [if_pos rfl] at after
  obtain ⟨entities, constraints, _, _, kept, rfl, again⟩ := solver.refreshProjection_ok refreshed
  rw [← countP_isProjectionOf] at two
  obtain ⟨constraint, there, is, stays⟩ := exists_of_changeFirst kept two
  obtain ⟨sourceFeature, sourceEntity, own, is⟩ := isProjectionOf_iff.mp is
  have before := (solver.solve_ok solved there is).1
  have now := (solver.solve_ok again stays is).1
  rw [before, ← now, after]

/-- A projection that is drawn as it is leaves the sketch as it is. -/
theorem Solver.refreshProjection_same (solved : solver.solve spec = .ok ())
    (drawn : findEntity spec.entities entity = some target) (named : entity ∈ (projectionsOf spec).map Prod.fst) :
    solver.refreshProjection spec entity target = .ok spec := by
  have first : ∃ constraint, spec.constraints.find? (isProjectionOf entity) = some constraint := by
    obtain ⟨⟨_, sourceFeature, sourceEntity⟩, there, rfl⟩ := List.mem_map.mp named
    obtain ⟨constraint, member, own, is⟩ := mem_projectionsOf.mp there
    rw [← Option.isSome_iff_exists, List.find?_isSome]
    exact ⟨constraint, member, isProjectionOf_iff.mpr ⟨_, _, _, is⟩⟩
  obtain ⟨constraint, first⟩ := first
  obtain ⟨sourceFeature, sourceEntity, own, is⟩ := isProjectionOf_iff.mp (List.find?_some first)
  obtain ⟨found, isNamed, valid⟩ := solver.solve_ok solved (List.mem_of_find?_eq_some first) is
  obtain rfl : target = own := Option.some.inj (drawn.symm.trans found)
  have sameEntities := @changeFirst_same _ (fun other : SketchEntity R => decide (other.id = entity))
    (fun _ => some target) spec.entities target drawn rfl
  have sameConstraint : withTarget target constraint = constraint := by
    obtain ⟨id, kind⟩ := constraint
    obtain rfl : kind = _ := is
    rfl
  have sameConstraints := @changeFirst_same _ (isProjectionOf entity) (fun other => some (withTarget target other))
    spec.constraints constraint first (congrArg some sameConstraint)
  unfold Solver.refreshProjection
  rw [check_ok_iff]
  refine ⟨refuseIf_ok.mpr (by simpa using isNamed), ?_⟩
  rw [check_ok_iff]
  refine ⟨valid, ?_⟩
  simp only [sameEntities, sameConstraints]
  rw [check_ok_iff]
  exact ⟨solved, rfl⟩

/-! ### The projections of a sketch, one after another -/

variable {features : BTreeMap FeatureId (Feature R)} {id : FeatureId}

/-- The projection as it is drawn from the features. -/
abbrev drawn (features : BTreeMap FeatureId (Feature R)) (id : FeatureId)
    (projection : SketchEntityId × FeatureId × SketchEntityId) : Except CanonicalError (SketchEntity R) :=
  projectSketchEntity features id projection.2.1 projection.2.2 projection.1

/-- The sketch holds what the projection draws. -/
def Holds (features : BTreeMap FeatureId (Feature R)) (id : FeatureId) (spec : SketchSpec R)
    (projection : SketchEntityId × FeatureId × SketchEntityId) : Prop :=
  ∃ target, drawn features id projection = .ok target ∧ findEntity spec.entities projection.1 = some target

/-- **One projection more is held**, and those before it still are. -/
theorem Solver.refreshOne_holds {done rest : List (SketchEntityId × FeatureId × SketchEntityId)}
    {projection : SketchEntityId × FeatureId × SketchEntityId} (all : projectionsOf spec = done ++ projection :: rest)
    (held : ∀ earlier ∈ done, Holds features id spec earlier ∧ solver.solve spec = .ok ())
    (refreshed : solver.refreshOne features id spec projection = .ok updated) :
    Retargeted spec updated ∧ solver.solve updated = .ok () ∧
      ∀ earlier ∈ done ++ [projection], Holds features id updated earlier := by
  obtain ⟨target, draws, refreshed⟩ := bind_ok refreshed
  replace refreshed := mapError_ok refreshed
  have named : projection.1 ∈ (projectionsOf spec).map Prod.fst :=
    List.mem_map_of_mem (all ▸ List.mem_append_right _ List.mem_cons_self)
  refine ⟨solver.refreshProjection_retargeted named refreshed, ?_, fun earlier there => ?_⟩
  · obtain ⟨_, _, _, _, _, _, solved⟩ := solver.refreshProjection_ok refreshed
    exact solved
  have now := solver.find_refreshProjection refreshed earlier.1
  rw [List.mem_append, List.mem_singleton] at there
  rcases there with there | rfl
  · obtain ⟨⟨own, drew, found⟩, solved⟩ := held earlier there
    refine ⟨own, drew, now.trans ?_⟩
    by_cases same : earlier.1 = projection.1
    · -- The entity is named twice.
      have two : 2 ≤ (projectionsOf spec).countP fun p => p.1 = projection.1 := by
        have first : 0 < done.countP fun p => p.1 = projection.1 :=
          List.countP_pos_iff.mpr ⟨earlier, there, decide_eq_true same⟩
        simp only [all, List.countP_append, List.countP_cons, decide_true, if_true]
        omega
      rw [if_pos same, ← solver.refreshProjection_twice solved refreshed two, ← same]
      exact found
    · rw [if_neg same]
      exact found
  · exact ⟨target, draws, now.trans (if_pos rfl)⟩

/-- **The projections of a sketch, drawn one after another.** -/
theorem Solver.refreshFold_holds {done rest : List (SketchEntityId × FeatureId × SketchEntityId)}
    (all : projectionsOf spec = done ++ rest)
    (held : ∀ earlier ∈ done, Holds features id spec earlier ∧ solver.solve spec = .ok ())
    (refreshed : rest.foldlM (solver.refreshOne features id) spec = .ok updated) :
    Retargeted spec updated ∧ (∀ projection ∈ projectionsOf spec,
      Holds features id updated projection ∧ solver.solve updated = .ok ()) := by
  induction rest generalizing spec done with
  | nil =>
    obtain rfl := Except.ok.inj refreshed
    rw [List.append_nil] at all
    exact ⟨Retargeted.refl spec, all ▸ held⟩
  | cons projection rest ih =>
    rw [List.foldlM_cons] at refreshed
    obtain ⟨next, one, refreshed⟩ := bind_ok refreshed
    obtain ⟨retargeted, solved, holds⟩ := solver.refreshOne_holds all held one
    have same := retargeted.projections
    have later := @ih next (done ++ [projection]) (by rw [same, all, List.append_assoc]; rfl)
      (fun earlier there => ⟨holds earlier there, solved⟩) refreshed
    rw [same] at later
    exact ⟨retargeted.trans later.1, later.2⟩

/-- A sketch that holds what its projections draw is drawn as it is. -/
theorem Solver.refreshFold_same {projections : List (SketchEntityId × FeatureId × SketchEntityId)}
    (among : ∀ projection ∈ projections, projection ∈ projectionsOf spec)
    (held : ∀ projection ∈ projectionsOf spec, Holds features id spec projection ∧ solver.solve spec = .ok ()) :
    projections.foldlM (solver.refreshOne features id) spec = .ok spec := by
  induction projections with
  | nil => rfl
  | cons projection rest ih =>
    have there := among projection List.mem_cons_self
    obtain ⟨⟨target, draws, found⟩, solved⟩ := held projection there
    have same := solver.refreshProjection_same solved found (List.mem_map_of_mem there)
    have one : solver.refreshOne features id spec projection = .ok spec := by
      rw [Solver.refreshOne, bind_eq_of_ok draws, same]
      rfl
    rw [List.foldlM_cons, bind_eq_of_ok one]
    exact ih fun other later => among other (List.mem_cons_of_mem _ later)

theorem Solver.refreshFold_congr {other : BTreeMap FeatureId (Feature R)}
    {projections : List (SketchEntityId × FeatureId × SketchEntityId)}
    (same : ∀ projection ∈ projections, drawn other id projection = drawn features id projection)
    (spec : SketchSpec R) :
    projections.foldlM (solver.refreshOne other id) spec = projections.foldlM (solver.refreshOne features id) spec := by
  induction projections generalizing spec with
  | nil => rfl
  | cons projection rest ih =>
    have one : solver.refreshOne other id spec projection = solver.refreshOne features id spec projection := by
      unfold Solver.refreshOne
      rw [show projectSketchEntity other id _ _ _ = _ from same projection List.mem_cons_self]
    rw [List.foldlM_cons, List.foldlM_cons, one]
    exact congrArg _ (funext fun next => ih (fun other later => same other (List.mem_cons_of_mem _ later)) next)

end Solving

/-! ### The features, one after another -/

section Features

variable {solver : Solver R} {features after : BTreeMap FeatureId (Feature R)} {id : FeatureId}
  {result : Option (Feature R)} {feature : Feature R} {spec : SketchSpec R}

/-- What the step of a feature does. -/
theorem Solver.refreshFeature_cases (ok : solver.refreshFeature features id = .ok result) :
    result = none ∨ ∃ feature spec updated, features[id]? = some feature ∧ feature.kind = .sketch spec ∧
      projectionsOf spec ≠ [] ∧ (projectionsOf spec).foldlM (solver.refreshOne features id) spec = .ok updated ∧
      result = some { feature with kind := .sketch updated } := by
  unfold Solver.refreshFeature at ok
  split at ok
  case h_1 => exact Or.inl (Except.ok.inj ok).symm
  case h_2 feature found =>
    split at ok
    case h_1 spec isSketch =>
      split at ok
      case isTrue => exact Or.inl (Except.ok.inj ok).symm
      case isFalse some_ =>
        obtain ⟨updated, folded, is⟩ := bind_ok ok
        exact Or.inr ⟨feature, spec, updated, found, isSketch, some_, folded, (Except.ok.inj is).symm⟩
    case h_2 => exact Or.inl (Except.ok.inj ok).symm

theorem Solver.refreshFeature_of_sketch (found : features[id]? = some feature) (isSketch : feature.kind = .sketch spec)
    (named : projectionsOf spec ≠ []) : solver.refreshFeature features id =
      ((projectionsOf spec).foldlM (solver.refreshOne features id) spec >>= fun updated =>
        .ok (some { feature with kind := .sketch updated })) := by
  simp only [Solver.refreshFeature, found, isSketch, if_neg named]

theorem Solver.refreshFeature_only (ok : solver.refreshFeature features id = .ok result) :
    OnlyProjections features (Refresh.put features id result) := by
  rcases solver.refreshFeature_cases ok with rfl | ⟨feature, spec, updated, found, isSketch, _, folded, rfl⟩
  · exact OnlyProjections.refl features
  obtain ⟨retargeted, _⟩ := solver.refreshFold_holds (List.nil_append _).symm (by simp) folded
  intro other
  by_cases same : id = other
  · subst same
    rw [Refresh.getElem?_put_self, found]
    exact .some (Or.inr ⟨spec, updated, isSketch, retargeted, rfl⟩)
  · rw [Refresh.getElem?_put_ne _ same]
    exact OnlyProjections.refl features other

theorem mem_featureDependencies {kind : FeatureKind R} {dependency : FeatureId} (there : dependency ∈ kind.dependencies) :
    dependency ∈ featureDependencies id kind := by
  have listed : dependency ∈ (Std.ExtTreeSet.ofList (authoritativeDependencies kind) compare).toList := by
    rw [Std.ExtTreeSet.mem_toList, Std.ExtTreeSet.mem_ofList, List.contains_iff_mem]
    exact List.mem_append_left _ there
  unfold featureDependencies
  by_cases own : id ∈ kind.dependencies
  · simpa [own] using listed
  · have apart : dependency ≠ id := fun same => own (same ▸ there)
    simpa [own, apart] using listed

/-- The sources of a sketch are read before it. -/
theorem source_mem_readsOf (found : features[id]? = some feature) (isSketch : feature.kind = .sketch spec)
    {projection : SketchEntityId × FeatureId × SketchEntityId} (there : projection ∈ projectionsOf spec) :
    projection.2.1 ∈ Refresh.readsOf Link.dependencies (linksOf features) id := by
  have link : (linksOf features)[id]? = some (linkOf id feature) := by
    rw [linksOf, Std.ExtTreeMap.getElem?_map, found]
    rfl
  rw [Refresh.readsOf, link]
  apply mem_featureDependencies
  rw [isSketch, FeatureKind.dependencies]
  obtain ⟨constraint, member, target, is⟩ := mem_projectionsOf.mp there
  exact List.mem_cons_of_mem _ (List.mem_filterMap.mpr ⟨constraint, member, by rw [is]; rfl⟩)

/-- **The step of a feature settles it**, and reads what the feature depends on. -/
theorem Solver.refreshFeature_sound (solver : Solver R) (features : BTreeMap FeatureId (Feature R)) :
    Refresh.Sound solver.refreshFeature (Refresh.readsOf Link.dependencies (linksOf features))
      (OnlyProjections features) where
  keeps only ok := only.trans (solver.refreshFeature_only ok)
  settles {nodes id result} only ok := by
    have changed := solver.refreshFeature_only ok
    rcases solver.refreshFeature_cases ok with rfl | ⟨feature, spec, updated, found, isSketch, named, folded, rfl⟩
    · exact ⟨none, ok, fun _ none_ => nomatch none_⟩
    obtain ⟨retargeted, held⟩ := solver.refreshFold_holds (List.nil_append _).symm (by simp) folded
    rw [← retargeted.projections] at held named
    have here : (Refresh.put nodes id (some { feature with kind := .sketch updated }))[id]? =
        some { feature with kind := .sketch updated } := Refresh.getElem?_put_self
    refine ⟨some { feature with kind := .sketch updated }, ?_, fun value is => here.trans is⟩
    rw [solver.refreshFeature_of_sketch here rfl named]
    rw [solver.refreshFold_same (fun _ there => there) fun projection there => ?_]
    · rfl
    obtain ⟨⟨target, draws, found⟩, solved⟩ := held projection there
    refine ⟨⟨target, Eq.trans ?_ draws, found⟩, solved⟩
    exact projectSketchEntity_congr changed.sketchWorkplaneFrame (changed.definition id)
      (Refresh.getElem?_put_ne _ (projectSketchEntity_ne draws)) _ _
  congr {nodes other id} only onlyOther same sources := by
    have frames : ∀ id, sketchWorkplaneFrame other id = sketchWorkplaneFrame nodes id := fun id =>
      (onlyOther.sketchWorkplaneFrame id).trans (only.sketchWorkplaneFrame id).symm
    unfold Solver.refreshFeature
    rw [same]
    cases found : nodes[id]? with
    | none => rfl
    | some feature =>
      cases isSketch : feature.kind with
      | sketch spec =>
        have drawnSame : ∀ projection ∈ projectionsOf spec, drawn other id projection = drawn nodes id projection := by
          intro projection there
          have read := source_mem_readsOf found isSketch there
          rw [only.linksOf] at read
          exact projectSketchEntity_congr frames (by rw [same]) (sources _ read) _ _
        simp only [isSketch, solver.refreshFold_congr drawnSame]
      | _ => simp only [isSketch]

theorem orderOf_ok {links : BTreeMap FeatureId Link} {order : List FeatureId} (ordered : orderOf links = .ok order) :
    Kahn.order Link.dependencies links = .ok order := by
  obtain ⟨_, ordered⟩ := check_ok_iff.mp ordered
  split at ordered
  case h_1 listed is => rw [is, Except.ok.inj ordered]
  case h_2 => cases ordered
  case h_3 =>
    dsimp only at ordered
    split at ordered <;> cases ordered

/-- A settled sketch passes the check. -/
theorem Solver.validateProjection_of_settled (settled : Refresh.Settled solver.refreshFeature features id)
    (found : features[id]? = some feature) (isSketch : feature.kind = .sketch spec) :
    ∀ constraint ∈ spec.constraints, validateProjection features id spec constraint = .ok () := by
  intro constraint there
  unfold validateProjection
  split
  case h_2 => rfl
  case h_1 entity sourceFeature sourceEntity target is =>
    have member : (entity, sourceFeature, sourceEntity) ∈ projectionsOf spec :=
      mem_projectionsOf.mpr ⟨constraint, there, target, is⟩
    obtain ⟨result, ok, same⟩ := settled
    rw [solver.refreshFeature_of_sketch found isSketch (List.ne_nil_of_mem member)] at ok
    obtain ⟨updated, folded, isResult⟩ := bind_ok ok
    obtain rfl := Except.ok.inj isResult
    have fixed := found.symm.trans (same _ rfl)
    obtain rfl : updated = spec := by
      rw [Option.some.injEq] at fixed
      rw [fixed] at isSketch
      exact FeatureKind.sketch.inj isSketch
    obtain ⟨_, held⟩ := solver.refreshFold_holds (List.nil_append _).symm (by simp) folded
    obtain ⟨⟨expected, draws, holds⟩, solved⟩ := held _ member
    have own := (solver.solve_ok solved there is).1
    obtain rfl := Option.some.inj (own.symm.trans holds)
    rw [bind_eq_of_ok draws, own]
    exact refuseIf_ok.mpr (by simp)

/-- **A refreshed product is drawn**: the check accepts it, only what projections draw is changed, and a
second refresh changes nothing. -/
theorem Solver.refreshSketchProjections_drawn (solver : Solver R)
    (refreshed : solver.refreshSketchProjections features = .ok after) :
    validateSketchProjections after = .ok () ∧ OnlyProjections features after ∧
      solver.refreshSketchProjections after = .ok after := by
  obtain ⟨order, ordered, ran⟩ := bind_ok refreshed
  obtain ⟨legal, keys⟩ := Kahn.order_ok (orderOf_ok ordered)
  obtain ⟨only, settled⟩ := Refresh.refresh_settled (solver.refreshFeature_sound features)
    (OnlyProjections.refl features) (by simp [Refresh.ReadsWithin]) (Refresh.Legal.of_ready legal) (by simp) ran
  rw [List.nil_append] at settled
  have sameOrder : fromProduct after = .ok order := by
    rw [fromProduct, only.linksOf]
    exact ordered
  refine ⟨?_, only, ?_⟩
  · rw [validateSketchProjections, bind_eq_of_ok sameOrder, forM_ok_iff]
    intro entry there
    have found : after[entry.1]? = some entry.2 := Std.ExtTreeMap.mem_toList_iff_getElem?_eq_some.mp there
    split
    case h_2 => rfl
    case h_1 spec isSketch =>
      rw [forM_ok_iff]
      refine solver.validateProjection_of_settled (settled entry.1 ((keys entry.1).mpr ?_)) found isSketch
      rw [← only.linksOf, BTreeMap.mem_iff_exists]
      refine ⟨linkOf entry.1 entry.2, ?_⟩
      rw [linksOf, Std.ExtTreeMap.getElem?_map, found]
      rfl
  · rw [Solver.refreshSketchProjections, bind_eq_of_ok sameOrder]
    exact Refresh.refresh_again settled

end Features

/-! ### A projection of a projection -/

section TwoProjections

/-- Lengths along an axis. -/
local instance axisLengths : Lengths ℚ where
  hypot x y := |x| + |y|
  sqrt value := value

/-- A solver that finds every sketch solved, as one with fixed lines only is. -/
def fixedSolver : Solver ℚ where
  State := Unit
  start := ()
  note _ _ _ := .ok ()
  finish _ _ := .ok ()

def lineOf (endX : ℚ) : SketchEntity ℚ := .line 1 ⟨0, 0⟩ ⟨endX, 0⟩

def projecting (source : FeatureId) : Feature ℚ :=
  ⟨1, "Sketch", .sketch ⟨1, [lineOf 5], [⟨1, .projection 1 source 1 (lineOf 5)⟩]⟩⟩

/-- A line of ten, projected when it was five, and the projection of this projection. -/
def staleProjections : BTreeMap FeatureId (Feature ℚ) :=
  Std.ExtTreeMap.ofList
    [(1, ⟨1, "Workplane", .workplane ⟨.principal .xy, principalFrame .xy⟩⟩), (2, projecting 3), (3, projecting 4),
      (4, ⟨1, "Sketch", .sketch ⟨1, [lineOf 10], []⟩⟩)] compare

theorem refreshSketchProjections_drawn_stale :
    ∃ after, fixedSolver.refreshSketchProjections staleProjections = .ok after ∧
      validateSketchProjections after = .ok () ∧ OnlyProjections staleProjections after ∧
        fixedSolver.refreshSketchProjections after = .ok after := by
  have succeeds : (fixedSolver.refreshSketchProjections staleProjections).toOption.isSome := by decide +kernel
  obtain ⟨after, refreshed⟩ := Option.isSome_iff_exists.mp succeeds
  have refreshed := ok_of_toOption refreshed
  exact ⟨after, refreshed, fixedSolver.refreshSketchProjections_drawn refreshed⟩

end TwoProjections

end Ketchup.Sketches
