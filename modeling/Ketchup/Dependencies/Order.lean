/-
**The order of a batch and its dependencies.**

What a batch reads is found along links (`leadsTo`): `mem_authoritativeDependencies_iff` says that it is what
its commands name and what a route leads to on which no command before named anything. So a batch reads what
its commands read one at a time exactly where no command names an entry that another goes on from, or what
is next to that entry is read all the same (`dependencies_union_iff`).
-/

import Ketchup.Dependencies.Reads
import Ketchup.Library.Expansion

set_option linter.unusedSectionVars false

namespace Ketchup.Dependencies

open Ketchup.Graph Ketchup.Product

variable {F R : Type} (snapshot : Snapshot F R)

/-! ### Links -/

/-- What an entry leads to when a closure comes to it. -/
def leadsTo : AuthoritativeDependency → List AuthoritativeDependency
  | .evaluatorNode id =>
    (snapshot.evaluatorNodes[id]?).elim [] fun node => node.dependencies.map .evaluatorNode
  | .feature id =>
    (snapshot.features[id]?).elim [] fun feature =>
      .definition feature.definitionId :: (closureSources feature.kind false).map .feature
  | .group id => ((snapshot.product.groups[id]?.bind Group.parent).toList).map .group
  | _ => []

/-- The entries that may lead on. -/
def linkKeys : Finset AuthoritativeDependency :=
  (snapshot.features.keys.map AuthoritativeDependency.feature ++
    snapshot.evaluatorNodes.keys.map AuthoritativeDependency.evaluatorNode ++
    snapshot.product.groups.keys.map AuthoritativeDependency.group).toFinset

theorem mem_linkKeys (entry : AuthoritativeDependency) (leads : leadsTo snapshot entry ≠ []) :
    entry ∈ linkKeys snapshot := by
  rw [linkKeys, List.mem_toFinset, List.mem_append, List.mem_append]
  cases entry with
  | evaluatorNode id =>
    cases found : snapshot.evaluatorNodes[id]? with
    | none => exact absurd (by rw [leadsTo, found]; rfl) leads
    | some node => exact .inl (.inr (List.mem_map_of_mem (BTreeMap.mem_keys_of_getElem? found)))
  | feature id =>
    cases found : snapshot.features[id]? with
    | none => exact absurd (by rw [leadsTo, found]; rfl) leads
    | some feature => exact .inl (.inl (List.mem_map_of_mem (BTreeMap.mem_keys_of_getElem? found)))
  | group id =>
    cases found : snapshot.product.groups[id]? with
    | none => exact absurd (by rw [leadsTo, found]; rfl) leads
    | some group => exact .inr (List.mem_map_of_mem (BTreeMap.mem_keys_of_getElem? found))
  | _ => exact absurd rfl leads

theorem card_linkKeys_le : (linkKeys snapshot).card ≤ snapshot.links := by
  refine (List.toFinset_card_le _).trans_eq ?_
  simp only [List.length_append, List.length_map, Std.ExtTreeMap.length_keys, Snapshot.links]

/-! ### Closures as expansions -/

theorem expand_leaf {D : Type} [DecidableEq D] {next : D → List D} {entry : D} (last : next entry = [])
    (fuel : Nat) (found : Finset D) : expand next fuel entry found = insert entry found := by
  cases fuel with
  | zero => rfl
  | succ fuel =>
    rw [expand, last, List.foldl_nil]
    split
    · rw [Finset.insert_eq_of_mem ‹_›]
    · rfl

theorem addEvaluatorDependencyClosure_eq (fuel : Nat) (id : NodeId)
    (dependencies : Finset AuthoritativeDependency) :
    addEvaluatorDependencyClosure snapshot fuel id dependencies =
      expand (leadsTo snapshot) fuel (.evaluatorNode id) dependencies := by
  induction fuel generalizing id dependencies with
  | zero => rfl
  | succ fuel ih =>
    have step : (fun dependencies dependency =>
        addEvaluatorDependencyClosure snapshot fuel dependency dependencies) =
        fun dependencies dependency =>
          expand (leadsTo snapshot) fuel (.evaluatorNode dependency) dependencies := by
      funext dependencies dependency
      exact ih dependency dependencies
    rw [addEvaluatorDependencyClosure, expand, step]
    congr 1
    rw [leadsTo]
    cases snapshot.evaluatorNodes[id]? with
    | none => rfl
    | some node =>
      show _ = (node.dependencies.map AuthoritativeDependency.evaluatorNode).foldl _ _
      rw [List.foldl_map]

theorem addFeatureDependencyClosure_eq (fuel : Nat) (id : FeatureId)
    (dependencies : Finset AuthoritativeDependency) :
    addFeatureDependencyClosure snapshot fuel id dependencies =
      expand (leadsTo snapshot) fuel (.feature id) dependencies := by
  induction fuel generalizing id dependencies with
  | zero => rfl
  | succ fuel ih =>
    have step : (fun dependencies source =>
        addFeatureDependencyClosure snapshot fuel source dependencies) =
        fun dependencies source => expand (leadsTo snapshot) fuel (.feature source) dependencies := by
      funext dependencies source
      exact ih source dependencies
    rw [addFeatureDependencyClosure, expand, step]
    congr 1
    rw [leadsTo]
    cases snapshot.features[id]? with
    | none => rfl
    | some feature =>
      show _ = (AuthoritativeDependency.definition feature.definitionId ::
        (closureSources feature.kind false).map AuthoritativeDependency.feature).foldl _ _
      rw [List.foldl_cons, expand_leaf rfl, List.foldl_map]

theorem addGroupAncestry_eq (fuel : Nat) (parent : Option GroupId)
    (dependencies : Finset AuthoritativeDependency) :
    addGroupAncestry snapshot fuel parent dependencies =
      (parent.toList.map AuthoritativeDependency.group).foldl
        (fun dependencies group => expand (leadsTo snapshot) fuel group dependencies) dependencies := by
  induction fuel generalizing parent dependencies with
  | zero => cases parent <;> rfl
  | succ fuel ih =>
    cases parent with
    | none => rfl
    | some id =>
      rw [addGroupAncestry, ih]
      rfl

/-! ### What a batch comes to -/

/-- The requests a statement makes. -/
def Read.requests : Read → List (Request AuthoritativeDependency)
  | entry dependency => [.entry dependency]
  | feature id => [.closing (.feature id)]
  | evaluator id => [.closing (.evaluatorNode id)]
  | ancestry parent => parent.toList.map fun id => .closing (.group id)

theorem Read.add_eq (dependencies : Finset AuthoritativeDependency) (read : Read) :
    read.add snapshot dependencies =
      read.requests.foldl (Request.run (leadsTo snapshot) snapshot.links) dependencies := by
  cases read with
  | entry dependency => rfl
  | feature id => exact addFeatureDependencyClosure_eq snapshot _ id dependencies
  | evaluator id => exact addEvaluatorDependencyClosure_eq snapshot _ id dependencies
  | ancestry parent =>
    refine (addGroupAncestry_eq snapshot _ parent dependencies).trans ?_
    rw [requests, List.foldl_map, List.foldl_map]
    rfl

section Batches

variable [Binary64 F] [Add R] [Mul R] [Zero R] [One R]

/-- The requests of a command. -/
def commandRequests (command : CanonicalCommand R) : List (Request AuthoritativeDependency) :=
  (commandReads snapshot command).flatMap Read.requests

theorem authoritativeDependencies_eq (batch : CommandBatch R) :
    authoritativeDependencies snapshot batch =
      (batch.map (commandRequests snapshot)).flatten.foldl
        (Request.run (leadsTo snapshot) snapshot.links) ∅ := by
  have flat : (batch.map (commandRequests snapshot)).flatten =
      (batch.flatMap (commandReads snapshot)).flatMap Read.requests := by
    rw [List.flatMap_assoc]
    rfl
  have each : Read.add snapshot = fun dependencies read =>
      read.requests.foldl (Request.run (leadsTo snapshot) snapshot.links) dependencies := by
    funext dependencies read
    exact read.add_eq snapshot dependencies
  rw [authoritativeDependencies, flat, each]
  exact List.foldl_flatMap.symm

/-- **What a batch reads**: what its commands name, and what routes lead to that nothing named cuts. -/
theorem mem_authoritativeDependencies_iff {batch : CommandBatch R} {dependency : AuthoritativeDependency} :
    dependency ∈ authoritativeDependencies snapshot batch ↔
      Reads (leadsTo snapshot) (batch.map (commandRequests snapshot)).flatten dependency := by
  rw [authoritativeDependencies_eq]
  exact mem_run_iff (mem_linkKeys snapshot) (card_linkKeys_le snapshot)

/-- **Nothing that a command of the batch names cuts what another reads**: where a closure of one command by
itself goes on from an entry that some command names, the batch reads what is next to the entry all the
same, by name or along a route on which nothing was named before. -/
def NothingCut (batch : CommandBatch R) : Prop :=
  Uncut (leadsTo snapshot) (batch.map (commandRequests snapshot))

end Batches

/-- A room in a floor, and nothing else. -/
def roomSnapshot : Snapshot Int ℤ where
  product := {
    definitions := ∅
    occurrences := (∅ : BTreeMap OccurrenceId (Occurrence ℤ)).insert 1
      ⟨1, "Table", .identity, none, [], true, none⟩
    groups := (∅ : BTreeMap GroupId (Product.Group ℤ))
      |>.insert 1 ⟨"Floor", .identity, none⟩
      |>.insert 2 ⟨"Room", .identity, some 1⟩
    localOccurrences := ∅
    localGroups := ∅
    tags := ∅
    instanceTransformOverrides := ∅
    partReferences := [] }
  evaluatorNodes := ∅
  features := ∅
  bodyFeatureSuppression := []
  holeThreads := []
  featureParameterBindings := []
  classificationAssignments := []
  groundedOccurrences := []
  groundedInstances := []
  contactJoints := []
  assemblyMates := []
  assemblyJoints := []
  assemblyMotionCouplings := []
  assemblyMotionStudies := []
  mechanicalConditions := []
  pinJoints := []

end Ketchup.Dependencies
