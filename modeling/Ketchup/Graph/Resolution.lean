/-
**Resolving a derived identity and evaluating its graph.**

The report lists the paths of a rule's output tree in preorder; the resolver goes down one segment at
a time and stops where none or more than one of the siblings has it. Both are told by how many slots
carry a path:

* `count_outputPaths`: a path is carried as often as its rest below the siblings with its first segment;
* `resolveOutputs_resolved`: the resolver answers `resolved` when one slot carries the path and one
  each part of it from the root;
* `resolveOutputs_mem`: it loses no path that a slot carries;
* `validateRuleOutputs_declared`: nor does the check of producers and ports, in a valid graph;
* `resolution_agrees`: what the resolver and the report say of one identity.
-/

import Ketchup.Graph.Meaning
import Ketchup.Library.Sha256
import Mathlib.Algebra.Ring.Nat
import Mathlib.Data.List.Count

set_option linter.unusedSectionVars false

namespace Ketchup.Graph

/-! ### The slots that carry a path -/

mutual

theorem RuleOutput.paths_before (before : List SlotSegment) :
    ∀ output : RuleOutput, output.paths before = (output.paths []).map (before ++ ·)
  | .mk segment children => by
    simp only [RuleOutput.paths, List.map_cons, List.nil_append]
    rw [outputPaths_before (before ++ [segment]), outputPaths_before [segment], List.map_map]
    simp only [Function.comp_def, List.append_assoc]

theorem outputPaths_before (before : List SlotSegment) :
    ∀ outputs : List RuleOutput, outputPaths before outputs = (outputPaths [] outputs).map (before ++ ·)
  | [] => rfl
  | output :: rest => by
    rw [outputPaths, outputPaths, List.map_append, RuleOutput.paths_before before output,
      outputPaths_before before rest]

end

theorem outputPaths_cons (segment : SlotSegment) (children rest : List RuleOutput) :
    outputPaths [] (.mk segment children :: rest) =
      [segment] :: (outputPaths [] children).map (segment :: ·) ++ outputPaths [] rest := by
  rw [outputPaths, RuleOutput.paths, List.nil_append, outputPaths_before [segment] children]
  rfl

theorem nil_notMem_outputPaths (outputs : List RuleOutput) : [] ∉ outputPaths [] outputs := by
  induction outputs with
  | nil => exact List.not_mem_nil
  | cons output rest ih =>
    obtain ⟨segment, children⟩ := output
    rw [outputPaths_cons]
    simpa using ih

/-- The outputs with a segment, among siblings. -/
def withSegment (segment : SlotSegment) (candidates : List RuleOutput) : List RuleOutput :=
  candidates.filter fun output => decide (output.segment = segment)

theorem withSegment_cons (segment here : SlotSegment) (children others : List RuleOutput) :
    withSegment segment (.mk here children :: others) =
      if here = segment then .mk here children :: withSegment segment others
      else withSegment segment others := by
  rw [withSegment, List.filter_cons]
  by_cases same : here = segment
  · rw [if_pos same, if_pos (by exact decide_eq_true same)]
    rfl
  · rw [if_neg same, if_neg (by exact fun is => same (of_decide_eq_true is))]
    rfl

theorem count_outputPaths (segment : SlotSegment) (rest : List SlotSegment)
    (candidates : List RuleOutput) :
    (outputPaths [] candidates).count (segment :: rest) =
      ((withSegment segment candidates).map fun output =>
        if rest.isEmpty then 1 else (outputPaths [] output.children).count rest).sum := by
  induction candidates with
  | nil => rfl
  | cons output others ih =>
    obtain ⟨here, children⟩ := output
    rw [outputPaths_cons, List.count_append, List.count_cons, ih, withSegment_cons]
    by_cases same : here = segment
    · subst same
      have below : ((outputPaths [] children).map (here :: ·)).count (here :: rest) =
          (outputPaths [] children).count rest :=
        List.count_map_of_injective _ _ (List.cons_injective (a := here)) _
      rw [below, if_pos rfl, List.map_cons, List.sum_cons]
      by_cases last : rest = []
      · subst last
        have none_ : (outputPaths [] children).count [] = 0 :=
          List.count_eq_zero.mpr (nil_notMem_outputPaths children)
        simp [none_]
      · simp [last, RuleOutput.children]
    · have none_ : ((outputPaths [] children).map (here :: ·)).count (segment :: rest) = 0 :=
        List.count_eq_zero.mpr fun member => by
          obtain ⟨_, _, is⟩ := List.mem_map.mp member
          exact same (List.cons.inj is).1
      simp [none_, same]

/-! ### The resolver -/

section Siblings

variable {segment : SlotSegment} {rest : List SlotSegment} {candidates : List RuleOutput} {index : Nat}

theorem resolveOutputs_lost (found : withSegment segment candidates = []) :
    resolveOutputs index candidates (segment :: rest) = .lost index := by
  unfold withSegment at found
  rw [resolveOutputs, found]

theorem resolveOutputs_below {output : RuleOutput} (found : withSegment segment candidates = [output]) :
    resolveOutputs index candidates (segment :: rest) =
      resolveOutputs (index + 1) output.children rest := by
  unfold withSegment at found
  rw [resolveOutputs, found]

theorem resolveOutputs_ambiguous {output second : RuleOutput} {more : List RuleOutput}
    (found : withSegment segment candidates = output :: second :: more) :
    resolveOutputs index candidates (segment :: rest) = .ambiguous index := by
  unfold withSegment at found
  rw [resolveOutputs, found]

end Siblings

/-- The resolver finds a path when one slot carries it and each part of it from the root. -/
theorem resolveOutputs_resolved {path : List SlotSegment} {candidates : List RuleOutput} {index : Nat} :
    resolveOutputs index candidates path = .resolved ↔
      ∀ length < path.length, (outputPaths [] candidates).count (path.take (length + 1)) = 1 := by
  induction path generalizing candidates index with
  | nil => exact ⟨fun _ _ less => absurd less (Nat.not_lt_zero _), fun _ => rfl⟩
  | cons segment rest ih =>
    have first : (outputPaths [] candidates).count [segment] = (withSegment segment candidates).length := by
      rw [count_outputPaths]
      simp
    rcases found : withSegment segment candidates with _ | ⟨output, _ | ⟨second, more⟩⟩
    · rw [found] at first
      rw [resolveOutputs_lost found]
      refine ⟨fun is => (by cases is), fun each => ?_⟩
      have one := each 0 (Nat.succ_pos _)
      rw [List.take_succ_cons, List.take_zero, first] at one
      cases one
    · rw [found] at first
      rw [resolveOutputs_below found]
      refine ih.trans ⟨fun each length less => ?_, fun each length less => ?_⟩
      · cases length with
        | zero => rw [List.take_succ_cons, List.take_zero, first]; rfl
        | succ length =>
          have less : length < rest.length := Nat.lt_of_succ_lt_succ less
          have nonempty : rest.take (length + 1) ≠ [] := by
            rw [Ne, List.take_eq_nil_iff]
            rintro (zero | rfl)
            · cases zero
            · cases less
          rw [List.take_succ_cons, count_outputPaths, found]
          simpa [nonempty] using each length less
      · have later := each (length + 1) (Nat.succ_lt_succ less)
        have nonempty : rest.take (length + 1) ≠ [] := by
          rw [Ne, List.take_eq_nil_iff]
          rintro (zero | rfl)
          · cases zero
          · cases less
        rw [List.take_succ_cons, count_outputPaths, found] at later
        simpa [nonempty] using later
    · rw [found] at first
      rw [resolveOutputs_ambiguous found]
      refine ⟨fun is => (by cases is), fun each => ?_⟩
      have one := each 0 (Nat.succ_pos _)
      rw [List.take_succ_cons, List.take_zero, first] at one
      cases one

/-- No path that a slot carries is lost. -/
theorem resolveOutputs_mem {path : List SlotSegment} {candidates : List RuleOutput} {index : Nat}
    (carried : path ∈ outputPaths [] candidates) (at_ : Nat) :
    resolveOutputs index candidates path ≠ .lost at_ := by
  induction path generalizing candidates index with
  | nil =>
    intro is
    cases is
  | cons segment rest ih =>
    have some_ : 0 < (outputPaths [] candidates).count (segment :: rest) := List.count_pos_iff.mpr carried
    rw [count_outputPaths] at some_
    rcases found : withSegment segment candidates with _ | ⟨output, _ | ⟨second, more⟩⟩
    · rw [found] at some_
      cases some_
    · rw [found] at some_
      rw [resolveOutputs_below found]
      by_cases last : rest = []
      · subst last
        intro is
        cases is
      · refine ih (List.count_pos_iff.mp ?_)
        simpa [last] using some_
    · rw [resolveOutputs_ambiguous found]
      intro is
      cases is

/-! ### Producers and ports -/

/-- The outputs a rule's check went over name the rule for their producer and one of its ports. -/
theorem validateOutputLoop_declared {ruleId : NodeId} {ports : List String} {fuel count : Nat}
    {stack : List (RuleOutput × Nat)}
    (ok : validateOutputLoop ruleId ports fuel count stack = .ok ()) :
    ∀ entry ∈ stack, ∀ before : List SlotSegment,
      (∀ segment ∈ before, segment.producerRuleId = ruleId ∧ segment.outputPort ∈ ports) →
        ∀ path ∈ entry.1.paths before, ∀ segment ∈ path,
          segment.producerRuleId = ruleId ∧ segment.outputPort ∈ ports := by
  induction fuel generalizing count stack with
  | zero => cases ok
  | succ fuel ih =>
    cases stack with
    | nil => exact nofun
    | cons head stack =>
      obtain ⟨⟨segment, children⟩, depth⟩ := head
      rw [validateOutputLoop] at ok
      split at ok
      · cases ok
      split at ok
      · cases ok
      split at ok
      · cases ok
      split at ok
      · cases ok
      next _ _ producer port =>
        have below := ih ok
        intro entry member before declared path inside
        rcases List.mem_cons.mp member with rfl | member
        · have here : ∀ other ∈ before ++ [segment],
              other.producerRuleId = ruleId ∧ other.outputPort ∈ ports := by
            intro other listed
            rcases List.mem_append.mp listed with listed | listed
            · exact declared other listed
            · rw [List.mem_singleton.mp listed]
              exact ⟨not_not.mp producer, not_not.mp port⟩
          rw [RuleOutput.paths, List.mem_cons] at inside
          rcases inside with rfl | inside
          · exact here
          · obtain ⟨child, listed, inside⟩ := mem_outputPaths.mp inside
            refine below (child, depth + 1) (List.mem_append_left _ ?_) _ here path inside
            rw [List.mem_reverse]
            exact List.mem_map.mpr ⟨child, listed, rfl⟩
        · exact below entry (List.mem_append_right _ member) before declared path inside

theorem validateRuleOutputs_declared {ruleId : NodeId} {ports : List PortSpec}
    {outputs : List RuleOutput} (ok : validateRuleOutputs ruleId ports outputs = .ok ()) :
    ∀ path ∈ outputPaths [] outputs, ∀ segment ∈ path,
      segment.producerRuleId = ruleId ∧ segment.outputPort ∈ ports.map PortSpec.name := by
  intro path member
  obtain ⟨output, listed, inside⟩ := mem_outputPaths.mp member
  refine validateOutputLoop_declared ok (output, 1) ?_ [] (fun _ none_ => absurd none_ List.not_mem_nil)
    path inside
  rw [List.mem_reverse]
  exact List.mem_map.mpr ⟨output, listed, rfl⟩

/-! ### The two answers -/

/-- How many slots of a node's output tree carry a path. -/
def EvaluatorNode.slotCount {F : Type} (node : EvaluatorNode F) (path : List SlotSegment) : Nat :=
  match node.kind with
  | .rule _ _ outputs _ => (outputPaths [] outputs).count path
  | .parameter _ | .expression _ _ => 0

/-- Each part of an identity's path from the root is carried by one slot. -/
def OneSlotEach {F : Type} (nodes : Nodes F) (derived : DerivedIdentity) : Prop :=
  ∃ node, nodes[derived.rootRuleNodeId]? = some node ∧
    ∀ length < derived.slotPath.segments.length,
      node.slotCount (derived.slotPath.segments.take (length + 1)) = 1

section Agree

variable {F : Type} [Binary64 F] [Sha256] {nodes : Nodes F} {derived : DerivedIdentity}

/-- What the resolver does with the segments of an identity whose root is a rule. -/
theorem resolve_rule {node : EvaluatorNode F} {source : String} {ast : ExpressionAst F}
    {outputs : List RuleOutput} {allowed : List OverrideParameterSpec}
    (entry : nodes[derived.rootRuleNodeId]? = some node)
    (rule : node.kind = .rule source ast outputs allowed) :
    resolveDerivedIdentity nodes derived =
      match derived.slotPath.segments.findIdx? fun segment =>
        !segmentDeclared nodes derived.rootRuleNodeId segment with
      | some index => .lost index
      | none => resolveOutputs 0 outputs derived.slotPath.segments := by
  obtain ⟨id, name, kind, inputs, ports, dependencies, reads⟩ := node
  obtain rfl : kind = _ := rule
  simp only [resolveDerivedIdentity]
  generalize nodes[derived.rootRuleNodeId]? = found at entry
  subst entry
  rfl

/-- In a valid graph every segment of a carried path is declared. -/
theorem findIdx_declared (valid : validateGraph nodes = .ok ()) {node : EvaluatorNode F}
    {source : String} {ast : ExpressionAst F} {outputs : List RuleOutput}
    {allowed : List OverrideParameterSpec} (entry : nodes[derived.rootRuleNodeId]? = some node)
    (rule : node.kind = .rule source ast outputs allowed)
    (carried : derived.slotPath.segments ∈ outputPaths [] outputs) :
    (derived.slotPath.segments.findIdx? fun segment =>
      !segmentDeclared nodes derived.rootRuleNodeId segment) = none := by
  have checked := ((validateGraph_ok valid).1 _ node entry).outputs source ast outputs allowed rule
  rw [List.findIdx?_eq_none_iff]
  intro segment member
  obtain ⟨producer, port⟩ := validateRuleOutputs_declared checked _ carried segment member
  obtain ⟨spec, listed, named⟩ := List.mem_map.mp port
  obtain ⟨id, name, kind, inputs, ports, dependencies, reads⟩ := node
  obtain rfl : kind = _ := rule
  rw [segmentDeclared, producer, entry, beq_self_eq_true, Bool.true_and, Bool.not_eq_false']
  exact List.any_eq_true.mpr ⟨spec, listed, beq_iff_eq.mpr named⟩

/-- **An identity is resolved exactly when one slot carries each part of its path.** -/
theorem resolve_resolved_iff (valid : validateGraph nodes = .ok ()) :
    resolveDerivedIdentity nodes derived = .resolved ↔ OneSlotEach nodes derived := by
  have long : 0 < derived.slotPath.segments.length :=
    List.length_pos_iff.mpr derived.slotPath.nonempty
  constructor
  · intro resolved
    have resolved' := resolved
    unfold resolveDerivedIdentity at resolved'
    split at resolved'
    case h_1 outputs _ _ _ _ _ entry =>
      refine ⟨_, entry, ?_⟩
      rw [resolve_rule entry rfl] at resolved
      split at resolved
      · cases resolved
      · exact resolveOutputs_resolved.mp resolved
    case h_2 => cases resolved'
  · rintro ⟨node, entry, each⟩
    unfold EvaluatorNode.slotCount at each
    match rule : node.kind with
    | .parameter _ => rw [rule] at each; cases each 0 long
    | .expression _ _ => rw [rule] at each; cases each 0 long
    | .rule source ast outputs allowed =>
      rw [rule] at each
      have carried : derived.slotPath.segments ∈ outputPaths [] outputs := by
        have whole := each (derived.slotPath.segments.length - 1) (by omega)
        rw [Nat.sub_add_cancel long, List.take_length] at whole
        exact List.count_pos_iff.mp (by simp only at whole; omega)
      rw [resolve_rule entry rule, findIdx_declared valid entry rule carried]
      exact resolveOutputs_resolved.mpr each

/-- **An identity is in a correct report exactly when its root evaluated to a value and a slot carries
its path.** -/
theorem outputs_isSome_iff {report : EvaluationReport F} (correct : report.Correct nodes) :
    report.outputs[derived]?.isSome ↔
      ∃ node evaluation, nodes[derived.rootRuleNodeId]? = some node ∧
        report.nodes[derived.rootRuleNodeId]? = some evaluation ∧ evaluation.value?.isSome ∧
        0 < node.slotCount derived.slotPath.segments := by
  have distinct : (nodes.toList.map Prod.fst).Nodup := by
    rw [Std.ExtTreeMap.map_fst_toList_eq_keys]
    exact nodes.nodup_keys
  have lookup := deriveOutputs_getElem? distinct correct.outputs derived
  constructor
  · intro some_
    obtain ⟨output, found⟩ := Option.isSome_iff_exists.mp some_
    obtain ⟨node, paths, listed, rule, inside⟩ := (lookup output).mp found
    unfold ruleResult at rule
    split at rule
    case h_1 source ast outputs allowed value input result kind evaluated =>
      cases rule
      refine ⟨node, _, Std.ExtTreeMap.mem_toList_iff_getElem?_eq_some.mp listed, evaluated, rfl, ?_⟩
      rw [EvaluatorNode.slotCount, kind]
      exact List.count_pos_iff.mpr inside
    case h_2 => cases rule
  · rintro ⟨node, ⟨status, input, result⟩, entry, evaluated, value, carried⟩
    unfold EvaluatorNode.slotCount at carried
    match rule : node.kind with
    | .parameter _ => rw [rule] at carried; cases carried
    | .expression _ _ => rw [rule] at carried; cases carried
    | .rule source ast outputs allowed =>
      rw [rule] at carried
      cases status with
      | error diagnostics => cases value
      | evaluated number =>
        refine Option.isSome_iff_exists.mpr ⟨⟨number, input, result⟩, (lookup _).mpr
          ⟨node, outputPaths [] outputs, Std.ExtTreeMap.mem_toList_iff_getElem?_eq_some.mpr entry, ?_,
            List.count_pos_iff.mp carried⟩⟩
        rw [ruleResult, rule, evaluated]

/-- **The resolver and the report agree.** In every valid graph no identity the report holds is lost,
and one whose rule evaluated to a value is resolved exactly when the report holds it and one slot
carries each part of its path; and nothing but an incomplete identity of the evaluation keeps a valid
graph from being evaluated. -/
theorem resolution_agrees (valid : validateGraph nodes = .ok ()) (identity : EvaluationIdentity) :
    (∀ report, evaluateGraph nodes identity = .ok report → ∀ derived : DerivedIdentity,
      (report.outputs[derived]?.isSome → ∀ index, resolveDerivedIdentity nodes derived ≠ .lost index) ∧
        ((∀ evaluation, report.nodes[derived.rootRuleNodeId]? = some evaluation →
            evaluation.value?.isSome) →
          (resolveDerivedIdentity nodes derived = .resolved ↔
            report.outputs[derived]?.isSome ∧ OneSlotEach nodes derived))) ∧
    ∀ fault, evaluateGraph nodes identity = .error fault → fault = .error .emptyEvaluationIdentity := by
  constructor
  · intro report run derived
    obtain ⟨identified, _⟩ := evaluateAffected_ok run
    obtain ⟨again, run', correct, _, complete⟩ := evaluateGraph_ok identified valid
    obtain rfl : report = again := Except.ok.inj (run.symm.trans run')
    refine ⟨fun held index => ?_, fun evaluated => ?_⟩
    · obtain ⟨node, _, entry, _, _, carried⟩ := (outputs_isSome_iff correct).mp held
      unfold EvaluatorNode.slotCount at carried
      match rule : node.kind with
      | .parameter _ => rw [rule] at carried; cases carried
      | .expression _ _ => rw [rule] at carried; cases carried
      | .rule source ast outputs allowed =>
        rw [rule] at carried
        have inside := List.count_pos_iff.mp carried
        rw [resolve_rule entry rule, findIdx_declared valid entry rule inside]
        exact resolveOutputs_mem inside index
    · rw [resolve_resolved_iff valid]
      refine ⟨fun one => ⟨(outputs_isSome_iff correct).mpr ?_, one⟩, And.right⟩
      obtain ⟨node, entry, each⟩ := one
      obtain ⟨evaluation, found⟩ := Option.isSome_iff_exists.mp
        (complete _ (Std.ExtTreeMap.mem_iff_isSome_getElem?.mpr (by rw [entry]; rfl)))
      have long := List.length_pos_iff.mpr derived.slotPath.nonempty
      have whole := each (derived.slotPath.segments.length - 1) (by omega)
      rw [Nat.sub_add_cancel long, List.take_length] at whole
      exact ⟨node, evaluation, entry, found, evaluated evaluation found, by omega⟩
  · intro fault failed
    match identified : identity.validate with
    | .ok () =>
      obtain ⟨report, run, _⟩ := evaluateGraph_ok identified valid
      rw [run] at failed
      cases failed
    | .error error =>
      have reason : error = .emptyEvaluationIdentity := by
        unfold EvaluationIdentity.validate at identified
        split at identified <;> cases identified
        rfl
      rw [evaluateGraph, evaluateAffected, identified, reason] at failed
      cases failed
      rfl

end Agree

def slotNamed (key : String) : SlotSegment := ⟨1, "out", key⟩

/-- The path of a front in a drawer. -/
def front : DerivedIdentity :=
  ⟨1, ⟨[slotNamed "drawer", slotNamed "front"], by decide, by decide⟩, by decide⟩

def drawer : RuleOutput := .mk (slotNamed "drawer") [.mk (slotNamed "front") []]

/-- A rule alone. -/
def ruleAlone (source : String) (left : Int) (right : Int) (outputs : List RuleOutput) : Nodes Int :=
  (∅ : Nodes Int).insert 1 ⟨1, "rule", .rule source (.divide (.number left) (.number right)) outputs [], [],
    [⟨"out", .number⟩], [], fun _ is => by cases is; rfl⟩

attribute [local instance] bareDigits

/-- The front of the one drawer is in the report and is resolved. -/
theorem drawer_agrees :
    ∃ report, evaluateGraph (ruleAlone "4 / 2" 4 2 [drawer]) .default = .ok report ∧
      report.outputs[front]?.isSome ∧
      resolveDerivedIdentity (ruleAlone "4 / 2" 4 2 [drawer]) front = .resolved := by
  have valid : validateGraph (ruleAlone "4 / 2" 4 2 [drawer]) = .ok () := by decide +kernel
  obtain ⟨report, run, _⟩ := evaluateGraph_ok
    (show EvaluationIdentity.default.validate = .ok () from rfl) valid
  have held : (evaluateGraph (ruleAlone "4 / 2" 4 2 [drawer]) .default).map (fun report =>
      (report.outputs[front]?.isSome, (report.nodes[1]?.bind NodeEvaluation.value?).isSome)) =
        .ok (true, true) := by decide +kernel
  rw [run] at held
  obtain ⟨held, value⟩ := Prod.mk.inj (Except.ok.inj held)
  refine ⟨report, run, held, (((resolution_agrees valid .default).1 report run front).2 ?_).mpr
    ⟨held, _, rfl, by decide +kernel⟩⟩
  intro evaluation found
  change report.nodes[1]? = _ at found
  rwa [found] at value

/-- Of two drawers one has a front, which the report holds and one slot carries: the resolver cannot tell
the drawers apart. A rule that divides by zero has outputs that are resolved and not in the report. -/
theorem front_ambiguous :
    (let twins := ruleAlone "4 / 2" 4 2 [drawer, .mk (slotNamed "drawer") []]
    ∃ report, validateGraph twins = .ok () ∧ evaluateGraph twins .default = .ok report ∧
      report.outputs[front]?.isSome ∧
      (∀ node, twins[front.rootRuleNodeId]? = some node → node.slotCount front.slotPath.segments = 1) ∧
      resolveDerivedIdentity twins front = .ambiguous 0) ∧
    (let failing := ruleAlone "4 / 0" 4 0 [drawer]
    ∃ report, validateGraph failing = .ok () ∧ evaluateGraph failing .default = .ok report ∧
      report.outputs[front]? = none ∧ resolveDerivedIdentity failing front = .resolved) := by
  constructor
  · have valid : validateGraph (ruleAlone "4 / 2" 4 2 [drawer, .mk (slotNamed "drawer") []]) = .ok () := by
      decide +kernel
    obtain ⟨report, run, _⟩ := evaluateGraph_ok
      (show EvaluationIdentity.default.validate = .ok () from rfl) valid
    have held : (evaluateGraph (ruleAlone "4 / 2" 4 2 [drawer, .mk (slotNamed "drawer") []])
        .default).map (fun report => report.outputs[front]?.isSome) = .ok true := by decide +kernel
    rw [run] at held
    refine ⟨report, valid, run, Except.ok.inj held, fun node entry => ?_, by decide +kernel⟩
    obtain rfl : _ = node := Option.some.inj entry
    decide +kernel
  · have valid : validateGraph (ruleAlone "4 / 0" 4 0 [drawer]) = .ok () := by decide +kernel
    obtain ⟨report, run, _⟩ := evaluateGraph_ok
      (show EvaluationIdentity.default.validate = .ok () from rfl) valid
    have held : (evaluateGraph (ruleAlone "4 / 0" 4 0 [drawer]) .default).map (fun report =>
        report.outputs[front]?.isNone) = .ok true := by decide +kernel
    rw [run] at held
    exact ⟨report, valid, run, Option.isNone_iff_eq_none.mp (Except.ok.inj held), by decide +kernel⟩

end Ketchup.Graph
