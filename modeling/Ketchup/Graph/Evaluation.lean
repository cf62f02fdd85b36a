/-
**Evaluation of the graph, from scratch and from an earlier report.**

`evaluateAffected` walks the nodes in topological order. A node that is required is computed from
the evaluations of its dependencies; any other keeps its evaluation in the earlier report when that
report was made under the same identity. `evaluateGraph` is the run that requires every node and
reuses nothing.
-/

import Ketchup.Graph.Node
import Ketchup.Library.Kahn
import Ketchup.Library.Outcome

namespace Ketchup.Graph

variable {F : Type}

/-! ## Order and validity -/

def topologicalOrder (nodes : Nodes F) : Except GraphError (List NodeId) :=
  match Kahn.order EvaluatorNode.dependencies nodes with
  | .ok order => .ok order
  | .error (.missing id) => .error (.missingDependency id)
  | .error (.cyclic id) => .error (.dependencyCycle (id.getD 0))

/-- The checks `validate_graph` makes of one entry. -/
def validateEntry (nodes : Nodes F) (key : NodeId) (node : EvaluatorNode F) :
    Except GraphError Unit := do
  if key ≠ node.id then .error .nodeKeyMismatch
  else
    validateNodeHeader node.id node.name node.dependencies
    match node.dependencies.find? fun dependency => !nodes.contains dependency with
    | some dependency => .error (.missingDependency dependency)
    | none =>
      match node.kind with
      | .rule _ _ outputs _ => validateRuleOutputs node.id node.outputPorts outputs
      | .parameter _ | .expression _ _ => .ok ()

def validateGraph (nodes : Nodes F) : Except GraphError Unit := do
  nodes.toList.forM fun entry => validateEntry nodes entry.1 entry.2
  let _ ← topologicalOrder nodes
  .ok ()

/-! ## Reports -/

structure EvaluationIdentity where
  evaluator : String
  schema : String
  tolerance : String
  backend : Option String
  deriving DecidableEq

/-- The identity of an evaluation that names none. -/
def EvaluationIdentity.default : EvaluationIdentity where
  evaluator := "ketchup.evaluator.numeric.v1"
  schema := "ketchup.graph.schema.v1"
  tolerance := "ketchup.tolerance.r0-v1"
  backend := some "ketchup.backend.in-process.numeric.v1"

def EvaluationIdentity.validate (identity : EvaluationIdentity) : Except GraphError Unit :=
  if identity.evaluator.isEmpty || identity.schema.isEmpty || identity.tolerance.isEmpty ||
      identity.backend.any String.isEmpty then
    .error .emptyEvaluationIdentity
  else .ok ()

structure EvaluationDiagnostic where
  nodeId : NodeId
  code : DiagnosticCode
  message : String
  deriving DecidableEq

inductive EvaluationStatus (F : Type)
  | evaluated (value : F)
  | error (diagnostics : List EvaluationDiagnostic)
  deriving DecidableEq

structure NodeEvaluation (F : Type) where
  status : EvaluationStatus F
  inputDigest : String
  resultDigest : String
  deriving DecidableEq

structure DerivedOutput (F : Type) where
  value : F
  inputDigest : String
  resultDigest : String
  deriving DecidableEq

structure EvaluationReport (F : Type) where
  identity : EvaluationIdentity
  documentId : Option Nat
  revisionId : Option Nat
  canonicalDigest : Option String
  nodes : BTreeMap NodeId (NodeEvaluation F)
  outputs : BTreeMap DerivedIdentity (DerivedOutput F)
  recomputedNodes : BTreeSet NodeId

def NodeEvaluation.value? (evaluation : NodeEvaluation F) : Option F :=
  match evaluation.status with
  | .evaluated value => some value
  | .error _ => none

def diagnosticMessage : DiagnosticCode → String
  | .dependencyFailed => "a dependency did not evaluate"
  | .divisionByZero => "division by zero"
  | .nonFiniteResult => "expression produced a non-finite result"

section Evaluate

variable [Binary64 F] [Sha256]

def nodeInputDigest (node : EvaluatorNode F) (dependencyResults : List String)
    (identity : EvaluationIdentity) : String :=
  Sha256.hex (utf8 "ketchup.node.input.v1" ++ fieldBytes node.canonicalSpecBytes ++
    u64Bytes dependencyResults.length ++ dependencyResults.flatMap stringBytes ++
    stringBytes identity.evaluator ++ stringBytes identity.schema ++
    stringBytes identity.tolerance ++
    match identity.backend with
    | some backend => 1 :: stringBytes backend
    | none => [0])

def diagnosticBytes (diagnostic : EvaluationDiagnostic) : Bytes :=
  u64Bytes diagnostic.nodeId ++
    (match diagnostic.code with
      | .dependencyFailed => (1 : UInt8)
      | .divisionByZero => 2
      | .nonFiniteResult => 3) :: stringBytes diagnostic.message

def nodeResultDigest (inputDigest : String) (status : EvaluationStatus F) : String :=
  Sha256.hex (utf8 "ketchup.node.result.v1" ++ stringBytes inputDigest ++
    match status with
    | .evaluated value => 1 :: u64Bytes (Binary64.toBits value).toNat
    | .error diagnostics =>
      2 :: u64Bytes diagnostics.length ++ diagnostics.flatMap diagnosticBytes)

/-- What a required node evaluates to: by its kind, the evaluations of its dependencies in their
order, and the values computed so far. -/
def nodeEvaluation (identity : EvaluationIdentity) (id : NodeId) (node : EvaluatorNode F)
    (dependencies : List (NodeEvaluation F)) (values : NodeId → Option F) : NodeEvaluation F :=
  let inputDigest :=
    nodeInputDigest node (dependencies.map NodeEvaluation.resultDigest) identity
  let value : Except DiagnosticCode F :=
    if dependencies.any fun dependency => dependency.value?.isNone then .error .dependencyFailed
    else match node.kind with
      | .parameter value => .ok value.millimetres
      | .expression _ ast | .rule _ ast _ _ => ast.evaluate values
  let status : EvaluationStatus F := match value with
    | .ok value => .evaluated value
    | .error code => .error [⟨id, code, diagnosticMessage code⟩]
  ⟨status, inputDigest, nodeResultDigest inputDigest status⟩

/-- The state of the walk over the order. -/
structure Progress (F : Type) where
  values : BTreeMap NodeId F
  evaluations : BTreeMap NodeId (NodeEvaluation F)
  recomputedNodes : BTreeSet NodeId

def Progress.record (progress : Progress F) (id : NodeId) (evaluation : NodeEvaluation F) :
    Progress F :=
  { progress with
    values := match evaluation.value? with
      | some value => progress.values.insert id value
      | none => progress.values
    evaluations := progress.evaluations.insert id evaluation }

/-- The evaluation an earlier report keeps for a node, if reports of its identity may be reused. -/
def reusable (identity : EvaluationIdentity) (previous : Option (EvaluationReport F))
    (id : NodeId) : Option (NodeEvaluation F) :=
  match previous with
  | some report => if report.identity = identity then report.nodes[id]? else none
  | none => none

/-- A dependency no earlier report keeps is required, and goes on the worklist the first time. -/
def require (identity : EvaluationIdentity) (previous : Option (EvaluationReport F))
    (work : List NodeId × BTreeSet NodeId) (dependency : NodeId) : List NodeId × BTreeSet NodeId :=
  if (reusable identity previous dependency).isSome || work.2.contains dependency then work
  else (dependency :: work.1, work.2.insert dependency)

/-- The affected nodes and, of what they depend on, everything no earlier report keeps. The top of
the worklist is at its head. -/
def requiredLoop (nodes : Nodes F) (identity : EvaluationIdentity)
    (previous : Option (EvaluationReport F)) :
    Nat → List NodeId × BTreeSet NodeId → Outcome GraphError (BTreeSet NodeId)
  | _, ([], required) => .ok required
  | 0, (_ :: _, _) => .error .hang
  | fuel + 1, (id :: pending, required) =>
    match nodes[id]? with
    | none => fail (.missingDependency id)
    | some node =>
      requiredLoop nodes identity previous fuel
        (node.dependencies.foldl (require identity previous) (pending, required))

/-- One node of the order. -/
def evaluateStep (nodes : Nodes F) (identity : EvaluationIdentity)
    (previous : Option (EvaluationReport F)) (required : BTreeSet NodeId) (progress : Progress F)
    (id : NodeId) : Outcome GraphError (Progress F) :=
  if required.contains id then do
    let node ← index nodes id
    let dependencies ← node.dependencies.mapM (index progress.evaluations)
    let evaluation :=
      nodeEvaluation identity id node dependencies fun other => progress.values[other]?
    .ok { progress.record id evaluation with
      recomputedNodes := progress.recomputedNodes.insert id }
  else match reusable identity previous id with
    | some prior => .ok (progress.record id prior)
    | none => .ok progress

def evaluateOrder (nodes : Nodes F) (identity : EvaluationIdentity)
    (previous : Option (EvaluationReport F)) (required : BTreeSet NodeId) :
    List NodeId → Progress F → Outcome GraphError (Progress F)
  | [], progress => .ok progress
  | id :: rest, progress => do
    evaluateOrder nodes identity previous required rest
      (← evaluateStep nodes identity previous required progress id)

mutual

/-- The slot paths of an output and of the outputs below it, in preorder. -/
def RuleOutput.paths (before : List SlotSegment) : RuleOutput → List (List SlotSegment)
  | .mk segment children => (before ++ [segment]) :: outputPaths (before ++ [segment]) children

def outputPaths (before : List SlotSegment) : List RuleOutput → List (List SlotSegment)
  | [] => []
  | output :: rest => output.paths before ++ outputPaths before rest

end

abbrev Outputs (F : Type) := BTreeMap DerivedIdentity (DerivedOutput F)

def insertOutputs (id : NodeId) (output : DerivedOutput F) :
    List (List SlotSegment) → Outputs F → Except GraphError (Outputs F)
  | [], outputs => .ok outputs
  | path :: rest, outputs => do
    let slotPath ← SlotPath.new path
    let derived ← DerivedIdentity.new id slotPath
    insertOutputs id output rest (outputs.insert derived output)

/-- The output value and the slot paths of a rule that evaluated. -/
def ruleResult (evaluations : BTreeMap NodeId (NodeEvaluation F)) (id : NodeId)
    (node : EvaluatorNode F) : Option (DerivedOutput F × List (List SlotSegment)) :=
  match node.kind, evaluations[id]? with
  | .rule _ _ outputs _, some ⟨.evaluated value, inputDigest, resultDigest⟩ =>
    some (⟨value, inputDigest, resultDigest⟩, outputPaths [] outputs)
  | _, _ => none

def entryOutputs (evaluations : BTreeMap NodeId (NodeEvaluation F)) (outputs : Outputs F)
    (id : NodeId) (node : EvaluatorNode F) : Except GraphError (Outputs F) :=
  match ruleResult evaluations id node with
  | some (output, paths) => insertOutputs id output paths outputs
  | none => .ok outputs

def deriveOutputs (evaluations : BTreeMap NodeId (NodeEvaluation F)) :
    List (NodeId × EvaluatorNode F) → Outputs F → Except GraphError (Outputs F)
  | [], outputs => .ok outputs
  | (id, node) :: rest, outputs => do
    deriveOutputs evaluations rest (← entryOutputs evaluations outputs id node)

def evaluateAffected (nodes : Nodes F) (identity : EvaluationIdentity)
    (previous : Option (EvaluationReport F)) (affected : BTreeSet NodeId) :
    Outcome GraphError (EvaluationReport F) := do
  attempt id identity.validate
  attempt id (validateGraph nodes)
  let order ← attempt id (topologicalOrder nodes)
  -- Every round takes an affected node or one just found to be required.
  let required ← requiredLoop nodes identity previous (affected.size + nodes.size)
    (affected.toList.reverse, affected)
  let progress ← evaluateOrder nodes identity previous required order ⟨∅, ∅, ∅⟩
  let outputs ← attempt id (deriveOutputs progress.evaluations nodes.toList ∅)
  .ok { identity, documentId := none, revisionId := none, canonicalDigest := none,
        nodes := progress.evaluations, outputs, recomputedNodes := progress.recomputedNodes }

/-- Every node. -/
def allNodes (nodes : Nodes F) : BTreeSet NodeId := .ofList nodes.keys compare

def evaluateGraph (nodes : Nodes F) (identity : EvaluationIdentity) :
    Outcome GraphError (EvaluationReport F) :=
  evaluateAffected nodes identity none (allNodes nodes)

end Evaluate

end Ketchup.Graph
