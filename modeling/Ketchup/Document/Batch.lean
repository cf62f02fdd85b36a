/-
**Command batches.**

`BatchEdit.apply` is one command applied to the product a batch edits. `batchRevision` is what
`apply_batch` does before it changes the store: every command in turn, what is refreshed and checked
after them, and the evaluation that reuses the current revision's for the nodes the batch did not
affect. `applyBatch` then makes the revision current.
-/

import Ketchup.Document.Store
import Ketchup.Library.Closure

namespace Ketchup.Document

open Ketchup.Graph

/-- The product a batch edits, with what its commands record along the way. -/
structure BatchEdit {F : Type} (K : Kernel F) where
  /-- The revision the batch applies to. -/
  current : K.State
  product : K.Product
  journal : K.Journal
  evaluationIdentity : EvaluationIdentity
  previousEvaluation : Option (EvaluationReport F)

section Nodes

variable {F E : Type}

/-- A node built anew, in its place. -/
def insertNode (nodes : Nodes F) (id : NodeId) (built : Except GraphError (EvaluatorNode F)) :
    Except (CanonicalError E) (Nodes F) :=
  match built with
  | .ok node => .ok (nodes.insert id node)
  | .error error => .error (.graph error)

def createEvaluatorInput (nodes : Nodes F) (id : NodeId) (name : String) (dimension : Dimension F)
    (dependencies : List NodeId) : Except (CanonicalError E) (Nodes F) :=
  if nodes.contains id then .error (.nodeAlreadyExists id)
  else match dependencies.find? fun dependency => !nodes.contains dependency with
    | some dependency => .error (.missingDependency dependency)
    | none => insertNode nodes id (EvaluatorNode.parameter id name dimension dependencies)

variable [Binary64 F]

/-- A rule with another source or other outputs. -/
def rebuildRule (node : EvaluatorNode F) (id : NodeId) (name source : String)
    (outputs : List RuleOutput) : Except GraphError (EvaluatorNode F) :=
  EvaluatorNode.rule id name source node.inputPorts node.outputPorts outputs node.allowedParameters

/-- The nodes after a command on them; evaluating leaves them as they are. -/
def nodesAfter (nodes : Nodes F) : EvaluatorCommand F → Except (CanonicalError E) (Nodes F)
  | .createEvaluatorNode id name dimension dependencies =>
    createEvaluatorInput nodes id name dimension dependencies
  | .deleteEvaluatorNode id =>
    if nodes.contains id then .ok (nodes.erase id) else .error (.nodeNotFound id)
  | .setEvaluatorDimension id dimension =>
    match nodes[id]? with
    | none => .error (.nodeNotFound id)
    | some existing =>
      insertNode nodes id
        (EvaluatorNode.parameter id existing.name dimension existing.dependencies)
  | .renameEvaluatorNode id name =>
    match nodes[id]? with
    | none => .error (.nodeNotFound id)
    | some existing => insertNode nodes id <| match existing.kind with
      | .parameter value => EvaluatorNode.parameter id name value existing.dependencies
      | .expression source _ => EvaluatorNode.expression id name source
      | .rule source _ outputs _ => rebuildRule existing id name source outputs
  | .createExpressionNode id name expression =>
    if nodes.contains id then .error (.nodeAlreadyExists id)
    else insertNode nodes id (EvaluatorNode.expression id name expression)
  | .createRuleNode id name expression inputPorts outputPorts outputs overrideParameters =>
    if nodes.contains id then .error (.nodeAlreadyExists id)
    else insertNode nodes id
      (EvaluatorNode.rule id name expression inputPorts outputPorts outputs overrideParameters)
  | .setNodeExpression id expression =>
    match nodes[id]? with
    | none => .error (.nodeNotFound id)
    | some existing => match existing.kind with
      | .parameter _ => .error (.wrongNodeKind id)
      | .expression _ _ =>
        insertNode nodes id (EvaluatorNode.expression id existing.name expression)
      | .rule _ _ outputs _ =>
        insertNode nodes id (rebuildRule existing id existing.name expression outputs)
  | .setRuleOutputs id outputs =>
    match nodes[id]? with
    | none => .error (.nodeNotFound id)
    | some existing => match existing.kind with
      | .rule source _ _ _ =>
        insertNode nodes id (rebuildRule existing id existing.name source outputs)
      | .parameter _ | .expression _ _ => .error (.wrongNodeKind id)
  | .recomputeFeatureParameters _ _ => .ok nodes

/-- The node a command writes or deletes. -/
def EvaluatorCommand.target? : EvaluatorCommand F → Option NodeId
  | .createEvaluatorNode id _ _ _ | .deleteEvaluatorNode id | .setEvaluatorDimension id _
  | .renameEvaluatorNode id _ | .createExpressionNode id _ _ | .createRuleNode id _ _ _ _ _ _
  | .setNodeExpression id _ | .setRuleOutputs id _ => some id
  | .recomputeFeatureParameters _ _ => none

end Nodes

section Apply

variable {F : Type} [Binary64 F] [Sha256] {K : Kernel F}

/-- One binding of the recomputation: passed over when its root is not affected. -/
def applyBinding (K : Kernel F) (report : EvaluationReport F) (affected : Option (BTreeSet NodeId))
    (collections : K.Collections) (binding : FeatureParameterBinding K.Target) :
    Outcome K.Failure K.Collections :=
  let root := binding.derivedFrom.rootRuleNodeId
  if affected.any fun nodes => !nodes.contains root then .ok collections
  else match report.outputs[binding.derivedFrom]? with
    | none => fail (.failedEvaluation root)
    | some output => do
      let dimension ← attempt CanonicalError.ofDimension
        (Dimension.new (Binary64.display output.value) output.value)
      let collections ← K.setFeatureParameter collections binding.target dimension
      .ok (K.insertProvenance collections binding.target
        ⟨report.identity, output.inputDigest, output.resultDigest, Binary64.toBits output.value⟩)

def recomputeFeatureParameters (product : K.Product) (identity : EvaluationIdentity)
    (affected : Option (BTreeSet NodeId)) (previous : Option (EvaluationReport F)) :
    Outcome K.Failure (EvaluationReport F × K.Product) := do
  let report ← (evaluateAffected product.evaluatorNodes identity previous
    (affected.getD (allNodes product.evaluatorNodes))).mapError (Fault.convert .graph)
  let collections ← (K.featureParameterBindings product.collections).foldlM
    (applyBinding K report affected) product.collections
  .ok (report, { product with collections })

/-- The nodes a recomputation is for; `none` is all of them. -/
def FeatureParameterRecomputeScope.affected (nodes : Nodes F) :
    FeatureParameterRecomputeScope → Option (BTreeSet NodeId)
  | .all => none
  | .affectedBy roots => some (dependentClosure EvaluatorNode.dependencies nodes roots)

def BatchEdit.recompute (edit : BatchEdit K) (identity : EvaluationIdentity)
    (scope : FeatureParameterRecomputeScope) : Outcome K.Failure (BatchEdit K) := do
  let (report, product) ← recomputeFeatureParameters edit.product identity
    (scope.affected edit.product.evaluatorNodes) edit.previousEvaluation
  .ok { edit with
    product, previousEvaluation := some report, evaluationIdentity := report.identity }

def isViewOnly (K : Kernel F) : CanonicalCommand F K.Command → Bool
  | .evaluator _ => false
  | .collections command => K.isViewOnly command

/-- The command itself. -/
def BatchEdit.dispatch (edit : BatchEdit K) :
    CanonicalCommand F K.Command → Outcome K.Failure (BatchEdit K)
  | .evaluator (.recomputeFeatureParameters identity scope) => edit.recompute identity scope
  | .evaluator command => do
    let nodes ← attempt id (nodesAfter edit.product.evaluatorNodes command)
    .ok { edit with product := { edit.product with evaluatorNodes := nodes } }
  | .collections command => do
    let (collections, journal) ← K.apply edit.current edit.product edit.journal command
    .ok { edit with product := { edit.product with collections }, journal }

/-- The command, and the coded paths it made name other definitions. -/
def BatchEdit.apply (edit : BatchEdit K) (command : CanonicalCommand F K.Command) :
    Outcome K.Failure (BatchEdit K) := do
  let edited ← edit.dispatch command
  if isViewOnly K command then .ok edited
  else
    let journal ← K.noteRebound edited.product edited.journal
    .ok { edited with journal }

def BatchEdit.applyAll (edit : BatchEdit K) :
    List (CanonicalCommand F K.Command) → Outcome K.Failure (BatchEdit K)
  | [] => .ok edit
  | command :: rest => do (← edit.apply command).applyAll rest

/-- The nodes a command puts into the roots of what the batch recomputes. A deletion puts none. -/
def evaluatorRoots (K : Kernel F) (collections : K.Collections) :
    CanonicalCommand F K.Command → List NodeId
  | .evaluator (.createEvaluatorNode id _ _ _) | .evaluator (.setEvaluatorDimension id _)
  | .evaluator (.renameEvaluatorNode id _) | .evaluator (.createExpressionNode id _ _)
  | .evaluator (.createRuleNode id _ _ _ _ _ _) | .evaluator (.setNodeExpression id _)
  | .evaluator (.setRuleOutputs id _) => [id]
  | .evaluator (.recomputeFeatureParameters _ .all) =>
    (K.featureParameterBindings collections).map fun binding => binding.derivedFrom.rootRuleNodeId
  | .evaluator (.recomputeFeatureParameters _ (.affectedBy nodes)) => nodes.toList
  | .evaluator (.deleteEvaluatorNode _) | .collections _ => []

/-- What is refreshed and checked after the commands. -/
def settle (current : K.State) (product : K.Product)
    (commands : List (CanonicalCommand F K.Command)) (validateDrawingSources : Bool) :
    Outcome K.Failure K.Product := do
  let viewOnly := commands.all (isViewOnly K)
  let product := { product with collections := ← K.refresh current product viewOnly }
  attempt .graph (validateGraph product.evaluatorNodes)
  let product := { product with collections := K.refreshOverrideHealth product }
  K.validateOverrides product
  -- Showing or hiding parts changes nothing the checks of the model read.
  if viewOnly then K.validateSavedViews product
  else K.validateProductChange (some current.product) product validateDrawingSources
  K.validateSketchProjections product
  K.validateMotionPublication current product commands
  .ok product

/-- The commands after which a program keeps owning the model. -/
def keepsProgram (K : Kernel F) (commands : List (CanonicalCommand F K.Command)) : Bool :=
  let switchesMode := commands.any fun
    | .collections command => K.setsModeledThreads command
    | .evaluator _ => false
  commands.all fun
    | .collections command =>
      K.isViewOnly command || K.setsProductionCode command ||
        (switchesMode && K.switchesThreads command)
    | .evaluator _ => false

namespace DocumentStore

def ruleProgramKeptBy (store : DocumentStore K) (batch : K.Batch) : Option (BoundRuleProgram F) :=
  if keepsProgram K batch.commands then store.currentRevision.ruleProgram else none

/-- What `apply_batch` does before it changes the store: the revision and the id after it. -/
def batchRevision (store : DocumentStore K) (batch : K.Batch) (origin : RevisionOrigin)
    (validateDrawingSources : Bool) : Outcome K.Failure (Revision K × Nat) := do
  if batch.schema ≠ commandSchemaV1 then fail .unsupportedCommandSchema
  else if batch.commands = [] then fail .emptyCommandBatch
  else
    let current := store.current
    let edit ← BatchEdit.applyAll
      { current, product := current.product, journal := K.openJournal current.product
        evaluationIdentity := .default
        previousEvaluation := store.currentRevision.evaluation } batch.commands
    if let some error := K.reboundPath edit.journal then fail error
    else
      let product ← settle current edit.product batch.commands validateDrawingSources
      let followingRevisionId ← nextId (K := K) store.nextRevisionId
      let roots : BTreeSet NodeId :=
        .ofList (batch.commands.flatMap (evaluatorRoots K product.collections)) compare
      let recomputedNodes :=
        dependentClosure EvaluatorNode.dependencies product.evaluatorNodes roots
      let evaluation ← (evaluateAffected product.evaluatorNodes edit.evaluationIdentity
        edit.previousEvaluation recomputedNodes).mapError (Fault.convert .graph)
      let (dirtyFeatures, featureStates) ← K.featureChanges current product edit.journal
      .ok ({ snapshot := ⟨store.nextRevisionId, product⟩
             batchDigest := batchDigest K batch
             origin, checkpoint := none
             ruleProgram := store.ruleProgramKeptBy batch
             recomputedNodes, dirtyFeatures, featureStates
             evaluation := some evaluation }, followingRevisionId)

def applyBatchWithOriginAndValidation (batch : K.Batch) (origin : RevisionOrigin)
    (validateDrawingSources : Bool) : Action (DocumentStore K) K.Failure (Revision K) := do
  let store ← Action.read
  let (revision, followingRevisionId) ← Action.lift
    (store.batchRevision batch origin validateDrawingSources)
  publish revision followingRevisionId
  return revision

def applyBatchWithOrigin (batch : K.Batch) (origin : RevisionOrigin) :
    Action (DocumentStore K) K.Failure (Revision K) :=
  applyBatchWithOriginAndValidation batch origin true

def applyBatch (batch : K.Batch) : Action (DocumentStore K) K.Failure (Revision K) :=
  applyBatchWithOrigin batch (.principal .manualClient)

end DocumentStore

end Apply

end Ketchup.Document
