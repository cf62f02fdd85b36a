/-
**Documents of evaluator nodes alone.**

`Kernel.nodesOnly` is the kernel of documents whose other collections are all empty, with whole
numbers for their values: every function of it is the source's on such a document, and the forms that
are hashed are the serde forms of nodes and commands without what is derived from other fields.
Signatures are made up: a signature is the key before what is signed.
-/

import Ketchup.Document.Batch

namespace Ketchup.Document

open Ketchup.Graph

/-! ### Serde forms -/

section Forms

variable {F : Type} [Binary64 F]

def dimensionForm (dimension : Dimension F) : Bytes :=
  Cbor.map [("source_token", Cbor.text dimension.sourceToken),
    ("millimetres", Cbor.float (Binary64.toBits dimension.millimetres))]

def portForm (port : PortSpec) : Bytes :=
  Cbor.map [("name", Cbor.text port.name),
    ("value_type", Cbor.text (match port.valueType with | .number => "Number"))]

def segmentForm (segment : SlotSegment) : Bytes :=
  Cbor.map [("producer_rule_id", Cbor.unsigned segment.producerRuleId),
    ("output_port", Cbor.text segment.outputPort),
    ("semantic_key", Cbor.text segment.semanticKey)]

mutual

def outputForm : RuleOutput → Bytes
  | .mk segment children =>
    Cbor.map [("segment", segmentForm segment), ("children", Cbor.array (outputForms children))]

def outputForms : List RuleOutput → List Bytes
  | [] => []
  | output :: rest => outputForm output :: outputForms rest

end

def parameterForm (parameter : OverrideParameterSpec) : Bytes :=
  Cbor.map [("name", Cbor.text parameter.name),
    ("merge_policy", Cbor.text (match parameter.mergePolicy with | .replace => "Replace"))]

/-- The tree of an expression is derived from its source, and hashes as a unit. -/
def kindForm : EvaluatorNodeKind F → Bytes
  | .parameter value => Cbor.variant "Parameter" (Cbor.map [("value", dimensionForm value)])
  | .expression source _ =>
    Cbor.variant "Expression" (Cbor.map [("source", Cbor.text source), ("ast", Cbor.null)])
  | .rule source _ outputs allowedParameters =>
    Cbor.variant "Rule" (Cbor.map [("source", Cbor.text source), ("ast", Cbor.null),
      ("outputs", Cbor.array (outputForms outputs)),
      ("allowed_parameters", Cbor.array (allowedParameters.map parameterForm))])

def idsForm (ids : List NodeId) : Bytes := Cbor.array (ids.map Cbor.unsigned)

def nodeForm (node : EvaluatorNode F) : Bytes :=
  Cbor.map [("id", Cbor.unsigned node.id), ("name", Cbor.text node.name),
    ("kind", kindForm node.kind),
    ("input_ports", Cbor.array (node.inputPorts.map portForm)),
    ("output_ports", Cbor.array (node.outputPorts.map portForm)),
    ("dependencies", idsForm node.dependencies)]

def identityForm (identity : EvaluationIdentity) : Bytes :=
  Cbor.map [("evaluator", Cbor.text identity.evaluator), ("schema", Cbor.text identity.schema),
    ("tolerance", Cbor.text identity.tolerance),
    ("backend", Cbor.option (identity.backend.map Cbor.text))]

def scopeForm : FeatureParameterRecomputeScope → Bytes
  | .all => Cbor.text "All"
  | .affectedBy nodes => Cbor.variant "AffectedBy" (idsForm nodes.toList)

def commandForm : EvaluatorCommand F → Bytes
  | .createEvaluatorNode id name dimension dependencies =>
    Cbor.variant "CreateEvaluatorNode" (Cbor.map [("id", Cbor.unsigned id),
      ("name", Cbor.text name), ("dimension", dimensionForm dimension),
      ("dependencies", idsForm dependencies)])
  | .deleteEvaluatorNode id =>
    Cbor.variant "DeleteEvaluatorNode" (Cbor.map [("id", Cbor.unsigned id)])
  | .setEvaluatorDimension id dimension =>
    Cbor.variant "SetEvaluatorDimension" (Cbor.map [("id", Cbor.unsigned id),
      ("dimension", dimensionForm dimension)])
  | .renameEvaluatorNode id name =>
    Cbor.variant "RenameEvaluatorNode" (Cbor.map [("id", Cbor.unsigned id),
      ("name", Cbor.text name)])
  | .createExpressionNode id name expression =>
    Cbor.variant "CreateExpressionNode" (Cbor.map [("id", Cbor.unsigned id),
      ("name", Cbor.text name), ("expression", Cbor.text expression)])
  | .createRuleNode id name expression inputPorts outputPorts outputs overrideParameters =>
    Cbor.variant "CreateRuleNode" (Cbor.map [("id", Cbor.unsigned id), ("name", Cbor.text name),
      ("expression", Cbor.text expression),
      ("input_ports", Cbor.array (inputPorts.map portForm)),
      ("output_ports", Cbor.array (outputPorts.map portForm)),
      ("outputs", Cbor.array (outputForms outputs)),
      ("override_parameters", Cbor.array (overrideParameters.map parameterForm))])
  | .setNodeExpression id expression =>
    Cbor.variant "SetNodeExpression" (Cbor.map [("id", Cbor.unsigned id),
      ("expression", Cbor.text expression)])
  | .setRuleOutputs id outputs =>
    Cbor.variant "SetRuleOutputs" (Cbor.map [("id", Cbor.unsigned id),
      ("outputs", Cbor.array (outputForms outputs))])
  | .recomputeFeatureParameters identity scope =>
    Cbor.variant "RecomputeFeatureParameters" (Cbor.map [("identity", identityForm identity),
      ("scope", scopeForm scope)])

/-! The form of a node is an item. -/

theorem dimensionForm_item (dimension : Dimension F) : Cbor.Item (dimensionForm dimension) :=
  Cbor.item_map (by simp)

omit [Binary64 F] in
theorem portForm_item (port : PortSpec) : Cbor.Item (portForm port) := Cbor.item_map (by simp)

theorem segmentForm_item (segment : SlotSegment) : Cbor.Item (segmentForm segment) :=
  Cbor.item_map (by simp)

mutual

theorem outputForm_item : ∀ output : RuleOutput, Cbor.Item (outputForm output)
  | .mk segment children => by
    have inside := Cbor.item_array (outputForms_item children)
    exact Cbor.item_map (by simp [segmentForm_item, inside])

theorem outputForms_item : ∀ outputs : List RuleOutput, ∀ item ∈ outputForms outputs, Cbor.Item item
  | [] => nofun
  | output :: rest => by
    intro item member
    rcases List.mem_cons.mp member with rfl | later
    · exact outputForm_item output
    · exact outputForms_item rest item later

end

theorem parameterForm_item (parameter : OverrideParameterSpec) :
    Cbor.Item (parameterForm parameter) :=
  Cbor.item_map (by simp)

theorem array_map_item {α : Type} {form : α → Bytes} (items : ∀ value, Cbor.Item (form value))
    (values : List α) : Cbor.Item (Cbor.array (values.map form)) :=
  Cbor.item_array fun item member => by
    obtain ⟨value, _, rfl⟩ := List.mem_map.mp member
    exact items value

theorem kindForm_item (kind : EvaluatorNodeKind F) : Cbor.Item (kindForm kind) := by
  cases kind with
  | parameter value =>
    exact Cbor.item_variant (Cbor.item_map (by simp [dimensionForm_item]))
  | expression source ast => exact Cbor.item_variant (Cbor.item_map (by simp))
  | rule source ast outputs allowedParameters =>
    have inside := Cbor.item_array (outputForms_item outputs)
    have parameters := array_map_item parameterForm_item allowedParameters
    exact Cbor.item_variant (Cbor.item_map (by simp [inside, parameters]))

theorem nodeForm_item (node : EvaluatorNode F) : Cbor.Item (nodeForm node) := by
  have inputs := array_map_item portForm_item node.inputPorts
  have outputs := array_map_item portForm_item node.outputPorts
  have dependencies : Cbor.Item (idsForm node.dependencies) :=
    array_map_item Cbor.item_unsigned node.dependencies
  exact Cbor.item_map (by simp [kindForm_item, inputs, outputs, dependencies])

end Forms

/-! ### Reads and writes of a batch -/

section Dependencies

variable {F : Type} [Binary64 F]

/-- A node and all it depends on, in at most so many steps. -/
def addEvaluatorDependencyClosure (nodes : Nodes F) :
    Nat → NodeId → BTreeSet NodeId → BTreeSet NodeId
  | 0, _, found => found
  | fuel + 1, id, found =>
    if found.contains id then found
    else match nodes[id]? with
      | none => found.insert id
      | some node => node.dependencies.foldl
        (fun found dependency => addEvaluatorDependencyClosure nodes fuel dependency found)
        (found.insert id)

/-- The nodes a command reads: those it names, with all they depend on. -/
def readBy (nodes : Nodes F) (found : BTreeSet NodeId) : EvaluatorCommand F → BTreeSet NodeId
  | .createEvaluatorNode id _ _ dependencies =>
    dependencies.foldl (fun found dependency => close dependency found) (found.insert id)
  | .setEvaluatorDimension id _ | .renameEvaluatorNode id _ | .deleteEvaluatorNode id
  | .setRuleOutputs id _ => close id found
  | .createExpressionNode id _ expression | .createRuleNode id _ expression _ _ _ _ =>
    reads expression (found.insert id)
  | .setNodeExpression id expression => reads expression (close id found)
  | .recomputeFeatureParameters _ _ => found
where
  close (id : NodeId) (found : BTreeSet NodeId) : BTreeSet NodeId :=
    addEvaluatorDependencyClosure nodes (nodes.size + 1) id found
  reads (expression : String) (found : BTreeSet NodeId) : BTreeSet NodeId :=
    match (ExpressionAst.parse expression : Except GraphError (ExpressionAst F)) with
    | .ok ast => ast.dependencies.foldl (fun found dependency => close dependency found) found
    | .error _ => found

/-- The node commands of a batch without others. -/
def nodeCommands (batch : CommandBatch F Empty) : List (EvaluatorCommand F) :=
  batch.commands.map fun
    | .evaluator command => command

end Dependencies

inductive ProposalValue
  | missing
  | dimension (value : Dimension Int)
  deriving DecidableEq

/-- The kernel of documents of evaluator nodes alone. -/
def Kernel.nodesOnly : Kernel Int where
  Collections := Unit
  Command := Empty
  Error := Empty
  Journal := Unit
  Target := Empty
  FeatureStates := Unit
  Dependency := NodeId
  Value := ProposalValue
  Identification := Empty
  Evidence := Empty
  VerifyingKey := Bytes
  dependencyEq := inferInstance
  valueEq := inferInstance
  identificationEq := inferInstance
  isViewOnly := nofun
  setsProductionCode := nofun
  setsModeledThreads := nofun
  switchesThreads := nofun
  openJournal _ := ()
  apply _ _ _ := nofun
  noteRebound _ _ := .ok ()
  reboundPath _ := none
  featureParameterBindings _ := []
  setFeatureParameter _ := nofun
  insertProvenance _ := nofun
  refresh _ _ _ := .ok ()
  refreshOverrideHealth _ := ()
  validateOverrides _ := .ok ()
  validateSavedViews _ := .ok ()
  validateProductChange _ _ _ := .ok ()
  validateSketchProjections _ := .ok ()
  validateMotionPublication _ _ _ := .ok ()
  featureChanges _ _ _ := .ok ([], ())
  featureStates _ := .ok ()
  featureIds _ := []
  hasDefinitions _ := false
  productBytes product :=
    Cbor.map [("document_id", Cbor.unsigned product.documentId),
      ("evaluator_nodes", Cbor.array (product.evaluatorNodes.values.map nodeForm))]
  commandsBytes commands := Cbor.array (commands.map fun
    | .evaluator command => commandForm command)
  dependencyBytes id := Cbor.variant "EvaluatorNode" (Cbor.unsigned id)
  contentBytes product id := Cbor.option (product.evaluatorNodes[id]?.map nodeForm)
  programBytes source := utf8 source.source
  authoritativeDependencies snapshot batch :=
    ((nodeCommands batch).foldl (readBy snapshot.product.evaluatorNodes) ∅).toList
  authoritativeWrites _ batch :=
    ((nodeCommands batch).foldl
      (fun found command => found.insertMany command.target?.toList) (∅ : BTreeSet NodeId)).toList
  proposalValue snapshot id _ :=
    match snapshot.product.evaluatorNodes[id]? with
    | some ⟨_, _, .parameter value, _, _, _, _⟩ => .dimension value
    | _ => .missing
  hasValidLineage _ := false
  featureDefinition _ _ := none
  matchesReference _ _ := false
  anchoredLineages _ := []
  exactReferenceEvidence _ := ∅
  conflictsWithAnchor _ _ _ := false
  holdReferenceEvidence _ _ := ()
  rebindPlanarFaceReference _ _ := none
  withEvidence _ := nofun
  sameEvidence _ _ := true
  verifyingKey bytes := if bytes.length = 32 then some bytes else none
  verify key payload signature := signature == key ++ payload

/-- The digits of the bytes themselves, in place of their hash. -/
abbrev plainDigits : Sha256 where
  hex bytes := String.ofList (bytes.flatMap fun byte =>
    [Nat.digitChar (byte.toNat / 16), Nat.digitChar (byte.toNat % 16)])

/-- A new document without a node. -/
def DocumentStore.blank : DocumentStore Kernel.nodesOnly :=
  single (initialRevision ⟨0, ⟨1, ∅, ()⟩⟩ ()) 1

end Ketchup.Document
