/-
**Evaluator nodes and the checks of their graph.**

A node is a parameter with a dimension, an expression, or a rule with typed ports and a tree of
derived outputs. `EvaluatorNode` carries what its three constructors establish about the expression
it evaluates: the dependencies are the nodes the expression refers to. Every command that changes a
node builds it anew through one of them.

`validateGraph` is the check a batch passes before its graph is evaluated.
-/

import Ketchup.Graph.Expression
import Ketchup.Library.Text
import Mathlib.Data.List.Chain

namespace Ketchup.Graph

def maxRuleOutputDepth : Nat := 64
def maxRuleOutputs : Nat := 16384

/-- `limits::PATH_SEGMENTS`. -/
def pathSegments : Nat := 64

/-! ## Slots -/

structure SlotSegment where
  producerRuleId : NodeId
  outputPort : String
  semanticKey : String
  deriving DecidableEq

section Keys

attribute [local instance] lexOrd

def SlotSegment.key (segment : SlotSegment) : NodeId × String × String :=
  (segment.producerRuleId, segment.outputPort, segment.semanticKey)

theorem SlotSegment.key_injective : Function.Injective SlotSegment.key := by
  rintro ⟨rule, port, semantic⟩ ⟨rule', port', semantic'⟩ same
  simpa [SlotSegment.key] using same

instance : Ord SlotSegment := ⟨compareOn SlotSegment.key⟩
instance : Std.TransOrd SlotSegment := transOrd_of_key SlotSegment.key
instance : Std.LawfulEqOrd SlotSegment := lawfulEqOrd_of_key SlotSegment.key SlotSegment.key_injective

end Keys

/-- A path of slots: not empty and within the segment limit. -/
structure SlotPath where
  segments : List SlotSegment
  nonempty : segments ≠ []
  bounded : segments.length ≤ pathSegments
  deriving DecidableEq

def SlotPath.new (segments : List SlotSegment) : Except GraphError SlotPath :=
  if nonempty : segments = [] then .error .emptySlotPath
  else if bounded : segments.length ≤ pathSegments then .ok ⟨segments, nonempty, bounded⟩
  else .error .slotPathLimit

/-- A value a rule derives: the root rule and the path of output slots to it. -/
structure DerivedIdentity where
  rootRuleNodeId : NodeId
  slotPath : SlotPath
  reserved : rootRuleNodeId ≠ 0
  deriving DecidableEq

def DerivedIdentity.new (rootRuleNodeId : NodeId) (slotPath : SlotPath) :
    Except GraphError DerivedIdentity :=
  if reserved : rootRuleNodeId = 0 then .error .reservedNodeId
  else .ok ⟨rootRuleNodeId, slotPath, reserved⟩

section Keys

attribute [local instance] lexOrd

def DerivedIdentity.key (identity : DerivedIdentity) : NodeId × List SlotSegment :=
  (identity.rootRuleNodeId, identity.slotPath.segments)

theorem DerivedIdentity.key_injective : Function.Injective DerivedIdentity.key := by
  rintro ⟨root, ⟨segments, _, _⟩, _⟩ ⟨root', ⟨segments', _, _⟩, _⟩ same
  simpa [DerivedIdentity.key] using same

instance : Ord DerivedIdentity := ⟨compareOn DerivedIdentity.key⟩
instance : Std.TransOrd DerivedIdentity := transOrd_of_key DerivedIdentity.key
instance : Std.LawfulEqOrd DerivedIdentity :=
  lawfulEqOrd_of_key DerivedIdentity.key DerivedIdentity.key_injective

end Keys

/-- A semantic key or port name: non-empty, at most 256 bytes, no control characters. -/
def ensureSemanticKey (value : String) : Except GraphError Unit :=
  if value.isEmpty || 256 < value.utf8ByteSize || value.toList.any isControl then
    .error .invalidSemanticKey
  else .ok ()

/-! ## Ports, outputs and override parameters -/

inductive ValueType
  | number
  deriving DecidableEq

structure PortSpec where
  name : String
  valueType : ValueType
  deriving DecidableEq

def PortSpec.number (name : String) : Except GraphError PortSpec := do
  ensureSemanticKey name
  .ok ⟨name, .number⟩

inductive OverrideMergePolicy
  | replace
  deriving DecidableEq

structure OverrideParameterSpec where
  name : String
  mergePolicy : OverrideMergePolicy
  deriving DecidableEq

/-- A slot of a rule's output tree. -/
inductive RuleOutput
  | mk (segment : SlotSegment) (children : List RuleOutput)

def RuleOutput.segment : RuleOutput → SlotSegment
  | mk segment _ => segment

def RuleOutput.children : RuleOutput → List RuleOutput
  | mk _ children => children

structure Dimension (F : Type) where
  sourceToken : String
  millimetres : F
  deriving DecidableEq

inductive DimensionError
  | emptySourceToken
  | outsideEnvelope
  deriving DecidableEq

def Dimension.new {F : Type} [Binary64 F] (sourceToken : String) (millimetres : F) :
    Except DimensionError (Dimension F) :=
  if (trim sourceToken).isEmpty then .error .emptySourceToken
  else if !Binary64.isFinite millimetres || Binary64.isRemote millimetres then
    .error .outsideEnvelope
  else .ok ⟨sourceToken, millimetres⟩

inductive EvaluatorNodeKind (F : Type)
  | parameter (value : Dimension F)
  | expression (source : String) (ast : ExpressionAst F)
  | rule (source : String) (ast : ExpressionAst F) (outputs : List RuleOutput)
      (allowedParameters : List OverrideParameterSpec)

/-- The expression a node evaluates. -/
def EvaluatorNodeKind.ast? {F : Type} : EvaluatorNodeKind F → Option (ExpressionAst F)
  | parameter _ => none
  | expression _ ast => some ast
  | rule _ ast _ _ => some ast

structure EvaluatorNode (F : Type) where
  id : NodeId
  name : String
  kind : EvaluatorNodeKind F
  inputPorts : List PortSpec
  outputPorts : List PortSpec
  dependencies : List NodeId
  /-- The dependencies are the nodes the expression refers to. -/
  reads : ∀ ast, kind.ast? = some ast → ast.dependencies = dependencies

/-- The evaluator nodes of a product. -/
abbrev Nodes (F : Type) := BTreeMap NodeId (EvaluatorNode F)

/-! ## Checks -/

section Checks

variable {F : Type}

def validateNodeHeader (id : NodeId) (name : String) (dependencies : List NodeId) :
    Except GraphError Unit :=
  if id = 0 then .error .reservedNodeId
  else if (trim name).isEmpty then .error .emptyNodeName
  else if ¬ dependencies.IsChain (· < ·) then .error .dependenciesNotCanonical
  else if id ∈ dependencies then .error (.dependencyCycle id)
  else .ok ()

/-- Every name is a semantic key and none comes twice. -/
def validateNames (duplicate : GraphError) : List String → List String → Except GraphError Unit
  | _, [] => .ok ()
  | seen, name :: rest => do
    ensureSemanticKey name
    if name ∈ seen then .error duplicate else validateNames duplicate (name :: seen) rest

def validatePorts (ports : List PortSpec) : Except GraphError Unit :=
  validateNames .duplicatePort [] (ports.map PortSpec.name)

def validateOverrideParameters (parameters : List OverrideParameterSpec) :
    Except GraphError Unit :=
  validateNames .duplicateOverrideParameter [] (parameters.map OverrideParameterSpec.name)

/-- The worklist of `validate_rule_outputs`, its top at the head. Every round counts one output, so
one round more than the output limit is fuel enough. -/
def validateOutputLoop (ruleId : NodeId) (portNames : List String) :
    Nat → Nat → List (RuleOutput × Nat) → Except GraphError Unit
  | 0, _, _ => .error .ruleOutputLimit
  | _ + 1, _, [] => .ok ()
  | fuel + 1, count, (output, depth) :: stack =>
    if maxRuleOutputs < count + 1 then .error .ruleOutputLimit
    else if maxRuleOutputDepth < depth then .error .ruleOutputDepthLimit
    else if output.segment.producerRuleId ≠ ruleId then .error .invalidOutputProducer
    else if output.segment.outputPort ∉ portNames then .error .unknownOutputPort
    else validateOutputLoop ruleId portNames fuel (count + 1)
      ((output.children.map (·, depth + 1)).reverse ++ stack)

def validateRuleOutputs (ruleId : NodeId) (ports : List PortSpec) (outputs : List RuleOutput) :
    Except GraphError Unit :=
  validateOutputLoop ruleId (ports.map PortSpec.name) (maxRuleOutputs + 2) 0
    (outputs.map (·, 1)).reverse

/-! ## The constructors -/

def EvaluatorNode.parameter (id : NodeId) (name : String) (value : Dimension F)
    (dependencies : List NodeId) : Except GraphError (EvaluatorNode F) := do
  validateNodeHeader id name dependencies
  let inputPorts ← dependencies.mapM fun dependency => PortSpec.number s!"node_{dependency}"
  let outputPort ← PortSpec.number "value"
  .ok ⟨id, name, .parameter value, inputPorts, [outputPort], dependencies, nofun⟩

variable [Binary64 F]

def EvaluatorNode.expression (id : NodeId) (name source : String) :
    Except GraphError (EvaluatorNode F) := do
  let ast ← ExpressionAst.parse source
  let dependencies := ast.dependencies
  validateNodeHeader id name dependencies
  let inputPorts ← dependencies.mapM fun dependency => PortSpec.number s!"node_{dependency}"
  let outputPort ← PortSpec.number "value"
  .ok ⟨id, name, .expression source ast, inputPorts, [outputPort], dependencies,
    fun _ same => by cases same; rfl⟩

def EvaluatorNode.rule (id : NodeId) (name source : String) (inputPorts outputPorts : List PortSpec)
    (outputs : List RuleOutput) (allowedParameters : List OverrideParameterSpec) :
    Except GraphError (EvaluatorNode F) := do
  let ast ← ExpressionAst.parse source
  let dependencies := ast.dependencies
  validateNodeHeader id name dependencies
  validatePorts inputPorts
  validatePorts outputPorts
  validateOverrideParameters allowedParameters
  if outputPorts.isEmpty then .error .emptyOutputPorts
  else
    validateRuleOutputs id outputPorts outputs
    .ok ⟨id, name, .rule source ast outputs allowedParameters, inputPorts, outputPorts,
      dependencies, fun _ same => by cases same; rfl⟩

/-! ## Resolution of slots -/

inductive SlotResolution
  | resolved
  | ambiguous (segmentIndex : Nat)
  | lost (segmentIndex : Nat)
  deriving DecidableEq

/-- `resolve_outputs` from the segment at `index` on. -/
def resolveOutputs (index : Nat) (candidates : List RuleOutput) :
    List SlotSegment → SlotResolution
  | [] => .resolved
  | segment :: rest =>
    match candidates.filter fun output => decide (output.segment = segment) with
    | [] => .lost index
    | [output] => resolveOutputs (index + 1) output.children rest
    | _ => .ambiguous index

/-- Whether a segment's producer is the root and declares the segment's port. -/
def segmentDeclared (nodes : Nodes F) (root : NodeId) (segment : SlotSegment) : Bool :=
  segment.producerRuleId == root &&
    match nodes[segment.producerRuleId]? with
    | some ⟨_, _, .rule .., _, outputPorts, _, _⟩ =>
      outputPorts.any fun port => port.name == segment.outputPort
    | _ => false

def resolveDerivedIdentity (nodes : Nodes F) (identity : DerivedIdentity) : SlotResolution :=
  match nodes[identity.rootRuleNodeId]? with
  | some ⟨_, _, .rule _ _ outputs _, _, _, _, _⟩ =>
    let segments := identity.slotPath.segments
    match segments.findIdx? fun segment => !segmentDeclared nodes identity.rootRuleNodeId segment with
    | some index => .lost index
    | none => resolveOutputs 0 outputs segments
  | _ => .lost 0

def EvaluatorNode.allowedParameters (node : EvaluatorNode F) : List OverrideParameterSpec :=
  match node.kind with
  | .rule _ _ _ allowedParameters => allowedParameters
  | .parameter _ | .expression _ _ => []

end Checks

/-! ## The bytes a node is hashed over -/

section Bytes

variable {F : Type} [Binary64 F]

def portsBytes (ports : List PortSpec) : Bytes :=
  u64Bytes ports.length ++ ports.flatMap fun port =>
    stringBytes port.name ++ [match port.valueType with | .number => (1 : UInt8)]

def idsBytes (ids : List NodeId) : Bytes := u64Bytes ids.length ++ ids.flatMap u64Bytes

mutual

/-- One output of `push_outputs` and, after it, its children. -/
def RuleOutput.bytes : RuleOutput → Bytes
  | .mk segment children =>
    u64Bytes segment.producerRuleId ++ stringBytes segment.outputPort ++
      stringBytes segment.semanticKey ++ u64Bytes children.length ++ outputListBytes children

def outputListBytes : List RuleOutput → Bytes
  | [] => []
  | output :: rest => output.bytes ++ outputListBytes rest

end

/-- What `canonical_spec_bytes` writes of a kind: the source, not the tree parsed from it. -/
def EvaluatorNodeKind.bytes : EvaluatorNodeKind F → Bytes
  | parameter value =>
    1 :: stringBytes value.sourceToken ++ u64Bytes (Binary64.toBits value.millimetres).toNat
  | expression source _ => 2 :: stringBytes source
  | rule source _ outputs allowedParameters =>
    3 :: stringBytes source ++ u64Bytes outputs.length ++ outputListBytes outputs ++
      u64Bytes allowedParameters.length ++ allowedParameters.flatMap fun parameter =>
        stringBytes parameter.name ++ [match parameter.mergePolicy with | .replace => (1 : UInt8)]

def EvaluatorNode.canonicalSpecBytes (node : EvaluatorNode F) : Bytes :=
  u64Bytes node.id ++ stringBytes node.name ++ portsBytes node.inputPorts ++
    portsBytes node.outputPorts ++ idsBytes node.dependencies ++ node.kind.bytes

end Bytes

end Ketchup.Graph
