/-
**What the input digest of a node tells.**

The text a node is hashed over gives back its spec, the results of its dependencies and the identity
of the evaluation: every text stands after its length, every list after its number, every choice after
a mark, and a tree of outputs in preorder with the number of children of each (`outputs_code`). What
is not in it is the tree of an expression, which the constructors parse from the source that is
(`EvaluatorNode.Parsed`).
-/

import Ketchup.Graph.Evaluation
import Ketchup.Library.PrefixCode
import Ketchup.Library.Sha256

namespace Ketchup.Graph

variable {F : Type}

/-! ### What a spec says -/

def EvaluatorNodeKind.source : EvaluatorNodeKind F → String
  | parameter value => value.sourceToken
  | expression source _ => source
  | rule source _ _ _ => source

/-- The two kinds agree in everything but the trees of their expressions. -/
def EvaluatorNodeKind.SameSpec : EvaluatorNodeKind F → EvaluatorNodeKind F → Prop
  | parameter value, parameter other => value = other
  | expression source _, expression other _ => source = other
  | rule source _ outputs allowed, rule source' _ outputs' allowed' =>
    source = source' ∧ outputs = outputs' ∧ allowed = allowed'
  | _, _ => False

/-- The two nodes agree in everything but the trees of their expressions. -/
structure EvaluatorNode.SameSpec (first second : EvaluatorNode F) : Prop where
  id : first.id = second.id
  name : first.name = second.name
  inputPorts : first.inputPorts = second.inputPorts
  outputPorts : first.outputPorts = second.outputPorts
  dependencies : first.dependencies = second.dependencies
  kind : first.kind.SameSpec second.kind

/-- A node's tree is what its source parses to. -/
def EvaluatorNode.Parsed [Binary64 F] (node : EvaluatorNode F) : Prop :=
  ∀ ast, node.kind.ast? = some ast → ExpressionAst.parse node.kind.source = .ok ast

section Parsed

variable [Binary64 F] {id : NodeId} {name source : String} {node : EvaluatorNode F}

theorem EvaluatorNode.parameter_parsed {value : Dimension F} {dependencies : List NodeId}
    (ok : EvaluatorNode.parameter id name value dependencies = .ok node) : node.Parsed := by
  obtain ⟨_, _, ok⟩ := bind_ok ok
  obtain ⟨_, _, ok⟩ := bind_ok ok
  obtain ⟨_, _, ok⟩ := bind_ok ok
  cases ok
  exact nofun

theorem EvaluatorNode.expression_parsed
    (ok : EvaluatorNode.expression id name source = .ok node) : node.Parsed := by
  obtain ⟨ast, parsed, ok⟩ := bind_ok ok
  obtain ⟨_, _, ok⟩ := bind_ok ok
  obtain ⟨_, _, ok⟩ := bind_ok ok
  obtain ⟨_, _, ok⟩ := bind_ok ok
  cases ok
  intro tree is
  cases is
  exact parsed

theorem EvaluatorNode.rule_parsed {inputPorts outputPorts : List PortSpec} {outputs : List RuleOutput}
    {allowed : List OverrideParameterSpec}
    (ok : EvaluatorNode.rule id name source inputPorts outputPorts outputs allowed = .ok node) :
    node.Parsed := by
  obtain ⟨ast, parsed, ok⟩ := bind_ok ok
  obtain ⟨_, _, ok⟩ := bind_ok ok
  obtain ⟨_, _, ok⟩ := bind_ok ok
  obtain ⟨_, _, ok⟩ := bind_ok ok
  obtain ⟨_, _, ok⟩ := bind_ok ok
  split at ok
  · cases ok
  · obtain ⟨_, _, ok⟩ := bind_ok ok
    cases ok
    intro tree is
    cases is
    exact parsed

end Parsed

/-- Nodes of one spec whose trees are parsed from it are one node. -/
theorem EvaluatorNode.SameSpec.eq [Binary64 F] {first second : EvaluatorNode F}
    (same : first.SameSpec second) (one : first.Parsed) (two : second.Parsed) : first = second := by
  obtain ⟨id, name, kind, inputPorts, outputPorts, dependencies, reads⟩ := first
  obtain ⟨id', name', kind', inputPorts', outputPorts', dependencies', reads'⟩ := second
  obtain ⟨rfl, rfl, rfl, rfl, rfl, kinds⟩ := same
  suffices kind = kind' by subst this; rfl
  cases kind <;> cases kind' <;> try exact kinds.elim
  case parameter.parameter => exact congrArg _ kinds
  case expression.expression source ast source' ast' =>
    obtain rfl : source = source' := kinds
    rw [Except.ok.inj ((one ast rfl).symm.trans (two ast' rfl))]
  case rule.rule source ast _ _ source' ast' _ _ =>
    obtain ⟨rfl, rfl, rfl⟩ : source = source' ∧ _ := kinds
    rw [Except.ok.inj ((one ast rfl).symm.trans (two ast' rfl))]

/-! ### The ranges of the types -/

def SlotSegment.InRange (segment : SlotSegment) : Prop :=
  segment.producerRuleId < 2 ^ 64 ∧ segment.outputPort.utf8ByteSize < 2 ^ 64 ∧
    segment.semanticKey.utf8ByteSize < 2 ^ 64

mutual

def RuleOutput.InRange : RuleOutput → Prop
  | .mk segment children =>
    segment.InRange ∧ children.length < 2 ^ 64 ∧ outputsInRange children

def outputsInRange : List RuleOutput → Prop
  | [] => True
  | output :: rest => output.InRange ∧ outputsInRange rest

end

def portsInRange (ports : List PortSpec) : Prop :=
  ports.length < 2 ^ 64 ∧ ∀ port ∈ ports, port.name.utf8ByteSize < 2 ^ 64

/-- Numbers and lengths fit, and a dimension is one of the doubles. -/
def EvaluatorNodeKind.InRange (doubles : Set F) : EvaluatorNodeKind F → Prop
  | parameter value => value.sourceToken.utf8ByteSize < 2 ^ 64 ∧ value.millimetres ∈ doubles
  | expression source _ => source.utf8ByteSize < 2 ^ 64
  | rule source _ outputs allowed =>
    source.utf8ByteSize < 2 ^ 64 ∧ (outputs.length < 2 ^ 64 ∧ outputsInRange outputs) ∧
      allowed.length < 2 ^ 64 ∧ ∀ parameter ∈ allowed, parameter.name.utf8ByteSize < 2 ^ 64

structure EvaluatorNode.InRange [Binary64 F] (doubles : Set F) (node : EvaluatorNode F) : Prop where
  id : node.id < 2 ^ 64
  name : node.name.utf8ByteSize < 2 ^ 64
  inputPorts : portsInRange node.inputPorts
  outputPorts : portsInRange node.outputPorts
  dependencies : node.dependencies.length < 2 ^ 64 ∧ ∀ id ∈ node.dependencies, id < 2 ^ 64
  kind : node.kind.InRange doubles
  bytes : node.canonicalSpecBytes.length < 2 ^ 64

structure EvaluationIdentity.InRange (identity : EvaluationIdentity) : Prop where
  evaluator : identity.evaluator.utf8ByteSize < 2 ^ 64
  schema : identity.schema.utf8ByteSize < 2 ^ 64
  tolerance : identity.tolerance.utf8ByteSize < 2 ^ 64
  backend : ∀ backend ∈ identity.backend, backend.utf8ByteSize < 2 ^ 64

/-! ### The parts of a spec -/

theorem ports_code : PrefixCode portsInRange portsBytes := by
  refine u64Bytes_code.list ?_
  intro first second one two rest rest' same
  obtain ⟨name, ⟨⟩⟩ := first
  obtain ⟨name', ⟨⟩⟩ := second
  rw [List.append_assoc, List.append_assoc] at same
  obtain ⟨names, same⟩ := stringBytes_code one two same
  exact ⟨congrArg (PortSpec.mk · .number) names, (List.cons.inj same).2⟩

theorem ids_code : PrefixCode (fun ids : List NodeId => ids.length < 2 ^ 64 ∧ ∀ id ∈ ids, id < 2 ^ 64)
    idsBytes :=
  u64Bytes_code.list u64Bytes_code

theorem allowed_code : PrefixCode
    (fun allowed : List OverrideParameterSpec =>
      allowed.length < 2 ^ 64 ∧ ∀ parameter ∈ allowed, parameter.name.utf8ByteSize < 2 ^ 64)
    fun allowed => u64Bytes allowed.length ++ allowed.flatMap fun parameter =>
      stringBytes parameter.name ++ [match parameter.mergePolicy with | .replace => (1 : UInt8)] := by
  have parameter_code : PrefixCode
      (fun parameter : OverrideParameterSpec => parameter.name.utf8ByteSize < 2 ^ 64) fun parameter =>
        stringBytes parameter.name ++
          [match parameter.mergePolicy with | .replace => (1 : UInt8)] := by
    intro first second one two rest rest' same
    obtain ⟨name, ⟨⟩⟩ := first
    obtain ⟨name', ⟨⟩⟩ := second
    rw [List.append_assoc, List.append_assoc] at same
    obtain ⟨names, same⟩ := stringBytes_code one two same
    exact ⟨congrArg (OverrideParameterSpec.mk · .replace) names, (List.cons.inj same).2⟩
  exact u64Bytes_code.list parameter_code

mutual

theorem RuleOutput.bytes_inj : ∀ {first second : RuleOutput}, first.InRange → second.InRange →
    ∀ {rest rest' : Bytes}, first.bytes ++ rest = second.bytes ++ rest' →
      first = second ∧ rest = rest'
  | .mk ⟨producer, port, key⟩ children, .mk ⟨producer', port', key'⟩ children', one, two, rest, rest',
      same => by
    simp only [RuleOutput.bytes, List.append_assoc] at same
    obtain ⟨⟨number, name, semantic⟩, count, below⟩ := one
    obtain ⟨⟨number', name', semantic'⟩, count', below'⟩ := two
    obtain ⟨producers, same⟩ := u64Bytes_code number number' same
    obtain ⟨ports, same⟩ := stringBytes_code name name' same
    obtain ⟨keys, same⟩ := stringBytes_code semantic semantic' same
    obtain ⟨lengths, same⟩ := u64Bytes_code count count' same
    obtain ⟨trees, rests⟩ := outputListBytes_inj below below' lengths same
    simp only at producers ports keys
    exact ⟨by rw [producers, ports, keys, trees], rests⟩

/-- Outputs of one number: where the first ends, the second does. -/
theorem outputListBytes_inj : ∀ {first second : List RuleOutput}, outputsInRange first →
    outputsInRange second → first.length = second.length → ∀ {rest rest' : Bytes},
      outputListBytes first ++ rest = outputListBytes second ++ rest' → first = second ∧ rest = rest'
  | [], [], _, _, _, _, _, same => ⟨rfl, same⟩
  | output :: outputs, other :: others, one, two, lengths, rest, rest', same => by
    simp only [outputListBytes, List.append_assoc] at same
    obtain ⟨here, same⟩ := RuleOutput.bytes_inj one.1 two.1 same
    obtain ⟨later, rests⟩ := outputListBytes_inj one.2 two.2 (Nat.succ.inj lengths) same
    exact ⟨by rw [here, later], rests⟩

end

/-- **A tree of outputs is read back from its bytes.** -/
theorem outputs_code : PrefixCode
    (fun outputs : List RuleOutput => outputs.length < 2 ^ 64 ∧ outputsInRange outputs)
    fun outputs => u64Bytes outputs.length ++ outputListBytes outputs := by
  intro first second one two rest rest' same
  rw [List.append_assoc, List.append_assoc] at same
  obtain ⟨lengths, same⟩ := u64Bytes_code one.1 two.1 same
  exact outputListBytes_inj one.2 two.2 lengths same

section Spec

variable [Binary64 F] {doubles : Set F}

/-- A kind is read back from its bytes, its tree apart. -/
theorem kind_bytes_inj (exact : Set.InjOn (Binary64.toBits : F → UInt64) doubles)
    {first second : EvaluatorNodeKind F} (one : first.InRange doubles) (two : second.InRange doubles)
    {rest rest' : Bytes} (same : first.bytes ++ rest = second.bytes ++ rest') :
    first.SameSpec second ∧ rest = rest' := by
  -- Kinds of different sorts differ in their first byte.
  cases first <;> cases second <;> try exact absurd (List.cons.inj same).1 (by decide)
  case parameter.parameter value other =>
    have same := (List.cons.inj same).2
    simp only [List.append_eq, List.append_assoc] at same
    obtain ⟨tokens, same⟩ := stringBytes_code one.1 two.1 same
    obtain ⟨bits, rests⟩ := u64Bytes_code (UInt64.toNat_lt _) (UInt64.toNat_lt _) same
    have values := exact one.2 two.2 (UInt64.toNat_inj.mp bits)
    obtain ⟨token, millimetres⟩ := value
    obtain ⟨token', millimetres'⟩ := other
    exact ⟨show Dimension.mk _ _ = Dimension.mk _ _ from congr (congrArg Dimension.mk tokens) values, rests⟩
  case expression.expression =>
    obtain ⟨sources, rests⟩ := stringBytes_code one two (List.cons.inj same).2
    exact ⟨sources, rests⟩
  case rule.rule =>
    have same := (List.cons.inj same).2
    simp only [List.append_eq, List.append_assoc] at same
    obtain ⟨sources, same⟩ := stringBytes_code one.1 two.1 same
    simp only [← List.append_assoc (u64Bytes _) (outputListBytes _)] at same
    obtain ⟨outputs, same⟩ := outputs_code one.2.1 two.2.1 same
    simp only [← List.append_assoc] at same
    obtain ⟨allowed, rests⟩ := allowed_code one.2.2 two.2.2 same
    exact ⟨⟨sources, outputs, allowed⟩, rests⟩

/-- **A spec is read back from its bytes**, its tree apart. -/
theorem canonicalSpecBytes_inj (exact : Set.InjOn (Binary64.toBits : F → UInt64) doubles)
    {first second : EvaluatorNode F} (one : first.InRange doubles) (two : second.InRange doubles)
    (same : first.canonicalSpecBytes = second.canonicalSpecBytes) : first.SameSpec second := by
  have same : first.canonicalSpecBytes ++ [] = second.canonicalSpecBytes ++ [] := by rw [same]
  simp only [EvaluatorNode.canonicalSpecBytes, List.append_assoc] at same
  obtain ⟨ids, same⟩ := u64Bytes_code one.id two.id same
  obtain ⟨names, same⟩ := stringBytes_code one.name two.name same
  obtain ⟨inputs, same⟩ := ports_code one.inputPorts two.inputPorts same
  obtain ⟨outputs, same⟩ := ports_code one.outputPorts two.outputPorts same
  obtain ⟨dependencies, same⟩ := ids_code one.dependencies two.dependencies same
  obtain ⟨kinds, _⟩ := kind_bytes_inj exact one.kind two.kind same
  exact ⟨ids, names, inputs, outputs, dependencies, kinds⟩

/-! ### The digest -/

def identityBytes (identity : EvaluationIdentity) : Bytes :=
  stringBytes identity.evaluator ++ stringBytes identity.schema ++
    stringBytes identity.tolerance ++
    match identity.backend with
    | some backend => 1 :: stringBytes backend
    | none => [0]

theorem identity_code : PrefixCode EvaluationIdentity.InRange identityBytes := by
  intro first second one two rest rest' same
  simp only [identityBytes, List.append_assoc] at same
  obtain ⟨evaluators, same⟩ := stringBytes_code one.evaluator two.evaluator same
  obtain ⟨schemas, same⟩ := stringBytes_code one.schema two.schema same
  obtain ⟨tolerances, same⟩ := stringBytes_code one.tolerance two.tolerance same
  obtain ⟨evaluator, schema, tolerance, backend⟩ := first
  obtain ⟨evaluator', schema', tolerance', backend'⟩ := second
  simp only at evaluators schemas tolerances
  subst evaluators schemas tolerances
  have apart : (1 : UInt8) ≠ 0 := by decide
  cases backend with
  | none =>
    cases backend' with
    | none => exact ⟨rfl, (List.cons.inj same).2⟩
    | some other => exact absurd (List.cons.inj same).1.symm apart
  | some name =>
    cases backend' with
    | none => exact absurd (List.cons.inj same).1 apart
    | some other =>
      obtain ⟨names, rests⟩ := stringBytes_code (one.backend name rfl) (two.backend other rfl)
        (List.cons.inj same).2
      exact ⟨by rw [names], rests⟩

/-- The text `node_input_digest` hashes. -/
def nodeInputBytes (node : EvaluatorNode F) (dependencyResults : List String)
    (identity : EvaluationIdentity) : Bytes :=
  utf8 "ketchup.node.input.v1" ++ fieldBytes node.canonicalSpecBytes ++
    (u64Bytes dependencyResults.length ++ dependencyResults.flatMap stringBytes) ++
    identityBytes identity

theorem nodeInputDigest_eq [Sha256] (node : EvaluatorNode F) (dependencyResults : List String)
    (identity : EvaluationIdentity) :
    nodeInputDigest node dependencyResults identity =
      Sha256.hex (nodeInputBytes node dependencyResults identity) := by
  obtain ⟨evaluator, schema, tolerance, _ | backend⟩ := identity <;>
    simp only [nodeInputDigest, nodeInputBytes, identityBytes, List.append_assoc]

/-- What a digest is taken of has the ranges of its types. -/
structure InputInRange (doubles : Set F) (node : EvaluatorNode F) (dependencyResults : List String)
    (identity : EvaluationIdentity) : Prop where
  node : node.InRange doubles
  results : dependencyResults.length < 2 ^ 64 ∧
    ∀ result ∈ dependencyResults, result.utf8ByteSize < 2 ^ 64
  identity : identity.InRange

/-- **An input digest tells the node and all that it was evaluated from.** Where SHA-256 keeps the two
texts apart and doubles have their own bits, nodes with one digest have one spec, the same results of
their dependencies in the same order and one identity; they are one node when their trees are parsed
from their sources. -/
theorem nodeInputDigest_injective [Sha256]
    (exact : Set.InjOn (Binary64.toBits : F → UInt64) doubles) {first second : EvaluatorNode F}
    {results results' : List String} {identity identity' : EvaluationIdentity}
    (one : InputInRange doubles first results identity)
    (two : InputInRange doubles second results' identity')
    (distinct : Set.InjOn Sha256.hex
      {nodeInputBytes first results identity, nodeInputBytes second results' identity'})
    (same : nodeInputDigest first results identity = nodeInputDigest second results' identity') :
    first.SameSpec second ∧ results = results' ∧ identity = identity' ∧
      (first.Parsed → second.Parsed → first = second) := by
  rw [nodeInputDigest_eq, nodeInputDigest_eq] at same
  have texts := distinct (Or.inl rfl) (Or.inr rfl) same
  have texts : nodeInputBytes first results identity ++ [] =
      nodeInputBytes second results' identity' ++ [] := by rw [texts]
  simp only [nodeInputBytes, List.append_assoc] at texts
  have texts := List.append_cancel_left texts
  obtain ⟨specs, texts⟩ := fieldBytes_code one.node.bytes two.node.bytes texts
  simp only [← List.append_assoc (u64Bytes _) (List.flatMap _ _)] at texts
  obtain ⟨equal, texts⟩ := u64Bytes_code.list stringBytes_code one.results two.results texts
  obtain ⟨identities, _⟩ := identity_code one.identity two.identity texts
  have spec := canonicalSpecBytes_inj exact one.node two.node specs
  exact ⟨spec, equal, identities, spec.eq⟩

end Spec

/-- The source `1` with some number for its tree. -/
def oneNode (value : Int) : EvaluatorNode Int :=
  ⟨1, "one", .expression "1" (.number value), [], [⟨"value", .number⟩], [],
    fun _ is => by cases is; rfl⟩

theorem oneNode_inRange : InputInRange ∅ (oneNode 1) ["result"] .default where
  node := {
    id := by decide
    name := by decide
    inputPorts := ⟨by decide, nofun⟩
    outputPorts := ⟨by decide, by decide⟩
    dependencies := ⟨by decide, nofun⟩
    kind := show String.utf8ByteSize "1" < _ by decide
    bytes := by decide +kernel }
  results := ⟨by decide, by decide⟩
  identity := ⟨by decide, by decide, by decide, by decide⟩

attribute [local instance] bareDigits in
/-- One digest, and what it was made of. -/
theorem oneNode_digest :
    (oneNode 1).SameSpec (oneNode 1) ∧ ["result"] = ["result"] ∧
      EvaluationIdentity.default = EvaluationIdentity.default ∧
        ((oneNode 1).Parsed → (oneNode 1).Parsed → oneNode 1 = oneNode 1) :=
  nodeInputDigest_injective (Set.injOn_empty _) oneNode_inRange oneNode_inRange
    hexDigits_injective.injOn rfl

attribute [local instance] bareDigits in
/-- Two trees under one source have one digest, and evaluate to different values. -/
theorem one_digest_two_trees :
    validateGraph ((∅ : Nodes Int).insert 1 (oneNode 1)) = .ok () ∧
      validateGraph ((∅ : Nodes Int).insert 1 (oneNode 2)) = .ok () ∧
      nodeInputDigest (oneNode 1) [] .default = nodeInputDigest (oneNode 2) [] .default ∧
      oneNode 1 ≠ oneNode 2 := by
  refine ⟨by decide +kernel, by decide +kernel, rfl, fun same => ?_⟩
  have trees : (oneNode 1).kind.ast? = (oneNode 2).kind.ast? := by rw [same]
  exact absurd trees (by decide)

end Ketchup.Graph
