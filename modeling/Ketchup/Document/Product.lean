/-
**Products, commands and rule programs.**

A product is its evaluator nodes and its other collections, a type `R` here: what the commands on the
graph and its evaluation read of a product is the nodes, and of the other commands, a type `C`, none
touches a node. `E` are the errors of the checks on the other collections.

`RuleProgramSource` is the program a revision may be bound to, with its checks.
-/

import Ketchup.Graph.Evaluation
import Ketchup.Library.Cbor
import Ketchup.Library.StableDigest

namespace Ketchup.Document

open Ketchup.Graph

abbrev DocumentId := Nat

structure ProductModel (F R : Type) where
  documentId : DocumentId
  evaluatorNodes : Nodes F
  collections : R

structure Snapshot (F R : Type) where
  revisionId : Nat
  product : ProductModel F R

abbrev Snapshot.documentId {F R : Type} (snapshot : Snapshot F R) : DocumentId :=
  snapshot.product.documentId

/-! ## Rule programs -/

def maxRuleProgramBytes : Nat := 1024 * 1024
def maxRuleProgramVariants : Nat := 64

inductive RuleProgramError
  | noNewHeadRevision
  | alreadyBound
  | notProgramOwned
  | emptySource
  | nonFiniteOverride
  | tooLarge (bytes : Nat)
  | emptyVariantName
  | nonFiniteVariantValue (variant parameter : String)
  | tooManyVariants (count : Nat)
  deriving DecidableEq

structure RuleProgramSource (F : Type) where
  fileName : String
  source : String
  overrides : BTreeMap String F
  variants : BTreeMap String (BTreeMap String F)

section Programs

variable {F : Type} [Binary64 F]

/-- The check of one named variant. -/
def validateVariant (name : String) (values : BTreeMap String F) : Except RuleProgramError Unit :=
  if (trim name).isEmpty then .error .emptyVariantName
  else match values.toList.find? fun entry => !Binary64.isFinite entry.2 with
    | some (parameter, _) => .error (.nonFiniteVariantValue name parameter)
    | none => .ok ()

def RuleProgramSource.validate (source : RuleProgramSource F) : Except RuleProgramError Unit :=
  if source.source.isEmpty then .error .emptySource
  else if ¬ source.overrides.values.all Binary64.isFinite then .error .nonFiniteOverride
  else if maxRuleProgramVariants < source.variants.size then
    .error (.tooManyVariants source.variants.size)
  else source.variants.toList.forM fun entry => validateVariant entry.1 entry.2

/-- `==` of two maps of values. -/
def sameValues (first second : BTreeMap String F) : Bool :=
  first.keys == second.keys &&
    (first.values.zip second.values).all fun pair => Binary64.eq pair.1 pair.2

def RuleProgramSource.eq (first second : RuleProgramSource F) : Bool :=
  first.fileName == second.fileName && first.source == second.source &&
    sameValues first.overrides second.overrides &&
    first.variants.keys == second.variants.keys &&
    (first.variants.values.zip second.variants.values).all fun pair => sameValues pair.1 pair.2

end Programs

/-! ## Errors -/

/-- `E` are the errors of the checks on the collections of a product. -/
inductive CanonicalError (E : Type)
  | emptySourceToken
  | dimensionOutsideEnvelope
  | nodeAlreadyExists (id : NodeId)
  | nodeNotFound (id : NodeId)
  | missingDependency (id : NodeId)
  | unsupportedCommandSchema
  | emptyCommandBatch
  | wrongNodeKind (id : NodeId)
  | unresolvedDerivedOutput
  | evaluationEnvelopeMismatch
  | evaluationEvidenceMismatch
  | failedEvaluation (id : NodeId)
  | revisionExhausted
  | ruleProgram (error : RuleProgramError)
  | graph (error : GraphError)
  | collections (error : E)
  deriving DecidableEq

def CanonicalError.ofDimension {E : Type} : DimensionError → CanonicalError E
  | .emptySourceToken => .emptySourceToken
  | .outsideEnvelope => .dimensionOutsideEnvelope

/-! ## Commands -/

inductive FeatureParameterRecomputeScope
  | all
  | affectedBy (nodes : BTreeSet NodeId)

/-- The commands on evaluator nodes, and the one that evaluates them. -/
inductive EvaluatorCommand (F : Type)
  | createEvaluatorNode (id : NodeId) (name : String) (dimension : Dimension F)
      (dependencies : List NodeId)
  | deleteEvaluatorNode (id : NodeId)
  | setEvaluatorDimension (id : NodeId) (dimension : Dimension F)
  | renameEvaluatorNode (id : NodeId) (name : String)
  | createExpressionNode (id : NodeId) (name expression : String)
  | createRuleNode (id : NodeId) (name expression : String) (inputPorts outputPorts : List PortSpec)
      (outputs : List RuleOutput) (overrideParameters : List OverrideParameterSpec)
  | setNodeExpression (id : NodeId) (expression : String)
  | setRuleOutputs (id : NodeId) (outputs : List RuleOutput)
  | recomputeFeatureParameters (identity : EvaluationIdentity)
      (scope : FeatureParameterRecomputeScope)

inductive CanonicalCommand (F C : Type)
  | evaluator (command : EvaluatorCommand F)
  /-- A command that edits the other collections. -/
  | collections (command : C)

def commandSchemaV1 : String := "ketchup.command.v1"

structure CommandBatch (F C : Type) where
  schema : String
  commands : List (CanonicalCommand F C)

def CommandBatch.new {F C : Type} (commands : List (CanonicalCommand F C)) : CommandBatch F C :=
  ⟨commandSchemaV1, commands⟩

/-- A binding of a feature parameter, a target `T`, to a derived output. -/
structure FeatureParameterBinding (T : Type) where
  target : T
  derivedFrom : DerivedIdentity

structure FeatureParameterProvenance where
  identity : EvaluationIdentity
  inputDigest : String
  resultDigest : String
  appliedValueBits : UInt64

end Ketchup.Document
