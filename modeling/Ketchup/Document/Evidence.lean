/-
**Results registered with a store.**

`registerEvaluation` records that a report of the current revision holds what a run from scratch
gives. `registerExactReferences` holds face references as evidence of the current revision, which
changes the revision in its place: its collections, and never its nodes.
-/

import Ketchup.Document.Store

namespace Ketchup.Document

open Ketchup.Graph

section Equality

variable {F : Type} [Binary64 F]

/-- `==` of two statuses. -/
def EvaluationStatus.eq : EvaluationStatus F → EvaluationStatus F → Bool
  | .evaluated first, .evaluated second => Binary64.eq first second
  | .error first, .error second => first == second
  | _, _ => false

def NodeEvaluation.eq (first second : NodeEvaluation F) : Bool :=
  EvaluationStatus.eq first.status second.status && first.inputDigest == second.inputDigest &&
    first.resultDigest == second.resultDigest

def DerivedOutput.eq (first second : DerivedOutput F) : Bool :=
  Binary64.eq first.value second.value && first.inputDigest == second.inputDigest &&
    first.resultDigest == second.resultDigest

end Equality

namespace DocumentStore

variable {F : Type} {K : Kernel F}

/-! ### Evaluations -/

/-- Registers an event about the current revision; `false` where it is about another. -/
def registerDerivedResult {ε : Type} (event : DerivedResultEvent) :
    Action (DocumentStore K) ε Bool := do
  let store ← Action.read
  if event.documentId ≠ store.current.documentId ∨
      event.revisionId ≠ store.current.revisionId ∨
      event.canonicalDigest ≠ canonicalDigest K store.current.product ∨
      event.payload.documentId ≠ event.documentId ∨
      event.payload.revisionId ≠ event.revisionId then
    return false
  else
    Action.modify fun store => { store with
      evaluationRegistry := store.evaluationRegistry.insert event.payload event }
    return true

variable [Binary64 F] [Sha256]

/-- The checks of a report against the current revision, and the event they admit. -/
def evaluationEvent (store : DocumentStore K) (rootRuleNodeId : NodeId) (slotPath : SlotPath)
    (report : EvaluationReport F) : Outcome K.Failure DerivedResultEvent := do
  let snapshot := store.current
  let digest := canonicalDigest K snapshot.product
  match snapshot.product.evaluatorNodes[rootRuleNodeId]? with
  | none => fail (.nodeNotFound rootRuleNodeId)
  | some ⟨_, _, .rule .., _, _, _, _⟩ =>
    let target ← attempt .graph (DerivedIdentity.new rootRuleNodeId slotPath)
    if resolveDerivedIdentity snapshot.product.evaluatorNodes target ≠ .resolved then
      fail .unresolvedDerivedOutput
    else if report.documentId ≠ some snapshot.documentId ∨
        report.revisionId ≠ some snapshot.revisionId ∨ report.canonicalDigest ≠ some digest then
      fail .evaluationEnvelopeMismatch
    else
      let expected ← (evaluateGraph snapshot.product.evaluatorNodes report.identity).mapError
        (Fault.convert .graph)
      match report.nodes[rootRuleNodeId]?, expected.nodes[rootRuleNodeId]? with
      | some supplied, some computed =>
        if !NodeEvaluation.eq supplied computed then fail .evaluationEvidenceMismatch
        else if supplied.value?.isNone then fail (.failedEvaluation rootRuleNodeId)
        else match report.outputs[target]?, expected.outputs[target]? with
          | some output, some expectedOutput =>
            if !DerivedOutput.eq output expectedOutput then fail .evaluationEvidenceMismatch
            else .ok {
              documentId := snapshot.documentId
              revisionId := snapshot.revisionId
              canonicalDigest := digest
              payload := {
                documentId := snapshot.documentId
                revisionId := snapshot.revisionId
                rootRuleNodeId, slotPath
                inputDigest := output.inputDigest
                resultDigest := output.resultDigest
                evaluator := report.identity.evaluator
                backend := report.identity.backend
                schema := report.identity.schema
                tolerance := report.identity.tolerance } }
          | _, _ => fail .evaluationEvidenceMismatch
      | _, _ => fail .evaluationEvidenceMismatch
  | some _ => fail (.wrongNodeKind rootRuleNodeId)

def registerEvaluation (rootRuleNodeId : NodeId) (slotPath : SlotPath)
    (report : EvaluationReport F) : Action (DocumentStore K) K.Failure DerivedResultEvent := do
  let store ← Action.read
  let event ← Action.lift (store.evaluationEvent rootRuleNodeId slotPath report)
  if ← registerDerivedResult event then return event
  else Action.throw .evaluationEnvelopeMismatch

/-! ### Exact references -/

omit [Binary64 F] [Sha256] in
/-- What one reference makes of the collections; `none` while none changed them. -/
def holdReference (snapshot : K.State) (anchored : List String) (held : Option K.Collections)
    (reference : K.Reference) :
    Outcome (K.Reference × ReferenceEvidenceError) (Option K.Collections) :=
  let before := snapshot.product.collections
  if !K.hasValidLineage reference then fail (reference, .invalidLineage)
  else if reference.documentId ≠ snapshot.documentId then fail (reference, .wrongDocument)
  else match K.featureDefinition before reference.producerFeatureId with
    | none => fail (reference, .producerNotFound)
    | some definition =>
      if definition ≠ reference.definitionId then fail (reference, .producerDefinitionMismatch)
      else if !K.matchesReference snapshot reference then fail (reference, .invalidLineage)
      else
        let isAnchored := anchored.contains reference.lineageDigest
        let collections := held.getD before
        let evidence := K.exactReferenceEvidence collections
        -- Evidence already held, with no feature anchored to it, would change nothing.
        if evidence[reference.lineageDigest]? = some reference && !isAnchored then .ok held
        else if isAnchored && K.conflictsWithAnchor snapshot collections reference then
          fail (reference, .wrongDocument)
        else
          let collections := K.holdReferenceEvidence collections reference
          if isAnchored then
            match K.rebindPlanarFaceReference collections reference with
            | none => fail (reference, .wrongDocument)
            | some rebound => .ok (some rebound)
          else .ok (some collections)

omit [Binary64 F] [Sha256] in
/-- The current revision with other collections; as it is when none of their entries changed. -/
def replaceCurrentEvidence (store : DocumentStore K) (collections : K.Collections) :
    DocumentStore K :=
  let revision := store.currentRevision
  let product := revision.snapshot.product
  if K.sameEvidence product.collections collections then store
  else store.setCurrentRevision { revision with
    snapshot := { revision.snapshot with product := { product with collections } } }

omit [Binary64 F] [Sha256] in
def registerExactReferences (references : List K.Reference) :
    Action (DocumentStore K) (K.Reference × ReferenceEvidenceError) Unit := do
  let store ← Action.read
  let anchored := K.anchoredLineages store.current.product.collections
  match ← Action.lift (references.foldlM (holdReference store.current anchored) none) with
  | none => pure ()
  | some collections => Action.modify fun store => store.replaceCurrentEvidence collections

omit [Binary64 F] [Sha256] in
/-- One piece of evidence of any kind, refused or held. -/
def registerExactReferenceEvidence (evidence : K.Evidence) :
    Action (DocumentStore K) ReferenceEvidenceError Unit := do
  let store ← Action.read
  let collections ← Action.lift (attempt id (K.withEvidence store.current evidence))
  Action.modify fun store => store.replaceCurrentEvidence collections

end DocumentStore

end Ketchup.Document
