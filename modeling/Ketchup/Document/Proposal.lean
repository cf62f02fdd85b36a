/-
**Proposals and confirmations.**

A proposal names the reads and writes of a batch, the digest of what it read, and the digest of the
result it previewed. `commitVerifiedProposal` commits it when the reads and the result still are
those; `commitHighRiskProposal` also takes a human approval, which it uses up, and
`authorizeHighRiskSideEffect` uses one up for an operation outside the document.
`commitTipReplacementProposal` commits a correction in place of the last revision.
-/

import Ketchup.Document.Batch

namespace Ketchup.Document

open Ketchup.Graph

/-! ### Risk and confirmation -/

inductive HighRiskClass
  | destructiveBulkChange
  | overwrite
  | lossyConversion
  | externalDisclosure
  | releaseManufacturingExportWithWarnings
  | capabilityExpansion
  deriving DecidableEq

inductive ProposalRisk
  | standard
  | high (riskClass : HighRiskClass)
  deriving DecidableEq

def ProposalRisk.isHigh : ProposalRisk → Bool
  | standard => false
  | high _ => true

structure HighRiskScope where
  riskClass : HighRiskClass
  destination : Option String
  provider : Option String
  path : Option String
  deriving DecidableEq

inductive ProposalConfirmation
  | reviewRequired
  | humanOnly (scope : HighRiskScope)
  deriving DecidableEq

inductive HumanConfirmationError
  | policyEpochInvalid
  | invalidVerifyingKey
  | unidentifiedRequester
  | confirmationRequirementMismatch
  deriving DecidableEq

structure ProposalBudget where
  maxCommands : Nat
  maxReadDependencies : Nat
  maxWriteTargets : Nat
  deriving DecidableEq

def ProposalBudget.hostMax : ProposalBudget := ⟨512, 1024, 1024⟩
def ProposalBudget.ruleProgram : ProposalBudget := ⟨200000, 200000, 200000⟩

/-- `limits::DRAWING_PROFILES`. -/
def drawingProfiles : Nat := 50000

def ProposalBudget.drawingImport : ProposalBudget :=
  ⟨3 * drawingProfiles + 1, 12 * drawingProfiles, 12 * drawingProfiles⟩

structure ProposalCost where
  commands : Nat
  readDependencies : Nat
  writeTargets : Nat
  deriving DecidableEq

structure ProposalContext where
  principal : ProposalPrincipal
  goal : ProposalGoal
  risk : ProposalRisk
  confirmation : ProposalConfirmation
  requestedBudget : ProposalBudget

inductive ProposalPrepareError (E : Type)
  | hostBudgetExceeded
  | requestedBudgetExceeded (budget : ProposalBudget) (cost : ProposalCost)
  | confirmation (error : HumanConfirmationError)
  | canonical (error : CanonicalError E)
  deriving DecidableEq

def validateConfirmationRequirement {E : Type} (context : ProposalContext) :
    Outcome (ProposalPrepareError E) Unit :=
  if context.risk.isHigh &&
      (context.principal == .manualClient || context.principal.isUnidentified) then
    fail (.confirmation .unidentifiedRequester)
  else match context.risk, context.confirmation with
    | .standard, .reviewRequired => .ok ()
    | .high riskClass, .humanOnly scope =>
      if riskClass = scope.riskClass then .ok ()
      else fail (.confirmation .confirmationRequirementMismatch)
    | _, _ => fail (.confirmation .confirmationRequirementMismatch)

def validateProposalBudget {E : Type} (requested : ProposalBudget) (cost : ProposalCost) :
    Outcome (ProposalPrepareError E) Unit :=
  let host := ProposalBudget.hostMax
  if requested ≠ .ruleProgram ∧ requested ≠ .drawingImport ∧
      (host.maxCommands < requested.maxCommands ∨
        host.maxReadDependencies < requested.maxReadDependencies ∨
        host.maxWriteTargets < requested.maxWriteTargets) then
    fail .hostBudgetExceeded
  else if requested.maxCommands < cost.commands ∨
      requested.maxReadDependencies < cost.readDependencies ∨
      requested.maxWriteTargets < cost.writeTargets then
    fail (.requestedBudgetExceeded requested cost)
  else .ok ()

/-! ### Proposals -/

section Proposals

variable {F : Type} (K : Kernel F)

structure ProposalDiffEntry where
  target : K.Dependency
  before : K.Value
  after : K.Value

/-- What `Proposal` and `TipReplacementProposal` share. -/
structure ProposalBody where
  batch : K.Batch
  commandDigest : String
  authoritativeDependencies : List K.Dependency
  authoritativeWrites : List K.Dependency
  dependencyDigest : String
  authoritativeDiff : List (ProposalDiffEntry K)
  intendedResultDigest : String
  context : ProposalContext
  cost : ProposalCost

structure Proposal extends ProposalBody K where
  documentId : DocumentId
  provenanceRevision : Nat
  provenanceDigest : String

structure TipReplacementProposal extends ProposalBody K where
  documentId : DocumentId
  parentRevision : Nat
  parentDigest : String
  supersededRevision : Nat
  supersededDigest : String
  correctedRevision : Nat

structure VerifiedProposalCommit where
  revision : Revision K
  commandDigest : String
  resultDigest : String
  verifiedWrites : List K.Dependency

inductive ProposalValidity
  | valid (evaluatedRevision : Nat)
  | stale (provenanceRevision currentRevision : Nat)
  deriving DecidableEq

inductive ProposalCommitError
  | stale (validity : ProposalValidity)
  | preparation (error : ProposalPrepareError K.Error)
  | canonical (error : K.Failure)
  | verificationMismatch
  | humanApprovalRequired
  | humanApprovalUnexpected
  | humanApprovalPolicyUnavailable
  | humanApprovalPolicyStale
  | humanApprovalInvalid
  | humanApprovalReplayed

inductive TipReplacementProposalError
  | noCurrentTip
  | redoBranch
  | stale
  | preparation (error : ProposalPrepareError K.Error)
  | canonical (error : K.Failure)
  | verificationMismatch
  | humanApprovalRequired

variable {K}

instance : DecidableEq (ProposalDiffEntry K) := fun first second =>
  decidable_of_iff
    (first.target = second.target ∧ first.before = second.before ∧ first.after = second.after)
    (by cases first; cases second; simp)

/-- What a proposal's writes held before, and hold after. -/
def proposalDiff (before after : K.State) (writes : List K.Dependency) (goal : ProposalGoal) :
    List (ProposalDiffEntry K) :=
  writes.map fun target =>
    ⟨target, K.proposalValue before target goal, K.proposalValue after target goal⟩

def proposalCost (batch : K.Batch) (dependencies writes : List K.Dependency) : ProposalCost :=
  ⟨batch.commands.length, dependencies.length, writes.length⟩

variable [Binary64 F] [Sha256]

/-- A batch replayed in a store of its own, whose next id is `nextRevision` where one is given: the
result, the diff of the writes and their digest. -/
def proposalCandidate (snapshot : K.State) (nextRevision : Option Nat) (batch : K.Batch)
    (writes : List K.Dependency) (goal : ProposalGoal) (validateDrawingSources : Bool) :
    Outcome (ProposalPrepareError K.Error) (K.State × List (ProposalDiffEntry K) × String) := do
  let candidate ← (DocumentStore.fromProduct (K := K) snapshot.revisionId snapshot.product).mapError
    (Fault.convert .canonical)
  let candidate := { candidate with
    nextRevisionId := nextRevision.getD candidate.nextRevisionId }
  let revision ← (DocumentStore.applyBatchWithOriginAndValidation batch (.principal .manualClient)
    validateDrawingSources candidate).1.mapError (Fault.convert .canonical)
  let after := revision.snapshot
  .ok (after, proposalDiff snapshot after writes goal, dependencyDigest K after writes)

namespace DocumentStore

def prepareProposalWithContextAndValidation (store : DocumentStore K) (batch : K.Batch)
    (context : ProposalContext) (validateDrawingSources : Bool) :
    Outcome (ProposalPrepareError K.Error) (Proposal K) := do
  validateConfirmationRequirement context
  let snapshot := store.current
  let authoritativeDependencies := K.authoritativeDependencies snapshot batch
  let authoritativeWrites := K.authoritativeWrites snapshot batch
  let cost := proposalCost batch authoritativeDependencies authoritativeWrites
  validateProposalBudget context.requestedBudget cost
  let (_, authoritativeDiff, intendedResultDigest) ← proposalCandidate snapshot none batch
    authoritativeWrites context.goal validateDrawingSources
  .ok { documentId := snapshot.documentId
        provenanceRevision := snapshot.revisionId
        provenanceDigest := canonicalDigest K snapshot.product
        commandDigest := batchDigest K batch
        dependencyDigest := dependencyDigest K snapshot authoritativeDependencies
        batch, authoritativeDependencies, authoritativeWrites, authoritativeDiff
        intendedResultDigest, context, cost }

def validateProposal (store : DocumentStore K) (proposal : Proposal K) : ProposalValidity :=
  let snapshot := store.current
  if proposal.documentId = snapshot.documentId ∧
      proposal.commandDigest = batchDigest K proposal.batch ∧
      proposal.dependencyDigest =
        dependencyDigest K snapshot proposal.authoritativeDependencies then
    .valid snapshot.revisionId
  else .stale proposal.provenanceRevision snapshot.revisionId

/-- The candidate of a proposal that is still valid, when it gives the previewed result. -/
def verifyProposalCandidate (store : DocumentStore K) (proposal : Proposal K) :
    Outcome (ProposalCommitError K) K.State := do
  match store.validateProposal proposal with
  | .stale provenance current => fail (.stale (.stale provenance current))
  | .valid _ =>
    let (candidate, diff, intendedResultDigest) ←
      (proposalCandidate store.current none proposal.batch proposal.authoritativeWrites
        proposal.context.goal true).mapError (Fault.convert .preparation)
    if diff ≠ proposal.authoritativeDiff ∨
        intendedResultDigest ≠ proposal.intendedResultDigest then
      fail .verificationMismatch
    else .ok candidate

/-- Puts the history and the registry back as they were in an earlier state. -/
def restoreHistory {ε : Type} (previous : DocumentStore K) : Action (DocumentStore K) ε Unit :=
  Action.modify fun store =>
    { previous with humanConfirmationPolicy := store.humanConfirmationPolicy }

def commitVerifiedProposalInner (proposal : Proposal K) :
    Action (DocumentStore K) (ProposalCommitError K) (VerifiedProposalCommit K) := do
  let previous ← Action.read
  let _ ← Action.lift (previous.verifyProposalCandidate proposal)
  let revision ← (applyBatchWithOrigin proposal.batch
    (.principal proposal.context.principal)).mapError .canonical
  let actualResultDigest := dependencyDigest K revision.snapshot proposal.authoritativeWrites
  if revision.batchDigest ≠ proposal.commandDigest ∨
      actualResultDigest ≠ proposal.intendedResultDigest then
    restoreHistory previous
    Action.throw .verificationMismatch
  else
    return ⟨revision, proposal.commandDigest, actualResultDigest, proposal.authoritativeWrites⟩

def commitVerifiedProposal (proposal : Proposal K) :
    Action (DocumentStore K) (ProposalCommitError K) (VerifiedProposalCommit K) :=
  if proposal.context.risk.isHigh then Action.throw .humanApprovalRequired
  else commitVerifiedProposalInner proposal

def commitProposal (proposal : Proposal K) :
    Action (DocumentStore K) (ProposalCommitError K) (Revision K) := do
  return (← commitVerifiedProposal proposal).revision

/-- Publishes a compiled program and its edits in the same revision. -/
def commitVerifiedRuleProgramProposal (proposal : Proposal K) (source : RuleProgramSource F) :
    Action (DocumentStore K) (ProposalCommitError K) (VerifiedProposalCommit K) := do
  Action.lift (attempt (fun error => .canonical (.ruleProgram error))
    (validateRuleProgramSource K source))
  let committed ← commitVerifiedProposal proposal
  setRuleProgram source
  return committed

end DocumentStore

/-! ### Replacement of the last revision -/

namespace DocumentStore

/-- The parent of the current last revision, when both are those a proposal names. -/
def validateTipReplacementEnvelope (store : DocumentStore K) (proposal : TipReplacementProposal K) :
    Outcome (TipReplacementProposalError K) K.State :=
  if nonzero : store.cursor = 0 then fail .noCurrentTip
  else if store.cursor + 1 ≠ store.revisions.length then fail .redoBranch
  else
    let current := store.current
    let parent := (store.revisions.get ⟨store.cursor - 1, by
      have within := store.cursor_lt
      omega⟩).snapshot
    if current.documentId ≠ proposal.documentId ∨
        current.revisionId ≠ proposal.supersededRevision ∨
        canonicalDigest K current.product ≠ proposal.supersededDigest ∨
        parent.documentId ≠ proposal.documentId ∨
        parent.revisionId ≠ proposal.parentRevision ∨
        canonicalDigest K parent.product ≠ proposal.parentDigest ∨
        checkedSucc proposal.supersededRevision ≠ some proposal.correctedRevision ∨
        store.nextRevisionId ≠ proposal.correctedRevision then
      fail .stale
    else .ok parent

/-- Replays a correction: the parent and the result. -/
def verifyTipReplacementProposal (store : DocumentStore K) (proposal : TipReplacementProposal K) :
    Outcome (TipReplacementProposalError K) (K.State × K.State) := do
  let parent ← store.validateTipReplacementEnvelope proposal
  if proposal.commandDigest ≠ batchDigest K proposal.batch then fail .verificationMismatch
  else
    let dependencies := K.authoritativeDependencies parent proposal.batch
    let writes := K.authoritativeWrites parent proposal.batch
    let cost := proposalCost proposal.batch dependencies writes
    if dependencies ≠ proposal.authoritativeDependencies ∨
        writes ≠ proposal.authoritativeWrites ∨
        dependencyDigest K parent dependencies ≠ proposal.dependencyDigest ∨
        cost ≠ proposal.cost then
      fail .verificationMismatch
    else
      (validateProposalBudget proposal.context.requestedBudget cost).mapError
        (Fault.convert .preparation)
      (validateConfirmationRequirement proposal.context).mapError (Fault.convert .preparation)
      let (preview, authoritativeDiff, intendedResultDigest) ←
        (proposalCandidate parent (some proposal.correctedRevision) proposal.batch writes
          proposal.context.goal true).mapError (Fault.convert .preparation)
      if authoritativeDiff ≠ proposal.authoritativeDiff ∨
          intendedResultDigest ≠ proposal.intendedResultDigest then
        fail .verificationMismatch
      else .ok (parent, preview)

/-- `revisions.pop()` and `cursor -= 1`, for a cursor at the last of two revisions or more. -/
def dropTip {ε : Type} : Action (DocumentStore K) ε Unit :=
  Action.modify fun store =>
    if apart : store.cursor ≠ 0 ∧ store.cursor + 1 = store.revisions.length then
      { store with
        revisions := store.revisions.dropLast
        cursor := store.cursor - 1
        cursor_lt := by rw [List.length_dropLast]; omega }
    else store

/-- The comparisons of a committed correction with what was verified. -/
def checkCorrection (proposal : TipReplacementProposal K) (parent expected : K.State)
    (revision : Revision K) : Outcome (TipReplacementProposalError K) Unit :=
  if revision.id ≠ proposal.correctedRevision ∨
      revision.batchDigest ≠ proposal.commandDigest ∨
      proposalDiff parent revision.snapshot proposal.authoritativeWrites proposal.context.goal ≠
        proposal.authoritativeDiff ∨
      dependencyDigest K revision.snapshot proposal.authoritativeWrites ≠
        proposal.intendedResultDigest ∨
      canonicalDigest K revision.snapshot.product ≠ canonicalDigest K expected.product then
    fail .verificationMismatch
  else .ok ()

/-- Forgets the registered evaluations of a revision. -/
def forgetEvaluations {ε : Type} (revisionId : Nat) : Action (DocumentStore K) ε Unit :=
  Action.modify fun store => { store with
    evaluationRegistry := store.evaluationRegistry.filter fun key _ =>
      key.revisionId != revisionId }

/-- Applies a correction and compares it with what was verified. -/
def applyCorrection (proposal : TipReplacementProposal K) (parent expected : K.State) :
    Action (DocumentStore K) (TipReplacementProposalError K) (Revision K) := do
  let revision ← (applyBatch proposal.batch).mapError .canonical
  Action.lift (checkCorrection proposal parent expected revision)
  return revision

def commitTipReplacementProposal (proposal : TipReplacementProposal K) :
    Action (DocumentStore K) (TipReplacementProposalError K) (Revision K) := do
  if proposal.context.risk.isHigh then Action.throw .humanApprovalRequired
  else
    let previous ← Action.read
    let (parent, expected) ← Action.lift (previous.verifyTipReplacementProposal proposal)
    dropTip
    (applyCorrection proposal parent expected).handle
      (fun revision => do forgetEvaluations proposal.supersededRevision; return revision)
      (fun error => do restoreHistory previous; Action.throw error)

end DocumentStore

end Proposals

end Ketchup.Document
