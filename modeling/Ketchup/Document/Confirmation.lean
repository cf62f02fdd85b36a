/-
**Human confirmations and transactions.**

An approval is a signed token. It is good under the epoch of the policy it was issued for, for the
proposal it names, in its lifetime, and once: the policy keeps the signatures that were used until
the policy is configured again, under a later epoch.

`tryCanonicalTransaction` keeps what a mutation did only if it and its finalizer succeed.
-/

import Ketchup.Document.Proposal

namespace Ketchup.Document

open Ketchup.Graph

/-! ### Signed payloads -/

/-- `to_be_bytes` of a `u64`. -/
def confirmationU64 (value : Nat) : Bytes := (u64Bytes value).reverse

def confirmationField (bytes : Bytes) : Bytes := confirmationU64 bytes.length ++ bytes

def confirmationText (text : String) : Bytes := confirmationField (utf8 text)

def confirmationOptionalField : Option String → Bytes
  | some value => 1 :: confirmationText value
  | none => [0]

def confirmationPrincipal : ProposalPrincipal → Bytes
  | .manualClient => [0]
  | .human id => 1 :: confirmationU64 id
  | .localAssistant => [2]
  | .plugin id => 3 :: confirmationU64 id

def confirmationScope (scope : HighRiskScope) : Bytes :=
  (match scope.riskClass with
    | .destructiveBulkChange => (0 : UInt8)
    | .overwrite => 1
    | .lossyConversion => 2
    | .externalDisclosure => 3
    | .releaseManufacturingExportWithWarnings => 4
    | .capabilityExpansion => 5) ::
  (confirmationOptionalField scope.destination ++ confirmationOptionalField scope.provider ++
    confirmationOptionalField scope.path)

structure HumanApprovalToken where
  requester : ProposalPrincipal
  approvingHuman : Nat
  documentId : DocumentId
  revisionId : Nat
  provenanceDigest : String
  dependencyDigest : String
  commandDigest : String
  resultDigest : String
  scope : HighRiskScope
  policyEpoch : Nat
  issuedAtMs : Nat
  expiresAtMs : Nat
  signature : Bytes

def HumanApprovalToken.signingPayload (token : HumanApprovalToken) : Bytes :=
  confirmationText "ketchup.human-confirmation.v1" ++ confirmationPrincipal token.requester ++
    confirmationU64 token.approvingHuman ++ confirmationU64 token.documentId ++
    confirmationU64 token.revisionId ++ confirmationText token.provenanceDigest ++
    confirmationText token.dependencyDigest ++ confirmationText token.commandDigest ++
    confirmationText token.resultDigest ++ confirmationScope token.scope ++
    confirmationU64 token.policyEpoch ++ confirmationU64 token.issuedAtMs ++
    confirmationU64 token.expiresAtMs

structure SideEffectApprovalToken where
  requester : ProposalPrincipal
  approvingHuman : Nat
  documentId : DocumentId
  revisionId : Nat
  provenanceDigest : String
  operationDigest : String
  payloadDigest : String
  scope : HighRiskScope
  policyEpoch : Nat
  issuedAtMs : Nat
  expiresAtMs : Nat
  signature : Bytes

def SideEffectApprovalToken.signingPayload (token : SideEffectApprovalToken) : Bytes :=
  confirmationText "ketchup.side-effect-confirmation.v1" ++
    confirmationPrincipal token.requester ++ confirmationU64 token.approvingHuman ++
    confirmationU64 token.documentId ++ confirmationU64 token.revisionId ++
    confirmationText token.provenanceDigest ++ confirmationText token.operationDigest ++
    confirmationText token.payloadDigest ++ confirmationScope token.scope ++
    confirmationU64 token.policyEpoch ++ confirmationU64 token.issuedAtMs ++
    confirmationU64 token.expiresAtMs

structure SideEffectProposal where
  documentId : DocumentId
  provenanceRevision : Nat
  provenanceDigest : String
  operation : String
  operationDigest : String
  payloadDigest : String
  principal : ProposalPrincipal
  scope : HighRiskScope

structure SideEffectAuthorizationReceipt where
  approvingHuman : Nat
  documentId : DocumentId
  revisionId : Nat
  operation : String
  operationDigest : String
  payloadDigest : String
  scope : HighRiskScope
  policyEpoch : Nat
  authorizedAtMs : Nat
  deriving DecidableEq

inductive SideEffectAuthorizationError
  | policyUnavailable
  | policyStale
  | invalid
  | replayed
  deriving DecidableEq

namespace DocumentStore

variable {F : Type} {K : Kernel F}

/-! ### The policy -/

def configureHumanConfirmationPolicy (verifyingKey : Bytes) (epoch : Nat) :
    Action (DocumentStore K) HumanConfirmationError Unit := do
  let store ← Action.read
  if epoch = 0 || store.humanConfirmationPolicy.any fun current => epoch ≤ current.epoch then
    Action.throw .policyEpochInvalid
  else match K.verifyingKey verifyingKey with
    | none => Action.throw .invalidVerifyingKey
    | some verifyingKey =>
      Action.modify fun store =>
        { store with humanConfirmationPolicy := some ⟨verifyingKey, epoch, ∅⟩ }

/-- Marks a signature as used. A store without a policy panics. -/
def consumeSignature {ε : Type} (signature : Bytes) : Action (DocumentStore K) ε Unit :=
  fun store =>
    match store.humanConfirmationPolicy with
    | none => (.error .panic, store)
    | some policy =>
      (.ok (), { store with humanConfirmationPolicy := some { policy with
        consumedSignatures := policy.consumedSignatures.insert signature } })

/-! ### High-risk proposals -/

/-- The checks of an approval against the policy and the proposal it is used for. -/
def checkApproval (store : DocumentStore K) (proposal : Proposal K) (riskClass : HighRiskClass)
    (scope : HighRiskScope) (approval : HumanApprovalToken) (nowMs : Nat) :
    Outcome (ProposalCommitError K) Unit :=
  match store.humanConfirmationPolicy with
  | none => fail .humanApprovalPolicyUnavailable
  | some policy =>
    if policy.epoch ≠ approval.policyEpoch then fail .humanApprovalPolicyStale
    else if approval.signature ∈ policy.consumedSignatures then fail .humanApprovalReplayed
    else if approval.approvingHuman = 0 ∨ approval.requester ≠ proposal.context.principal ∨
        approval.documentId ≠ proposal.documentId ∨
        approval.revisionId ≠ proposal.provenanceRevision ∨
        approval.provenanceDigest ≠ proposal.provenanceDigest ∨
        approval.dependencyDigest ≠ proposal.dependencyDigest ∨
        approval.commandDigest ≠ proposal.commandDigest ∨
        approval.resultDigest ≠ proposal.intendedResultDigest ∨
        approval.scope ≠ scope ∨ approval.scope.riskClass ≠ riskClass ∨
        nowMs < approval.issuedAtMs ∨ approval.expiresAtMs < nowMs then
      fail .humanApprovalInvalid
    else if K.verify policy.verifyingKey approval.signingPayload approval.signature then .ok ()
    else fail .humanApprovalInvalid

/-- The class and scope a proposal asks a human to approve. -/
def approvalRequest (proposal : Proposal K) :
    Outcome (ProposalCommitError K) (HighRiskClass × HighRiskScope) :=
  match proposal.context.risk, proposal.context.confirmation with
  | .standard, _ => fail .humanApprovalUnexpected
  | .high _, .reviewRequired => fail .humanApprovalInvalid
  | .high riskClass, .humanOnly scope => .ok (riskClass, scope)

variable [Binary64 F] [Sha256]

def commitHighRiskProposal (proposal : Proposal K) (approval : HumanApprovalToken) (nowMs : Nat) :
    Action (DocumentStore K) (ProposalCommitError K) (VerifiedProposalCommit K) := do
  let (riskClass, scope) ← Action.lift (approvalRequest proposal)
  let store ← Action.read
  Action.lift (store.checkApproval proposal riskClass scope approval nowMs)
  let committed ← commitVerifiedProposalInner proposal
  consumeSignature approval.signature
  return committed

/-! ### Side effects -/

omit [Binary64 F] [Sha256] in
/-- The checks of an approval of an operation outside the document. -/
def checkSideEffect (store : DocumentStore K) (proposal : SideEffectProposal)
    (approval : SideEffectApprovalToken) (nowMs : Nat) :
    Outcome SideEffectAuthorizationError Unit :=
  match store.humanConfirmationPolicy with
  | none => fail .policyUnavailable
  | some policy =>
    if policy.epoch ≠ approval.policyEpoch then fail .policyStale
    else if approval.signature ∈ policy.consumedSignatures then fail .replayed
    else if approval.approvingHuman = 0 ∨ approval.requester ≠ proposal.principal ∨
        approval.documentId ≠ proposal.documentId ∨
        approval.revisionId ≠ proposal.provenanceRevision ∨
        approval.provenanceDigest ≠ proposal.provenanceDigest ∨
        approval.operationDigest ≠ proposal.operationDigest ∨
        approval.payloadDigest ≠ proposal.payloadDigest ∨
        approval.scope ≠ proposal.scope ∨
        store.current.documentId ≠ proposal.documentId ∨
        store.current.revisionId ≠ proposal.provenanceRevision ∨
        canonicalDigest K store.current.product ≠ proposal.provenanceDigest ∨
        nowMs < approval.issuedAtMs ∨ approval.expiresAtMs < nowMs then
      fail .invalid
    else if K.verify policy.verifyingKey approval.signingPayload approval.signature then .ok ()
    else fail .invalid

omit [Binary64 F] [Sha256] in
def authorizeHighRiskSideEffect (proposal : SideEffectProposal) (approval : SideEffectApprovalToken)
    (nowMs : Nat) :
    Action (DocumentStore K) SideEffectAuthorizationError SideEffectAuthorizationReceipt := do
  let store ← Action.read
  Action.lift (store.checkSideEffect proposal approval nowMs)
  consumeSignature approval.signature
  return { approvingHuman := approval.approvingHuman
           documentId := proposal.documentId
           revisionId := proposal.provenanceRevision
           operation := proposal.operation
           operationDigest := proposal.operationDigest
           payloadDigest := proposal.payloadDigest
           scope := proposal.scope
           policyEpoch := approval.policyEpoch
           authorizedAtMs := nowMs }

/-! ### Transactions -/

omit [Binary64 F] [Sha256] in
/-- An error of the mutation or of the finalizer puts the whole state back. -/
def tryCanonicalTransaction {ε α : Type} (mutate : Action (DocumentStore K) ε α)
    (finalize : DocumentStore K → Except ε Unit) : Action (DocumentStore K) ε α := do
  let previous ← Action.read
  (do
    let value ← mutate
    let store ← Action.read
    Action.lift (attempt id (finalize store))
    return value).handle pure fun error => do
      Action.modify fun _ => previous
      Action.throw error

end DocumentStore

end Ketchup.Document
