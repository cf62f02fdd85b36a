/-
**What a signature binds.**

The payload that is signed for an approval says what kind it is of and gives each of its fields back
(`signingPayload_injective`): numbers have eight bytes, texts their length before them, and what may
be absent a mark. `signature_binds` adds that the signature of one approval is none of another.
-/

import Ketchup.Library.PrefixCode
import Ketchup.Document.Confirmation
import Ketchup.Document.NodesOnly

namespace Ketchup.Document

/-! ### Values a machine holds -/

/-- A `u64`. -/
def IsU64 (value : Nat) : Prop := value < 2 ^ 64

/-- A text whose length is a `u64`. -/
def IsText (text : String) : Prop := IsU64 text.utf8ByteSize

def ProposalPrincipal.InRange : ProposalPrincipal → Prop
  | human id | plugin id => IsU64 id
  | manualClient | localAssistant => True

def HighRiskScope.texts (scope : HighRiskScope) : List (Option String) :=
  [scope.destination, scope.provider, scope.path]

def HighRiskScope.InRange (scope : HighRiskScope) : Prop :=
  ∀ text ∈ scope.texts, ∀ value ∈ text, IsText value

/-- The fields of a token have the ranges of their types. -/
structure HumanApprovalToken.InRange (token : HumanApprovalToken) : Prop where
  requester : token.requester.InRange
  numbers : ∀ value ∈ [token.approvingHuman, token.documentId, token.revisionId, token.policyEpoch,
    token.issuedAtMs, token.expiresAtMs], IsU64 value
  digests : ∀ text ∈ [token.provenanceDigest, token.dependencyDigest, token.commandDigest,
    token.resultDigest], IsText text
  scope : token.scope.InRange

structure SideEffectApprovalToken.InRange (token : SideEffectApprovalToken) : Prop where
  requester : token.requester.InRange
  numbers : ∀ value ∈ [token.approvingHuman, token.documentId, token.revisionId, token.policyEpoch,
    token.issuedAtMs, token.expiresAtMs], IsU64 value
  digests : ∀ text ∈ [token.provenanceDigest, token.operationDigest, token.payloadDigest],
    IsText text
  scope : token.scope.InRange

/-- A token of either kind. -/
inductive Approval
  | human (token : HumanApprovalToken)
  | sideEffect (token : SideEffectApprovalToken)

namespace Approval

def InRange : Approval → Prop
  | human token => token.InRange
  | sideEffect token => token.InRange

def signingPayload : Approval → Bytes
  | human token => token.signingPayload
  | sideEffect token => token.signingPayload

/-- The kind and every field but the signature. -/
def unsigned : Approval → Approval
  | human token => human { token with signature := [] }
  | sideEffect token => sideEffect { token with signature := [] }

end Approval

/-! ### The parts of a payload -/

theorem u64_code : PrefixCode IsU64 confirmationU64 := by
  have long (value : Nat) : (confirmationU64 value).length = 8 := by
    unfold confirmationU64 u64Bytes
    rw [List.length_reverse, littleEndian_length]
  refine PrefixCode.of_length long fun first one second two same => ?_
  exact littleEndian_inj one two (List.reverse_injective same)

theorem text_code : PrefixCode IsText confirmationText :=
  u64_code.sized.comap utf8_injective

theorem optional_code : PrefixCode (fun text : Option String => ∀ value ∈ text, IsText value)
    confirmationOptionalField := by
  intro first second one two rest rest' same
  have apart : (1 : UInt8) ≠ 0 := by decide
  cases first with
  | none =>
    cases second with
    | none => exact ⟨rfl, (List.cons.inj same).2⟩
    | some value => exact absurd (List.cons.inj same).1.symm apart
  | some value =>
    cases second with
    | none => exact absurd (List.cons.inj same).1 apart
    | some other =>
      obtain ⟨values, rests⟩ := text_code (one value rfl) (two other rfl) (List.cons.inj same).2
      exact ⟨congrArg some values, rests⟩

theorem principal_code : PrefixCode ProposalPrincipal.InRange confirmationPrincipal := by
  intro first second one two rest rest' same
  -- Principals of different kinds differ in their first byte.
  cases first <;> cases second <;> try exact absurd (List.cons.inj same).1 (by decide)
  case manualClient.manualClient | localAssistant.localAssistant =>
    exact ⟨rfl, (List.cons.inj same).2⟩
  case human.human id other =>
    obtain ⟨ids, rests⟩ := u64_code one two (List.cons.inj same).2
    exact ⟨congrArg ProposalPrincipal.human ids, rests⟩
  case plugin.plugin id other =>
    obtain ⟨ids, rests⟩ := u64_code one two (List.cons.inj same).2
    exact ⟨congrArg ProposalPrincipal.plugin ids, rests⟩

theorem scope_code : PrefixCode HighRiskScope.InRange confirmationScope := by
  intro first second one two rest rest' same
  obtain ⟨classes, same⟩ := List.cons.inj same
  have ofClass : first.riskClass = second.riskClass := by
    revert classes
    generalize first.riskClass = riskClass
    generalize second.riskClass = other
    cases riskClass <;> cases other <;> decide
  simp only [List.append_eq, List.append_assoc] at same
  obtain ⟨destinations, same⟩ := optional_code (one _ (by simp [HighRiskScope.texts]))
    (two _ (by simp [HighRiskScope.texts])) same
  obtain ⟨providers, same⟩ := optional_code (one _ (by simp [HighRiskScope.texts]))
    (two _ (by simp [HighRiskScope.texts])) same
  obtain ⟨paths, rests⟩ := optional_code (one _ (by simp [HighRiskScope.texts]))
    (two _ (by simp [HighRiskScope.texts])) same
  cases first
  cases second
  simp_all only [and_self]

/-! ### Payloads -/

theorem human_payload_injective {first second : HumanApprovalToken} (one : first.InRange)
    (two : second.InRange) (same : first.signingPayload = second.signingPayload) :
    { first with signature := [] } = { second with signature := [] } := by
  have same : first.signingPayload ++ [] = second.signingPayload ++ [] := by rw [same]
  have number := one.numbers
  have number' := two.numbers
  have digest := one.digests
  have digest' := two.digests
  simp only [List.forall_mem_cons] at number number' digest digest'
  simp only [HumanApprovalToken.signingPayload, List.append_assoc] at same
  have same := List.append_cancel_left same
  obtain ⟨requester, same⟩ := principal_code one.requester two.requester same
  obtain ⟨approver, same⟩ := u64_code number.1 number'.1 same
  obtain ⟨document, same⟩ := u64_code number.2.1 number'.2.1 same
  obtain ⟨revision, same⟩ := u64_code number.2.2.1 number'.2.2.1 same
  obtain ⟨provenance, same⟩ := text_code digest.1 digest'.1 same
  obtain ⟨dependency, same⟩ := text_code digest.2.1 digest'.2.1 same
  obtain ⟨command, same⟩ := text_code digest.2.2.1 digest'.2.2.1 same
  obtain ⟨result, same⟩ := text_code digest.2.2.2.1 digest'.2.2.2.1 same
  obtain ⟨scope, same⟩ := scope_code one.scope two.scope same
  obtain ⟨epoch, same⟩ := u64_code number.2.2.2.1 number'.2.2.2.1 same
  obtain ⟨issued, same⟩ := u64_code number.2.2.2.2.1 number'.2.2.2.2.1 same
  obtain ⟨expires, _⟩ := u64_code number.2.2.2.2.2.1 number'.2.2.2.2.2.1 same
  rw [requester, approver, document, revision, provenance, dependency, command, result, scope,
    epoch, issued, expires]

theorem sideEffect_payload_injective {first second : SideEffectApprovalToken} (one : first.InRange)
    (two : second.InRange) (same : first.signingPayload = second.signingPayload) :
    { first with signature := [] } = { second with signature := [] } := by
  have same : first.signingPayload ++ [] = second.signingPayload ++ [] := by rw [same]
  have number := one.numbers
  have number' := two.numbers
  have digest := one.digests
  have digest' := two.digests
  simp only [List.forall_mem_cons] at number number' digest digest'
  simp only [SideEffectApprovalToken.signingPayload, List.append_assoc] at same
  have same := List.append_cancel_left same
  obtain ⟨requester, same⟩ := principal_code one.requester two.requester same
  obtain ⟨approver, same⟩ := u64_code number.1 number'.1 same
  obtain ⟨document, same⟩ := u64_code number.2.1 number'.2.1 same
  obtain ⟨revision, same⟩ := u64_code number.2.2.1 number'.2.2.1 same
  obtain ⟨provenance, same⟩ := text_code digest.1 digest'.1 same
  obtain ⟨operation, same⟩ := text_code digest.2.1 digest'.2.1 same
  obtain ⟨payload, same⟩ := text_code digest.2.2.1 digest'.2.2.1 same
  obtain ⟨scope, same⟩ := scope_code one.scope two.scope same
  obtain ⟨epoch, same⟩ := u64_code number.2.2.2.1 number'.2.2.2.1 same
  obtain ⟨issued, same⟩ := u64_code number.2.2.2.2.1 number'.2.2.2.2.1 same
  obtain ⟨expires, _⟩ := u64_code number.2.2.2.2.2.1 number'.2.2.2.2.2.1 same
  rw [requester, approver, document, revision, provenance, operation, payload, scope, epoch, issued,
    expires]

/-- Approvals of different kinds start with different texts. -/
theorem kinds_apart (human : HumanApprovalToken) (sideEffect : SideEffectApprovalToken) :
    human.signingPayload ≠ sideEffect.signingPayload := by
  intro same
  simp only [HumanApprovalToken.signingPayload, SideEffectApprovalToken.signingPayload,
    List.append_assoc] at same
  have within : IsText "ketchup.human-confirmation.v1" := by unfold IsText IsU64; decide
  have within' : IsText "ketchup.side-effect-confirmation.v1" := by unfold IsText IsU64; decide
  exact absurd (text_code within within' same).1 (by decide)

/-- **A payload gives back the kind and every field.** -/
theorem signingPayload_injective {first second : Approval} (one : first.InRange)
    (two : second.InRange) (same : first.signingPayload = second.signingPayload) :
    first.unsigned = second.unsigned := by
  cases first with
  | human first =>
    cases second with
    | human second => exact congrArg Approval.human (human_payload_injective one two same)
    | sideEffect second => exact absurd same (kinds_apart first second)
  | sideEffect first =>
    cases second with
    | human second => exact absurd same.symm (kinds_apart second first)
    | sideEffect second =>
      exact congrArg Approval.sideEffect (sideEffect_payload_injective one two same)

/-! ### Signatures -/

/-- The key accepts what was signed with `sign` for the text that was signed only. -/
def SignsOne {F : Type} (K : Kernel F) (key : K.VerifyingKey) (sign : Bytes → Bytes) : Prop :=
  ∀ signed read : Bytes, K.verify key read (sign signed) = true → read = signed

/-- An export a plugin asked for, signed below. -/
def exportApproval : SideEffectApprovalToken where
  requester := .plugin 7
  approvingHuman := 3
  documentId := 1
  revisionId := 0
  provenanceDigest := "provenance"
  operationDigest := "operation"
  payloadDigest := "payload"
  scope := ⟨.externalDisclosure, some "supplier", none, none⟩
  policyEpoch := 1
  issuedAtMs := 10
  expiresAtMs := 20
  signature := []

def exportKey : Bytes := List.replicate 32 1

def signedExport : SideEffectApprovalToken :=
  { exportApproval with signature := exportKey ++ exportApproval.signingPayload }

theorem exportApproval_inRange : exportApproval.InRange where
  requester := by unfold exportApproval ProposalPrincipal.InRange IsU64; decide
  numbers := by unfold exportApproval IsU64; decide
  digests := by unfold exportApproval IsText IsU64; decide
  scope := by unfold exportApproval HighRiskScope.InRange HighRiskScope.texts IsText IsU64; decide

theorem signedExport_inRange : signedExport.InRange where
  requester := exportApproval_inRange.requester
  numbers := exportApproval_inRange.numbers
  digests := exportApproval_inRange.digests
  scope := exportApproval_inRange.scope

section Checks

variable {F : Type} {K : Kernel F} {store : DocumentStore K} {made : Approval}
  {policy : HumanConfirmationPolicy K} {sign : Bytes → Bytes} {nowMs : Nat}

/-- A high-risk commit takes a signature for the approval it was made for. -/
theorem checkApproval_binds {proposal : Proposal K} {riskClass : HighRiskClass}
    {scope : HighRiskScope} {approval : HumanApprovalToken} (one : made.InRange)
    (two : approval.InRange) (isPolicy : store.humanConfirmationPolicy = some policy)
    (binds : SignsOne K policy.verifyingKey sign)
    (signed : approval.signature = sign made.signingPayload)
    (ok : store.checkApproval proposal riskClass scope approval nowMs = .ok ()) :
    made.unsigned = (Approval.human approval).unsigned := by
  unfold DocumentStore.checkApproval at ok
  rw [isPolicy] at ok
  dsimp only at ok
  split at ok
  · cases ok
  split at ok
  · cases ok
  split at ok
  · cases ok
  split at ok
  case isFalse => cases ok
  case isTrue verified =>
    rw [signed] at verified
    exact signingPayload_injective one two (binds _ _ verified).symm

/-- So does an operation outside the document. -/
theorem checkSideEffect_binds {proposal : SideEffectProposal} {approval : SideEffectApprovalToken}
    (one : made.InRange) (two : approval.InRange)
    (isPolicy : store.humanConfirmationPolicy = some policy)
    (binds : SignsOne K policy.verifyingKey sign)
    (signed : approval.signature = sign made.signingPayload)
    (ok : store.checkSideEffect proposal approval nowMs = .ok ()) :
    made.unsigned = (Approval.sideEffect approval).unsigned := by
  unfold DocumentStore.checkSideEffect at ok
  rw [isPolicy] at ok
  dsimp only at ok
  split at ok
  · cases ok
  split at ok
  · cases ok
  split at ok
  · cases ok
  split at ok
  case isFalse => cases ok
  case isTrue verified =>
    rw [signed] at verified
    exact signingPayload_injective one two (binds _ _ verified).symm

end Checks

end Ketchup.Document
