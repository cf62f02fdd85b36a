/-
**A call that returns an error changes nothing.**

Most calls check everything before their first change (`Atomic.bind_of_readsOnly`). A commit applies
its batch and compares the result afterwards: what it puts back then is the store it started from
(`commitVerifiedProposalInner_run`, `commitTipReplacementProposal_run`).
-/

import Ketchup.Document.NodesOnly
import Ketchup.Document.Operation

set_option linter.unusedSectionVars false

namespace Ketchup.Document

open Ketchup.Graph

namespace DocumentStore

variable {F : Type} {K : Kernel F} [Binary64 F] [Sha256]

theorem applyBatch_atomic (batch : K.Batch) :
    (applyBatch batch : Action (DocumentStore K) _ _).Atomic := by
  intro store error
  unfold applyBatch applyBatchWithOrigin
  rw [applyBatchWithOriginAndValidation_run]
  split
  case h_1 => exact nofun
  case h_2 => exact fun _ => rfl

theorem commitVerifiedProposalInner_atomic (proposal : Proposal K) :
    (commitVerifiedProposalInner proposal).Atomic := by
  intro store error
  rw [commitVerifiedProposalInner_run]
  split
  case h_1 => exact fun _ => rfl
  case h_2 =>
    split
    case h_1 => exact fun _ => rfl
    case h_2 =>
      dsimp only
      split
      · exact fun _ => rfl
      · exact nofun

theorem commitVerifiedProposal_atomic (proposal : Proposal K) :
    (commitVerifiedProposal proposal).Atomic :=
  .ite (Action.readsOnly_throw _).atomic (commitVerifiedProposalInner_atomic proposal)

theorem commitProposal_atomic (proposal : Proposal K) : (commitProposal proposal).Atomic :=
  (commitVerifiedProposal_atomic proposal).bind_of_total fun _ => Action.total_pure _

theorem setRuleProgram_total {ε : Type} (source : RuleProgramSource F) :
    (setRuleProgram source : Action (DocumentStore K) ε Unit).Total :=
  Action.total_modify _

theorem commitVerifiedRuleProgramProposal_atomic (proposal : Proposal K)
    (source : RuleProgramSource F) : (commitVerifiedRuleProgramProposal proposal source).Atomic :=
  .bind_of_readsOnly (Action.readsOnly_lift _) fun _ =>
    (commitVerifiedProposal_atomic proposal).bind_of_total fun _ =>
      (setRuleProgram_total source).bind fun _ => Action.total_pure _

theorem consumeSignature_total {ε : Type} (signature : Bytes) :
    (consumeSignature signature : Action (DocumentStore K) ε Unit).Total := by
  intro store error failed
  unfold consumeSignature at failed
  split at failed <;> cases failed

theorem commitHighRiskProposal_atomic (proposal : Proposal K) (approval : HumanApprovalToken)
    (nowMs : Nat) : (commitHighRiskProposal proposal approval nowMs).Atomic :=
  .bind_of_readsOnly (Action.readsOnly_lift _) fun _ =>
    .bind_of_readsOnly Action.readsOnly_read fun _ =>
      .bind_of_readsOnly (Action.readsOnly_lift _) fun _ =>
        (commitVerifiedProposalInner_atomic proposal).bind_of_total fun _ =>
          (consumeSignature_total _).bind fun _ => Action.total_pure _

theorem commitTipReplacementProposal_atomic (proposal : TipReplacementProposal K) :
    (commitTipReplacementProposal proposal).Atomic := by
  intro store error
  rcases high : proposal.context.risk.isHigh with _ | _
  · rw [commitTipReplacementProposal_run store proposal high]
    split
    case h_1 => exact fun _ => rfl
    case h_2 =>
      split
      case h_1 => exact fun _ => rfl
      case h_2 => exact nofun
      case h_3 => exact nofun
      case h_4 =>
        split
        · exact fun _ => rfl
        · exact nofun
  · unfold commitTipReplacementProposal
    rw [high]
    exact fun _ => rfl

theorem bindRuleProgram_atomic (source : RuleProgramSource F) :
    (bindRuleProgram source : Action (DocumentStore K) _ _).Atomic :=
  .bind_of_readsOnly Action.readsOnly_read fun _ =>
    .ite (Action.readsOnly_throw _).atomic (.ite (Action.readsOnly_throw _).atomic
      (.bind_of_readsOnly (Action.readsOnly_lift _) fun _ => (setRuleProgram_total source).atomic))

theorem replaceRuleProgramSource_atomic (source : RuleProgramSource F) :
    (replaceRuleProgramSource source : Action (DocumentStore K) _ _).Atomic := by
  intro store error
  rw [replaceRuleProgramSource_run]
  split
  case h_1 => exact nofun
  case h_2 => exact nofun
  case h_3 => exact fun _ => rfl

theorem rollbackToRevision_atomic (expectedRevision : Nat) (expectedDigest : String)
    (targetRevision : Nat) (principal : ProposalPrincipal) :
    (rollbackToRevision expectedRevision expectedDigest targetRevision principal :
      Action (DocumentStore K) _ _).Atomic := by
  intro store error
  rw [rollbackToRevision_run]
  split
  case h_1 => exact nofun
  case h_2 => exact fun _ => rfl

theorem publishReplacement_atomic (replacement : DocumentStore K) :
    (publishReplacement replacement).Atomic := by
  intro store error
  rw [publishReplacement_run]
  split
  case h_1 => exact nofun
  case h_2 => exact fun _ => rfl

theorem createCheckpoint_atomic (expectedRevision : Nat) (expectedDigest name : String) :
    (createCheckpoint expectedRevision expectedDigest name : Action (DocumentStore K) _ _).Atomic :=
  .bind_of_readsOnly Action.readsOnly_read fun _ =>
    .ite (Action.readsOnly_throw _).atomic (.ite (Action.readsOnly_throw _).atomic
      (.ite (Action.readsOnly_throw _).atomic (Action.total_modify _).atomic))

theorem undo_total {ε : Type} : (undo : Action (DocumentStore K) ε _).Total := by
  intro store error failed
  unfold undo at failed
  split at failed <;> cases failed

theorem redo_total {ε : Type} : (redo : Action (DocumentStore K) ε _).Total := by
  intro store error failed
  unfold redo at failed
  split at failed <;> cases failed

theorem configureHumanConfirmationPolicy_atomic (verifyingKey : Bytes) (epoch : Nat) :
    (configureHumanConfirmationPolicy verifyingKey epoch : Action (DocumentStore K) _ _).Atomic := by
  refine .bind_of_readsOnly Action.readsOnly_read fun _ =>
    .ite (Action.readsOnly_throw _).atomic ?_
  split
  · exact (Action.readsOnly_throw _).atomic
  · exact (Action.total_modify _).atomic

theorem authorizeHighRiskSideEffect_atomic (proposal : SideEffectProposal)
    (approval : SideEffectApprovalToken) (nowMs : Nat) :
    (authorizeHighRiskSideEffect proposal approval nowMs : Action (DocumentStore K) _ _).Atomic :=
  .bind_of_readsOnly Action.readsOnly_read fun _ =>
    .bind_of_readsOnly (Action.readsOnly_lift _) fun _ =>
      ((consumeSignature_total _).bind fun _ => Action.total_pure _).atomic

/-- An event about the current revision is registered without an error. An event about another is
refused before anything is changed. -/
theorem registerEvaluation_atomic (rootRuleNodeId : NodeId) (slotPath : SlotPath)
    (report : EvaluationReport F) :
    (registerEvaluation rootRuleNodeId slotPath report : Action (DocumentStore K) _ _).Atomic := by
  refine .bind_of_readsOnly Action.readsOnly_read fun _ =>
    .bind_of_readsOnly (Action.readsOnly_lift _) fun event store error failed => ?_
  have registered (state : DocumentStore K) :
      (registerDerivedResult event : Action (DocumentStore K) K.Failure Bool) state = (.ok false, state) ∨
        ∃ after, (registerDerivedResult event : Action (DocumentStore K) K.Failure Bool) state =
          (.ok true, after) := by
    unfold registerDerivedResult
    rw [Action.bind_run, Action.read_run]
    dsimp only
    split
    · exact Or.inl rfl
    · exact Or.inr ⟨_, rfl⟩
  rw [Action.bind_run] at failed ⊢
  rcases registered store with run | ⟨after, run⟩
  · rw [run]
    rfl
  · rw [run] at failed
    cases failed

theorem registerExactReferences_atomic (references : List K.Reference) :
    (registerExactReferences references).Atomic := by
  refine .bind_of_readsOnly Action.readsOnly_read fun _ =>
    .bind_of_readsOnly (Action.readsOnly_lift _) fun held => ?_
  split
  · exact (Action.readsOnly_pure _).atomic
  · exact (Action.total_modify _).atomic

theorem registerExactReferenceEvidence_atomic (evidence : K.Evidence) :
    (registerExactReferenceEvidence evidence).Atomic :=
  .bind_of_readsOnly Action.readsOnly_read fun _ =>
    .bind_of_readsOnly (Action.readsOnly_lift _) fun _ => (Action.total_modify _).atomic

end DocumentStore

section Operations

variable {F : Type} {K : Kernel F} [Binary64 F] [Sha256]

theorem report_atomic {σ ε α : Type} {action : Action σ ε α} (atomic : action.Atomic) {state : σ}
    (failed : (report action state).1 = .err) : (report action state).2 = state := by
  have kept := atomic state
  unfold report at failed ⊢
  rcases run : action state with ⟨(error | _ | _) | value, after⟩
  · rw [run] at kept
    exact kept error rfl
  all_goals
    rw [run] at failed
    cases failed

theorem HistoryOperation.atomic (operation : HistoryOperation K) {store : DocumentStore K}
    (failed : (operation.run store).1 = .err) : (operation.run store).2 = store := by
  cases operation with
  | applyBatch => exact report_atomic (DocumentStore.applyBatch_atomic _) failed
  | commitProposal => exact report_atomic (DocumentStore.commitProposal_atomic _) failed
  | commitVerifiedProposal =>
    exact report_atomic (DocumentStore.commitVerifiedProposal_atomic _) failed
  | commitHighRiskProposal =>
    exact report_atomic (DocumentStore.commitHighRiskProposal_atomic _ _ _) failed
  | commitVerifiedRuleProgramProposal =>
    exact report_atomic (DocumentStore.commitVerifiedRuleProgramProposal_atomic _ _) failed
  | commitTipReplacementProposal =>
    exact report_atomic (DocumentStore.commitTipReplacementProposal_atomic _) failed
  | bindRuleProgram => exact report_atomic (DocumentStore.bindRuleProgram_atomic _) failed
  | replaceRuleProgramSource =>
    exact report_atomic (DocumentStore.replaceRuleProgramSource_atomic _) failed
  | undo => exact report_atomic DocumentStore.undo_total.atomic failed
  | redo => exact report_atomic DocumentStore.redo_total.atomic failed
  | rollbackToRevision =>
    exact report_atomic (DocumentStore.rollbackToRevision_atomic _ _ _ _) failed
  | createCheckpoint => exact report_atomic (DocumentStore.createCheckpoint_atomic _ _ _) failed
  | publishReplacement => exact report_atomic (DocumentStore.publishReplacement_atomic _) failed
  | discardHistoryBeforeCurrent => cases failed
  | configureHumanConfirmationPolicy =>
    exact report_atomic (DocumentStore.configureHumanConfirmationPolicy_atomic _ _) failed
  | authorizeHighRiskSideEffect =>
    exact report_atomic (DocumentStore.authorizeHighRiskSideEffect_atomic _ _ _) failed
  | registerEvaluation =>
    exact report_atomic (DocumentStore.registerEvaluation_atomic _ _ _) failed

/-- **A call that returns an error leaves the store as it was**: its revisions with all they hold,
the cursor, the next id, the registry and the policy with the signatures it keeps. -/
theorem failed_operation_changes_nothing (operation : Operation K) (store : DocumentStore K)
    (failed : (operation.run store).1 = .err) : (operation.run store).2 = store := by
  cases operation with
  | history operation => exact operation.atomic failed
  | registerExactReferences =>
    exact report_atomic (DocumentStore.registerExactReferences_atomic _) failed
  | registerExactReferenceEvidence =>
    exact report_atomic (DocumentStore.registerExactReferenceEvidence_atomic _) failed

end Operations

attribute [local instance] plainDigits in
/-- A batch without commands is refused by a new document. -/
theorem emptyBatch_changes_nothing :
    (Operation.run .blank (.history (.applyBatch (.new [])))).1 = .err ∧
      (Operation.run .blank (.history (.applyBatch (.new [])))).2 = .blank :=
  ⟨rfl, failed_operation_changes_nothing _ _ rfl⟩

end Ketchup.Document
