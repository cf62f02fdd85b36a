/-
**Operations on a store, and what they do to its history.**

`HistoryOperation` are the calls that leave the content of every revision as it is, `Operation` are
these and the two that register references as evidence of the current revision. `run` is what a call
ends in, without its value, and the store it leaves. `Opening` is a store as it is first had.

A call is a sequence of changes, whatever it ends in (`HistoryOperation.changes`,
`Operation.steps`): a change pushes a revision made for the store (`Made`), relabels the current one,
moves the cursor, drops revisions, or leaves the history alone. What holds of one change holds of
every call.
-/

import Ketchup.Document.Calls

namespace Ketchup.Document

open Ketchup.Graph Relation

/-- What a call ended in. -/
inductive Verdict
  | ok
  | err
  | panicked
  | hung
  deriving DecidableEq

def Verdict.of {ε α : Type} : Outcome ε α → Verdict
  | .ok _ => .ok
  | .error (.error _) => .err
  | .error .panic => .panicked
  | .error .hang => .hung

section Operations

variable {F : Type} (K : Kernel F)

/-- A store as it is first had: new, or restored from a file. -/
inductive Opening
  | product (revisionId : Nat) (product : K.Product) (store : DocumentStore K)
      (opened : DocumentStore.fromProduct revisionId product = .ok store)
  | snapshot (snapshot : K.State) (store : DocumentStore K)
      (opened : DocumentStore.fromSnapshot snapshot = .ok store)
  | restored (history : DocumentStore.StoredHistory K)

inductive HistoryOperation
  | applyBatch (batch : K.Batch)
  | commitProposal (proposal : Proposal K)
  | commitVerifiedProposal (proposal : Proposal K)
  | commitHighRiskProposal (proposal : Proposal K) (approval : HumanApprovalToken) (nowMs : Nat)
  | commitVerifiedRuleProgramProposal (proposal : Proposal K) (source : RuleProgramSource F)
  | commitTipReplacementProposal (proposal : TipReplacementProposal K)
  | bindRuleProgram (source : RuleProgramSource F)
  | replaceRuleProgramSource (source : RuleProgramSource F)
  | undo
  | redo
  | rollbackToRevision (expectedRevision : Nat) (expectedDigest : String) (targetRevision : Nat)
      (principal : ProposalPrincipal)
  | createCheckpoint (expectedRevision : Nat) (expectedDigest name : String)
  | publishReplacement (replacement : DocumentStore K)
  | discardHistoryBeforeCurrent
  | configureHumanConfirmationPolicy (verifyingKey : Bytes) (epoch : Nat)
  | authorizeHighRiskSideEffect (proposal : SideEffectProposal)
      (approval : SideEffectApprovalToken) (nowMs : Nat)
  | registerEvaluation (rootRuleNodeId : NodeId) (slotPath : SlotPath)
      (report : EvaluationReport F)

inductive Operation
  | history (operation : HistoryOperation K)
  | registerExactReferences (references : List K.Reference)
  | registerExactReferenceEvidence (evidence : K.Evidence)

variable {K} [Binary64 F] [Sha256]

omit [Binary64 F] in
def Opening.store : Opening K → DocumentStore K
  | product _ _ store _ | snapshot _ store _ => store
  | restored history => .fromRevisionHistory history

/-- A call without its value. -/
def report {σ ε α : Type} (action : Action σ ε α) (state : σ) : Verdict × σ :=
  (.of (action state).1, (action state).2)

def HistoryOperation.run (store : DocumentStore K) :
    HistoryOperation K → Verdict × DocumentStore K
  | applyBatch batch => report (DocumentStore.applyBatch batch) store
  | commitProposal proposal => report (DocumentStore.commitProposal proposal) store
  | commitVerifiedProposal proposal => report (DocumentStore.commitVerifiedProposal proposal) store
  | commitHighRiskProposal proposal approval nowMs =>
    report (DocumentStore.commitHighRiskProposal proposal approval nowMs) store
  | commitVerifiedRuleProgramProposal proposal source =>
    report (DocumentStore.commitVerifiedRuleProgramProposal proposal source) store
  | commitTipReplacementProposal proposal =>
    report (DocumentStore.commitTipReplacementProposal proposal) store
  | bindRuleProgram source => report (DocumentStore.bindRuleProgram source) store
  | replaceRuleProgramSource source => report (DocumentStore.replaceRuleProgramSource source) store
  | undo => report (DocumentStore.undo (ε := Empty)) store
  | redo => report (DocumentStore.redo (ε := Empty)) store
  | rollbackToRevision expectedRevision expectedDigest targetRevision principal =>
    report (DocumentStore.rollbackToRevision expectedRevision expectedDigest targetRevision
      principal) store
  | createCheckpoint expectedRevision expectedDigest name =>
    report (DocumentStore.createCheckpoint expectedRevision expectedDigest name) store
  | publishReplacement replacement => report (DocumentStore.publishReplacement replacement) store
  | discardHistoryBeforeCurrent => (.ok, store.discardHistoryBeforeCurrent)
  | configureHumanConfirmationPolicy verifyingKey epoch =>
    report (DocumentStore.configureHumanConfirmationPolicy verifyingKey epoch) store
  | authorizeHighRiskSideEffect proposal approval nowMs =>
    report (DocumentStore.authorizeHighRiskSideEffect proposal approval nowMs) store
  | registerEvaluation rootRuleNodeId slotPath evaluation =>
    report (DocumentStore.registerEvaluation rootRuleNodeId slotPath evaluation) store

def Operation.run (store : DocumentStore K) : Operation K → Verdict × DocumentStore K
  | history operation => operation.run store
  | registerExactReferences references =>
    report (DocumentStore.registerExactReferences references) store
  | registerExactReferenceEvidence evidence =>
    report (DocumentStore.registerExactReferenceEvidence evidence) store

/-- The stores a run goes through, from the first on. -/
def HistoryOperation.states (store : DocumentStore K) :
    List (HistoryOperation K) → List (DocumentStore K)
  | [] => [store]
  | operation :: rest => store :: states (operation.run store).2 rest

def Operation.states (store : DocumentStore K) : List (Operation K) → List (DocumentStore K)
  | [] => [store]
  | operation :: rest => store :: states (operation.run store).2 rest

/-! ### Changes -/

/-- A revision made for a store, and the id after it. -/
inductive Made (store : DocumentStore K) : Revision K × Nat → Prop
  | batch {batch : K.Batch} {origin : RevisionOrigin} {validateDrawingSources : Bool}
      {made : Revision K × Nat}
      (ok : store.batchRevision batch origin validateDrawingSources = .ok made) : Made store made
  | rollback {expectedRevision targetRevision : Nat} {expectedDigest : String}
      {principal : ProposalPrincipal} {made : Revision K × Nat}
      (ok : store.rollbackRevision expectedRevision expectedDigest targetRevision principal =
        .ok made) : Made store made
  | replacement {replacement : DocumentStore K} {made : Revision K × Nat}
      (ok : store.replacementRevision replacement = .ok made) : Made store made
  | source {source : RuleProgramSource F} {made : Revision K × Nat}
      (ok : store.sourceRevision source = .ok (some made)) : Made store made

/-- A change of a store that leaves the content of every revision as it is. -/
inductive Change (store : DocumentStore K) : DocumentStore K → Prop
  | push {made : Revision K × Nat} (isMade : Made store made) : Change store (store.pushed made)
  | checkpoint (name : String) :
      Change store (store.setCurrentRevision { store.currentRevision with checkpoint := some name })
  | program (program : BoundRuleProgram F) :
      Change store
        (store.setCurrentRevision { store.currentRevision with ruleProgram := some program })
  | move (cursor : Nat) (within : cursor < store.revisions.length) :
      Change store { store with cursor, cursor_lt := within }
  | discard : Change store store.discardHistoryBeforeCurrent
  | drop (cursor : Nat) (within : cursor < store.revisions.dropLast.length) :
      Change store { store with
        revisions := store.revisions.dropLast, cursor, cursor_lt := within }
  | registry (registry : BTreeMap DerivedResultKey DerivedResultEvent) :
      Change store { store with evaluationRegistry := registry }
  /-- A policy under a later epoch, which no signature was used under. -/
  | configure (verifyingKey : K.VerifyingKey) (epoch : Nat)
      (later : ∀ current, store.humanConfirmationPolicy = some current → current.epoch < epoch) :
      Change store { store with humanConfirmationPolicy := some ⟨verifyingKey, epoch, ∅⟩ }
  | consume (policy : HumanConfirmationPolicy K) (signature : Bytes)
      (held : store.humanConfirmationPolicy = some policy) :
      Change store { store with humanConfirmationPolicy := some { policy with
        consumedSignatures := policy.consumedSignatures.insert signature } }

/-- A change, or evidence registered with the current revision. -/
inductive Step (store : DocumentStore K) : DocumentStore K → Prop
  | change {after : DocumentStore K} (change : Change store after) : Step store after
  | evidence (collections : K.Collections) : Step store (store.replaceCurrentEvidence collections)

namespace DocumentStore

theorem applyBatch_steps (batch : K.Batch) : (applyBatch batch).Steps (Change (K := K)) := by
  intro store
  unfold applyBatch applyBatchWithOrigin
  rw [applyBatchWithOriginAndValidation_run]
  split
  case h_1 made ok => exact .single (.push (.batch ok))
  case h_2 => exact .refl

theorem dropped_step (store : DocumentStore K) : ReflTransGen Change store store.dropped := by
  unfold dropped dropTip
  rw [Action.modify_run]
  dsimp only
  split
  · exact .single (.drop _ _)
  · exact .refl

theorem commitVerifiedProposalInner_steps (proposal : Proposal K) :
    (commitVerifiedProposalInner proposal).Steps (Change (K := K)) := by
  intro store
  rw [commitVerifiedProposalInner_run]
  split
  case h_1 => exact .refl
  case h_2 =>
    split
    case h_1 => exact .refl
    case h_2 made ok =>
      dsimp only
      split
      · exact .refl
      · exact .single (.push (.batch ok))

theorem commitVerifiedProposal_steps (proposal : Proposal K) :
    (commitVerifiedProposal proposal).Steps (Change (K := K)) :=
  .ite (Action.readsOnly_throw _).steps (commitVerifiedProposalInner_steps proposal)

theorem commitProposal_steps (proposal : Proposal K) :
    (commitProposal proposal).Steps (Change (K := K)) :=
  (commitVerifiedProposal_steps proposal).bind fun _ => (Action.readsOnly_pure _).steps

theorem setRuleProgram_steps {ε : Type} (source : RuleProgramSource F) :
    (setRuleProgram source : Action (DocumentStore K) ε Unit).Steps Change :=
  Action.steps_modify fun _ => .program _

theorem commitVerifiedRuleProgramProposal_steps (proposal : Proposal K)
    (source : RuleProgramSource F) :
    (commitVerifiedRuleProgramProposal proposal source).Steps (Change (K := K)) :=
  (Action.readsOnly_lift _).steps.bind fun _ =>
    (commitVerifiedProposal_steps proposal).bind fun _ =>
      (setRuleProgram_steps source).bind fun _ => (Action.readsOnly_pure _).steps

theorem consumeSignature_steps {ε : Type} (signature : Bytes) :
    (consumeSignature signature : Action (DocumentStore K) ε Unit).Steps Change := by
  intro store
  unfold consumeSignature
  split
  case h_1 => exact .refl
  case h_2 policy held => exact .single (.consume policy signature held)

theorem commitHighRiskProposal_steps (proposal : Proposal K) (approval : HumanApprovalToken)
    (nowMs : Nat) : (commitHighRiskProposal proposal approval nowMs).Steps (Change (K := K)) :=
  (Action.readsOnly_lift _).steps.bind fun _ =>
    Action.readsOnly_read.steps.bind fun _ =>
      (Action.readsOnly_lift _).steps.bind fun _ =>
        (commitVerifiedProposalInner_steps proposal).bind fun _ =>
          (consumeSignature_steps _).bind fun _ => (Action.readsOnly_pure _).steps

theorem commitTipReplacementProposal_steps (proposal : TipReplacementProposal K) :
    (commitTipReplacementProposal proposal).Steps (Change (K := K)) := by
  intro store
  rcases high : proposal.context.risk.isHigh with _ | _
  · rw [commitTipReplacementProposal_run store proposal high]
    have down := dropped_step store
    split
    case h_1 => exact .refl
    case h_2 =>
      split
      case h_1 => exact .refl
      case h_2 => exact down
      case h_3 => exact down
      case h_4 made ok =>
        split
        · exact .refl
        · exact (down.tail (.push (.batch ok))).tail (.registry _)
  · unfold commitTipReplacementProposal
    rw [high]
    exact .refl

theorem bindRuleProgram_steps (source : RuleProgramSource F) :
    (bindRuleProgram source).Steps (Change (K := K)) :=
  Action.readsOnly_read.steps.bind fun _ =>
    .ite (Action.readsOnly_throw _).steps (.ite (Action.readsOnly_throw _).steps
      ((Action.readsOnly_lift _).steps.bind fun _ => setRuleProgram_steps source))

theorem replaceRuleProgramSource_steps (source : RuleProgramSource F) :
    (replaceRuleProgramSource source).Steps (Change (K := K)) := by
  intro store
  rw [replaceRuleProgramSource_run]
  split
  case h_1 => exact .refl
  case h_2 made ok => exact .single (.push (.source ok))
  case h_3 => exact .refl

theorem undo_steps {ε : Type} : (undo : Action (DocumentStore K) ε _).Steps Change := by
  intro store
  unfold undo
  split
  · exact .refl
  · exact .single (.move _ _)

theorem redo_steps {ε : Type} : (redo : Action (DocumentStore K) ε _).Steps Change := by
  intro store
  unfold redo
  split
  · exact .single (.move _ _)
  · exact .refl

theorem rollbackToRevision_steps (expectedRevision : Nat) (expectedDigest : String)
    (targetRevision : Nat) (principal : ProposalPrincipal) :
    (rollbackToRevision expectedRevision expectedDigest targetRevision principal).Steps
      (Change (K := K)) := by
  intro store
  rw [rollbackToRevision_run]
  split
  case h_1 made ok => exact (ReflTransGen.single (.push (.rollback ok))).tail (.registry _)
  case h_2 => exact .refl

theorem createCheckpoint_steps (expectedRevision : Nat) (expectedDigest name : String) :
    (createCheckpoint expectedRevision expectedDigest name).Steps (Change (K := K)) :=
  Action.readsOnly_read.steps.bind fun _ =>
    .ite (Action.readsOnly_throw _).steps (.ite (Action.readsOnly_throw _).steps
      (.ite (Action.readsOnly_throw _).steps (Action.steps_modify fun _ => .checkpoint name)))

theorem publishReplacement_steps (replacement : DocumentStore K) :
    (publishReplacement replacement).Steps (Change (K := K)) := by
  intro store
  rw [publishReplacement_run]
  split
  case h_1 made ok => exact (ReflTransGen.single (.push (.replacement ok))).tail (.registry _)
  case h_2 => exact .refl

theorem configureHumanConfirmationPolicy_steps (verifyingKey : Bytes) (epoch : Nat) :
    (configureHumanConfirmationPolicy verifyingKey epoch).Steps (Change (K := K)) := by
  intro store
  unfold configureHumanConfirmationPolicy
  rw [Action.bind_run, Action.read_run]
  dsimp only
  split
  case isTrue => exact .refl
  case isFalse accepted =>
    rcases K.verifyingKey verifyingKey with _ | key
    · exact .refl
    · refine .single (.configure key epoch fun current held => ?_)
      simp only [held, Option.any_some, Bool.or_eq_true, decide_eq_true_eq, not_or] at accepted
      exact Nat.lt_of_not_le accepted.2

theorem authorizeHighRiskSideEffect_steps (proposal : SideEffectProposal)
    (approval : SideEffectApprovalToken) (nowMs : Nat) :
    (authorizeHighRiskSideEffect proposal approval nowMs).Steps (Change (K := K)) :=
  Action.readsOnly_read.steps.bind fun _ =>
    (Action.readsOnly_lift _).steps.bind fun _ =>
      (consumeSignature_steps _).bind fun _ => (Action.readsOnly_pure _).steps

theorem registerEvaluation_steps (rootRuleNodeId : NodeId) (slotPath : SlotPath)
    (report : EvaluationReport F) :
    (registerEvaluation rootRuleNodeId slotPath report).Steps (Change (K := K)) := by
  refine Action.readsOnly_read.steps.bind fun _ => (Action.readsOnly_lift _).steps.bind fun event => ?_
  refine Action.Steps.bind ?_ fun _ =>
    .ite (Action.readsOnly_pure _).steps (Action.readsOnly_throw _).steps
  exact Action.readsOnly_read.steps.bind fun _ => .ite (Action.readsOnly_pure _).steps
    ((Action.steps_modify fun _ => .registry _).bind fun _ => (Action.readsOnly_pure _).steps)

theorem evidence_steps {ε : Type} (collections : K.Collections) :
    (Action.modify fun store => store.replaceCurrentEvidence collections :
      Action (DocumentStore K) ε Unit).Steps Step :=
  Action.steps_modify fun _ => .evidence _

theorem registerExactReferences_steps (references : List K.Reference) :
    (registerExactReferences references).Steps (Step (K := K)) := by
  refine Action.readsOnly_read.steps.bind fun _ => (Action.readsOnly_lift _).steps.bind fun held => ?_
  split
  · exact (Action.readsOnly_pure _).steps
  · exact evidence_steps _

theorem registerExactReferenceEvidence_steps (evidence : K.Evidence) :
    (registerExactReferenceEvidence evidence).Steps (Step (K := K)) :=
  Action.readsOnly_read.steps.bind fun _ => (Action.readsOnly_lift _).steps.bind fun _ =>
    evidence_steps _

end DocumentStore

/-- **Whatever a call ends in, it went through changes.** -/
theorem HistoryOperation.changes (operation : HistoryOperation K) (store : DocumentStore K) :
    ReflTransGen Change store (operation.run store).2 := by
  cases operation with
  | applyBatch => exact DocumentStore.applyBatch_steps _ store
  | commitProposal => exact DocumentStore.commitProposal_steps _ store
  | commitVerifiedProposal => exact DocumentStore.commitVerifiedProposal_steps _ store
  | commitHighRiskProposal => exact DocumentStore.commitHighRiskProposal_steps _ _ _ store
  | commitVerifiedRuleProgramProposal =>
    exact DocumentStore.commitVerifiedRuleProgramProposal_steps _ _ store
  | commitTipReplacementProposal => exact DocumentStore.commitTipReplacementProposal_steps _ store
  | bindRuleProgram => exact DocumentStore.bindRuleProgram_steps _ store
  | replaceRuleProgramSource => exact DocumentStore.replaceRuleProgramSource_steps _ store
  | undo => exact DocumentStore.undo_steps store
  | redo => exact DocumentStore.redo_steps store
  | rollbackToRevision => exact DocumentStore.rollbackToRevision_steps _ _ _ _ store
  | createCheckpoint => exact DocumentStore.createCheckpoint_steps _ _ _ store
  | publishReplacement => exact DocumentStore.publishReplacement_steps _ store
  | discardHistoryBeforeCurrent => exact .single .discard
  | configureHumanConfirmationPolicy =>
    exact DocumentStore.configureHumanConfirmationPolicy_steps _ _ store
  | authorizeHighRiskSideEffect => exact DocumentStore.authorizeHighRiskSideEffect_steps _ _ _ store
  | registerEvaluation => exact DocumentStore.registerEvaluation_steps _ _ _ store

theorem Operation.steps (operation : Operation K) (store : DocumentStore K) :
    ReflTransGen Step store (operation.run store).2 := by
  cases operation with
  | history operation => exact ReflTransGen.mono (fun _ _ => Step.change) _ _ (operation.changes store)
  | registerExactReferences => exact DocumentStore.registerExactReferences_steps _ store
  | registerExactReferenceEvidence =>
    exact DocumentStore.registerExactReferenceEvidence_steps _ store

end Operations

end Ketchup.Document
