/-
**What each call ends in and leaves.**

An equation for every call on a store, over the pure functions that check its arguments and make its
revision: the proofs about calls rewrite with these and never run a call step by step.
-/

import Ketchup.Document.Confirmation
import Ketchup.Document.Evidence

namespace Ketchup.Document.DocumentStore

open Ketchup.Graph

section Calls

variable {F : Type} {K : Kernel F}

/-- A made revision is current, and the next id moved on. -/
def pushed (store : DocumentStore K) (made : Revision K × Nat) : DocumentStore K :=
  { store.pushRevision made.1 with nextRevisionId := made.2 }

/-- The store without its last revision, where the cursor is at the last of two or more. -/
def dropped (store : DocumentStore K) : DocumentStore K :=
  ((dropTip : Action (DocumentStore K) Empty Unit) store).2

theorem dropped_policy (store : DocumentStore K) :
    store.dropped.humanConfirmationPolicy = store.humanConfirmationPolicy := by
  unfold dropped dropTip Action.modify
  dsimp only
  split <;> rfl

theorem publishReplacement_run (store replacement : DocumentStore K) :
    publishReplacement replacement store =
      match store.replacementRevision replacement with
      | .ok made => (.ok made.1, { store.pushed made with evaluationRegistry := ∅ })
      | .error fault => (.error fault, store) := by
  show ((Action.lift _ >>= _) store) = _
  rw [Action.bind_run, Action.lift_run]
  rcases store.replacementRevision replacement with fault | ⟨revision, following⟩ <;> rfl

variable [Sha256]

theorem rollbackToRevision_run (store : DocumentStore K) (expectedRevision : Nat)
    (expectedDigest : String) (targetRevision : Nat) (principal : ProposalPrincipal) :
    rollbackToRevision expectedRevision expectedDigest targetRevision principal store =
      match store.rollbackRevision expectedRevision expectedDigest targetRevision principal with
      | .ok made => (.ok made.1, { store.pushed made with evaluationRegistry := ∅ })
      | .error fault => (.error fault, store) := by
  show ((Action.lift _ >>= _) store) = _
  rw [Action.bind_run, Action.lift_run]
  rcases store.rollbackRevision expectedRevision expectedDigest targetRevision principal with
    fault | ⟨revision, following⟩ <;> rfl

variable [Binary64 F]

theorem replaceRuleProgramSource_run (store : DocumentStore K) (source : RuleProgramSource F) :
    replaceRuleProgramSource source store =
      match store.sourceRevision source with
      | .ok none => (.ok (), store)
      | .ok (some made) => (.ok (), store.pushed made)
      | .error fault => (.error fault, store) := by
  show ((Action.lift _ >>= _) store) = _
  rw [Action.bind_run, Action.lift_run]
  rcases store.sourceRevision source with fault | _ | ⟨revision, following⟩ <;> rfl

theorem applyBatchWithOriginAndValidation_run (store : DocumentStore K) (batch : K.Batch)
    (origin : RevisionOrigin) (validateDrawingSources : Bool) :
    applyBatchWithOriginAndValidation batch origin validateDrawingSources store =
      match store.batchRevision batch origin validateDrawingSources with
      | .ok made => (.ok made.1, store.pushed made)
      | .error fault => (.error fault, store) := by
  show ((Action.lift _ >>= _) store) = _
  rw [Action.bind_run, Action.lift_run]
  rcases store.batchRevision batch origin validateDrawingSources with
    fault | ⟨revision, following⟩ <;> rfl

theorem commitVerifiedProposalInner_run (store : DocumentStore K) (proposal : Proposal K) :
    commitVerifiedProposalInner proposal store =
      match store.verifyProposalCandidate proposal with
      | .error fault => (.error fault, store)
      | .ok _ =>
        match store.batchRevision proposal.batch (.principal proposal.context.principal) true with
        | .error fault => (.error (fault.convert .canonical), store)
        | .ok made =>
          let digest := dependencyDigest K made.1.snapshot proposal.authoritativeWrites
          if made.1.batchDigest ≠ proposal.commandDigest ∨ digest ≠ proposal.intendedResultDigest
          then (fail .verificationMismatch, store)
          else (.ok ⟨made.1, proposal.commandDigest, digest, proposal.authoritativeWrites⟩,
            store.pushed made) := by
  show ((Action.lift _ >>= _) store) = _
  rw [Action.bind_run, Action.lift_run]
  rcases store.verifyProposalCandidate proposal with fault | candidate
  · rfl
  · show ((Action.mapError _ _ >>= _) store) = _
    rw [Action.bind_run]
    unfold Action.mapError applyBatchWithOrigin
    rw [applyBatchWithOriginAndValidation_run]
    rcases store.batchRevision proposal.batch (.principal proposal.context.principal) true with
      fault | ⟨revision, following⟩
    · rfl
    · dsimp only
      split <;> rfl

omit [Sha256] [Binary64 F] in
theorem checkCorrection_cases (proposal : TipReplacementProposal K) (parent expected : K.State)
    (revision : Revision K) :
    checkCorrection proposal parent expected revision = fail .verificationMismatch ∨
      checkCorrection proposal parent expected revision = .ok () := by
  unfold checkCorrection
  split
  · exact Or.inl rfl
  · exact Or.inr rfl

/-- A correction: what it is checked against comes from the store, its revision from the store
without the one it replaces. -/
theorem commitTipReplacementProposal_run (store : DocumentStore K)
    (proposal : TipReplacementProposal K) (standard : proposal.context.risk.isHigh = false) :
    commitTipReplacementProposal proposal store =
      match store.verifyTipReplacementProposal proposal with
      | .error fault => (.error fault, store)
      | .ok (parent, expected) =>
        match store.dropped.batchRevision proposal.batch (.principal .manualClient) true with
        | .error (.error error) => (fail (.canonical error), store)
        | .error .panic => (.error .panic, store.dropped)
        | .error .hang => (.error .hang, store.dropped)
        | .ok made =>
          match checkCorrection proposal parent expected made.1 with
          | .error _ => (fail .verificationMismatch, store)
          | .ok _ => (.ok made.1, { store.dropped.pushed made with
              evaluationRegistry := store.dropped.evaluationRegistry.filter fun key _ =>
                key.revisionId != proposal.supersededRevision }) := by
  have restored (policy : Option (HumanConfirmationPolicy K))
      (same : policy = store.humanConfirmationPolicy) :
      { store with humanConfirmationPolicy := policy } = store := by rw [same]
  unfold commitTipReplacementProposal
  rw [standard]
  show ((Action.lift _ >>= _) store) = _
  rw [Action.bind_run, Action.lift_run]
  rcases store.verifyTipReplacementProposal proposal with fault | ⟨parent, expected⟩
  · rfl
  · show Action.handle (applyCorrection proposal parent expected) _ _ store.dropped = _
    unfold Action.handle applyCorrection
    rw [Action.bind_run]
    unfold Action.mapError applyBatch applyBatchWithOrigin
    rw [applyBatchWithOriginAndValidation_run]
    rcases store.dropped.batchRevision proposal.batch (.principal .manualClient) true with
      (error | _ | _) | made
    · exact congrArg (Prod.mk _) (restored _ store.dropped_policy)
    · rfl
    · rfl
    · dsimp only
      rw [Action.bind_run, Action.lift_run]
      rcases checkCorrection_cases proposal parent expected made.1 with checked | checked
      · rw [checked]
        exact congrArg (Prod.mk _) (restored _ store.dropped_policy)
      · rw [checked]
        rfl

end Calls

end Ketchup.Document.DocumentStore
