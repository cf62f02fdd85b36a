/-
**Approvals are used once.**

A `Session` is a store with the transactions that are open on it. A token is spent in a store whose
policy is under a later epoch than the token's, or holds its signature: there both entry points refuse
it. A use that succeeds leaves the token spent, every change keeps it spent, and so do the stores that
transactions opened since would put back.

* `Change.spent`: a change keeps a token spent;
* `Use.accepted_spends`, `Use.refused_of_spent`: an accepted use spends its token, and a spent one is
  refused;
* `approval_used_once`: over whole sessions.
-/

import Ketchup.Document.NodesOnly
import Ketchup.Document.Operation

set_option linter.unusedSectionVars false

namespace Ketchup.Document

open Ketchup.Graph Relation

section Sessions

variable {F : Type} (K : Kernel F)

/-- A store and, from the innermost out, the stores its open transactions would put back. -/
structure Session where
  store : DocumentStore K
  saved : List (DocumentStore K)

inductive Event
  | call (operation : Operation K)
  | begin
  /-- The innermost transaction ends: its changes are kept or put back. -/
  | finish (keep : Bool)

/-- A use of an approval token at one of the two entry points. -/
inductive Use
  | commit (proposal : Proposal K) (approval : HumanApprovalToken) (nowMs : Nat)
  | authorize (proposal : SideEffectProposal) (approval : SideEffectApprovalToken) (nowMs : Nat)

variable {K}

def Use.operation : Use K → Operation K
  | commit proposal approval nowMs =>
    .history (.commitHighRiskProposal proposal approval nowMs)
  | authorize proposal approval nowMs =>
    .history (.authorizeHighRiskSideEffect proposal approval nowMs)

/-- The epoch and the signature of the token. -/
def Use.token : Use K → Nat × Bytes
  | commit _ approval _ => (approval.policyEpoch, approval.signature)
  | authorize _ approval _ => (approval.policyEpoch, approval.signature)

variable [Binary64 F] [Sha256]

def Use.accepted (use : Use K) (store : DocumentStore K) : Prop :=
  (use.operation.run store).1 = .ok

def Session.step (session : Session K) : Event K → Session K
  | .call operation => { session with store := (operation.run session.store).2 }
  | .begin => { session with saved := session.store :: session.saved }
  | .finish keep =>
    match session.saved with
    | [] => session
    | previous :: saved => ⟨if keep then session.store else previous, saved⟩

def Session.run (session : Session K) (events : List (Event K)) : Session K :=
  events.foldl Session.step session

/-- The events put back none of the `opened` transactions that were open before them; `inner` are
open since. -/
def keepsOpened (opened inner : Nat) : List (Event K) → Bool
  | [] => true
  | .call _ :: rest => keepsOpened opened inner rest
  | .begin :: rest => keepsOpened opened (inner + 1) rest
  | .finish keep :: rest =>
    match inner, opened with
    | inner + 1, opened => keepsOpened opened inner rest
    | 0, opened + 1 => keep && keepsOpened opened 0 rest
    | 0, 0 => keepsOpened 0 0 rest

/-- A transaction is a session of its own: its calls between a beginning and the end that keeps them
unless there was an error. -/
theorem tryCanonicalTransaction_session {ε α : Type} (mutate : Action (DocumentStore K) ε α)
    (finalize : DocumentStore K → Except ε Unit) (store : DocumentStore K)
    (saved : List (DocumentStore K)) (events : List (Event K))
    (calls : Session.run ⟨store, store :: saved⟩ events = ⟨(mutate store).2, store :: saved⟩) :
    Session.run ⟨store, saved⟩ (.begin :: events ++ [.finish
      (Verdict.of (DocumentStore.tryCanonicalTransaction mutate finalize store).1 != .err)]) =
        ⟨(DocumentStore.tryCanonicalTransaction mutate finalize store).2, saved⟩ := by
  have run : Session.run ⟨store, saved⟩ (.begin :: events) = ⟨(mutate store).2, store :: saved⟩ :=
    calls
  unfold Session.run at run ⊢
  rw [List.foldl_append, run]
  unfold DocumentStore.tryCanonicalTransaction
  rw [Action.bind_run, Action.read_run]
  dsimp only
  unfold Action.handle
  rw [Action.bind_run]
  rcases mutate store with ⟨(error | _ | _) | value, after⟩
  · rfl
  · rfl
  · rfl
  · dsimp only
    rw [Action.bind_run, Action.read_run]
    dsimp only
    rw [Action.bind_run, Action.lift_run]
    rcases finalize after with error | ⟨⟩ <;> rfl

/-! ### Spent tokens -/

/-- The token cannot be used any more. -/
def Spent (token : Nat × Bytes) (store : DocumentStore K) : Prop :=
  ∃ policy, store.humanConfirmationPolicy = some policy ∧
    (token.1 < policy.epoch ∨ (token.1 = policy.epoch ∧ token.2 ∈ policy.consumedSignatures))

theorem Spent.of_policy_eq {token : Nat × Bytes} {before after : DocumentStore K}
    (same : after.humanConfirmationPolicy = before.humanConfirmationPolicy)
    (spent : Spent token before) : Spent token after := by
  obtain ⟨policy, held, used⟩ := spent
  exact ⟨policy, same.trans held, used⟩

theorem Change.spent {token : Nat × Bytes} {before after : DocumentStore K}
    (change : Change before after) (spent : Spent token before) : Spent token after := by
  cases change with
  | push | checkpoint | program | move | discard | drop | registry => exact spent.of_policy_eq rfl
  | configure key epoch later =>
    obtain ⟨policy, held, used⟩ := spent
    refine ⟨_, rfl, Or.inl (Nat.lt_of_le_of_lt ?_ (later policy held))⟩
    rcases used with earlier | ⟨same, _⟩
    · exact earlier.le
    · exact same.le
  | consume policy signature held =>
    obtain ⟨policy', held', used⟩ := spent
    obtain rfl : policy' = policy := Option.some.inj (held'.symm.trans held)
    refine ⟨_, rfl, used.imp_right fun both => ⟨both.1, ?_⟩⟩
    exact BTreeSet.mem_insert.mpr (Or.inr both.2)

theorem replaceCurrentEvidence_policy (store : DocumentStore K) (collections : K.Collections) :
    (store.replaceCurrentEvidence collections).humanConfirmationPolicy =
      store.humanConfirmationPolicy := by
  unfold DocumentStore.replaceCurrentEvidence
  dsimp only
  split <;> rfl

theorem Step.spent {token : Nat × Bytes} {before after : DocumentStore K} (step : Step before after)
    (spent : Spent token before) : Spent token after := by
  cases step with
  | change change => exact change.spent spent
  | evidence collections => exact spent.of_policy_eq (replaceCurrentEvidence_policy _ _)

theorem steps_spent {token : Nat × Bytes} {before after : DocumentStore K}
    (steps : ReflTransGen Step before after) (spent : Spent token before) : Spent token after := by
  induction steps with
  | refl => exact spent
  | tail _ step ih => exact step.spent ih

/-- Whatever a call ends in, a spent token stays spent. -/
theorem Operation.spent {token : Nat × Bytes} (operation : Operation K) {store : DocumentStore K}
    (spent : Spent token store) : Spent token (operation.run store).2 :=
  steps_spent (operation.steps store) spent

/-! ### Uses -/

theorem report_ok {σ ε α : Type} {action : Action σ ε α} {state : σ}
    (ok : (report action state).1 = .ok) : ∃ value, (action state).1 = .ok value := by
  unfold report at ok
  rcases run : (action state).1 with (error | _ | _) | value
  all_goals
    rw [run] at ok
    try cases ok
  exact ⟨value, rfl⟩

theorem checkApproval_ok {store : DocumentStore K} {proposal : Proposal K}
    {riskClass : HighRiskClass} {scope : HighRiskScope} {approval : HumanApprovalToken} {nowMs : Nat}
    (ok : store.checkApproval proposal riskClass scope approval nowMs = .ok ()) :
    ∃ policy, store.humanConfirmationPolicy = some policy ∧ policy.epoch = approval.policyEpoch ∧
      approval.signature ∉ policy.consumedSignatures := by
  unfold DocumentStore.checkApproval at ok
  split at ok
  case h_1 => cases ok
  case h_2 policy held =>
    split at ok
    · cases ok
    next current =>
      split at ok
      · cases ok
      next unused => exact ⟨policy, held, not_ne_iff.mp current, unused⟩

theorem checkSideEffect_ok {store : DocumentStore K} {proposal : SideEffectProposal}
    {approval : SideEffectApprovalToken} {nowMs : Nat}
    (ok : store.checkSideEffect proposal approval nowMs = .ok ()) :
    ∃ policy, store.humanConfirmationPolicy = some policy ∧ policy.epoch = approval.policyEpoch ∧
      approval.signature ∉ policy.consumedSignatures := by
  unfold DocumentStore.checkSideEffect at ok
  split at ok
  case h_1 => cases ok
  case h_2 policy held =>
    split at ok
    · cases ok
    next current =>
      split at ok
      · cases ok
      next unused => exact ⟨policy, held, not_ne_iff.mp current, unused⟩

theorem commitVerifiedProposalInner_policy (proposal : Proposal K) (store : DocumentStore K) :
    (DocumentStore.commitVerifiedProposalInner proposal store).2.humanConfirmationPolicy =
      store.humanConfirmationPolicy := by
  rw [DocumentStore.commitVerifiedProposalInner_run]
  split
  case h_1 => rfl
  case h_2 =>
    split
    case h_1 => rfl
    case h_2 =>
      dsimp only
      split <;> rfl

/-- A use that was accepted found its token good, and spends it. -/
theorem Use.accepted_spends {use : Use K} {store : DocumentStore K} (ok : use.accepted store) :
    ¬ Spent use.token store ∧ Spent use.token (use.operation.run store).2 := by
  have good {token : Nat × Bytes} {policy : HumanConfirmationPolicy K}
      (held : store.humanConfirmationPolicy = some policy) (epoch : policy.epoch = token.1)
      (unused : token.2 ∉ policy.consumedSignatures) : ¬ Spent token store := by
    rintro ⟨other, held', used⟩
    obtain rfl : other = policy := Option.some.inj (held'.symm.trans held)
    rcases used with later | ⟨_, consumed⟩
    · exact absurd epoch later.ne'
    · exact unused consumed
  cases use with
  | commit proposal approval nowMs =>
    obtain ⟨value, ok⟩ := report_ok ok
    obtain ⟨⟨riskClass, scope⟩, _, request, ok, state⟩ := Action.bind_run_ok ok
    obtain ⟨_, rfl⟩ := Prod.mk.inj request
    obtain ⟨_, _, read, ok, state'⟩ := Action.bind_run_ok ok
    cases read
    obtain ⟨⟨⟩, _, checked, ok, state''⟩ := Action.bind_run_ok ok
    obtain ⟨passed, rfl⟩ := Prod.mk.inj checked
    obtain ⟨committed, after, commit, ok, state'''⟩ := Action.bind_run_ok ok
    obtain ⟨policy, held, epoch, unused⟩ := checkApproval_ok passed
    refine ⟨good held epoch unused, ?_⟩
    have kept : after.humanConfirmationPolicy = some policy := by
      have same := commitVerifiedProposalInner_policy proposal store
      rw [commit] at same
      exact same.trans held
    have final : ((Use.operation (.commit proposal approval nowMs)).run store).2 =
        ((DocumentStore.consumeSignature approval.signature >>= fun _ =>
          pure committed) after).2 := state.trans (state'.trans (state''.trans state'''))
    rw [final, Action.bind_run]
    unfold DocumentStore.consumeSignature
    rw [kept]
    exact ⟨_, rfl, Or.inr ⟨epoch.symm, BTreeSet.mem_insert.mpr (Or.inl rfl)⟩⟩
  | authorize proposal approval nowMs =>
    obtain ⟨value, ok⟩ := report_ok ok
    obtain ⟨_, _, read, ok, state⟩ := Action.bind_run_ok ok
    cases read
    obtain ⟨⟨⟩, _, checked, ok, state'⟩ := Action.bind_run_ok ok
    obtain ⟨passed, rfl⟩ := Prod.mk.inj checked
    obtain ⟨policy, held, epoch, unused⟩ := checkSideEffect_ok passed
    refine ⟨good held epoch unused, ?_⟩
    have final := state.trans state'
    have run : ((Use.operation (.authorize proposal approval nowMs)).run store).2 = _ := final
    rw [run, Action.bind_run]
    unfold DocumentStore.consumeSignature
    rw [held]
    exact ⟨_, rfl, Or.inr ⟨epoch.symm, BTreeSet.mem_insert.mpr (Or.inl rfl)⟩⟩

/-- An approval that passes its checks is accepted. -/
theorem authorize_accepted {store : DocumentStore K} {proposal : SideEffectProposal}
    {approval : SideEffectApprovalToken} {nowMs : Nat}
    (checked : store.checkSideEffect proposal approval nowMs = .ok ()) :
    (Use.authorize proposal approval nowMs).accepted store := by
  obtain ⟨policy, held, _⟩ := checkSideEffect_ok checked
  show Verdict.of (DocumentStore.authorizeHighRiskSideEffect proposal approval nowMs store).1 = .ok
  unfold DocumentStore.authorizeHighRiskSideEffect
  rw [Action.bind_run, Action.read_run]
  dsimp only
  rw [Action.bind_run, Action.lift_run, checked]
  dsimp only
  rw [Action.bind_run]
  unfold DocumentStore.consumeSignature
  rw [held]
  rfl

/-! ### Sessions -/

/-- The token is spent in the store and in every store that a transaction begun since its use would
put back: the first `inner` of the saved ones. -/
structure SpentThrough (token : Nat × Bytes) (opened inner : Nat) (session : Session K) : Prop where
  store : Spent token session.store
  saved : ∀ previous ∈ session.saved.take inner, Spent token previous
  depth : session.saved.length = opened + inner

theorem spentThrough_run (token : Nat × Bytes) (opened inner : Nat) (session : Session K)
    (events : List (Event K)) (spent : SpentThrough token opened inner session)
    (kept : keepsOpened opened inner events = true) : Spent token (session.run events).store := by
  induction events generalizing session opened inner with
  | nil => exact spent.store
  | cons event rest ih =>
    cases event with
    | call operation =>
      exact ih opened inner (session.step (.call operation))
        ⟨operation.spent spent.store, spent.saved, spent.depth⟩ kept
    | begin =>
      refine ih opened (inner + 1) (session.step .begin)
        ⟨spent.store, fun previous member => ?_, congrArg Nat.succ spent.depth⟩ kept
      rcases List.mem_cons.mp member with rfl | member
      · exact spent.store
      · exact spent.saved previous member
    | finish keep =>
      obtain ⟨store, saved⟩ := session
      have depth : saved.length = opened + inner := spent.depth
      rcases saved with _ | ⟨previous, saved⟩
      · obtain ⟨rfl, rfl⟩ := Nat.add_eq_zero_iff.mp depth.symm
        exact ih 0 0 ⟨store, []⟩ spent kept
      · rw [List.length_cons] at depth
        rcases inner with _ | inner
        · rcases opened with _ | opened
          · cases depth
          · obtain ⟨rfl, kept⟩ := Bool.and_eq_true_iff.mp kept
            exact ih opened 0 ⟨store, saved⟩
              ⟨spent.store, fun _ member => by simp at member, Nat.succ.inj depth⟩ kept
        · refine ih opened inner ⟨if keep then store else previous, saved⟩
            ⟨?_, fun other member => spent.saved other (List.mem_cons_of_mem _ member),
              Nat.succ.inj depth⟩ kept
          split
          · exact spent.store
          · exact spent.saved previous List.mem_cons_self

/-- **Approvals are used once.** After a use of a token that was accepted, no use of it is, at either
entry point and for whatever proposal and time, unless a transaction that was open at its use is put
back in between. -/
theorem approval_used_once (start : Session K) (before after : List (Event K)) (use again : Use K)
    (accepted : use.accepted (start.run before).store)
    (kept : keepsOpened (start.run before).saved.length 0 after = true)
    (sameToken : again.token = use.token) :
    ¬ again.accepted (start.run (before ++ .call use.operation :: after)).store := by
  intro acceptedAgain
  have spent : SpentThrough use.token (start.run before).saved.length 0
      ((start.run before).step (.call use.operation)) :=
    ⟨(Use.accepted_spends accepted).2, fun _ member => by simp at member, rfl⟩
  have final := spentThrough_run _ _ 0 _ after spent kept
  unfold Session.run at final acceptedAgain
  rw [List.foldl_append, List.foldl_cons] at acceptedAgain
  exact (Use.accepted_spends acceptedAgain).1 (sameToken ▸ final)

end Sessions

/-! ### One approval -/

/-- A disclosure of a blank document, asked for by a plugin. -/
def disclosure : SideEffectProposal where
  documentId := 1
  provenanceRevision := 0
  provenanceDigest := canonicalDigest Kernel.nodesOnly ⟨1, ∅, ()⟩
  operation := "export"
  operationDigest := "operation"
  payloadDigest := "payload"
  principal := .plugin 7
  scope := ⟨.externalDisclosure, some "supplier", none, none⟩

def disclosureKey : Bytes := List.replicate 32 1

def unsignedApproval : SideEffectApprovalToken where
  requester := disclosure.principal
  approvingHuman := 3
  documentId := disclosure.documentId
  revisionId := disclosure.provenanceRevision
  provenanceDigest := disclosure.provenanceDigest
  operationDigest := disclosure.operationDigest
  payloadDigest := disclosure.payloadDigest
  scope := disclosure.scope
  policyEpoch := 1
  issuedAtMs := 10
  expiresAtMs := 20
  signature := []

def disclosureApproval : SideEffectApprovalToken :=
  { unsignedApproval with signature := disclosureKey ++ unsignedApproval.signingPayload }

/-- A blank document that takes approvals under `disclosureKey`. -/
def guarded : DocumentStore Kernel.nodesOnly :=
  { DocumentStore.blank with humanConfirmationPolicy := some ⟨disclosureKey, 1, ∅⟩ }

attribute [local instance] plainDigits in
/-- The disclosure is authorized once, not twice. -/
theorem disclosure_authorized_once :
    let use : Use Kernel.nodesOnly := .authorize disclosure disclosureApproval 15
    use.accepted guarded ∧
      ¬ use.accepted (Session.run ⟨guarded, []⟩ [.call use.operation]).store := by
  have accepted : (Use.authorize disclosure disclosureApproval 15).accepted guarded :=
    authorize_accepted (by
      simp [DocumentStore.checkSideEffect, disclosureApproval, unsignedApproval, disclosure,
        Kernel.nodesOnly, guarded, DocumentStore.blank, DocumentStore.current,
        DocumentStore.currentRevision, DocumentStore.single, DocumentStore.initialRevision,
        SideEffectApprovalToken.signingPayload])
  exact ⟨accepted, approval_used_once ⟨guarded, []⟩ [] [] _ _ accepted rfl rfl⟩

end Ketchup.Document
