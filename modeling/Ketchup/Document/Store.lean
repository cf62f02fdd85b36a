/-
**Revisions and the document store.**

A `DocumentStore` is a list of revisions with a cursor to the current one, the next revision id, a
registry of evaluations and the policy for human confirmations. The cursor of every store is the
place of a revision: the operations here move it, drop the redo tail (`pushRevision`), replace the
current revision, or begin a history anew.

The mutation epoch, a process-wide counter that no operation reads, is not part of the state.
-/

import Ketchup.Document.Kernel
import Ketchup.Library.Action

namespace Ketchup.Document

open Ketchup.Graph

/-- `limits::UNDO_REVISIONS`. -/
def undoRevisions : Nat := 30

inductive ProposalPrincipal
  | manualClient
  | human (id : Nat)
  | localAssistant
  | plugin (id : Nat)
  deriving DecidableEq

/-- A principal whose number says that nobody is named. -/
def ProposalPrincipal.isUnidentified : ProposalPrincipal → Bool
  | human id | plugin id => id == 0
  | manualClient | localAssistant => false

inductive RevisionOrigin
  | initial
  | principal (principal : ProposalPrincipal)
  | rollback (principal : ProposalPrincipal) (targetRevision : Nat)
  deriving DecidableEq

inductive RevisionHistoryError
  | stale
  | revisionNotFound (id : Nat)
  | invalidCheckpointName
  | duplicateCheckpointName
  | invalidPrincipal
  | noOpRollback
  | revisionExhausted
  deriving DecidableEq

/-- A revision, under the id its snapshot carries. -/
structure Revision {F : Type} (K : Kernel F) where
  snapshot : K.State
  batchDigest : String
  origin : RevisionOrigin
  checkpoint : Option String
  ruleProgram : Option (BoundRuleProgram F)
  recomputedNodes : BTreeSet NodeId
  dirtyFeatures : List Nat
  featureStates : K.FeatureStates
  evaluation : Option (EvaluationReport F)

abbrev Revision.id {F : Type} {K : Kernel F} (revision : Revision K) : Nat :=
  revision.snapshot.revisionId

/-! ## Registered results -/

structure DerivedResultKey where
  documentId : DocumentId
  revisionId : Nat
  rootRuleNodeId : NodeId
  slotPath : SlotPath
  inputDigest : String
  resultDigest : String
  evaluator : String
  backend : Option String
  schema : String
  tolerance : String
  deriving DecidableEq

section Keys

attribute [local instance] lexOrd

def DerivedResultKey.key (result : DerivedResultKey) :
    Nat × Nat × Nat × List SlotSegment × String × String × String × Option String × String × String :=
  (result.documentId, result.revisionId, result.rootRuleNodeId, result.slotPath.segments,
    result.inputDigest, result.resultDigest, result.evaluator, result.backend, result.schema,
    result.tolerance)

instance : Ord DerivedResultKey := ⟨compareOn DerivedResultKey.key⟩
instance : Std.TransOrd DerivedResultKey := transOrd_of_key DerivedResultKey.key

end Keys

/-- A current evaluation, as `register_evaluation` records it. -/
structure DerivedResultEvent where
  documentId : DocumentId
  revisionId : Nat
  canonicalDigest : String
  payload : DerivedResultKey
  deriving DecidableEq

/-! ## The store -/

structure HumanConfirmationPolicy {F : Type} (K : Kernel F) where
  verifyingKey : K.VerifyingKey
  epoch : Nat
  consumedSignatures : BTreeSet Bytes

structure DocumentStore {F : Type} (K : Kernel F) where
  revisions : List (Revision K)
  cursor : Nat
  nextRevisionId : Nat
  evaluationRegistry : BTreeMap DerivedResultKey DerivedResultEvent
  humanConfirmationPolicy : Option (HumanConfirmationPolicy K)
  /-- The cursor is the place of a revision. -/
  cursor_lt : cursor < revisions.length

namespace DocumentStore

variable {F : Type} {K : Kernel F}

/-- `self.revisions[self.cursor]`. -/
def currentRevision (store : DocumentStore K) : Revision K :=
  store.revisions.get ⟨store.cursor, store.cursor_lt⟩

def current (store : DocumentStore K) : K.State := store.currentRevision.snapshot

def currentRuleProgram (store : DocumentStore K) : Option (RuleProgramSource F) :=
  store.currentRevision.ruleProgram.map BoundRuleProgram.source

/-- Makes a revision current, without the redo branch and with at most `undoRevisions` before it. -/
def pushRevision (store : DocumentStore K) (revision : Revision K) : DocumentStore K :=
  let excess := store.cursor + 1 - undoRevisions
  { store with
    revisions := (store.revisions.take (store.cursor + 1) ++ [revision]).drop excess
    cursor := store.cursor + 1 - excess
    cursor_lt := by
      have within := store.cursor_lt
      simp only [List.length_drop, List.length_append, List.length_take, List.length_singleton]
      omega }

/-- The current revision replaced in its place. -/
def setCurrentRevision (store : DocumentStore K) (revision : Revision K) : DocumentStore K :=
  { store with
    revisions := store.revisions.set store.cursor revision
    cursor_lt := by rw [List.length_set]; exact store.cursor_lt }

/-- A store with one revision. -/
def single (revision : Revision K) (nextRevisionId : Nat) : DocumentStore K where
  revisions := [revision]
  cursor := 0
  nextRevisionId := nextRevisionId
  evaluationRegistry := ∅
  humanConfirmationPolicy := none
  cursor_lt := Nat.one_pos

/-! ### New and restored stores -/

def initialRevision (snapshot : K.State) (featureStates : K.FeatureStates) : Revision K where
  snapshot := snapshot
  batchDigest := ""
  origin := .initial
  checkpoint := none
  ruleProgram := none
  recomputedNodes := ∅
  dirtyFeatures := []
  featureStates := featureStates
  evaluation := none

def nextId (revisionId : Nat) : Outcome K.Failure Nat :=
  match checkedSucc revisionId with
  | some next => .ok next
  | none => fail .revisionExhausted

def fromProduct (revisionId : Nat) (product : K.Product) :
    Outcome K.Failure (DocumentStore K) := do
  attempt .graph (validateGraph product.evaluatorNodes)
  K.validateOverrides product
  K.validateProductChange none product true
  K.validateSketchProjections product
  let nextRevisionId ← nextId (K := K) revisionId
  let featureStates ← K.featureStates product
  .ok (single (initialRevision ⟨revisionId, product⟩ featureStates) nextRevisionId)

def fromSnapshot (snapshot : K.State) : Outcome K.Failure (DocumentStore K) := do
  let nextRevisionId ← nextId (K := K) snapshot.revisionId
  let featureStates ← K.featureStates snapshot.product
  .ok (single (initialRevision snapshot featureStates) nextRevisionId)

/-- An independent planning view, without confirmation authority. -/
def forkForPlanning (store : DocumentStore K) : DocumentStore K :=
  { store with humanConfirmationPolicy := none }

/-- A revision as a file keeps it. -/
structure StoredRevision (K : Kernel F) where
  snapshot : K.State
  featureStates : K.FeatureStates
  batchDigest : String
  origin : RevisionOrigin
  checkpoint : Option String
  ruleProgram : Option (RuleProgramSource F)

/-- A history the reader of history files accepts. -/
structure StoredHistory (K : Kernel F) where
  revisions : List (StoredRevision K)
  cursor : Nat
  nextRevisionId : Nat
  cursor_lt : cursor < revisions.length
  increasing : (revisions.map fun stored => stored.snapshot.revisionId).Pairwise (· < ·)
  below : ∀ stored ∈ revisions, stored.snapshot.revisionId < nextRevisionId

def StoredRevision.restore [Sha256] (stored : StoredRevision K) : Revision K where
  snapshot := stored.snapshot
  batchDigest := stored.batchDigest
  origin := stored.origin
  checkpoint := stored.checkpoint
  ruleProgram := stored.ruleProgram.map (BoundRuleProgram.new K)
  recomputedNodes := ∅
  dirtyFeatures := []
  featureStates := stored.featureStates
  evaluation := none

/-- A file may hold more revisions than an editing session keeps; only those within the limit around
the cursor are restored. -/
def fromRevisionHistory [Sha256] (history : StoredHistory K) : DocumentStore K :=
  let first := history.cursor - undoRevisions
  let cursor := history.cursor - first
  { revisions := ((history.revisions.drop first).take (cursor + undoRevisions + 1)).map
      StoredRevision.restore
    cursor := cursor
    nextRevisionId := history.nextRevisionId
    evaluationRegistry := ∅
    humanConfirmationPolicy := none
    cursor_lt := by
      have within := history.cursor_lt
      simp only [List.length_map, List.length_take, List.length_drop]
      omega }

/-! ### Undo and redo -/

def undo {ε : Type} : Action (DocumentStore K) ε (Option K.State) := fun store =>
  if store.cursor = 0 then (.ok none, store)
  else
    let after := { store with
      cursor := store.cursor - 1
      cursor_lt := Nat.lt_of_le_of_lt (Nat.sub_le _ _) store.cursor_lt }
    (.ok (some after.current), after)

def redo {ε : Type} : Action (DocumentStore K) ε (Option K.State) := fun store =>
  if within : store.cursor + 1 < store.revisions.length then
    let after := { store with cursor := store.cursor + 1, cursor_lt := within }
    (.ok (some after.current), after)
  else (.ok none, store)

def discardHistoryBeforeCurrent (store : DocumentStore K) : DocumentStore K :=
  { store with revisions := [store.currentRevision], cursor := 0, cursor_lt := Nat.one_pos }

/-! ### Checkpoints, rollback and replacement -/

/-- The current revision is the one, with the content, that the caller saw. -/
def isCurrent (store : DocumentStore K) (expectedRevision : Nat) (expectedDigest : String) : Bool :=
  store.current.revisionId == expectedRevision &&
    canonicalDigest K store.current.product == expectedDigest

def validCheckpointName (name : String) : Bool :=
  !name.isEmpty && name.utf8ByteSize ≤ 80 && trim name == name && !name.toList.any isControl

def createCheckpoint (expectedRevision : Nat) (expectedDigest name : String) :
    Action (DocumentStore K) RevisionHistoryError Unit := do
  let store ← Action.read
  if !store.isCurrent expectedRevision expectedDigest then Action.throw .stale
  else if !validCheckpointName name then Action.throw .invalidCheckpointName
  else if store.revisions.any fun revision =>
      revision.checkpoint == some name && revision.id != expectedRevision then
    Action.throw .duplicateCheckpointName
  else
    Action.modify fun store =>
      store.setCurrentRevision { store.currentRevision with checkpoint := some name }

/-- What the revision catalog shows of a checkpoint: its name and the revision it names. -/
def checkpoints (store : DocumentStore K) : List (String × Nat) :=
  store.revisions.filterMap fun revision => revision.checkpoint.map (·, revision.id)

/-- The first sixteen digits of the hash of a rollback. -/
def rollbackDigest [Sha256] (targetRevision : Nat) (targetDigest : String) : String :=
  String.ofList ((Sha256.hex
    (utf8 s!"ketchup.rollback.v1:{targetRevision}:{targetDigest}")).toList.take 16)

/-- What `rollback_to_revision` checks, and the revision it makes. -/
def rollbackRevision [Sha256] (store : DocumentStore K) (expectedRevision : Nat)
    (expectedDigest : String) (targetRevision : Nat) (principal : ProposalPrincipal) :
    Outcome RevisionHistoryError (Revision K × Nat) := do
  if !store.isCurrent expectedRevision expectedDigest then fail .stale
  else if principal.isUnidentified then fail .invalidPrincipal
  else match store.revisions.find? fun revision => revision.id == targetRevision with
    | none => fail (.revisionNotFound targetRevision)
    | some target =>
      let targetDigest := canonicalDigest K target.snapshot.product
      if targetDigest = canonicalDigest K store.current.product ∧
          target.ruleProgram.map BoundRuleProgram.digest =
            store.currentRevision.ruleProgram.map BoundRuleProgram.digest then
        fail .noOpRollback
      else match checkedSucc store.nextRevisionId with
        | none => fail .revisionExhausted
        | some followingRevisionId =>
          .ok ({ snapshot := ⟨store.nextRevisionId, target.snapshot.product⟩
                 batchDigest := rollbackDigest targetRevision targetDigest
                 origin := .rollback principal targetRevision
                 checkpoint := none
                 ruleProgram := target.ruleProgram
                 recomputedNodes := ∅
                 dirtyFeatures := K.featureIds target.snapshot.product.collections
                 featureStates := target.featureStates
                 evaluation := none }, followingRevisionId)

/-- A revision made current, and the next id moved on. -/
def publish {ε : Type} (revision : Revision K) (followingRevisionId : Nat) :
    Action (DocumentStore K) ε Unit := do
  Action.modify fun store => store.pushRevision revision
  Action.modify fun store => { store with nextRevisionId := followingRevisionId }

def clearRegistry {ε : Type} : Action (DocumentStore K) ε Unit :=
  Action.modify fun store => { store with evaluationRegistry := ∅ }

def rollbackToRevision [Sha256] (expectedRevision : Nat) (expectedDigest : String)
    (targetRevision : Nat) (principal : ProposalPrincipal) :
    Action (DocumentStore K) RevisionHistoryError (Revision K) := do
  let store ← Action.read
  let (revision, followingRevisionId) ← Action.lift
    (store.rollbackRevision expectedRevision expectedDigest targetRevision principal)
  publish revision followingRevisionId
  clearRegistry
  return revision

/-- The revision that takes this document's place from the current one of another store. -/
def replacementRevision (store replacement : DocumentStore K) :
    Outcome K.Failure (Revision K × Nat) :=
  let tip := replacement.currentRevision
  if tip.origin = .initial then fail .emptyCommandBatch
  else do
    let followingRevisionId ← nextId (K := K) store.nextRevisionId
    .ok ({ snapshot := ⟨store.nextRevisionId, tip.snapshot.product⟩
           batchDigest := tip.batchDigest
           origin := tip.origin
           checkpoint := none
           ruleProgram := tip.ruleProgram
           recomputedNodes := ∅
           dirtyFeatures := K.featureIds tip.snapshot.product.collections
           featureStates := tip.featureStates
           evaluation := none }, followingRevisionId)

def publishReplacement (replacement : DocumentStore K) :
    Action (DocumentStore K) K.Failure (Revision K) := do
  let store ← Action.read
  let (revision, followingRevisionId) ← Action.lift (store.replacementRevision replacement)
  publish revision followingRevisionId
  clearRegistry
  return revision

/-! ### Rule programs -/

section Programs

variable [Binary64 F] [Sha256]

/-- Puts a program on the current revision. -/
def setRuleProgram {ε : Type} (source : RuleProgramSource F) : Action (DocumentStore K) ε Unit :=
  Action.modify fun store => store.setCurrentRevision
    { store.currentRevision with ruleProgram := some (BoundRuleProgram.new K source) }

def bindRuleProgram (source : RuleProgramSource F) :
    Action (DocumentStore K) K.Failure Unit := do
  let store ← Action.read
  if store.cursor = 0 ∨ store.cursor + 1 ≠ store.revisions.length then
    Action.throw (.ruleProgram .noNewHeadRevision)
  else if store.currentRevision.ruleProgram.isSome then
    Action.throw (.ruleProgram .alreadyBound)
  else
    Action.lift (attempt .ruleProgram (validateRuleProgramSource K source))
    setRuleProgram source

/-- The checks of a source-only edit, and the revision it makes unless the program stays as it is. -/
def sourceRevision (store : DocumentStore K) (source : RuleProgramSource F) :
    Outcome K.Failure (Option (Revision K × Nat)) := do
  if store.currentRuleProgram.isNone && K.hasDefinitions store.current.product.collections then
    fail (.ruleProgram .notProgramOwned)
  else
    attempt .ruleProgram (validateRuleProgramSource K source)
    if store.currentRuleProgram.any fun held => held.eq source then .ok none
    else
      let nextRevisionId ← nextId (K := K) store.nextRevisionId
      let program := BoundRuleProgram.new K source
      let current := store.currentRevision
      .ok (some ({ current with
        snapshot := ⟨store.nextRevisionId, current.snapshot.product⟩
        batchDigest := String.ofList (program.digest.toList.take 16)
        origin := .principal .manualClient
        checkpoint := none
        ruleProgram := some program
        recomputedNodes := ∅
        dirtyFeatures := [] }, nextRevisionId))

def replaceRuleProgramSource (source : RuleProgramSource F) :
    Action (DocumentStore K) K.Failure Unit := do
  let store ← Action.read
  match ← Action.lift (store.sourceRevision source) with
  | none => pure ()
  | some (revision, nextRevisionId) => publish revision nextRevisionId

end Programs

end DocumentStore

end Ketchup.Document
