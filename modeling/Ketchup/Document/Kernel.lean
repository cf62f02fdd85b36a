/-
**What the document store takes from the code around it.**

`Kernel` collects the functions the store calls on the other collections of a product: the commands
that edit them, what a batch refreshes and checks after its commands, the forms that are hashed, the
reads and writes of a proposal, and the signatures of confirmations. Each keeps the source's name.
The results about the store hold for every kernel.

`ProductModel.canonicalDigest`, `CommandBatch.digest` and `dependencyDigest` are the digests the store
compares, and `RuleProgramSource.digest` names a program.
-/

import Ketchup.Document.Product

namespace Ketchup.Document

open Ketchup.Graph

/-- What a commit is asked to reach, for the values a diff shows. -/
inductive ProposalGoal
  | canonicalPreview
  | setRuleDimension (id : NodeId)
  | setFeatureDimension (id : Nat)
  | setOccurrenceParent (id : Nat)
  | deleteOccurrence (id : Nat)
  deriving DecidableEq

/-- A face reference: the feature that makes the face, and what else identifies it. -/
structure BodySubshapeRef (I : Type) where
  documentId : DocumentId
  definitionId : Nat
  producerFeatureId : Nat
  lineageDigest : String
  identification : I
  deriving DecidableEq

inductive ReferenceEvidenceError
  | invalidLineage
  | wrongDocument
  | producerNotFound
  | producerDefinitionMismatch
  deriving DecidableEq

structure Kernel (F : Type) where
  /-- The collections of a product besides its evaluator nodes. -/
  Collections : Type
  Command : Type
  Error : Type
  /-- What a batch notes beside the product it edits: features to recompute, the definitions each
  coded path named before the batch, and the coded paths that name others after a command. -/
  Journal : Type
  /-- A feature parameter. -/
  Target : Type
  FeatureStates : Type
  /-- `AuthoritativeDependency`. -/
  Dependency : Type
  /-- `ProposalValue`. -/
  Value : Type
  Identification : Type
  /-- What `register_exact_reference_evidence` takes. -/
  Evidence : Type
  VerifyingKey : Type
  dependencyEq : DecidableEq Dependency
  valueEq : DecidableEq Value
  identificationEq : DecidableEq Identification
  -- Commands.
  isViewOnly : Command → Bool
  /-- `SetProductionCode`. -/
  setsProductionCode : Command → Bool
  /-- `SetModeledThreads`. -/
  setsModeledThreads : Command → Bool
  switchesThreads : Command → Bool
  openJournal : ProductModel F Collections → Journal
  apply : Snapshot F Collections → ProductModel F Collections → Journal → Command →
    Outcome (CanonicalError Error) (Collections × Journal)
  /-- The coded paths a command made name other definitions. -/
  noteRebound : ProductModel F Collections → Journal → Outcome (CanonicalError Error) Journal
  /-- The error for the first of them. -/
  reboundPath : Journal → Option (CanonicalError Error)
  featureParameterBindings : Collections → List (FeatureParameterBinding Target)
  setFeatureParameter : Collections → Target → Dimension F →
    Outcome (CanonicalError Error) Collections
  insertProvenance : Collections → Target → FeatureParameterProvenance → Collections
  -- After the commands of a batch.
  /-- From `refresh_supported_planar_face_frames` to `refresh_sketch_projections`. -/
  refresh : Snapshot F Collections → ProductModel F Collections → Bool →
    Outcome (CanonicalError Error) Collections
  refreshOverrideHealth : ProductModel F Collections → Collections
  validateOverrides : ProductModel F Collections → Outcome (CanonicalError Error) Unit
  validateSavedViews : ProductModel F Collections → Outcome (CanonicalError Error) Unit
  validateProductChange : Option (ProductModel F Collections) → ProductModel F Collections → Bool →
    Outcome (CanonicalError Error) Unit
  validateSketchProjections : ProductModel F Collections → Outcome (CanonicalError Error) Unit
  validateMotionPublication : Snapshot F Collections → ProductModel F Collections →
    List (CanonicalCommand F Command) → Outcome (CanonicalError Error) Unit
  /-- The features a batch makes dirty, by what it changed and its journal, and the states of all. -/
  featureChanges : Snapshot F Collections → ProductModel F Collections → Journal →
    Outcome (CanonicalError Error) (List Nat × FeatureStates)
  /-- The states of the features of a product with none dirty. -/
  featureStates : ProductModel F Collections → Outcome (CanonicalError Error) FeatureStates
  featureIds : Collections → List Nat
  hasDefinitions : Collections → Bool
  -- Forms that are hashed or stored.
  /-- The identity form of a product: its serde form without derived fields. -/
  productBytes : ProductModel F Collections → Bytes
  commandsBytes : List (CanonicalCommand F Command) → Bytes
  dependencyBytes : Dependency → Bytes
  /-- The identity form of what a dependency names in a product, or of its absence. -/
  contentBytes : ProductModel F Collections → Dependency → Bytes
  /-- `serde_json::to_vec` of a program. -/
  programBytes : RuleProgramSource F → Bytes
  -- Proposals.
  authoritativeDependencies : Snapshot F Collections → CommandBatch F Command → List Dependency
  authoritativeWrites : Snapshot F Collections → CommandBatch F Command → List Dependency
  proposalValue : Snapshot F Collections → Dependency → ProposalGoal → Value
  -- Exact references.
  hasValidLineage : BodySubshapeRef Identification → Bool
  /-- The definition a feature belongs to. -/
  featureDefinition : Collections → Nat → Option Nat
  /-- The producer compiles to what the reference was taken from. -/
  matchesReference : Snapshot F Collections → BodySubshapeRef Identification → Bool
  anchoredLineages : Collections → List String
  exactReferenceEvidence : Collections → BTreeMap String (BodySubshapeRef Identification)
  conflictsWithAnchor : Snapshot F Collections → Collections → BodySubshapeRef Identification → Bool
  holdReferenceEvidence : Collections → BodySubshapeRef Identification → Collections
  rebindPlanarFaceReference : Collections → BodySubshapeRef Identification → Option Collections
  /-- The collections with a piece of evidence registered, where its checks pass. -/
  withEvidence : Snapshot F Collections → Evidence → Except ReferenceEvidenceError Collections
  /-- The entries of features and evidence are the same allocations. -/
  sameEvidence : Collections → Collections → Bool
  -- Ed25519.
  verifyingKey : Bytes → Option VerifyingKey
  verify : VerifyingKey → Bytes → Bytes → Bool

namespace Kernel

variable {F : Type} (K : Kernel F)

abbrev Product := ProductModel F K.Collections
abbrev State := Snapshot F K.Collections
abbrev Batch := CommandBatch F K.Command
abbrev Failure := CanonicalError K.Error
abbrev Reference := BodySubshapeRef K.Identification

attribute [instance] dependencyEq valueEq identificationEq

end Kernel

section Digests

variable {F : Type} (K : Kernel F)

/-- `digest_product`. -/
def canonicalDigest (product : K.Product) : String :=
  ((StableDigest.bytes .offset (utf8 "ketchup.document.v4")).write
    (K.productBytes product)).finish

def batchDigest (batch : K.Batch) : String :=
  ((StableDigest.bytes .offset (utf8 batch.schema)).write
    (K.commandsBytes batch.commands)).finish

/-- The bytes `dependency_digest` hashes after its label. -/
def dependenciesBytes (product : K.Product) (dependencies : List K.Dependency) : Bytes :=
  Cbor.unsigned dependencies.length ++ dependencies.flatMap fun dependency =>
    K.dependencyBytes dependency ++ K.contentBytes product dependency

def dependencyDigest (snapshot : K.State) (dependencies : List K.Dependency) : String :=
  ((StableDigest.bytes .offset (utf8 "ketchup.authoritative-dependencies.v2")).write
    (dependenciesBytes K snapshot.product dependencies)).finish

def ruleProgramDigest [Sha256] (source : RuleProgramSource F) : String :=
  Sha256.hex (utf8 "ketchup.rule-source.v1" ++ K.programBytes source)

end Digests

/-- A program with the digest made when it was bound. -/
structure BoundRuleProgram (F : Type) where
  source : RuleProgramSource F
  digest : String

def BoundRuleProgram.new {F : Type} [Sha256] (K : Kernel F) (source : RuleProgramSource F) :
    BoundRuleProgram F :=
  ⟨source, ruleProgramDigest K source⟩

/-- The checks of a program that a revision is to be bound to. -/
def validateRuleProgramSource {F : Type} [Binary64 F] (K : Kernel F)
    (source : RuleProgramSource F) : Except RuleProgramError Unit := do
  source.validate
  let bytes := (K.programBytes source).length
  if maxRuleProgramBytes < bytes then .error (.tooLarge bytes) else .ok ()

end Ketchup.Document
