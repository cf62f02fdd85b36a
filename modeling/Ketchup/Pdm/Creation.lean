/-
**Creating releases.**

`prepareRelease` makes the manifest of a release and holds the bytes it names; nothing is written
before it has passed. Its `targets` are then written, the objects first and the manifest last, each
under the name its content decides and never over another file.
-/

import Ketchup.Pdm.Repository

namespace Ketchup.Pdm

open Ketchup.Persistence

/-- A dependency as a caller gives it: its path in the release and what its file holds, if it can be
read. -/
structure ReleaseDependencyInput where
  logicalPath : String
  source : Option Bytes

/-- What a release is to be made of. -/
structure ReleaseRequest (S : Type) [Sha256Sum] where
  snapshot : S
  containerData : ContainerData
  expectedRevision : Nat
  expectedCanonicalDigest : String
  dependencies : List ReleaseDependencyInput
  audit : ReleaseAudit

/-- A release that is ready to be written. -/
structure PreparedRelease where
  manifest : ReleaseManifest
  document : Bytes
  dependencies : List (ReleasedDependency × Bytes)

section Creating

variable [Sha256Sum] [ReleaseJson]

/-! ### Preparing -/

/-- A file outside the repository within a limit. -/
def readBoundedFile (source : Option Bytes) (limit : Nat) (limitError : LocalPdmError) :
    Except LocalPdmError Bytes :=
  match source with
  | none => .error .io
  | some bytes => if limit < bytes.length then .error limitError else .ok bytes

/-- The dependencies read so far. -/
structure DependencyObjects where
  objects : List (ReleasedDependency × Bytes)
  logicalPaths : BTreeSet String
  totalBytes : Nat

def readReleaseDependency (maximumDependencyBytes maximumTotalBytes : Nat)
    (before : DependencyObjects) (dependency : ReleaseDependencyInput) :
    Except LocalPdmError DependencyObjects := do
  validateLogicalPath dependency.logicalPath
  refuseIf (dependency.logicalPath ∈ before.logicalPaths) .duplicateLogicalPath
  let remainingBytes := maximumTotalBytes - before.totalBytes
  let limitError := if maximumDependencyBytes ≤ remainingBytes then LocalPdmError.dependencyTooLarge
    else .dependenciesTooLarge
  let bytes ← readBoundedFile dependency.source (min maximumDependencyBytes remainingBytes) limitError
  return ⟨before.objects ++ [(⟨dependency.logicalPath, identity bytes⟩, bytes)],
    before.logicalPaths.insert dependency.logicalPath, before.totalBytes + bytes.length⟩

/-- The dependencies, by their paths. -/
def readReleaseDependencies (dependencies : List ReleaseDependencyInput)
    (maximumDependencyBytes maximumTotalBytes : Nat) :
    Except LocalPdmError (List (ReleasedDependency × Bytes)) := do
  let read ← dependencies.foldlM
    (readReleaseDependency maximumDependencyBytes maximumTotalBytes) ⟨[], ∅, 0⟩
  return read.objects.mergeSort fun left right =>
    (compare left.1.logicalPath right.1.logicalPath).isLE

def ReleasePayload.manifest (payload : ReleasePayload) : ReleaseManifest :=
  ⟨payload.schema, canonicalPayloadIdentity payload, payload.parentReleaseId, payload.document,
    payload.dependencies, payload.audit⟩

variable {S : Type} [DocumentCodec S]

/-- What a release is identified by. -/
def releasePayload (parent : Option ReleaseManifest) (request : ReleaseRequest S) (document : Bytes)
    (objects : List (ReleasedDependency × Bytes)) : ReleasePayload where
  schema := releaseSchemaV1
  parentReleaseId := parent.map ReleaseManifest.releaseId
  document := ⟨DocumentCodec.documentId request.snapshot, DocumentCodec.revisionId request.snapshot,
    DocumentCodec.canonicalDigest request.snapshot, millimetres, identity document⟩
  dependencies := objects.map Prod.fst
  audit := request.audit

/-- `create_release_internal`, to where it writes. -/
def prepareRelease (parent : Option ReleaseManifest) (request : ReleaseRequest S) :
    Except LocalPdmError PreparedRelease := do
  refuseIf (DocumentCodec.revisionId request.snapshot ≠ request.expectedRevision ∨
    DocumentCodec.canonicalDigest request.snapshot ≠ request.expectedCanonicalDigest) .staleSnapshot
  validateAudit request.audit
  refuseIf (maxReleaseDependencies < request.dependencies.length) .tooManyDependencies
  let document ← (saveContainer request.snapshot request.containerData).mapError .persistence
  let objects ← readReleaseDependencies request.dependencies maxReleaseDependencyBytes
    maxReleaseTotalDependencyBytes
  let payload := releasePayload parent request document objects
  refuseIf (∃ manifest ∈ parent, manifest.document.object = payload.document.object ∧
    manifest.dependencies = payload.dependencies) .noChangesAgainstParent
  refuseIf (maxReleaseManifestBytes < (ReleaseJson.manifestText payload.manifest).length)
    .manifestTooLarge
  return ⟨payload.manifest, document, objects⟩

/-! ### Writing -/

/-- A file a release consists of. -/
inductive Target
  | object (identity : ReleaseObjectIdentity) (bytes : Bytes)
  | manifest (releaseId : String) (bytes : Bytes)

namespace Target

def path : Target → FilePath
  | object identity _ => releaseObjectPath identity.sha256
  | manifest releaseId _ => releaseManifestPath releaseId

def bytes : Target → Bytes
  | object _ bytes => bytes
  | manifest _ bytes => bytes

end Target

namespace PreparedRelease

def releaseId (release : PreparedRelease) : String := release.manifest.releaseId

/-- The document, then the dependencies. -/
def objects (release : PreparedRelease) : List Target :=
  .object release.manifest.document.object release.document ::
    release.dependencies.map fun dependency => .object dependency.1.object dependency.2

def manifestTarget (release : PreparedRelease) : Target :=
  .manifest release.releaseId (ReleaseJson.manifestText release.manifest)

/-- What a release writes, in this order. -/
def targets (release : PreparedRelease) : List Target := release.objects ++ [release.manifestTarget]

end PreparedRelease

/-- An object that is there already has to be the one that was to be written. -/
def verifyExistingObject (actual : Bytes) (object : ReleaseObjectIdentity) (expected : Bytes) :
    Except LocalPdmError Unit := do
  refuseIf (maxReleaseDependencyBytes < actual.length) (.objectConflict object.sha256)
  refuseIf (actual ≠ expected ∨ identity actual ≠ object) (.objectConflict object.sha256)

/-- What becomes of a target whose file is there. -/
def Target.whenPresent (actual : Bytes) : Target → Except LocalPdmError Unit
  | .object identity expected => verifyExistingObject actual identity expected
  | .manifest .. => .error .releaseAlreadyExists

/-- `write_content_addressed_object` and `write_manifest`, without another creator: the temporary file
is gone when they return. -/
def writeTarget (files : Files) (target : Target) : Except LocalPdmError Files :=
  match files[target.path]? with
  | some actual => (target.whenPresent actual).map fun () => files
  | none => .ok (files.insert target.path target.bytes)

/-- Writes the targets in turn; what was written before a failure stays. -/
def writeTargets (files : Files) : List Target → Files × Except LocalPdmError Unit
  | [] => (files, .ok ())
  | target :: rest =>
    match writeTarget files target with
    | .error error => (files, .error error)
    | .ok after => writeTargets after rest

def createReleaseInternal (files : Files) (parent : Option ReleaseManifest)
    (request : ReleaseRequest S) : Files × Except LocalPdmError ReleaseManifest :=
  match prepareRelease parent request with
  | .error error => (files, .error error)
  | .ok release =>
    let (after, written) := writeTargets files release.targets
    (after, written.map fun () => release.manifest)

/-- The parent of a child release: one that opens, of the same document. -/
def openParent (files : Files) (parentReleaseId : String) (request : ReleaseRequest S) :
    Except LocalPdmError ReleaseManifest := do
  let parent ← (openRelease files parentReleaseId : Except _ (VerifiedRelease S))
  refuseIf (parent.manifest.document.documentId ≠ DocumentCodec.documentId request.snapshot)
    .parentDocumentMismatch
  return parent.manifest

def createRelease (files : Files) (request : ReleaseRequest S) :
    Files × Except LocalPdmError ReleaseManifest :=
  createReleaseInternal files none request

def createChildRelease (files : Files) (parentReleaseId : String) (request : ReleaseRequest S) :
    Files × Except LocalPdmError ReleaseManifest :=
  match openParent files parentReleaseId request with
  | .error error => (files, .error error)
  | .ok parent => createReleaseInternal files (some parent) request

end Creating

end Ketchup.Pdm
