/-
**Releases and what a manifest has to be.**

A release is a manifest that names the document and the dependencies it was made of by their SHA-256
and their length. Its identifier is the SHA-256 of the rest of the manifest. `validateManifest` makes
the checks every reader of a manifest makes. Texts of JSON are `serde_json`'s (`ReleaseJson`).
-/

import Ketchup.Library.Outcome
import Ketchup.Library.Paths
import Ketchup.Library.Sha256
import Ketchup.Persistence.Reader

namespace Ketchup.Pdm

open Ketchup.Persistence

def releaseSchemaV1 : String := "ketchup.local-pdm.release.v1"
def maxReleaseDependencies : Nat := 256
def maxReleaseDependencyBytes : Nat := 256 * 1024 * 1024
def maxReleaseTotalDependencyBytes : Nat := 256 * 1024 * 1024
def maxReleaseManifestBytes : Nat := 1024 * 1024
def maxLogicalPathBytes : Nat := 512
def maxAuditActorBytes : Nat := 128
def maxAuditNoteBytes : Nat := 2048
def maxReleaseCatalogEntries : Nat := 4096
def maxReleaseLineageDepth : Nat := 256

/-- The one unit system a document can have, as a manifest names it. -/
def millimetres : String := "millimetres"

structure ReleaseAudit where
  actor : String
  createdUnixMs : Nat
  note : String
  deriving DecidableEq

structure ReleaseObjectIdentity where
  sha256 : String
  byteLen : Nat
  deriving DecidableEq

structure ReleasedDocument where
  documentId : Nat
  revision : Nat
  canonicalDigest : String
  units : String
  object : ReleaseObjectIdentity
  deriving DecidableEq

structure ReleasedDependency where
  logicalPath : String
  object : ReleaseObjectIdentity
  deriving DecidableEq

/-- What the identifier of a release is the SHA-256 of. -/
structure ReleasePayload where
  schema : String
  parentReleaseId : Option String
  document : ReleasedDocument
  dependencies : List ReleasedDependency
  audit : ReleaseAudit
  deriving DecidableEq

structure ReleaseManifest where
  schema : String
  releaseId : String
  parentReleaseId : Option String
  document : ReleasedDocument
  dependencies : List ReleasedDependency
  audit : ReleaseAudit
  deriving DecidableEq

def ReleaseManifest.payload (manifest : ReleaseManifest) : ReleasePayload :=
  ⟨manifest.schema, manifest.parentReleaseId, manifest.document, manifest.dependencies,
    manifest.audit⟩

inductive LocalPdmError
  /-- Any failure of the file system but a missing file. -/
  | io
  | json
  | persistence (error : PersistenceError)
  | staleSnapshot
  | invalidAudit
  | tooManyDependencies
  | tooManyReleases
  | lineageTooDeep
  | parentDocumentMismatch
  | noChangesAgainstParent
  | invalidLogicalPath
  | duplicateLogicalPath
  | dependencyTooLarge
  | dependenciesTooLarge
  | invalidReleaseId
  | manifestTooLarge
  | invalidManifest
  | manifestIdentityMismatch
  | releaseAlreadyExists
  | missingRelease (releaseId : String)
  | missingObject (sha256 : String)
  | objectTampered (sha256 : String)
  | objectConflict (sha256 : String)
  | documentIdentityMismatch
  deriving DecidableEq

/-- What `serde_json` writes and reads: the payload in one line, the manifest pretty-printed. -/
class ReleaseJson where
  payloadText : ReleasePayload → Bytes
  manifestText : ReleaseManifest → Bytes
  manifest : Bytes → Option ReleaseManifest

/-! ### Checks -/

def validateAudit (audit : ReleaseAudit) : Except LocalPdmError Unit :=
  refuseIf (trim audit.actor ≠ audit.actor ∨ audit.actor = "" ∨
      maxAuditActorBytes < audit.actor.utf8ByteSize ∨ audit.actor.toList.any isControl ∨
      audit.createdUnixMs = 0 ∨ trim audit.note ≠ audit.note ∨
      maxAuditNoteBytes < audit.note.utf8ByteSize ∨ audit.note.toList.any isControl)
    .invalidAudit

/-- A relative path whose parts are all names; `Path::components` leaves out empty parts, and `.` but
for the first. -/
def validateLogicalPath (path : String) : Except LocalPdmError Unit := do
  refuseIf (path = "" ∨ maxLogicalPathBytes < path.utf8ByteSize ∨ '\\' ∈ path.toList ∨
    path.toList.any isControl) .invalidLogicalPath
  refuseIf (path.toList.head? = some '/' ∨ (components '/' path).head? = some "." ∨
    ".." ∈ components '/' path) .invalidLogicalPath

def validateSha256 (value : String) : Except LocalPdmError Unit :=
  refuseIf (value.utf8ByteSize ≠ 64 ∨ ¬value.toList.all isHexDigit) .invalidReleaseId

def validateObjectIdentity (identity : ReleaseObjectIdentity) : Except LocalPdmError Unit := do
  validateSha256 identity.sha256
  refuseIf (maxReleaseDependencyBytes < identity.byteLen) .invalidManifest

/-- The dependency before, and the bytes so far. -/
structure DependencyCheck where
  previous : Option String
  totalBytes : Nat

/-- One dependency: after the one before it, and with it within the bytes of a release. A sum that no
`u64` holds is above the limit too. -/
def checkDependency (before : DependencyCheck) (dependency : ReleasedDependency) :
    Except LocalPdmError DependencyCheck := do
  validateLogicalPath dependency.logicalPath
  validateObjectIdentity dependency.object
  let totalBytes := before.totalBytes + dependency.object.byteLen
  refuseIf (maxReleaseTotalDependencyBytes < totalBytes) .dependenciesTooLarge
  refuseIf (∃ path ∈ before.previous, compare path dependency.logicalPath ≠ .lt) .invalidManifest
  return ⟨some dependency.logicalPath, totalBytes⟩

/-- The parent a manifest names is not the release itself. -/
def validateParent (parentReleaseId : Option String) (expectedReleaseId : String) :
    Except LocalPdmError Unit :=
  match parentReleaseId with
  | none => .ok ()
  | some parent => do
    validateSha256 parent
    refuseIf (parent = expectedReleaseId) .invalidManifest

section Identities

variable [Sha256Sum] [ReleaseJson]

def identity (bytes : Bytes) : ReleaseObjectIdentity := ⟨Sha256.hex bytes, bytes.length⟩

def canonicalPayloadIdentity (payload : ReleasePayload) : String :=
  Sha256.hex (ReleaseJson.payloadText payload)

def ReleaseManifest.computedReleaseId (manifest : ReleaseManifest) : String :=
  canonicalPayloadIdentity manifest.payload

def validateManifest (manifest : ReleaseManifest) (expectedReleaseId : String) :
    Except LocalPdmError Unit := do
  refuseIf (manifest.schema ≠ releaseSchemaV1 ∨ manifest.releaseId ≠ expectedReleaseId ∨
    manifest.computedReleaseId ≠ expectedReleaseId ∨
    maxReleaseDependencies < manifest.dependencies.length ∨
    manifest.document.units ≠ millimetres) .manifestIdentityMismatch
  validateParent manifest.parentReleaseId expectedReleaseId
  validateAudit manifest.audit
  validateObjectIdentity manifest.document.object
  let _ ← manifest.dependencies.foldlM checkDependency ⟨none, 0⟩

end Identities

end Ketchup.Pdm
