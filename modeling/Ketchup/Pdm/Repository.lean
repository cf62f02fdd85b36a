/-
**A repository of releases, as it is read.**

The files of a repository by their directory and their name: a directory that is not there yet holds
no files. `openRelease` reads a release with its document and its dependencies, `releaseCatalog` lists
all releases. How a document is encoded is `DocumentCodec`; the container around it is
`Persistence.Container`'s.
-/

import Ketchup.Pdm.Release
import Ketchup.Persistence.Container

namespace Ketchup.Pdm

open Ketchup.Persistence

/-! ### Files -/

/-- A file under the root of a repository. -/
structure FilePath where
  directory : String
  name : String
  deriving DecidableEq

section Keys

attribute [local instance] lexOrd

def FilePath.key (path : FilePath) : String × String := (path.directory, path.name)

theorem FilePath.key_injective : FilePath.key.Injective := by
  rintro ⟨directory, name⟩ ⟨directory', name'⟩ same
  simpa [FilePath.key] using same

instance : Ord FilePath := ⟨compareOn FilePath.key⟩
instance : Std.TransOrd FilePath := transOrd_of_key FilePath.key
instance : Std.LawfulEqOrd FilePath := lawfulEqOrd_of_key FilePath.key FilePath.key_injective

end Keys

/-- The files that are there, each with its content. -/
abbrev Files := BTreeMap FilePath Bytes

def releasesDirectory : String := "releases"

def releaseManifestPath (releaseId : String) : FilePath := ⟨releasesDirectory, releaseId ++ ".json"⟩

def releaseObjectPath (sha256 : String) : FilePath :=
  ⟨"objects/" ++ String.ofList (sha256.toList.take 2), sha256⟩

/-- `fs::read_dir`. -/
def namesIn (files : Files) (directory : String) : List String :=
  (files.keys.filter fun path => path.directory = directory).map FilePath.name

/-- A file within a limit; `missing` is what its reader makes of a file that is not there. -/
def readBoundedRepositoryFile (files : Files) (path : FilePath) (limit : Nat)
    (limitError missing : LocalPdmError) : Except LocalPdmError Bytes :=
  match files[path]? with
  | none => .error missing
  | some bytes => if limit < bytes.length then .error limitError else .ok bytes

/-! ### Manifests and objects -/

section Reading

variable [Sha256Sum] [ReleaseJson]

def readManifest (files : Files) (releaseId : String) : Except LocalPdmError ReleaseManifest := do
  validateSha256 releaseId
  let bytes ← readBoundedRepositoryFile files (releaseManifestPath releaseId)
    maxReleaseManifestBytes .manifestTooLarge (.missingRelease releaseId)
  let manifest ← (ReleaseJson.manifest bytes).elim (.error .json) .ok
  validateManifest manifest releaseId
  return manifest

def readObject (files : Files) (expected : ReleaseObjectIdentity) : Except LocalPdmError Bytes := do
  validateObjectIdentity expected
  let bytes ← readBoundedRepositoryFile files (releaseObjectPath expected.sha256)
    maxReleaseDependencyBytes (.objectTampered expected.sha256) (.missingObject expected.sha256)
  refuseIf (identity bytes ≠ expected) (.objectTampered expected.sha256)
  return bytes

/-! ### Opening a release -/

/-- What `load_document` returns: the document, and its digest as the writing version computed it. -/
structure LoadedDocument (S : Type) where
  snapshot : S
  sourceCanonicalDigest : String

/-- What is saved of a document and what is read of one. -/
class DocumentCodec (S : Type) where
  documentId : S → Nat
  revisionId : S → Nat
  canonicalDigest : S → String
  encodedSnapshot : S → Bytes
  importedSourceBlobHashes : S → BTreeSet String
  loadDocument : Bytes → Except PersistenceError (LoadedDocument S)
  decodeRuleProgram : Bytes → Except PersistenceError Unit

variable {S : Type} [DocumentCodec S]

def saveContainer (snapshot : S) (data : ContainerData) : Except PersistenceError Bytes :=
  saveContainerEntries (DocumentCodec.encodedSnapshot snapshot) data
    (DocumentCodec.importedSourceBlobHashes snapshot) none none

/-- A loaded document and what its file keeps beside it. -/
structure LoadOutcome (S : Type) where
  document : LoadedDocument S
  containerData : ContainerData

/-- `load_container`, for a reader that restores no history. -/
def loadContainer (bytes : Bytes) : Except PersistenceError (LoadOutcome S) := do
  let parts ← containerParts bytes
  parts.program.elim (.ok ()) (DocumentCodec.decodeRuleProgram S)
  return ⟨← DocumentCodec.loadDocument parts.document, parts.containerData⟩

/-- A file from before the container is the document alone. -/
def load (bytes : Bytes) : Except PersistenceError (LoadOutcome S) :=
  if containerMagic.isPrefixOf bytes then loadContainer bytes
  else (DocumentCodec.loadDocument bytes).map fun document => ⟨document, .empty⟩

structure VerifiedRelease (S : Type) where
  manifest : ReleaseManifest
  snapshot : S
  containerData : ContainerData
  dependencyObjects : BTreeMap String ReleaseObjectIdentity

/-- A dependency whose object is there, under its path. -/
def readDependency (files : Files) (objects : BTreeMap String ReleaseObjectIdentity)
    (dependency : ReleasedDependency) : Except LocalPdmError (BTreeMap String ReleaseObjectIdentity) := do
  let _ ← readObject files dependency.object
  return objects.insert dependency.logicalPath dependency.object

def openRelease (files : Files) (releaseId : String) : Except LocalPdmError (VerifiedRelease S) := do
  let manifest ← readManifest files releaseId
  let documentBytes ← readObject files manifest.document.object
  let loaded ← (load documentBytes : Except _ (LoadOutcome S)).mapError .persistence
  let snapshot := loaded.document.snapshot
  refuseIf (DocumentCodec.documentId snapshot ≠ manifest.document.documentId ∨
    DocumentCodec.revisionId snapshot ≠ manifest.document.revision ∨
    loaded.document.sourceCanonicalDigest ≠ manifest.document.canonicalDigest ∨
    manifest.document.units ≠ millimetres) .documentIdentityMismatch
  let dependencyObjects ← manifest.dependencies.foldlM (readDependency files) ∅
  return ⟨manifest, snapshot, loaded.containerData, dependencyObjects⟩

end Reading

/-! ### The catalog -/

structure ReleaseCatalogEntry where
  releaseId : String
  parentReleaseId : Option String
  documentId : Nat
  revision : Nat
  canonicalDigest : String
  dependencyCount : Nat
  audit : ReleaseAudit
  deriving DecidableEq

def ReleaseManifest.catalogEntry (manifest : ReleaseManifest) : ReleaseCatalogEntry :=
  ⟨manifest.releaseId, manifest.parentReleaseId, manifest.document.documentId,
    manifest.document.revision, manifest.document.canonicalDigest, manifest.dependencies.length,
    manifest.audit⟩

/-- The identifier one more name of the releases directory gives. -/
def addReleaseId (releaseIds : List String) (name : String) : Except LocalPdmError (List String) := do
  refuseIf (releaseIds.length = maxReleaseCatalogEntries) .tooManyReleases
  let releaseId ← (stripSuffix ".json" name).elim (.error .invalidManifest) .ok
  validateSha256 releaseId
  return releaseIds ++ [releaseId]

/-- The ancestors of an entry, from `current` on; `remaining` more may be seen. -/
def checkLineage (byId : BTreeMap String ReleaseCatalogEntry) (documentId : Nat) :
    Nat → BTreeSet String → ReleaseCatalogEntry → Except LocalPdmError Unit
  | 0, _, _ => .error .lineageTooDeep
  | remaining + 1, seen, current =>
    if current.releaseId ∈ seen then .error .invalidManifest
    else
      match current.parentReleaseId with
      | none => .ok ()
      | some parentReleaseId =>
        match byId[parentReleaseId]? with
        | none => .error (.missingRelease parentReleaseId)
        | some parent =>
          if parent.documentId ≠ documentId then .error .parentDocumentMismatch
          else checkLineage byId documentId remaining (seen.insert current.releaseId) parent

def catalogById (catalog : List ReleaseCatalogEntry) : BTreeMap String ReleaseCatalogEntry :=
  catalog.foldl (fun byId entry => byId.insert entry.releaseId entry) ∅

def validateCatalogLineage (catalog : List ReleaseCatalogEntry) : Except LocalPdmError Unit :=
  catalog.forM fun entry =>
    checkLineage (catalogById catalog) entry.documentId maxReleaseLineageDepth ∅ entry

/-- By the time a release was made, then by its identifier. -/
def catalogBefore (left right : ReleaseCatalogEntry) : Bool :=
  ((compare left.audit.createdUnixMs right.audit.createdUnixMs).then
    (compare left.releaseId right.releaseId)).isLE

def releaseCatalog [Sha256Sum] [ReleaseJson] (files : Files) :
    Except LocalPdmError (List ReleaseCatalogEntry) := do
  let releaseIds ← (namesIn files releasesDirectory).foldlM addReleaseId []
  let sorted := releaseIds.mergeSort fun left right => (compare left right).isLE
  let catalog ← sorted.mapM fun releaseId =>
    (readManifest files releaseId).map ReleaseManifest.catalogEntry
  validateCatalogLineage catalog
  return catalog.mergeSort catalogBefore

end Ketchup.Pdm
