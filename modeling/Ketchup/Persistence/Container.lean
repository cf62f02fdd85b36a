/-
**The native container.**

A file is a list of entries, each with its path, whether a reader has to know it, its length, its
SHA-256 and its bytes. Beside the document, its history and its program, a file keeps blobs under
their hash and extensions under a namespace and a path; `ContainerData` holds these two, and carries
the rules its insertion functions check.
-/

import Ketchup.Library.Paths
import Ketchup.Library.Sha256
import Ketchup.Persistence.Reader

namespace Ketchup.Persistence

open Ketchup.Document

def containerMagic : Bytes := utf8 "KETCHUPCTR"
def containerSchema : Nat := 1

/-- A container with an entry over `entryLimitOf020`, read as schema 1. -/
def largeContainerSchema : Nat := 2

/-- The largest entry version 0.2.0 reads. -/
def entryLimitOf020 : Nat := 32 * 1024 * 1024

def documentEntry : String := "document.bin"
def historyEntry : String := "history.bin"
def programEntry : String := "program.json"
def maxContainerEntries : Nat := 4096
def maxContainerPathBytes : Nat := 1024

/-! ### Paths -/

def isNamespaceMark (mark : Char) : Bool :=
  ('a' ≤ mark && mark ≤ 'z') || ('0' ≤ mark && mark ≤ '9') || mark == '.' || mark == '_' ||
    mark == '-'

def validateNamespace (nameSpace : String) : Except PersistenceError Unit :=
  if nameSpace = "" ∨ maxContainerPathBytes < nameSpace.utf8ByteSize ∨
      ¬nameSpace.toList.all isNamespaceMark then
    .error (.invalidContainerPath nameSpace)
  else .ok ()

/-- A part of a path that names no directory above or beside it. -/
def isComponent (component : String) : Bool :=
  component != "" && component != "." && component != ".."

def validateRelativePath (path : String) : Except PersistenceError Unit :=
  if path = "" ∨ maxContainerPathBytes < path.utf8ByteSize ∨ '\\' ∈ path.toList ∨
      '\x00' ∈ path.toList ∨ path.toList.head? = some '/' ∨ ¬(components '/' path).all isComponent then
    .error (.invalidContainerPath path)
  else .ok ()

def validateContainerPath (path : String) : Except PersistenceError Unit := do
  validateRelativePath path
  if ':' ∈ path.toList then .error (.invalidContainerPath path) else .ok ()

/-! ### What a file keeps beside its document -/

structure ExtensionEntry where
  nameSpace : String
  path : String
  required : Bool
  bytes : Bytes
  named : validateNamespace nameSpace = .ok ()
  placed : validateRelativePath path = .ok ()
  deriving DecidableEq

structure ExtensionKey where
  nameSpace : String
  path : String
  deriving DecidableEq

section Keys

attribute [local instance] lexOrd

def ExtensionKey.key (key : ExtensionKey) : String × String := (key.nameSpace, key.path)

theorem ExtensionKey.key_injective : ExtensionKey.key.Injective := by
  rintro ⟨nameSpace, path⟩ ⟨nameSpace', path'⟩ same
  simpa [ExtensionKey.key] using same

instance : Ord ExtensionKey := ⟨compareOn ExtensionKey.key⟩
instance : Std.TransOrd ExtensionKey := transOrd_of_key ExtensionKey.key
instance : Std.LawfulEqOrd ExtensionKey :=
  lawfulEqOrd_of_key ExtensionKey.key ExtensionKey.key_injective

end Keys

namespace ExtensionEntry

/-- `ExtensionEntry::new`. -/
def new (nameSpace path : String) (required : Bool) (bytes : Bytes) :
    Except PersistenceError ExtensionEntry :=
  match named : validateNamespace nameSpace with
  | .error error => .error error
  | .ok () =>
    match placed : validateRelativePath path with
    | .error error => .error error
    | .ok () => .ok ⟨nameSpace, path, required, bytes, named, placed⟩

def key (entry : ExtensionEntry) : ExtensionKey := ⟨entry.nameSpace, entry.path⟩

/-- Where a container holds it. -/
def containerPath (entry : ExtensionEntry) : String :=
  "extensions/" ++ entry.nameSpace ++ "/" ++ entry.path

theorem new_self (entry : ExtensionEntry) :
    new entry.nameSpace entry.path entry.required entry.bytes = .ok entry := by
  unfold new
  split
  case h_1 error refused => exact absurd (entry.named.symm.trans refused) nofun
  case h_2 =>
    split
    case h_1 error refused => exact absurd (entry.placed.symm.trans refused) nofun
    case h_2 => rfl

end ExtensionEntry

variable [Sha256Sum]

/-- Blobs under the hash of their bytes, and extensions under their namespace and path. -/
structure ContainerData where
  blobs : BTreeMap String Bytes
  importedSourceBlobs : BTreeSet String
  extensions : BTreeMap ExtensionKey ExtensionEntry
  hashed : ∀ hash (bytes : Bytes), blobs[hash]? = some bytes → hash = Sha256.hex bytes
  keyed : ∀ key (entry : ExtensionEntry), extensions[key]? = some entry → key = entry.key

namespace ContainerData

/-- `ContainerData::default`. -/
def empty : ContainerData where
  blobs := ∅
  importedSourceBlobs := ∅
  extensions := ∅
  hashed := fun _ _ found => by simp at found
  keyed := fun _ _ found => by simp at found

/-- A blob put under the hash of its bytes. -/
def putBlob (data : ContainerData) (bytes : Bytes) : ContainerData :=
  { data with
    blobs := data.blobs.insert (Sha256.hex bytes) bytes
    hashed := fun hash held found => by
      rw [BTreeMap.getElem?_insert] at found
      split at found
      · next same => rw [← same, Option.some.inj found]
      · exact data.hashed hash held found }

/-- `insert_blob`: a blob that is there stays as it is. -/
def insertBlob (data : ContainerData) (bytes : Bytes) : ContainerData × String :=
  (if Sha256.hex bytes ∈ data.blobs then data else data.putBlob bytes, Sha256.hex bytes)

def insertImportBlob (data : ContainerData) (bytes : Bytes) : ContainerData × String :=
  let (inserted, hash) := data.insertBlob bytes
  ({ inserted with importedSourceBlobs := inserted.importedSourceBlobs.insert hash }, hash)

def setExtension (data : ContainerData) (entry : ExtensionEntry) : ContainerData :=
  { data with
    extensions := data.extensions.insert entry.key entry
    keyed := fun key held found => by
      rw [BTreeMap.getElem?_insert] at found
      split at found
      · next same => rw [← same, Option.some.inj found]
      · exact data.keyed key held found }

def insertExtension (data : ContainerData) (entry : ExtensionEntry) :
    Except PersistenceError ContainerData :=
  if entry.key ∈ data.extensions then .error .duplicateContainerEntry
  else .ok (data.setExtension entry)

@[ext] theorem ext_of {first second : ContainerData} (blobs : first.blobs = second.blobs)
    (imported : first.importedSourceBlobs = second.importedSourceBlobs)
    (extensions : first.extensions = second.extensions) : first = second := by
  cases first
  cases second
  cases blobs
  cases imported
  cases extensions
  rfl

end ContainerData

/-! ### Writing -/

/-- The path of an entry, whether it is required, and its content. -/
abbrev Entry := String × Bool × Bytes

abbrev Entries := BTreeMap String (Bool × Bytes)

/-- Whether a save keeps a blob: an import's source only while the document names it. -/
def keepsBlob (data : ContainerData) (importedSources : BTreeSet String) (hash : String) : Bool :=
  !data.importedSourceBlobs.contains hash || importedSources.contains hash

def insertBlobEntry (data : ContainerData) (importedSources : BTreeSet String) (entries : Entries)
    (blob : String × Bytes) : Entries :=
  if keepsBlob data importedSources blob.1 then entries.insert ("blobs/" ++ blob.1) (false, blob.2)
  else entries

def insertExtensionEntry (entries : Entries) (extension : ExtensionKey × ExtensionEntry) :
    Except PersistenceError Entries :=
  let path := extension.2.containerPath
  if path ∈ entries then .error .duplicateContainerEntry
  else .ok (entries.insert path (extension.2.required, extension.2.bytes))

/-- The entries a file holds beside its document, history and program. -/
def sideEntries (data : ContainerData) (importedSources : BTreeSet String) :
    Except PersistenceError Entries :=
  if importedSources.toList.any fun hash => !data.blobs.contains hash then .error .invalidBlobHash
  else data.extensions.toList.foldlM insertExtensionEntry
    (data.blobs.toList.foldl (insertBlobEntry data importedSources) ∅)

/-- One entry as it is put down. -/
def entryForm (entry : Entry) : Except PersistenceError Bytes := do
  let (path, required, bytes) := entry
  validateContainerPath path
  let name ← pushString path
  let length ← u64Len bytes.length
  return name ++ boolForm required ++ u64Form length ++ Sha256Sum.sum bytes ++ bytes

/-- `entries` as a native container. -/
def encodeContainer (entries : Entries) : Except PersistenceError Bytes :=
  if maxContainerEntries < entries.size then .error .resourceLimit
  else do
    let large := entries.toList.any fun (_, _, bytes) => decide (entryLimitOf020 < bytes.length)
    let count ← u32Count entries.size
    let forms ← entries.toList.mapM entryForm
    return containerMagic ++ u16Form (if large then largeContainerSchema else containerSchema) ++
      u32Form count ++ forms.flatten

/-- A required entry, where there is content for it. -/
def withEntry (entries : Entries) (path : String) : Option Bytes → Entries
  | some content => entries.insert path (true, content)
  | none => entries

/-- The entries of a whole file. -/
def savedEntries (documentBin : Bytes) (data : ContainerData) (importedSources : BTreeSet String)
    (revisionHistory program : Option Bytes) : Except PersistenceError Entries := do
  let entries := (← sideEntries data importedSources).insert documentEntry (true, documentBin)
  return withEntry (withEntry entries historyEntry revisionHistory) programEntry program

def saveContainerEntries (documentBin : Bytes) (data : ContainerData)
    (importedSources : BTreeSet String) (revisionHistory program : Option Bytes) :
    Except PersistenceError Bytes := do
  encodeContainer (← savedEntries documentBin data importedSources revisionHistory program)

/-! ### Reading -/

/-- One entry of a container as its framing names it. -/
structure ContainerEntry where
  path : String
  required : Bool
  checksum : Bytes
  content : Bytes

/-- Every stored length fits in the rest of the file, its checksum first. -/
def ensureStored (length : Nat) : Parse Unit := fun reader =>
  if reader.bytes.length - reader.cursor - 32 < length then .error .truncated else .ok ((), reader)

def readContainerEntry : Parse ContainerEntry := do
  let path ← string
  liftResult (validateContainerPath path)
  let required ← boolean
  let length ← u64
  ensureStored length
  let checksum ← take 32
  let content ← take length
  return ⟨path, required, checksum, content⟩

def readContainerDirectory : Parse (List ContainerEntry) := do
  let magic ← take containerMagic.length
  ensure (magic = containerMagic) .invalidContainerMagic
  let schema ← u16
  ensure (schema = containerSchema ∨ schema = largeContainerSchema)
    (.unsupportedContainerSchema schema)
  let count ← countWithLimit maxContainerEntries
  parseEach readContainerEntry count

/-- The entries of a container whose framing holds. -/
def containerDirectory (bytes : Bytes) : Except PersistenceError (List ContainerEntry) := do
  let (entries, reader) ← readContainerDirectory (.new bytes)
  if reader.isFinished then .ok entries else .error .trailingBytes

def insertDirectoryEntry (entries : Entries) (entry : ContainerEntry) :
    Except PersistenceError Entries :=
  if Sha256Sum.sum entry.content ≠ entry.checksum then
    .error (.containerChecksumMismatch entry.path)
  else if entry.path ∈ entries then .error .duplicateContainerEntry
  else .ok (entries.insert entry.path (entry.required, entry.content))

/-- The entries of a container whose framing and checksums hold. -/
def containerEntries (bytes : Bytes) : Except PersistenceError Entries := do
  (← containerDirectory bytes).foldlM insertDirectoryEntry ∅

/-- An entry that is neither the document nor its history nor its program. -/
def loadSideEntry (data : ContainerData) (entry : Entry) : Except PersistenceError ContainerData :=
  let (path, required, content) := entry
  match stripPrefix "blobs/" path with
  | some hash =>
    if required ∨ hash.utf8ByteSize ≠ 64 ∨ Sha256.hex content ≠ hash then .error .invalidBlobHash
    else if hash ∈ data.blobs then .error .duplicateContainerEntry
    else .ok (data.putBlob content)
  | none =>
    match stripPrefix "extensions/" path with
    | some extensionPath =>
      match splitOnce '/' extensionPath with
      | some (nameSpace, relativePath) => do
        data.insertExtension (← ExtensionEntry.new nameSpace relativePath required content)
      | none => .error (.invalidContainerPath path)
    | none => .error (.unsupportedContainerEntry path)

/-- What `load_container` decodes: the document, its history and its program, and what is kept
beside them. -/
structure ContainerParts where
  document : Bytes
  revisionHistory : Option Bytes
  program : Option Bytes
  containerData : ContainerData

/-- An entry a reader has to know. -/
def requiredEntry (entries : Entries) (path : String) (notRequired : PersistenceError) :
    Except PersistenceError (Option Bytes) :=
  match entries[path]? with
  | some (true, content) => .ok (some content)
  | some (false, _) => .error notRequired
  | none => .ok none

/-- `load_container`, to where it decodes the parts. -/
def containerParts (bytes : Bytes) : Except PersistenceError ContainerParts := do
  let entries ← containerEntries bytes
  match ← requiredEntry entries documentEntry .documentEntryNotRequired with
  | none => .error .missingDocumentEntry
  | some document =>
    let revisionHistory ← requiredEntry entries historyEntry .historyEntryNotRequired
    let program ← requiredEntry entries programEntry .programEntryNotRequired
    let side := ((entries.erase documentEntry).erase historyEntry).erase programEntry
    let containerData ← side.toList.foldlM loadSideEntry .empty
    return ⟨document, revisionHistory, program, containerData⟩

end Ketchup.Persistence
