/-
**The binary envelope of a Viewer package.**

A header (signature, version, the two payload lengths and the SHA-256 of both payloads), the manifest
JSON and the GLB; a commented copy appends a comments section. The export identity is the digest of the
two payloads, so it does not change with the comments. Texts of JSON are `serde_json`'s.
-/

import Ketchup.Viewer.Comments

set_option linter.unusedSectionVars false

namespace Ketchup.Viewer

def packageMagic : Bytes := utf8 "KETCHUPVIEW"
def packageVersion : Nat := 1
def headerBytes : Nat := 11 + 2 + 4 + 4 + 32
def commentsMagic : Bytes := utf8 "KETCHUPNOTE"
def commentsHeaderBytes : Nat := 11 + 4 + 32

/-- What `serde_json` writes and reads: no JSON is empty. -/
class PackageJson (F : Type) extends GlbJson F where
  manifestText : Manifest F → Bytes
  manifest : Bytes → Option (Manifest F)
  manifest_empty : manifest [] = none
  commentsText : Comments F → Bytes
  comments : Bytes → Option (Comments F)
  comments_empty : comments [] = none

section Packages

variable {F : Type} [Double F] [PackageJson F] [Sha256Sum]

namespace Package

/-- The two payloads, as they are stored and hashed. -/
def payload (package : Package F) : Bytes :=
  PackageJson.manifestText package.manifest ++ package.glb

/-- The identity of an export: the digest of the manifest and the geometry. -/
def digest (package : Package F) : Bytes := Sha256Sum.sum package.payload

end Package

/-- A package with its export identity computed once. -/
structure IdentifiedPackage (F : Type) [PackageJson F] [Sha256Sum] where
  package : Package F
  digest : Bytes
  is_its : digest = package.digest

namespace IdentifiedPackage

def new (package : Package F) : IdentifiedPackage F := ⟨package, package.digest, rfl⟩

theorem eq_new (identified : IdentifiedPackage F) : identified = new identified.package := by
  obtain ⟨package, digest, rfl⟩ := identified
  rfl

/-- The package as comments are bound to it. -/
def toExport (identified : IdentifiedPackage F) : PackageExport F :=
  ⟨identified.package, identified.digest⟩

end IdentifiedPackage

/-! ### Writing -/

/-- The header before the payloads. -/
def headerOf (manifestLength glbLength : Nat) (checksum : Bytes) : Bytes :=
  packageMagic ++ littleEndian 2 packageVersion ++ littleEndian 4 manifestLength ++
    littleEndian 4 glbLength ++ checksum

/-- Validates, then writes the package, with the digest where it is known already. -/
def Package.writeWithDigest (package : Package F) (digest : Option Bytes) :
    Except Rejection Bytes := do
  demand (package.glb.length ≤ maxGlbBytes) "glb" "Geometry exceeds the package size limit."
  let info ← validateGlb package.glb
  package.manifest.validate info
  let json := PackageJson.manifestText package.manifest
  demand (json.length ≤ maxManifestBytes) "manifest"
    "The manifest could not be encoded within its size limit."
  let checksum := digest.getD (Sha256Sum.sum (json ++ package.glb))
  return headerOf json.length package.glb.length checksum ++ json ++ package.glb

def Package.write (package : Package F) : Except Rejection Bytes := package.writeWithDigest none

/-- Validates comments against an export, then writes them. -/
def Comments.write (comments : Comments F) (of : PackageExport F) : Except Rejection Bytes := do
  comments.validate of
  let bytes := PackageJson.commentsText comments
  demand (bytes.length ≤ maxCommentsBytes) "comments" "The comments exceed 4 MiB."
  return bytes

/-- The comments section of a commented copy. -/
def commentsSection (json : Bytes) : Bytes :=
  commentsMagic ++ littleEndian 4 json.length ++ Sha256Sum.sum json ++ json

/-- The package, then the comments section; the comments are encoded and validated first. -/
def Package.writeCommented (package : Package F) (comments : Comments F) (of : PackageExport F) :
    Except Rejection Bytes := do
  let json ← comments.write of
  let written ← package.writeWithDigest (some of.payloadDigest)
  return written ++ commentsSection json

def Package.writeWithComments (package : Package F) (comments : Comments F) :
    Except Rejection Bytes :=
  package.writeCommented comments ⟨package, package.digest⟩

def IdentifiedPackage.writeWithComments (identified : IdentifiedPackage F) (comments : Comments F) :
    Except Rejection Bytes :=
  identified.package.writeCommented comments identified.toExport

/-! ### Reading -/

/-- A payload length, refused when it is zero or above the limit. -/
def payloadLength (bytes : Bytes) (limit : Nat) (target : String) : Except Rejection Nat :=
  require (some (word bytes) |>.filter fun length => 0 < length && length ≤ limit) target
    "The declared length is empty or exceeds the package limit."

/-- `Comments::read_unbound` of bytes within the limit. -/
def Comments.readUnbound (bytes : Bytes) : Except Rejection (Comments F) := do
  demand (bytes.length ≤ maxCommentsBytes) "comments" "The comments file exceeds 4 MiB."
  let comments ← require (PackageJson.comments bytes) "comments" "The comments file is malformed."
  comments.validateContents
  return comments

/-- Comments for an export; comments on another are refused. -/
def Comments.read (bytes : Bytes) (of : PackageExport F) : Except Rejection (Comments F) := do
  let comments ← Comments.readUnbound bytes
  comments.validate of
  return comments

/-- A payload that was read, with its identity: the verified checksum when the manifest is stored as
it would be written, else the digest of how it would be. -/
def identify (manifestText checksum : Bytes) (package : Package F)
    (verified : Sha256Sum.sum (manifestText ++ package.glb) = checksum) : IdentifiedPackage F :=
  if canonical : PackageJson.manifestText package.manifest = manifestText then
    ⟨package, checksum, by rw [← verified, ← canonical]; rfl⟩
  else .new package

/-- The payloads after the header, which is checked already. -/
def readContents (manifestText glb checksum : Bytes)
    (verified : Sha256Sum.sum (manifestText ++ glb) = checksum) :
    Except Rejection (IdentifiedPackage F) := do
  let manifest ← require (PackageJson.manifest manifestText) "manifest"
    "The package manifest is malformed."
  let info ← validateGlb glb
  manifest.validate info
  return identify manifestText checksum ⟨manifest, glb⟩ verified

/-- The payload lengths a header gives. -/
def readHeader (header : Bytes) : Except Rejection (Nat × Nat) := do
  demand (header.length == headerBytes) "header" "The package header is incomplete."
  demand (header.take 11 == packageMagic && word (slice header 11 2) == packageVersion) "version"
    "Unknown Viewer package magic or version."
  let manifestLength ← payloadLength (slice header 13 4) maxManifestBytes "manifest"
  let glbLength ← payloadLength (slice header 17 4) maxGlbBytes "glb"
  return (manifestLength, glbLength)

/-- The payloads that follow a header. -/
def readPayloads (manifestLength total : Nat) (checksum following : Bytes) :
    Except Rejection (IdentifiedPackage F × Bytes) := do
  let payload := following.take total
  demand (payload.length == total) "payload" "The package payload is truncated."
  if verified : Sha256Sum.sum (payload.take manifestLength ++ payload.drop manifestLength) =
      checksum then do
    let identified ← readContents (payload.take manifestLength) (payload.drop manifestLength)
      checksum verified
    return (identified, following.drop total)
  else reject "checksum" "The package contents are damaged."

/-- The package at the front of the bytes, and what follows it. -/
def readPayload (bytes : Bytes) : Except Rejection (IdentifiedPackage F × Bytes) := do
  let header := bytes.take headerBytes
  let (manifestLength, glbLength) ← readHeader header
  readPayloads manifestLength (manifestLength + glbLength) (header.drop 21)
    (bytes.drop headerBytes)

/-- The comments section a copy ends with. -/
def readSection (identified : IdentifiedPackage F) (rest : Bytes) : Except Rejection (Comments F) := do
  demand (commentsHeaderBytes ≤ rest.length && rest.take 11 == commentsMagic) "payload"
    "Trailing data is not part of a Viewer package."
  let length ← payloadLength (slice rest 11 4) maxCommentsBytes "comments"
  let json := rest.drop commentsHeaderBytes
  demand (json.length == length) "payload" "Trailing data is not part of a Viewer package."
  demand (Sha256Sum.sum json == slice rest 15 32) "checksum"
    "The comments in the package are damaged."
  Comments.read json identified.toExport

/-- Reads a package and the comments saved into this copy, if any. -/
def readIdentified (bytes : Bytes) : Except Rejection (IdentifiedPackage F × Option (Comments F)) := do
  let (identified, following) ← readPayload bytes
  let rest := following.take (commentsHeaderBytes + maxCommentsBytes + 1)
  if rest = [] then return (identified, none)
  else
    let comments ← readSection identified rest
    return (identified, some comments)

end Packages

end Ketchup.Viewer
