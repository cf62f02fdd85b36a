/-
**Comments on an exported package.**

Comments are bound to the package they were written on by its source and its checksum, and to its
components by their paths. `Comments.validateContents` checks everything but the binding,
`Comments.validate` the binding too.
-/

import Ketchup.Library.Sha256
import Ketchup.Viewer.Visibility

namespace Ketchup.Viewer

def maxCommentsBytes : Nat := 4 * 1024 * 1024
def maxComments : Nat := 1000
def maxArrows : Nat := 32
def maxCommentTextBytes : Nat := 16 * 1024
def maxAuthorBytes : Nat := 256
def commentsFormat : String := "ketchup-comments"
def commentsVersion : Nat := 1
def sha256HexDigits : Nat := 64

/-- The package comments belong to: its source, and the checksum its envelope carries. -/
structure ExportRef where
  source : Source
  packageSha256 : String
  deriving DecidableEq

structure Arrow (F : Type) where
  tip : Anchor F
  tail : Anchor F
  deriving DecidableEq

/-- One comment and the view it was written in. -/
structure Comment (F : Type) where
  id : Nat
  author : Option String
  text : String
  view : CommentView F
  selected : Option InstancePath
  arrows : List (Arrow F)
  deriving DecidableEq

/-- All comments on one exported package. -/
structure Comments (F : Type) where
  format : String
  version : Nat
  export_ : ExportRef
  comments : List (Comment F)
  deriving DecidableEq

/-- One `.ketchup-view` package: the manifest and its embedded display GLB. -/
structure Package (F : Type) where
  manifest : Manifest F
  glb : Bytes

/-- A package with the digest comments on it are bound to. -/
structure PackageExport (F : Type) where
  package : Package F
  payloadDigest : Bytes

section Checks

variable {F : Type} [Double F]

def checkText (text : String) (limit : Nat) (target : String) : Except Rejection Unit :=
  demand (text.utf8ByteSize ≤ limit && !text.toList.contains '\x00') target
    "The text is too long or contains a NUL character."

/-- The section of a view: any direction that has a length. -/
def checkViewSection (cut : Section F) : Except Rejection Unit :=
  let length := Double.sqrt (dotProduct cut.normal cut.normal)
  demand (Double.isFinite length && Double.lt (Double.literal 0) length &&
      Double.isFinite cut.offsetMm)
    "comments.view.section" "The section is invalid."

def Comment.anchors (comment : Comment F) : List (Anchor F) :=
  comment.arrows.flatMap fun arrow => [arrow.tip, arrow.tail]

def checkComment (ids : BTreeSet Nat) (comment : Comment F) : Except Rejection (BTreeSet Nat) := do
  let ids ← uniqueId ids comment.id "comments.id" "Comment IDs must be unique and nonzero."
  checkText comment.text maxCommentTextBytes "comments.text"
  demand (trim comment.text != "") "comments.text" "A comment has no text."
  optionally (checkText · maxAuthorBytes "comments.author") comment.author
  comment.view.camera.validate
  optionally checkViewSection comment.view.section_
  demand (comment.view.hidden.length ≤ maxEntries &&
      (comment.view.shown.map List.length).getD 0 ≤ maxEntries)
    "comments.view.hidden" "Too many hidden components."
  demand (comment.arrows.length ≤ maxArrows) "comments.arrows" "Too many arrows on one comment."
  comment.anchors.forM fun anchor => point anchor.pointMm
  return ids

/-- Every check except the binding to one export. -/
def Comments.validateContents (comments : Comments F) : Except Rejection Unit := do
  demand (comments.format == commentsFormat && comments.version == commentsVersion)
    "comments.version" "Unknown comments format or version."
  demand (comments.export_.packageSha256.utf8ByteSize == sha256HexDigits &&
      comments.export_.packageSha256.toList.all isAsciiHexDigit)
    "comments.export" "The export checksum is malformed."
  demand (comments.comments.length ≤ maxComments) "comments" "Too many comments in one file."
  let _ ← comments.comments.foldlM checkComment ∅

def unknownPath (target : String) : Except Rejection Unit :=
  reject target "A comment refers to a component that is not in this package."

/-- The paths, scenes and components a comment names are those of the package. -/
def checkReferences (manifest : Manifest F) (comment : Comment F) : Except Rejection Unit := do
  let assemblies := manifest.paths.flatMap InstancePath.prefixes
  let listed := comment.view.hidden ++ comment.view.shown.getD []
  if listed.all assemblies.contains then .ok () else unknownPath "comments.view.hidden"
  demand (comment.view.scene.all fun id => manifest.scenes.any fun scene => scene.id == id)
    "comments.view.scene" "A comment refers to a scene that is not in this package."
  let named := comment.selected.toList ++ comment.anchors.filterMap Anchor.occurrence
  if named.all manifest.paths.contains then .ok () else unknownPath "comments.arrows"

/-- The contents, then the binding to the package and its components. -/
def Comments.validate (comments : Comments F) (of : PackageExport F) : Except Rejection Unit := do
  comments.validateContents
  demand (comments.export_.source == of.package.manifest.source &&
      comments.export_.packageSha256 == hexDigits of.payloadDigest)
    "comments.export" "These comments belong to a different export of the model."
  comments.comments.forM (checkReferences of.package.manifest)

end Checks

end Ketchup.Viewer
