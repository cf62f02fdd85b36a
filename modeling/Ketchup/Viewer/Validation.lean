/-
**Manifest checks against the embedded geometry.**

They run on every read and every write, so a package that passes can be shown without further trust in
its author. `Manifest.validate` makes them in the source's order, each with the part it refuses.
-/

import Ketchup.Library.Outcome
import Ketchup.Viewer.Glb

namespace Ketchup.Viewer

/-- A check of what may be absent. -/
def optionally {α : Type} (check : α → Except Rejection Unit) : Option α → Except Rejection Unit
  | some value => check value
  | none => .ok ()

def sourceDigestDigits : Nat := 16
def maxScenes : Nat := 1000
def maxAttributes : Nat := 1024
def maxPathSteps : Nat := 128

/-- `u8::is_ascii_hexdigit`. -/
def isAsciiHexDigit (mark : Char) : Bool :=
  ('0' ≤ mark && mark ≤ '9') || ('a' ≤ mark && mark ≤ 'f') || ('A' ≤ mark && mark ≤ 'F')

/-! ### The nodes an occurrence hangs from -/

namespace Info

variable {F : Type}

def node (info : Info F) (index : Nat) : Except Rejection (GlbNode F) :=
  require info.nodes[index]? "occurrences.glb_node" "Missing geometry node."

/-- The node that lists a node among its children; the geometry's own checks leave at most one. -/
def parent (info : Info F) (child : Nat) : Option Nat :=
  (List.range info.nodes.length).reverse.find? fun parent =>
    (info.nodes[parent]?.map fun node => node.children.contains child).getD false

end Info

/-! ### Numbers and texts -/

section Numbers

variable {F : Type} [Double F]

def finite (value : F) : Except Rejection Unit :=
  demand (Double.isFinite value && !Double.lt (Double.literal 1000000000) (Double.abs value))
    "number" "Source lengths must be finite within ±1e9 mm."

def point (value : Point F) : Except Rejection Unit := value.toList.forM finite

/-- `sum` of the products. -/
def dotProduct (first second : Point F) : F :=
  (List.zipWith Double.mul first.toList second.toList).foldl Double.add (Double.literal 0)

def unitDirection (value : Point F) : Except Rejection Unit :=
  demand (value.toList.all Double.isFinite &&
      !Double.lt (Double.literal (1 / 1000000))
        (Double.abs (Double.sub (dotProduct value value) (Double.literal 1))))
    "direction" "Camera/section directions must be finite unit vectors."

/-- Bounded text without control characters. -/
def text (value : String) (most : Nat) : Except Rejection Unit :=
  demand (value.utf8ByteSize ≤ most && !value.toList.contains '\x00') "text"
    "Text exceeds its length limit or contains NUL."

def optionalText (value : Option String) (most : Nat) : Except Rejection Unit :=
  optionally (text · most) value

def Projection.validate : Projection F → Except Rejection Unit
  | .orthographic shortSpanMm => do
    finite shortSpanMm
    demand (!Double.le shortSpanMm (Double.literal 0)) "camera.span" "Camera span must be positive."
  | .perspective shortFovRadians lensShiftShort => do
    finite lensShiftShort.1
    finite lensShiftShort.2
    demand (Double.isFinite shortFovRadians &&
        Double.le (Double.literal (1 / 1000)) shortFovRadians &&
        Double.lt shortFovRadians (Double.literal 3))
      "camera.fov" "Perspective FOV must be between 0.001 and 3 radians."

/-- Finite points, a usable up direction and a positive projection. -/
def Camera.validate (camera : Camera F) : Except Rejection Unit := do
  point camera.eyeMm
  point camera.targetMm
  unitDirection camera.up
  let forward : Point F :=
    ⟨Double.sub camera.targetMm.x camera.eyeMm.x, Double.sub camera.targetMm.y camera.eyeMm.y,
      Double.sub camera.targetMm.z camera.eyeMm.z⟩
  let length2 := dotProduct forward forward
  let dot := dotProduct forward camera.up
  demand (!Double.lt length2 (Double.literal (1 / 1000000000000)) &&
      !Double.lt (Double.sub (Double.literal 1) (Double.literal (1 / 100000000)))
        (Double.div (Double.mul dot dot) length2))
    "camera" "Camera needs distinct eye/target and a nonparallel up vector."
  camera.projection.validate

end Numbers

/-! ### Paths -/

/-- The node name the exporter gives a path. -/
def InstancePath.glbKey (path : InstancePath) : String :=
  path.steps.foldl (fun key step =>
    match step with
    | .group _ localId => key ++ s!"/group:{localId}"
    | .occurrence _ localId => key ++ s!"/occurrence:{localId}")
    s!"occurrence:{path.rootOccurrenceId}"

/-- Nonzero ids and a bounded depth. -/
def validatePath (path : InstancePath) : Except Rejection Unit :=
  demand (path.rootOccurrenceId != 0 && path.steps.length ≤ maxPathSteps &&
      path.steps.all fun step => step.ownerDefinitionId != 0 && step.localId != 0)
    "path" "Occurrence path has zero IDs or exceeds 128 steps."

section Checks

variable {F : Type} [Double F]

/-- One step of an occurrence up its ancestry: its node, the path left and the definition there. The
steps of a path are the fuel: each turn takes the last one off. -/
def validateAncestry (info : Info F) (definitions : BTreeSet Nat) (root : Nat) :
    List PathStep → Nat → Nat → Except Rejection Unit
  | stepsUp, index, definitionId => do
    let node ← info.node index
    demand (node.extras["ketchupInstancePath"]?.bind JsonValue.asStr ==
        some (InstancePath.glbKey ⟨root, stepsUp.reverse⟩))
      "occurrences.path" "The source path does not match its GLB ancestry."
    let isGroup := stepsUp.head?.any PathStep.isGroup
    demand (node.extras["ketchupEntity"]?.bind JsonValue.asStr ==
          some (if isGroup then "group" else "occurrence") &&
        (isGroup || node.extras["ketchupDefinitionId"]?.bind JsonValue.asU64 == some definitionId))
      "occurrences.definition_id" "The source definition does not match its GLB occurrence."
    match stepsUp with
    | [] => .ok ()
    | step :: above =>
      let owner := step.ownerDefinitionId
      demand (!step.isGroup || owner == definitionId) "occurrences.path"
        "A local group belongs to a different definition."
      demand (definitions.contains owner &&
          node.extras["ketchupOwnerDefinitionId"]?.bind JsonValue.asU64 == some owner)
        "occurrences.path" "A path step has a missing or incorrect owning definition."
      match info.parent index with
      | some parent => validateAncestry info definitions root above parent owner
      | none => reject "occurrences.path" "A nested occurrence is missing its parent."

/-- One occurrence: its node, definition and path. -/
def validateOccurrence (info : Info F) (definitions : BTreeSet Nat) (occurrence : Occurrence) :
    Except Rejection Unit :=
  validateAncestry info definitions occurrence.path.rootOccurrenceId occurrence.path.steps.reverse
    occurrence.glbNode occurrence.definitionId

def LocalDimensions.validate : LocalDimensions F → Except Rejection Unit
  | .localBounds minMm maxMm => do
    point minMm
    point maxMm
    demand (!(List.zipWith Double.lt maxMm.toList minMm.toList).any id) "local_dimensions"
      "Local bounds are reversed."
  | .authoredAxes sizeMm => do
    point sizeMm
    demand (!sizeMm.toList.any fun value => Double.lt value (Double.literal 0)) "local_dimensions"
      "Local dimensions cannot be negative."

/-- An id that is not zero and not among those before it. -/
def uniqueId (ids : BTreeSet Nat) (id : Nat) (target reason : String) :
    Except Rejection (BTreeSet Nat) := do
  demand (id != 0 && !ids.contains id) target reason
  return ids.insert id

def checkDefinition (definitions : BTreeSet Nat) (definition : Definition F) :
    Except Rejection (BTreeSet Nat) := do
  let definitions ← uniqueId definitions definition.id "definitions"
    "Definition IDs must be unique and nonzero."
  text definition.name 4096
  optionalText definition.note 65536
  optionalText definition.material 4096
  optionally LocalDimensions.validate definition.localDimensions
  return definitions

/-- The paths and the nodes of the occurrences so far. -/
structure Placed where
  paths : BTreeSet InstancePath
  nodes : BTreeSet Nat

def checkOccurrence (info : Info F) (definitions : BTreeSet Nat) (placed : Placed)
    (occurrence : Occurrence) : Except Rejection Placed := do
  text occurrence.name 4096
  validatePath occurrence.path
  demand (!placed.paths.contains occurrence.path && !placed.nodes.contains occurrence.glbNode &&
      definitions.contains occurrence.definitionId)
    "occurrences" "Duplicate occurrence or missing definition."
  validateOccurrence info definitions occurrence
  optionalText occurrence.note 65536
  optionalText occurrence.material 4096
  demand (occurrence.attributes.size ≤ maxAttributes) "attributes"
    "A component has too many attributes."
  occurrence.attributes.toList.forM fun (key, value) => do
    text key 4096
    text value 65536
  return ⟨placed.paths.insert occurrence.path, placed.nodes.insert occurrence.glbNode⟩

def checkAnchor (paths : BTreeSet InstancePath) (anchor : Anchor F) : Except Rejection Unit := do
  point anchor.pointMm
  demand (anchor.occurrence.all paths.contains) "dimensions.anchor"
    "A dimension refers to a missing occurrence."

def checkDimension (paths : BTreeSet InstancePath) (dimensions : BTreeSet Nat)
    (dimension : Dimension F) : Except Rejection (BTreeSet Nat) := do
  let dimensions ← uniqueId dimensions dimension.id "dimensions"
    "Dimension IDs must be unique and nonzero."
  checkAnchor paths dimension.from_
  checkAnchor paths dimension.to_
  point dimension.labelOffsetMm
  finite dimension.valueMm
  demand (!Double.lt dimension.valueMm (Double.literal 0)) "dimensions.value"
    "Dimension values cannot be negative."
  return dimensions

def Section.validate (cut : Section F) : Except Rejection Unit := do
  unitDirection cut.normal
  finite cut.offsetMm

def checkScene (paths : BTreeSet InstancePath) (dimensions scenes : BTreeSet Nat) (scene : Scene F) :
    Except Rejection (BTreeSet Nat) := do
  let scenes ← uniqueId scenes scene.id "scenes" "Scene IDs must be unique and nonzero."
  text scene.name 4096
  scene.camera.validate
  demand (scene.hidden.all paths.contains && scene.visibleDimensions.all dimensions.contains)
    "scenes.references" "Scene visibility refers to a missing occurrence or dimension."
  optionally Section.validate scene.section_
  return scenes

def Manifest.checkSource (manifest : Manifest F) (info : Info F) : Except Rejection Unit :=
  demand (manifest.source.documentId != 0 &&
      manifest.source.canonicalDigest.utf8ByteSize == sourceDigestDigits &&
      manifest.source.canonicalDigest.toList.all isAsciiHexDigit &&
      manifest.source.canonicalDigest == info.sourceDigest)
    "source" "Manifest source identity does not match the geometry."

def Manifest.checkLimits (manifest : Manifest F) : Except Rejection Unit :=
  demand (manifest.definitions.length ≤ maxEntries && manifest.occurrences.length ≤ maxEntries &&
      manifest.scenes.length ≤ maxScenes && manifest.dimensions.length ≤ maxEntries)
    "manifest" "The manifest exceeds its item limits."

/-- Checks identity, references, limits and text against the nodes of the geometry. -/
def Manifest.validate (manifest : Manifest F) (info : Info F) : Except Rejection Unit := do
  manifest.checkSource info
  manifest.checkLimits
  let definitions ← manifest.definitions.foldlM checkDefinition ∅
  let placed ← manifest.occurrences.foldlM (checkOccurrence info definitions) ⟨∅, ∅⟩
  let dimensions ← manifest.dimensions.foldlM (checkDimension placed.paths) ∅
  let scenes ← manifest.scenes.foldlM (checkScene placed.paths dimensions) ∅
  demand (manifest.startScene.all scenes.contains) "start_scene" "The starting scene is missing."

end Checks

end Ketchup.Viewer
