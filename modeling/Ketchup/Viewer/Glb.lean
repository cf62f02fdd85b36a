/-
**The embedded geometry of a Viewer package.**

A GLB is a header, a JSON chunk and a binary chunk. `validatedDocument` takes the chunks apart and
checks the whole document: its resources, the accessors and the indices in the binary chunk, and that
its nodes are a forest with finite transforms. `Json.document` is what `serde_json` makes of the JSON
chunk.
-/

import Ketchup.Library.Outcome
import Ketchup.Library.Text
import Ketchup.Viewer.Schema

namespace Ketchup.Viewer

/-- Why a package is refused: the part, and the reason. -/
structure Rejection where
  target : String
  reason : String
  deriving DecidableEq

def reject {α : Type} (target reason : String) : Except Rejection α := .error ⟨target, reason⟩

/-- Refuses unless a check holds. -/
def demand (holds : Bool) (target reason : String) : Except Rejection Unit :=
  if holds then .ok () else reject target reason

/-- What is there, or a refusal. -/
def require {α : Type} (found : Option α) (target reason : String) : Except Rejection α :=
  match found with
  | some value => .ok value
  | none => reject target reason

def maxManifestBytes : Nat := 8 * 1024 * 1024
def maxGlbBytes : Nat := 256 * 1024 * 1024
def maxEntries : Nat := 100000
def maxKeyBytes : Nat := 4096

/-! ### The document -/

/-- A `serde_json::Value`. -/
inductive JsonValue (F : Type)
  | null
  | bool (value : Bool)
  | unsigned (value : Nat)
  | negative (magnitude : Nat)
  | float (value : F)
  | string (value : String)
  | array (values : List (JsonValue F))
  | object (fields : List (String × JsonValue F))

namespace JsonValue

variable {F : Type}

def asStr : JsonValue F → Option String
  | string value => some value
  | _ => none

def asU64 : JsonValue F → Option Nat
  | unsigned value => some value
  | _ => none

end JsonValue

abbrev Extras (F : Type) := BTreeMap String (JsonValue F)

structure GlbAsset (F : Type) where
  version : String
  generator : Option String
  extras : Extras F

structure GlbNode (F : Type) where
  matrix : Fin 16 → F
  mesh : Option Nat
  children : List Nat
  extras : Extras F

structure GlbPrimitive where
  position : Nat
  indices : Nat
  mode : Nat
  material : Option Nat

structure GlbMesh where
  primitives : List GlbPrimitive

structure GlbView where
  buffer : Nat
  byteOffset : Nat
  byteLength : Nat
  target : Option Nat

structure GlbAccessor (F : Type) where
  bufferView : Nat
  byteOffset : Nat
  componentType : Nat
  count : Nat
  kind : String
  min : Option (List F)
  max : Option (List F)

structure GlbMaterial (F : Type) where
  baseColorFactor : List F
  metallicFactor : F
  roughnessFactor : F

/-- The glTF subset the exporter writes: the nodes of each scene, and the length of each buffer. -/
structure GlbDocument (F : Type) where
  asset : GlbAsset F
  scene : Nat
  scenes : List (List Nat)
  nodes : List (GlbNode F)
  meshes : List GlbMesh
  buffers : List Nat
  bufferViews : List GlbView
  accessors : List (GlbAccessor F)
  materials : List (GlbMaterial F)

/-- What `serde_json` reads of the JSON chunk. -/
class GlbJson (F : Type) where
  document : Bytes → Option (GlbDocument F)

/-- What the manifest is validated against: the node tree and the source identity. -/
structure Info (F : Type) where
  nodes : List (GlbNode F)
  sourceDigest : String

/-! ### Words -/

/-- A part of a slice. -/
def slice (bytes : Bytes) (start length : Nat) : Bytes := (bytes.drop start).take length

/-- `u32::from_le_bytes`. -/
def word (bytes : Bytes) : Nat := ofLittleEndian bytes

/-- The slices of four bytes, `chunks_exact(4)`. -/
def words : Bytes → List Nat
  | first :: second :: third :: fourth :: rest => word [first, second, third, fourth] :: words rest
  | _ => []

/-- `checked_add` and `checked_mul` keep to a `usize`. -/
def usize (value : Nat) : Option Nat := if value ≤ u64Max then some value else none

/-- Whether the `f32` of four bytes is finite and within a million: its exponent is not all ones, and
its magnitude, as bits, is at most that of `1e6`. -/
def isCoordinate (bits : Nat) : Bool :=
  bits % 2 ^ 31 < 0x7f800000 && bits % 2 ^ 31 ≤ 0x49742400

section Checks

variable {F : Type} [Double F]

/-- The source identity stored in the asset extras. -/
def sourceDigest (doc : GlbDocument F) : Except Rejection String :=
  require (doc.asset.extras["ketchupSourceDigest"]?.bind JsonValue.asStr) "glb.asset"
    "Geometry has no Kečup source identity."

/-! ### Accessors -/

/-- The bytes of one element. -/
def elementBytes (accessor : GlbAccessor F) : Except Rejection Nat :=
  if accessor.componentType = 5126 ∧ accessor.kind = "VEC3" then .ok 12
  else if accessor.componentType = 5125 ∧ accessor.kind = "SCALAR" then .ok 4
  else reject "glb.accessors" "Only float VEC3 positions and u32 indices are supported."

/-- Where the bytes of an accessor lie in the binary chunk: start and length. -/
def accessorRange (doc : GlbDocument F) (accessor : GlbAccessor F) (binary : Bytes) :
    Except Rejection (Nat × Nat) := do
  let element ← elementBytes accessor
  let view ← require doc.bufferViews[accessor.bufferView]? "glb.accessors"
    "Accessor refers to a missing buffer view."
  let length ← require ((usize (accessor.count * element)).filter (0 < ·)) "glb.accessors"
    "Accessor size is invalid."
  demand (accessor.byteOffset % 4 == 0 &&
      (usize (accessor.byteOffset + length)).any (· ≤ view.byteLength) &&
      ((accessor.min.toList ++ accessor.max.toList).flatten.all Double.isFinite))
    "glb.accessors" "Accessor exceeds its view or has invalid bounds."
  let start := view.byteOffset + accessor.byteOffset
  demand (start + length ≤ binary.length) "glb.accessors" "Accessor exceeds the binary chunk."
  return (start, length)

def accessorData (doc : GlbDocument F) (accessor : GlbAccessor F) (binary : Bytes) :
    Except Rejection Bytes := do
  let (start, length) ← accessorRange doc accessor binary
  return slice binary start length

def maxElements : Nat := 16000000

/-- A running count within the processing limit. -/
def addProcessed (processed more : Nat) (target reason : String) : Except Rejection Nat :=
  require ((usize (processed + more)).filter (· ≤ maxElements)) target reason

def checkAccessor (doc : GlbDocument F) (binary : Bytes) (elements : Nat)
    (accessor : GlbAccessor F) : Except Rejection Nat := do
  let elements ← addProcessed elements accessor.count "glb.accessors"
    "Accessor processing limit exceeded."
  let data ← accessorData doc accessor binary
  demand (accessor.componentType != 5126 || (words data).all isCoordinate) "glb.positions"
    "Non-finite mesh coordinates."
  return elements

/-! ### Resources -/

def checkView (length : Nat) (view : GlbView) : Except Rejection Unit :=
  demand (view.buffer == 0 && view.byteOffset % 4 == 0 && view.byteLength != 0 &&
      (usize (view.byteOffset + view.byteLength)).any (· ≤ length) &&
      view.target.all fun target => target == 34962 || target == 34963)
    "glb.bufferViews" "Invalid binary buffer range or target."

/-- How many indices one element of a mode takes. -/
def modeDivisor (mode : Nat) : Except Rejection Nat :=
  if mode = 1 then .ok 2
  else if mode = 4 then .ok 3
  else reject "glb.primitive" "Only lines and triangles are supported."

/-- One primitive: supported mode, positions and indices within range. -/
def checkPrimitive (doc : GlbDocument F) (binary : Bytes) (processed : Nat)
    (primitive : GlbPrimitive) : Except Rejection Nat := do
  let positions ← require (doc.accessors[primitive.position]?.filter fun accessor =>
      accessor.componentType == 5126 && accessor.kind == "VEC3")
    "glb.primitive" "Missing position accessor."
  let indices ← require (doc.accessors[primitive.indices]?.filter fun accessor =>
      accessor.componentType == 5125 && accessor.kind == "SCALAR")
    "glb.primitive" "Missing index accessor."
  let divisor ← modeDivisor primitive.mode
  demand (indices.count % divisor == 0 && primitive.material.all (· < doc.materials.length))
    "glb.primitive" "Invalid primitive count or material reference."
  let processed ← addProcessed processed indices.count "glb.indices"
    "Index processing limit exceeded."
  let data ← accessorData doc indices binary
  demand ((words data).all (· < positions.count)) "glb.indices"
    "An index refers to a missing vertex."
  return processed

/-- The primitives and the indices so far. -/
structure MeshCount where
  primitives : Nat
  processed : Nat

def checkMesh (doc : GlbDocument F) (binary : Bytes) (count : MeshCount) (mesh : GlbMesh) :
    Except Rejection MeshCount := do
  let primitives := count.primitives + mesh.primitives.length
  demand (!mesh.primitives.isEmpty && primitives ≤ maxEntries) "glb.meshes"
    "Empty mesh or too many primitives."
  let processed ← mesh.primitives.foldlM (checkPrimitive doc binary) count.processed
  return ⟨primitives, processed⟩

def checkMaterial (material : GlbMaterial F) : Except Rejection Unit :=
  demand ((material.baseColorFactor ++ [material.metallicFactor, material.roughnessFactor]).all
      fun value => Double.isFinite value && Double.le (Double.literal 0) value &&
        Double.le value (Double.literal 1))
    "glb.materials" "Material factors must be finite within [0,1]."

/-! ### The node tree -/

/-- Source metadata a node may carry. -/
def isNodeExtra (key : String) (value : JsonValue F) : Bool :=
  if key ∈ ["ketchupGroupId", "ketchupProducerFeatureId", "ketchupDefinitionId",
      "ketchupOwnerDefinitionId"] then value.asU64.any (0 < ·)
  else if key = "ketchupEntity" then
    value.asStr.any fun entity => entity ∈ ["group", "occurrence", "body"]
  else if key ∈ ["ketchupDefinition", "ketchupInstancePath"] then
    value.asStr.any fun text => text.utf8ByteSize ≤ maxKeyBytes
  else false

def isZero (value : F) : Bool := Double.le value (Double.literal 0) && Double.le (Double.literal 0) value

def isOne (value : F) : Bool := Double.le value (Double.literal 1) && Double.le (Double.literal 1) value

/-- One more parent of a child. -/
def countParent (parents : List Nat) (child : Nat) : Except Rejection (List Nat) := do
  let count ← require parents[child]? "glb.nodes" "Missing child node."
  demand (count == 0) "glb.nodes" "A node has multiple parents."
  return parents.set child 1

def checkNode (doc : GlbDocument F) (parents : List Nat) (node : GlbNode F) :
    Except Rejection (List Nat) := do
  demand (node.extras.toList.all fun (key, value) => isNodeExtra key value) "glb.nodes.extras"
    "Unsupported or invalid geometry source metadata."
  demand ((List.ofFn node.matrix).all Double.isFinite && isZero (node.matrix 3) &&
      isZero (node.matrix 7) && isZero (node.matrix 11) && isOne (node.matrix 15) &&
      node.mesh.all (· < doc.meshes.length))
    "glb.nodes" "Invalid node matrix or mesh reference."
  node.children.foldlM countParent parents

/-- One matrix after another, column by column. -/
def combine (world matrix : Fin 16 → F) (index : Fin 16) : F :=
  ((List.finRange 4).map fun k =>
    Double.mul (world ⟨k.val * 4 + index.val % 4, by have := k.isLt; omega⟩)
      (matrix ⟨index.val / 4 * 4 + k.val, by have := k.isLt; have := index.isLt; omega⟩)).foldl
        Double.add (Double.literal 0)

/-- The children of a node, each with its world matrix. -/
def placeChildren (doc : GlbDocument F) (world : Fin 16 → F) (children : List Nat) :
    Except Rejection (List (Nat × (Fin 16 → F))) :=
  children.mapM fun child => do
    let node ← require doc.nodes[child]? "glb.nodes" "Missing child node."
    let combined := combine world node.matrix
    demand ((List.ofFn combined).all Double.isFinite) "glb.nodes"
      "Nested transforms overflow world coordinates."
    return (child, combined)

/-- Walks the queue, and counts the nodes it met. A node is queued once, below its one parent, so the
nodes are fuel enough. -/
def walkTree (doc : GlbDocument F) : Nat → List (Nat × (Fin 16 → F)) → Nat → Except Rejection Nat
  | 0, _, met => .ok met
  | _ + 1, [], met => .ok met
  | fuel + 1, (index, world) :: queue, met => do
    let children := (doc.nodes[index]?.map GlbNode.children).getD []
    let placed ← placeChildren doc world children
    walkTree doc fuel (queue ++ placed) (met + 1)

/-- Nodes form a forest: one parent each, no cycles, finite matrices. -/
def validateTree (doc : GlbDocument F) : Except Rejection Unit := do
  let parents ← doc.nodes.foldlM (checkNode doc) (List.replicate doc.nodes.length 0)
  let roots := (List.range doc.nodes.length).filter fun index => parents[index]? == some 0
  demand ((doc.scenes.headD []).mergeSort (· ≤ ·) == roots) "glb.scene"
    "Scene roots do not match the node forest."
  let queue := roots.filterMap fun index => doc.nodes[index]?.map fun node => (index, node.matrix)
  let met ← walkTree doc doc.nodes.length queue 0
  demand (met == doc.nodes.length) "glb.nodes" "Node hierarchy contains a cycle."

/-! ### The whole -/

/-- Metadata the asset may carry. -/
def isAssetExtra (key : String) (value : JsonValue F) : Bool :=
  key ∈ ["ketchupSourceDigest", "ketchupSourceUnit", "unit", "upAxis"] && value.asStr.isSome

/-- Asset, buffers, views, accessors, meshes, materials and the node tree. -/
def validateDocument (doc : GlbDocument F) (binary : Bytes) : Except Rejection Unit := do
  demand (doc.asset.extras.toList.all fun (key, value) => isAssetExtra key value)
    "glb.asset.extras" "Only Kečup source identity and units are supported."
  let extra := fun key => doc.asset.extras[key]?.bind JsonValue.asStr
  let length := doc.buffers.headD 0
  demand (doc.asset.version == "2.0" && doc.asset.generator == some "Ketchup" &&
      extra "unit" == some "metre" && extra "upAxis" == some "Y" &&
      extra "ketchupSourceUnit" == some "millimetre" && doc.scene == 0 &&
      doc.scenes.length == 1 && doc.buffers.length == 1 && length ≤ binary.length &&
      binary.length - length ≤ 3 && !doc.nodes.isEmpty && doc.nodes.length ≤ maxEntries &&
      !doc.meshes.isEmpty && doc.meshes.length ≤ maxEntries &&
      doc.accessors.length ≤ maxEntries && doc.bufferViews.length ≤ maxEntries)
    "glb" "Unsupported GLB units, scene, buffer or resource counts."
  doc.bufferViews.forM (checkView length)
  let _ ← doc.accessors.foldlM (checkAccessor doc binary) 0
  let _ ← doc.meshes.foldlM (checkMesh doc binary) ⟨0, 0⟩
  doc.materials.forM checkMaterial
  validateTree doc

/-- A GLB header and the headers of its two chunks. -/
def glbMinBytes : Nat := 12 + 8 + 8

variable [GlbJson F]

/-- Takes the chunks apart and checks the whole document; its binary chunk comes with it. -/
def validatedDocument (bytes : Bytes) : Except Rejection (GlbDocument F × Bytes) := do
  demand (glbMinBytes ≤ bytes.length && bytes.length ≤ maxGlbBytes && bytes.take 4 == utf8 "glTF" &&
      word (slice bytes 4 4) == 2 && word (slice bytes 8 4) == bytes.length)
    "glb.header" "Invalid GLB 2.0 header or length."
  let jsonLength := word (slice bytes 12 4)
  let binHeader := 20 + jsonLength
  demand (binHeader ≤ bytes.length - 8) "glb.json" "GLB JSON chunk is truncated."
  demand (jsonLength ≤ maxManifestBytes && jsonLength % 4 == 0 &&
      word (slice bytes 16 4) == 0x4e4f534a)
    "glb.json" "GLB JSON chunk is unsupported or too large."
  let binLength := word (slice bytes binHeader 4)
  demand (binLength % 4 == 0 && binLength == bytes.length - binHeader - 8 &&
      word (slice bytes (binHeader + 4) 4) == 0x004e4942)
    "glb.binary" "Invalid GLB binary chunk; extra chunks are not supported."
  let doc ← require (GlbJson.document (slice bytes 20 jsonLength)) "glb.json"
    "GLB uses malformed JSON or unsupported features/resources."
  let binary := bytes.drop (binHeader + 8)
  validateDocument doc binary
  let _ ← sourceDigest doc
  return (doc, binary)

/-- Validates the GLB and returns what the manifest must agree with. -/
def validateGlb (bytes : Bytes) : Except Rejection (Info F) := do
  let (doc, _) ← validatedDocument bytes
  return ⟨doc.nodes, ← sourceDigest doc⟩

end Checks

end Ketchup.Viewer
