/-
**References to faces, and the features anchored to them.**

A reference names a face of an evaluated body by its lineage: the document, the feature that makes the
face, and the role the evaluator gives it. The rest of it is the evidence of one evaluation. A work plane
lies on the face it references; a pad may reach to faces or be cut from one. `conflictsWithAnchor` is when
such a feature contradicts a reference, `rebind` points it at one of the same lineage.
-/

import Ketchup.Library.StableDigest
import Ketchup.Product.Structure

namespace Ketchup.References

open Ketchup.Graph Ketchup.Product

/-! ### Lineages -/

def bodySubshapeRefSchemaV1 : String := "ketchup.body-subshape-ref.v1"

/-- The faces of an extrusion that the evaluator names. -/
inductive ExactFaceRole
  | top
  | bottom
  | linearSide
  | arcSide
  | circleSide
  deriving DecidableEq

def exactFaceRoles : List ExactFaceRole := [.top, .bottom, .linearSide, .arcSide, .circleSide]

namespace ExactFaceRole

def semanticRole : ExactFaceRole → String
  | top => "extrusion.top"
  | bottom => "extrusion.bottom"
  | linearSide => "extrusion.side(profile_edge=line.0)"
  | arcSide => "extrusion.side(profile_edge=arc.0)"
  | circleSide => "extrusion.side(profile_edge=circle)"

def sourceElementId : ExactFaceRole → String
  | top | bottom => "profile.face"
  | linearSide => "profile.edge.line.0"
  | arcSide => "profile.edge.arc.0"
  | circleSide => "profile.edge.circle"

def expectedType : ExactFaceRole → String
  | top | bottom | linearSide => "planar_face"
  | circleSide => "cylindrical_face"
  | arcSide => "face"

end ExactFaceRole

def subshapeReferenceTypes : List String := ["planar_face", "cylindrical_face", "face", "edge"]

def fnv1a64Fingerprint (text : String) : String :=
  "fnv1a64:" ++ StableDigest.finish (StableDigest.write StableDigest.offset (utf8 text))

def canonicalReferenceLineageDigest (documentId : DocumentId) (producerFeatureId : FeatureId)
    (semanticRole sourceElementId expectedType : String) : String :=
  fnv1a64Fingerprint (toString documentId ++ ":" ++ toString producerFeatureId ++ ":" ++ semanticRole ++
    ":" ++ sourceElementId ++ ":" ++ expectedType)

/-- The lineage digest a reference must carry. -/
def referenceLineageDigest (reference : BodySubshapeRef) : String :=
  canonicalReferenceLineageDigest reference.documentId reference.producerFeatureId reference.semanticRole
    reference.sourceElementId reference.expectedType

/-- The well-known role a reference has, if any. -/
def roleOf (reference : BodySubshapeRef) : Option ExactFaceRole :=
  exactFaceRoles.find? fun role =>
    reference.semanticRole == role.semanticRole && reference.sourceElementId == role.sourceElementId

def hasValidLineage (reference : BodySubshapeRef) : Bool :=
  reference.schema == bodySubshapeRefSchemaV1 && reference.expectedCardinality == 1 &&
    !reference.semanticRole.isEmpty && !reference.sourceElementId.isEmpty &&
    subshapeReferenceTypes.contains reference.expectedType &&
    (roleOf reference).all (fun role => reference.expectedType == role.expectedType) &&
    reference.lineageDigest == referenceLineageDigest reference

/-! ### Anchored references -/

section Anchors

variable {R : Type}

def extentEndReferences : FeatureExtentEnd R → List BodySubshapeRef
  | .upToFace reference => [reference]
  | .blind _ | .throughAll => []

def extentReferences : FeatureExtent R → List BodySubshapeRef
  | .upToFace reference => [reference]
  | .bidirectional along opposite => extentEndReferences along ++ extentEndReferences opposite
  | .blind _ | .throughAll | .symmetric _ => []

/-- The face a cut starts from. -/
def operationSupport : PadOperation → List BodySubshapeRef
  | .cut _ (.support reference) => [reference]
  | .cut _ .profilePlane | .cut _ .targetFace | .newBody => []

def padReferences (spec : PadSpec R) : List BodySubshapeRef :=
  extentReferences spec.extent ++ operationSupport spec.operation

/-- The face references a feature is anchored to. -/
def anchoredReferences : FeatureKind R → List BodySubshapeRef
  | .workplane ⟨.planarFace reference _, _⟩ => [reference]
  | .pad spec => padReferences spec
  | _ => []

/-- The lineages a feature is anchored to. -/
def lineagesOf (kind : FeatureKind R) : List String :=
  (anchoredReferences kind).map BodySubshapeRef.lineageDigest

/-- A feature is anchored to the lineage of a reference but names another face, or holds current evidence
for it that differs from the reference. -/
def conflictsWithAnchor (features : BTreeMap FeatureId (Feature R)) (reference : BodySubshapeRef)
    (isCurrent : BodySubshapeRef → Bool) : Bool :=
  (features.toList.flatMap fun entry => anchoredReferences entry.2.kind).any fun anchored =>
    anchored.lineageDigest == reference.lineageDigest &&
      (anchored.definitionId != reference.definitionId ||
        anchored.profileFeatureId != reference.profileFeatureId ||
        anchored.producerFeatureId != reference.producerFeatureId ||
        anchored.semanticRole != reference.semanticRole ||
        anchored.sourceElementId != reference.sourceElementId ||
        anchored.expectedType != reference.expectedType ||
        (isCurrent anchored && anchored != reference))

/-! ### Rebinding -/

/-- A reference, or the one given if that is of its lineage. -/
def rebound (reference anchored : BodySubshapeRef) : BodySubshapeRef :=
  if anchored.lineageDigest = reference.lineageDigest then reference else anchored

def rebindExtentEnd (reference : BodySubshapeRef) : FeatureExtentEnd R → FeatureExtentEnd R
  | .upToFace anchored => .upToFace (rebound reference anchored)
  | .blind distance => .blind distance
  | .throughAll => .throughAll

def rebindExtent (reference : BodySubshapeRef) : FeatureExtent R → FeatureExtent R
  | .upToFace anchored => .upToFace (rebound reference anchored)
  | .bidirectional along opposite =>
    .bidirectional (rebindExtentEnd reference along) (rebindExtentEnd reference opposite)
  | .blind distance => .blind distance
  | .throughAll => .throughAll
  | .symmetric distance => .symmetric distance

def rebindOperation (reference : BodySubshapeRef) : PadOperation → PadOperation
  | .cut target (.support anchored) => .cut target (.support (rebound reference anchored))
  | .cut target .profilePlane => .cut target .profilePlane
  | .cut target .targetFace => .cut target .targetFace
  | .newBody => .newBody

/-- A feature's kind with its references of the given one's lineage pointed at it; a work plane on a face
is resolved then. -/
def rebindKind (reference : BodySubshapeRef) : FeatureKind R → FeatureKind R
  | .workplane ⟨.planarFace anchored _, frame⟩ =>
    .workplane ⟨.planarFace (rebound reference anchored) .resolved, frame⟩
  | .pad spec => .pad { spec with
      extent := rebindExtent reference spec.extent
      operation := rebindOperation reference spec.operation }
  | kind => kind

theorem rebound_lineage (reference anchored : BodySubshapeRef) :
    (rebound reference anchored).lineageDigest = anchored.lineageDigest := by
  unfold rebound
  by_cases same : anchored.lineageDigest = reference.lineageDigest
  · simp [same]
  · simp [same]

theorem extentEndReferences_rebind (reference : BodySubshapeRef) (extentEnd : FeatureExtentEnd R) :
    extentEndReferences (rebindExtentEnd reference extentEnd) =
      (extentEndReferences extentEnd).map (rebound reference) := by
  cases extentEnd <;> rfl

theorem padReferences_rebind (reference : BodySubshapeRef) (extent : FeatureExtent R) :
    extentReferences (rebindExtent reference extent) = (extentReferences extent).map (rebound reference) := by
  cases extent with
  | bidirectional along opposite =>
    simp only [rebindExtent, extentReferences, extentEndReferences_rebind, List.map_append]
  | blind | throughAll | upToFace | symmetric => rfl

theorem operationSupport_rebind (reference : BodySubshapeRef) (operation : PadOperation) :
    operationSupport (rebindOperation reference operation) =
      (operationSupport operation).map (rebound reference) := by
  cases operation with
  | newBody => rfl
  | cut target start => cases start <;> rfl

/-- Rebinding rebinds each reference a feature is anchored to. -/
theorem anchoredReferences_rebind (reference : BodySubshapeRef) (kind : FeatureKind R) :
    anchoredReferences (rebindKind reference kind) =
      (anchoredReferences kind).map (rebound reference) := by
  cases kind with
  | workplane spec =>
    obtain ⟨support, frame⟩ := spec
    cases support <;> rfl
  | pad spec =>
    simp only [rebindKind, anchoredReferences, padReferences, padReferences_rebind,
      operationSupport_rebind, List.map_append]
  | _ => rfl

/-- Rebinding keeps the lineages a feature is anchored to. -/
theorem lineagesOf_rebind (reference : BodySubshapeRef) (kind : FeatureKind R) :
    lineagesOf (rebindKind reference kind) = lineagesOf kind := by
  rw [lineagesOf, anchoredReferences_rebind, List.map_map]
  refine List.map_congr_left fun anchored _ => ?_
  exact rebound_lineage reference anchored

end Anchors

end Ketchup.References
