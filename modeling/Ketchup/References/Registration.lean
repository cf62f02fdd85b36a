/-
**Registering exact references.**

`registerExactReference` is what `register_exact_reference_evidence` does with one reference, and
`registerExactReferences` registers many as one change of the current revision. Both ask whether a
reference is of the producer as it is now: `Snapshot.isCurrent` compiles the producer, or takes the graph
from the snapshot's cache, which goes with the product to the next snapshot while no feature changes.
-/

import Ketchup.Document.Kernel
import Ketchup.References.Faces

namespace Ketchup.References

open Ketchup.Graph Ketchup.Product
open Ketchup.Document (ReferenceEvidenceError)

variable {R Rest : Type}

/-- The producer of a body: its definition and its feature. -/
abbrev Producer := DefinitionId × FeatureId

/-- Graphs compiled for a revision, and graphs of the revision before. -/
structure ExactGraphCache (R : Type) where
  graphs : Nat × Producer → Option (Option (ExactBRepGraph R))
  inherited : Producer → Option (ExactBRepGraph R)

def ExactGraphCache.empty : ExactGraphCache R := ⟨fun _ => none, fun _ => none⟩

/-- The current product, with the graphs of its producers as far as they are known. -/
structure Snapshot (R Rest : Type) where
  revisionId : Nat
  product : ProductModel R Rest
  exactGraphs : ExactGraphCache R

namespace Snapshot

/-- `exact_brep_graph`. -/
def exactBrepGraph (K : Kernel R Rest) (snapshot : Snapshot R Rest) (producer : Producer) :
    Option (ExactBRepGraph R) :=
  match snapshot.exactGraphs.graphs (snapshot.revisionId, producer) with
  | some graph => graph
  | none =>
    match snapshot.exactGraphs.inherited producer with
    | some graph => some graph
    | none => K.compile snapshot.revisionId snapshot.product producer.1 producer.2

/-- The snapshot once it was asked for the graph of a producer: it keeps the answer. -/
def keepingGraph (K : Kernel R Rest) (snapshot : Snapshot R Rest) (producer : Producer) :
    Snapshot R Rest :=
  let answer := some (snapshot.exactBrepGraph K producer)
  let graphs := Function.update snapshot.exactGraphs.graphs (snapshot.revisionId, producer) answer
  { snapshot with exactGraphs := { snapshot.exactGraphs with graphs } }

/-- `ExactProducerCompilation::from_snapshot` gives a producer; its context is taken from the snapshot. -/
def hasProducer (snapshot : Snapshot R Rest) (producer : Producer) : Bool :=
  match snapshot.product.definitions[producer.1]?, snapshot.product.features[producer.2]? with
  | some definition, some feature =>
    feature.definitionId == producer.1 && definition.featureIds.contains producer.2
  | _, _ => false

def producerOf (reference : BodySubshapeRef) : Producer :=
  (reference.definitionId, reference.producerFeatureId)

/-- A reference carries the evidence of evaluating its producer as it is in the snapshot. -/
def isCurrent (K : Kernel R Rest) (snapshot : Snapshot R Rest) (reference : BodySubshapeRef) : Bool :=
  snapshot.hasProducer (producerOf reference) &&
    (snapshot.exactBrepGraph K (producerOf reference)).any fun graph =>
      graph.namesEvaluatedReference reference

/-- The snapshot once it was asked whether a reference is current. -/
def asked (K : Kernel R Rest) (snapshot : Snapshot R Rest) (reference : BodySubshapeRef) :
    Snapshot R Rest :=
  if snapshot.hasProducer (producerOf reference) then snapshot.keepingGraph K (producerOf reference)
  else snapshot

/-- `same_entries`. -/
def sameEntries {Key V : Type} [Ord Key] [Std.TransOrd Key] [DecidableEq Key] [DecidableEq V]
    (before after : BTreeMap Key V) : Bool :=
  before.toList = after.toList

/-- A product that changed nothing leaves the snapshot; the graphs are kept while the features are. -/
def replaceCurrentEvidence [DecidableEq R] (snapshot : Snapshot R Rest) (product : ProductModel R Rest) :
    Snapshot R Rest :=
  let featuresKept := sameEntries snapshot.product.features product.features
  if featuresKept &&
      sameEntries snapshot.product.exactReferenceEvidence product.exactReferenceEvidence then snapshot
  else
    { snapshot with product, exactGraphs := if featuresKept then snapshot.exactGraphs else .empty }

variable [Field R] [LinearOrder R]

/-- The checks that come first. -/
def checkReference (K : Kernel R Rest) (snapshot : Snapshot R Rest) (reference : BodySubshapeRef) :
    Except ReferenceEvidenceError Unit :=
  if !hasValidLineage reference then .error .invalidLineage
  else if reference.documentId ≠ snapshot.product.documentId then .error .wrongDocument
  else match snapshot.product.features[reference.producerFeatureId]? with
    | none => .error .producerNotFound
    | some producer =>
      if producer.definitionId ≠ reference.definitionId then .error .producerDefinitionMismatch
      else if !snapshot.isCurrent K reference then .error .invalidLineage
      else .ok ()

/-- One reference registered alone. -/
def registerExactReference (K : Kernel R Rest) (snapshot : Snapshot R Rest)
    (reference : BodySubshapeRef) : Except ReferenceEvidenceError (Snapshot R Rest) := do
  snapshot.checkReference K reference
  if conflictsWithAnchor snapshot.product.features reference (snapshot.isCurrent K) then
    .error .wrongDocument
  else match K.rebindPlanarFaceReference (snapshot.product.holdReferenceEvidence reference) reference with
    | none => .error .wrongDocument
    | some product => .ok ((snapshot.asked K reference).replaceCurrentEvidence product)

/-- The lineages that some feature is anchored to. -/
def anchoredLineages (product : ProductModel R Rest) : List String :=
  product.features.toList.flatMap fun entry => lineagesOf entry.2.kind

/-- One reference of a batch, on the product as the ones before it left it: `none` while none of them
changed it. -/
def registerNext (K : Kernel R Rest) (snapshot : Snapshot R Rest) (held : Option (ProductModel R Rest))
    (reference : BodySubshapeRef) : Except ReferenceEvidenceError (Option (ProductModel R Rest)) := do
  snapshot.checkReference K reference
  let isAnchored := reference.lineageDigest ∈ anchoredLineages snapshot.product
  let product := held.getD snapshot.product
  -- Evidence already held, with no feature anchored to it, would change nothing.
  if product.exactReferenceEvidence[reference.lineageDigest]? = some reference ∧ ¬isAnchored then .ok held
  else if isAnchored ∧ conflictsWithAnchor product.features reference (snapshot.isCurrent K) then
    .error .wrongDocument
  else
    let product := product.holdReferenceEvidence reference
    if isAnchored then
      match K.rebindPlanarFaceReference product reference with
      | none => .error .wrongDocument
      | some product => .ok (some product)
    else .ok (some product)

/-- `register_exact_references`, with the reference of the error. -/
def registerExactReferences (K : Kernel R Rest) (snapshot : Snapshot R Rest)
    (references : List BodySubshapeRef) :
    Except (BodySubshapeRef × ReferenceEvidenceError) (Snapshot R Rest) := do
  let held ← references.foldlM (fun held reference =>
    (snapshot.registerNext K held reference).mapError fun error => (reference, error)) none
  let asked := references.foldl (asked K) snapshot
  match held with
  | none => .ok asked
  | some product => .ok (asked.replaceCurrentEvidence product)

end Snapshot

/-! ### The store -/

/-- The revisions, one of which is current. A call that fails leaves them. -/
structure DocumentStore (R Rest : Type) where
  revisions : List (Snapshot R Rest)
  cursor : Nat
  inside : cursor < revisions.length

namespace DocumentStore

def current (store : DocumentStore R Rest) : Snapshot R Rest := store.revisions.get ⟨store.cursor, store.inside⟩

def setCurrent (store : DocumentStore R Rest) (snapshot : Snapshot R Rest) : DocumentStore R Rest where
  revisions := store.revisions.set store.cursor snapshot
  cursor := store.cursor
  inside := by rw [List.length_set]; exact store.inside

variable [Field R] [LinearOrder R]

def registerExactReferenceEvidence (K : Kernel R Rest) (reference : BodySubshapeRef)
    (store : DocumentStore R Rest) : Except ReferenceEvidenceError Unit × DocumentStore R Rest :=
  match store.current.registerExactReference K reference with
  | .error error => (.error error, store)
  | .ok snapshot => (.ok (), store.setCurrent snapshot)

def registerExactReferences (K : Kernel R Rest) (references : List BodySubshapeRef)
    (store : DocumentStore R Rest) :
    Except (BodySubshapeRef × ReferenceEvidenceError) Unit × DocumentStore R Rest :=
  match store.current.registerExactReferences K references with
  | .error error => (.error error, store)
  | .ok snapshot => (.ok (), store.setCurrent snapshot)

/-- Each reference registered alone, in order, as long as none fails. -/
def registerEach (K : Kernel R Rest) : List BodySubshapeRef → DocumentStore R Rest →
    Except ReferenceEvidenceError Unit × DocumentStore R Rest
  | [], store => (.ok (), store)
  | reference :: rest, store =>
    match store.registerExactReferenceEvidence K reference with
    | (.ok (), next) => registerEach K rest next
    | (.error error, next) => (.error error, next)

variable {K : Kernel R Rest} {store : DocumentStore R Rest} {reference : BodySubshapeRef}

theorem registerEach_cons {rest : List BodySubshapeRef} :
    store.registerEach K (reference :: rest) =
      match store.registerExactReferenceEvidence K reference with
      | (.ok (), next) => next.registerEach K rest
      | (.error error, next) => (.error error, next) :=
  rfl

theorem registerExactReferenceEvidence_ok {next : Snapshot R Rest}
    (is : store.current.registerExactReference K reference = .ok next) :
    store.registerExactReferenceEvidence K reference = (.ok (), store.setCurrent next) := by
  unfold registerExactReferenceEvidence
  rw [is]

theorem registerExactReferenceEvidence_error {error : ReferenceEvidenceError}
    (is : store.current.registerExactReference K reference = .error error) :
    store.registerExactReferenceEvidence K reference = (.error error, store) := by
  unfold registerExactReferenceEvidence
  rw [is]

end DocumentStore

end Ketchup.References
