/-
**What a prepared release is.**

`prepareRelease_sound` says all that preparing leaves established. With it every check a reader makes
passes, but the limit on the document alone (`validateManifest_iff`), which no writer makes.
-/

import Ketchup.Pdm.Creation

set_option linter.unusedSectionVars false

namespace Ketchup.Pdm

open Ketchup.Persistence

section Prepared

variable [Sha256Sum] [ReleaseJson]

theorem validateSha256_hex (bytes : Bytes) : validateSha256 (Sha256.hex bytes) = .ok () := by
  refine refuseIf_ok.mpr fun either => ?_
  rcases either with long | other
  · exact long (hash_size bytes)
  · exact other (List.all_eq_true.mpr fun mark member => hexDigit_is member)

/-! ### Dependencies -/

/-- A dependency names its bytes, under a path that is one. -/
structure IsDependency (dependency : ReleasedDependency × Bytes) : Prop where
  object : dependency.1.object = identity dependency.2
  path : validateLogicalPath dependency.1.logicalPath = .ok ()

/-- The bytes of dependencies together. -/
def dependencyBytes (dependencies : List (ReleasedDependency × Bytes)) : Nat :=
  (dependencies.map fun dependency => dependency.2.length).sum

theorem le_dependencyBytes {dependencies : List (ReleasedDependency × Bytes)}
    {dependency : ReleasedDependency × Bytes} (member : dependency ∈ dependencies) :
    dependency.2.length ≤ dependencyBytes dependencies := by
  induction dependencies with
  | nil => cases member
  | cons first rest ih =>
    have sum : dependencyBytes (first :: rest) = first.2.length + dependencyBytes rest :=
      List.sum_cons
    rcases List.mem_cons.mp member with rfl | member
    · omega
    · have later := ih member
      omega

/-- What is established of the dependencies read so far. -/
structure DependencyObjects.Read (read : DependencyObjects) (maximumTotalBytes : Nat) : Prop where
  each : ∀ dependency ∈ read.objects, IsDependency dependency
  paths : ∀ dependency ∈ read.objects, dependency.1.logicalPath ∈ read.logicalPaths
  distinct : (read.objects.map fun dependency => dependency.1.logicalPath).Nodup
  counted : read.totalBytes = dependencyBytes read.objects
  within : read.totalBytes ≤ maximumTotalBytes

section Reading

variable {maximumDependencyBytes maximumTotalBytes : Nat} {before after : DependencyObjects}

theorem readBoundedFile_ok {source : Option Bytes} {limit : Nat} {limitError : LocalPdmError}
    {bytes : Bytes} (ok : readBoundedFile source limit limitError = .ok bytes) :
    source = some bytes ∧ bytes.length ≤ limit := by
  unfold readBoundedFile at ok
  split at ok
  · cases ok
  · split at ok
    · cases ok
    · cases ok
      exact ⟨rfl, Nat.le_of_not_lt (by assumption)⟩

theorem readReleaseDependency_read {dependency : ReleaseDependencyInput}
    (ok : readReleaseDependency maximumDependencyBytes maximumTotalBytes before dependency = .ok after)
    (read : before.Read maximumTotalBytes) :
    after.Read maximumTotalBytes ∧ after.objects.length = before.objects.length + 1 := by
  obtain ⟨_, path, ok⟩ := bind_ok ok
  obtain ⟨_, fresh, ok⟩ := bind_ok ok
  obtain ⟨bytes, bounded, ok⟩ := bind_ok ok
  have fresh := refuseIf_ok.mp fresh
  have short := (readBoundedFile_ok bounded).2.trans (Nat.min_le_right _ _)
  cases ok
  refine ⟨⟨?_, ?_, ?_, ?_, ?_⟩, by simp⟩
  · intro other member
    rcases List.mem_append.mp member with member | member
    · exact read.each other member
    · rw [List.mem_singleton.mp member]
      exact ⟨rfl, path⟩
  · intro other member
    rw [BTreeSet.mem_insert]
    rcases List.mem_append.mp member with member | member
    · exact .inr (read.paths other member)
    · rw [List.mem_singleton.mp member]
      exact .inl rfl
  · rw [List.map_append, List.map_singleton, List.nodup_append]
    refine ⟨read.distinct, List.nodup_singleton _, fun path member other is same => fresh ?_⟩
    obtain ⟨known, inside, rfl⟩ := List.mem_map.mp member
    have added : known.1.logicalPath = dependency.logicalPath :=
      same.trans (List.mem_singleton.mp is)
    exact added ▸ read.paths known inside
  · show before.totalBytes + bytes.length = _
    simp [dependencyBytes, read.counted]
  · show before.totalBytes + bytes.length ≤ maximumTotalBytes
    have within := read.within
    omega

theorem foldlM_readReleaseDependency {dependencies : List ReleaseDependencyInput}
    (ok : dependencies.foldlM
      (readReleaseDependency maximumDependencyBytes maximumTotalBytes) before = .ok after)
    (read : before.Read maximumTotalBytes) :
    after.Read maximumTotalBytes ∧
      after.objects.length = before.objects.length + dependencies.length := by
  induction dependencies generalizing before with
  | nil =>
    cases ok
    exact ⟨read, rfl⟩
  | cons dependency rest ih =>
    rw [List.foldlM_cons] at ok
    obtain ⟨next, step, ok⟩ := bind_ok ok
    obtain ⟨read, one⟩ := readReleaseDependency_read step read
    obtain ⟨read, more⟩ := ih ok read
    refine ⟨read, ?_⟩
    rw [more, one, List.length_cons]
    omega

/-- The dependencies that were read, in the order of their paths. -/
structure AreDependencies (dependencies : List (ReleasedDependency × Bytes)) : Prop where
  each : ∀ dependency ∈ dependencies, IsDependency dependency
  ordered : dependencies.Pairwise fun left right =>
    compare left.1.logicalPath right.1.logicalPath = .lt
  within : dependencyBytes dependencies ≤ maxReleaseTotalDependencyBytes

theorem readReleaseDependencies_are {dependencies : List ReleaseDependencyInput}
    {read : List (ReleasedDependency × Bytes)}
    (ok : readReleaseDependencies dependencies maximumDependencyBytes
      maxReleaseTotalDependencyBytes = .ok read) :
    AreDependencies read ∧ read.length = dependencies.length := by
  obtain ⟨after, ok, sorted⟩ := bind_ok ok
  obtain ⟨held, count⟩ := foldlM_readReleaseDependency ok
    ⟨nofun, nofun, List.nodup_nil, rfl, Nat.zero_le _⟩
  cases sorted
  have permuted := List.mergeSort_perm after.objects fun left right =>
    (compare left.1.logicalPath right.1.logicalPath).isLE
  refine ⟨⟨?_, ?_, ?_⟩, ?_⟩
  · intro dependency member
    exact held.each dependency (permuted.mem_iff.mp member)
  · have inOrder : (after.objects.mergeSort _).Pairwise fun left right =>
        (compare left.1.logicalPath right.1.logicalPath).isLE = true :=
      List.pairwise_mergeSort (fun _ _ _ => Std.TransCmp.isLE_trans) (fun _ _ => isLE_total ..)
        after.objects
    have distinct : (after.objects.mergeSort _).Pairwise fun left right =>
        left.1.logicalPath ≠ right.1.logicalPath :=
      List.pairwise_map.mp (List.nodup_iff_pairwise_ne.mp
        ((permuted.map fun dependency => dependency.1.logicalPath).nodup_iff.mpr held.distinct))
    refine (inOrder.and distinct).imp fun both => ?_
    exact (Ordering.isLE_iff_eq_lt_or_eq_eq.mp both.1).resolve_right fun same =>
      both.2 (Std.LawfulEqCmp.eq_of_compare same)
  · have same := (permuted.map fun dependency => dependency.2.length).sum_nat
    show ((after.objects.mergeSort _).map _).sum ≤ _
    rw [same]
    exact held.counted.symm.trans_le held.within
  · rw [List.length_mergeSort, count]
    exact Nat.zero_add _

end Reading

/-- The checks a reader makes of dependencies pass. -/
theorem foldlM_checkDependency {dependencies : List (ReleasedDependency × Bytes)}
    {before : DependencyCheck} (each : ∀ dependency ∈ dependencies, IsDependency dependency)
    (ordered : dependencies.Pairwise fun left right =>
      compare left.1.logicalPath right.1.logicalPath = .lt)
    (later : ∀ path ∈ before.previous, ∀ dependency ∈ dependencies,
      compare path dependency.1.logicalPath = .lt)
    (within : before.totalBytes + dependencyBytes dependencies ≤ maxReleaseTotalDependencyBytes) :
    ∃ after, (dependencies.map Prod.fst).foldlM checkDependency before = .ok after := by
  induction dependencies generalizing before with
  | nil => exact ⟨before, rfl⟩
  | cons dependency rest ih =>
    obtain ⟨first, ordered⟩ := List.pairwise_cons.mp ordered
    obtain ⟨object, path⟩ := each dependency (List.mem_cons_self ..)
    have sum : dependencyBytes (dependency :: rest) = dependency.2.length + dependencyBytes rest :=
      List.sum_cons
    have length : dependency.1.object.byteLen = dependency.2.length := congrArg (·.byteLen) object
    have identified : validateObjectIdentity dependency.1.object = .ok () := by
      unfold validateObjectIdentity
      rw [object, show validateSha256 (identity dependency.2).sha256 = .ok () from
        validateSha256_hex _]
      refine refuseIf_ok.mpr (Nat.not_lt.mpr ?_)
      show dependency.2.length ≤ maxReleaseTotalDependencyBytes
      omega
    have total : refuseIf (maxReleaseTotalDependencyBytes <
        before.totalBytes + dependency.1.object.byteLen) LocalPdmError.dependenciesTooLarge =
          .ok () := refuseIf_ok.mpr (by omega)
    have next : refuseIf (∃ path ∈ before.previous,
        compare path dependency.1.logicalPath ≠ .lt) LocalPdmError.invalidManifest = .ok () :=
      refuseIf_ok.mpr fun ⟨path, is, other⟩ => other (later path is dependency (List.mem_cons_self ..))
    have step : checkDependency before dependency.1 =
        .ok ⟨some dependency.1.logicalPath, before.totalBytes + dependency.1.object.byteLen⟩ := by
      unfold checkDependency
      rw [path, identified]
      dsimp only [bind, Except.bind]
      rw [total, next]
      rfl
    rw [List.map_cons, List.foldlM_cons, step]
    refine ih (fun other member => each other (List.mem_cons_of_mem _ member)) ordered ?_ ?_
    · rintro path ⟨⟩ other member
      exact first other member
    · show before.totalBytes + dependency.1.object.byteLen + dependencyBytes rest ≤ _
      omega

/-! ### The whole release -/

/-- **What a prepared release is.** -/
structure PreparedRelease.Sound (release : PreparedRelease) : Prop where
  schema : release.manifest.schema = releaseSchemaV1
  units : release.manifest.document.units = millimetres
  identified : release.manifest.computedReleaseId = release.releaseId
  audited : validateAudit release.manifest.audit = .ok ()
  document : release.manifest.document.object = identity release.document
  named : release.manifest.dependencies = release.dependencies.map Prod.fst
  dependencies : AreDependencies release.dependencies
  few : release.dependencies.length ≤ maxReleaseDependencies
  short : (ReleaseJson.manifestText release.manifest).length ≤ maxReleaseManifestBytes

/-- What a release was prepared from. -/
structure PreparedRelease.Of {S : Type} [DocumentCodec S] (release : PreparedRelease)
    (parent : Option ReleaseManifest) (request : ReleaseRequest S) : Prop where
  parent : release.manifest.parentReleaseId = parent.map ReleaseManifest.releaseId
  saved : saveContainer request.snapshot request.containerData = .ok release.document
  documentId : release.manifest.document.documentId = DocumentCodec.documentId request.snapshot
  revision : release.manifest.document.revision = DocumentCodec.revisionId request.snapshot
  digest : release.manifest.document.canonicalDigest = DocumentCodec.canonicalDigest request.snapshot
  dependencies : readReleaseDependencies request.dependencies maxReleaseDependencyBytes
    maxReleaseTotalDependencyBytes = .ok release.dependencies

theorem prepareRelease_sound {S : Type} [DocumentCodec S] {parent : Option ReleaseManifest}
    {request : ReleaseRequest S} {release : PreparedRelease}
    (ok : prepareRelease parent request = .ok release) :
    release.Sound ∧ release.Of parent request := by
  obtain ⟨_, current, ok⟩ := bind_ok ok
  obtain ⟨_, audited, ok⟩ := bind_ok ok
  obtain ⟨_, few, ok⟩ := bind_ok ok
  obtain ⟨document, saved, ok⟩ := bind_ok ok
  obtain ⟨objects, read, ok⟩ := bind_ok ok
  obtain ⟨_, changed, ok⟩ := bind_ok ok
  obtain ⟨_, short, ok⟩ := bind_ok ok
  obtain ⟨are, count⟩ := readReleaseDependencies_are read
  cases ok
  refine ⟨⟨rfl, rfl, rfl, audited, rfl, rfl, are, ?_, ?_⟩,
    ⟨rfl, mapError_ok saved, rfl, rfl, rfl, read⟩⟩
  · rw [count]
    exact Nat.le_of_not_lt (refuseIf_ok.mp few)
  · exact Nat.le_of_not_lt (refuseIf_ok.mp short)

namespace PreparedRelease.Sound

variable {release : PreparedRelease}

theorem releaseId_eq (sound : release.Sound) :
    release.releaseId = Sha256.hex (ReleaseJson.payloadText release.manifest.payload) :=
  sound.identified.symm

theorem validateSha256_releaseId (sound : release.Sound) :
    validateSha256 release.releaseId = .ok () := by
  rw [sound.releaseId_eq]
  exact validateSha256_hex _

theorem validateObjectIdentity_iff (bytes : Bytes) :
    validateObjectIdentity (identity bytes) = .ok () ↔ bytes.length ≤ maxReleaseDependencyBytes := by
  unfold validateObjectIdentity
  rw [show validateSha256 (identity bytes).sha256 = .ok () from validateSha256_hex _]
  exact refuseIf_ok.trans Nat.not_lt

/-- **A reader of a manifest takes it exactly when** its document is within the limit. -/
theorem validateManifest_iff (sound : release.Sound)
    (parent : validateParent release.manifest.parentReleaseId release.releaseId = .ok ()) :
    validateManifest release.manifest release.releaseId = .ok () ↔
      release.document.length ≤ maxReleaseDependencyBytes := by
  have same : refuseIf (release.manifest.schema ≠ releaseSchemaV1 ∨
      release.manifest.releaseId ≠ release.releaseId ∨
      release.manifest.computedReleaseId ≠ release.releaseId ∨
      maxReleaseDependencies < release.manifest.dependencies.length ∨
      release.manifest.document.units ≠ millimetres) LocalPdmError.manifestIdentityMismatch =
        .ok () := by
    refine refuseIf_ok.mpr fun either => ?_
    rcases either with schema | other | computed | many | units
    · exact schema sound.schema
    · exact other rfl
    · exact computed sound.identified
    · rw [sound.named, List.length_map] at many
      exact Nat.not_lt.mpr sound.few many
    · exact units sound.units
  have within : 0 + dependencyBytes release.dependencies ≤ maxReleaseTotalDependencyBytes := by
    rw [Nat.zero_add]
    exact sound.dependencies.within
  obtain ⟨after, checked⟩ : ∃ after,
      (release.dependencies.map Prod.fst).foldlM checkDependency ⟨none, 0⟩ = .ok after :=
    foldlM_checkDependency sound.dependencies.each sound.dependencies.ordered nofun within
  unfold validateManifest
  rw [same, parent, sound.audited, sound.document, sound.named]
  dsimp only [bind, Except.bind]
  rw [← validateObjectIdentity_iff]
  cases validateObjectIdentity (identity release.document) with
  | error error => exact Iff.rfl
  | ok =>
    dsimp only
    rw [checked]
    exact iff_of_true rfl rfl

end PreparedRelease.Sound

end Prepared

end Ketchup.Pdm
