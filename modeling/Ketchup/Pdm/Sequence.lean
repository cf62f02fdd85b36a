/-
**Releases created one after another.**

A run is any sequence of creations, of which some succeed. While the releases stay within the limits of
the reader (`Fits`) every created release opens as it was created and the catalog lists exactly the
created releases (`created_releases_open`). No writer checks these limits.
-/

import Ketchup.Pdm.Archive
import Ketchup.Persistence.ContainerRoundTrip

set_option linter.unusedSectionVars false

namespace Ketchup.Pdm

open Ketchup.Persistence

section Sequences

variable [Sha256Sum] [ReleaseJson]

/-! ### What writing leaves -/

/-- Every file is kept. -/
def Grows (files after : Files) : Prop :=
  ∀ (path : FilePath) (content : Bytes), files[path]? = some content → after[path]? = some content

theorem Grows.refl (files : Files) : Grows files files := fun _ _ found => found

theorem Grows.trans {files between after : Files} (first : Grows files between)
    (second : Grows between after) : Grows files after :=
  fun path content found => second path content (first path content found)

theorem Grows.published {files after : Files} (grows : Grows files after)
    {release : PreparedRelease} (published : release.Published files) : release.Published after :=
  fun target member => grows _ _ (published target member)

/-- What is there after writing targets was there before or is one of them. -/
structure Wrote (files after : Files) (targets : List Target) : Prop where
  grows : Grows files after
  only : ∀ (path : FilePath) (content : Bytes), after[path]? = some content →
    files[path]? = some content ∨ ∃ target ∈ targets, path = target.path

theorem Wrote.trans {files between after : Files} {first second : List Target}
    (one : Wrote files between first) (two : Wrote between after second) :
    Wrote files after (first ++ second) where
  grows := one.grows.trans two.grows
  only path content found := by
    rcases two.only path content found with earlier | ⟨target, member, same⟩
    · rcases one.only path content earlier with earlier | ⟨target, member, same⟩
      · exact .inl earlier
      · exact .inr ⟨target, List.mem_append_left _ member, same⟩
    · exact .inr ⟨target, List.mem_append_right _ member, same⟩

theorem wrote_insert {files : Files} {target : Target} (fresh : files[target.path]? = none) :
    Wrote files (files.insert target.path target.bytes) [target] where
  grows path content found := by
    rw [BTreeMap.getElem?_insert, if_neg]
    · exact found
    · rintro rfl
      rw [fresh] at found
      cases found
  only path content found := by
    rw [BTreeMap.getElem?_insert] at found
    split at found
    case isTrue same => exact .inr ⟨target, List.mem_singleton.mpr rfl, same.symm⟩
    case isFalse => exact .inl found

theorem verifyExistingObject_ok {actual expected : Bytes} {object : ReleaseObjectIdentity}
    (ok : verifyExistingObject actual object expected = .ok ()) : actual = expected := by
  obtain ⟨_, _, ok⟩ := bind_ok ok
  exact not_not.mp (not_or.mp (refuseIf_ok.mp ok)).1

theorem writeTarget_ok {files after : Files} {target : Target}
    (ok : writeTarget files target = .ok after) :
    Wrote files after [target] ∧ after[target.path]? = some target.bytes ∧
      (∀ releaseId bytes, target = .manifest releaseId bytes → files[target.path]? = none) := by
  unfold writeTarget at ok
  cases found : files[target.path]? with
  | none =>
    rw [found] at ok
    cases ok
    refine ⟨wrote_insert found, ?_, fun _ _ _ => rfl⟩
    rw [BTreeMap.getElem?_insert, if_pos rfl]
  | some actual =>
    rw [found] at ok
    dsimp only at ok
    cases target with
    | object object expected =>
      rw [show (Target.object object expected).whenPresent actual =
        verifyExistingObject actual object expected from rfl] at ok
      cases verified : verifyExistingObject actual object expected with
      | error error =>
        rw [verified] at ok
        cases ok
      | ok =>
        rw [verified] at ok
        cases ok
        refine ⟨⟨.refl _, fun _ _ found => .inl found⟩, ?_, nofun⟩
        rw [found, verifyExistingObject_ok verified]
        rfl
    | manifest releaseId bytes => cases ok

/-- What is written in turn is there in the end. -/
theorem writeTargets_ok {files after : Files} {targets : List Target}
    (ok : writeTargets files targets = (after, .ok ())) :
    Wrote files after targets ∧ ∀ target ∈ targets, after[target.path]? = some target.bytes := by
  induction targets generalizing files with
  | nil =>
    cases ok
    exact ⟨⟨.refl _, fun _ _ found => .inl found⟩, nofun⟩
  | cons target rest ih =>
    unfold writeTargets at ok
    cases step : writeTarget files target with
    | error error =>
      rw [step] at ok
      cases (Prod.mk.inj ok).2
    | ok between =>
      rw [step] at ok
      obtain ⟨one, here, _⟩ := writeTarget_ok step
      obtain ⟨more, later⟩ := ih ok
      exact ⟨one.trans more, List.forall_mem_cons.mpr ⟨more.grows _ _ here, later⟩⟩

/-- Objects and then one more target: the last is written after all others or not at all. -/
theorem writeTargets_last {files after : Files} {objects : List Target} {last : Target}
    {outcome : Except LocalPdmError Unit}
    (run : writeTargets files (objects ++ [last]) = (after, outcome)) :
    (∃ between, writeTargets files objects = (between, .ok ()) ∧
        writeTargets between [last] = (after, outcome)) ∨
      ∃ error, writeTargets files objects = (after, .error error) ∧ outcome = .error error := by
  induction objects generalizing files with
  | nil => exact .inl ⟨files, rfl, run⟩
  | cons target rest ih =>
    rw [List.cons_append] at run
    unfold writeTargets at run ⊢
    cases step : writeTarget files target with
    | error error =>
      rw [step] at run
      cases run
      exact .inr ⟨error, rfl, rfl⟩
    | ok between =>
      rw [step] at run
      exact ih run

/-- Whatever writing ends in, it keeps what is there. -/
theorem writeTargets_wrote {files : Files} (targets : List Target) :
    Wrote files (writeTargets files targets).1 targets := by
  induction targets generalizing files with
  | nil => exact ⟨.refl _, fun _ _ found => .inl found⟩
  | cons target rest ih =>
    unfold writeTargets
    cases step : writeTarget files target with
    | error error => exact ⟨.refl _, fun _ _ found => .inl found⟩
    | ok between => exact (writeTarget_ok step).1.trans ih

/-- Objects are kept apart from the releases. -/
theorem releaseObjectPath_apart (sha256 : String) :
    (releaseObjectPath sha256).directory ≠ releasesDirectory := by
  intro same
  have marks := congrArg String.toList same
  unfold releaseObjectPath releasesDirectory at marks
  rw [String.toList_append] at marks
  exact absurd (List.cons.inj marks).1 (by decide)

theorem PreparedRelease.object_apart {release : PreparedRelease} {target : Target}
    (member : target ∈ release.objects) : target.path.directory ≠ releasesDirectory := by
  rcases List.mem_cons.mp member with rfl | member
  · exact releaseObjectPath_apart _
  · obtain ⟨dependency, _, rfl⟩ := List.mem_map.mp member
    exact releaseObjectPath_apart _

section Steps

variable {S : Type} [DocumentCodec S] {files after : Files} {published : List PreparedRelease}

/-- The parent of a release that is made from one of the published releases. -/
def IsParent (published : List PreparedRelease) (request : ReleaseRequest S) :
    Option ReleaseManifest → Prop
  | none => True
  | some manifest => ∃ parent ∈ published, parent.manifest = manifest ∧
      parent.documentId = DocumentCodec.documentId request.snapshot

/-- Objects alone make no release. -/
theorem archive_objects (archive : Archive files published fun _ => False) {release : PreparedRelease}
    (wrote : Wrote files after release.objects) : Archive after published fun _ => False := by
  refine archive.keep (fun known member => wrote.grows.published (archive.present known member)) ?_
  intro path content found inside
  rcases wrote.only path content found with earlier | ⟨target, member, rfl⟩
  · exact archive.listed path content earlier inside
  · exact absurd inside (PreparedRelease.object_apart member)

/-- All targets of a release make one. -/
theorem archive_targets (archive : Archive files published fun _ => False) {release : PreparedRelease}
    (sound : release.Sound) (back : release.ReadsBack) (wrote : Wrote files after release.targets)
    (present : release.Published after)
    (fresh : files[releaseManifestPath release.releaseId]? = none)
    (parents : ∀ parentId ∈ release.manifest.parentReleaseId, ∃ parent ∈ published,
      parent.releaseId = parentId ∧ parent.documentId = release.documentId) :
    Archive after (release :: published) fun _ => False := by
  refine archive.publish (fun known member => wrote.grows.published (archive.present known member))
    sound back present fresh parents ?_
  intro path content found inside
  rcases wrote.only path content found with earlier | ⟨target, member, rfl⟩
  · obtain ⟨known, member, same⟩ :=
      (archive.listed path content earlier inside).resolve_right not_false
    exact .inl ⟨known, List.mem_cons_of_mem _ member, same⟩
  · rcases List.mem_append.mp member with object | last
    · exact absurd inside (PreparedRelease.object_apart object)
    · rw [List.mem_singleton.mp last]
      exact .inl ⟨release, List.mem_cons_self .., rfl⟩

/-- A file that is absent was absent. -/
theorem Grows.absent (grows : Grows files after) {path : FilePath} (absent : after[path]? = none) :
    files[path]? = none := by
  cases found : files[path]? with
  | none => rfl
  | some content =>
    rw [grows path content found] at absent
    cases absent

theorem writeTargets_release {release : PreparedRelease}
    (ok : writeTargets files release.targets = (after, .ok ())) :
    Wrote files after release.targets ∧ release.Published after ∧
      files[releaseManifestPath release.releaseId]? = none := by
  obtain ⟨wrote, present⟩ := writeTargets_ok ok
  refine ⟨wrote, present, ?_⟩
  rcases writeTargets_last ok with ⟨between, objects, last⟩ | ⟨error, _, refused⟩
  · refine (writeTargets_ok objects).1.grows.absent ?_
    unfold writeTargets at last
    cases step : writeTarget between release.manifestTarget with
    | error error =>
      rw [step] at last
      cases (Prod.mk.inj last).2
    | ok written => exact (writeTarget_ok step).2.2 _ _ rfl
  · cases refused

/-- What writing leaves when it fails: objects of the release alone. -/
theorem writeTargets_refused {release : PreparedRelease} {error : LocalPdmError}
    (run : writeTargets files release.targets = (after, .error error)) :
    Wrote files after release.objects := by
  rcases writeTargets_last run with ⟨between, objects, last⟩ | ⟨_, objects, _⟩
  · unfold writeTargets at last
    cases step : writeTarget between release.manifestTarget with
    | error error =>
      rw [step] at last
      cases last
      exact (writeTargets_ok objects).1
    | ok written =>
      rw [step] at last
      cases (Prod.mk.inj last).2
  · have kept : Wrote files (writeTargets files release.objects).1 release.objects :=
      writeTargets_wrote release.objects
    rw [objects] at kept
    exact kept

theorem IsParent.parents {request : ReleaseRequest S} {parent : Option ReleaseManifest}
    (isParent : IsParent published request parent) {release : PreparedRelease}
    (made : release.Of parent request) :
    ∀ parentId ∈ release.manifest.parentReleaseId, ∃ known ∈ published,
      known.releaseId = parentId ∧ known.documentId = release.documentId := by
  intro parentId is
  rw [made.parent] at is
  cases parent with
  | none => cases is
  | some manifest =>
    obtain ⟨known, member, rfl, document⟩ := isParent
    exact ⟨known, member, Option.some.inj is, document.trans made.documentId.symm⟩

/-- **A creation in an archive** leaves an archive, with one release more where it succeeds. -/
theorem createReleaseInternal_archive (archive : Archive files published fun _ => False)
    {parent : Option ReleaseManifest} {request : ReleaseRequest S}
    (isParent : IsParent published request parent) {outcome : Except LocalPdmError ReleaseManifest}
    (run : createReleaseInternal files parent request = (after, outcome)) :
    match outcome with
    | .error _ => Archive after published fun _ => False
    | .ok manifest => ∃ release : PreparedRelease, release.manifest = manifest ∧
        release.Of parent request ∧
        (release.ReadsBack → Archive after (release :: published) fun _ => False) := by
  unfold createReleaseInternal at run
  cases prepared : prepareRelease parent request with
  | error error =>
    rw [prepared] at run
    cases run
    exact archive
  | ok release =>
    obtain ⟨sound, made⟩ := prepareRelease_sound prepared
    rw [prepared] at run
    dsimp only at run
    rcases written : writeTargets files release.targets with ⟨final, error | _⟩
    · rw [written] at run
      cases run
      exact archive_objects archive (writeTargets_refused written)
    · rw [written] at run
      cases run
      obtain ⟨wrote, present, fresh⟩ := writeTargets_release written
      exact ⟨release, rfl, made, fun back =>
        archive_targets archive sound back wrote present fresh (isParent.parents made)⟩

/-! ### Runs -/

/-- A call that created a release, and what it returned. -/
structure Creation (S : Type) where
  parent : Option String
  request : ReleaseRequest S
  manifest : ReleaseManifest

/-- `create_release`, or `create_child_release` of a parent. -/
def create (files : Files) (parent : Option String) (request : ReleaseRequest S) :
    Files × Except LocalPdmError ReleaseManifest :=
  match parent with
  | none => createRelease files request
  | some parentReleaseId => createChildRelease files parentReleaseId request

theorem create_archive (archive : Archive files published fun _ => False) {parent : Option String}
    {request : ReleaseRequest S} {outcome : Except LocalPdmError ReleaseManifest}
    (run : create files parent request = (after, outcome)) :
    match outcome with
    | .error _ => Archive after published fun _ => False
    | .ok manifest => ∃ (release : PreparedRelease) (from_ : Option ReleaseManifest),
        release.manifest = manifest ∧ release.Of from_ request ∧
        from_.map ReleaseManifest.releaseId = parent ∧
        (release.ReadsBack → Archive after (release :: published) fun _ => False) := by
  cases parent with
  | none =>
    have isParent : IsParent published request none := trivial
    have inner := createReleaseInternal_archive archive isParent run
    cases outcome with
    | error error => exact inner
    | ok manifest =>
      obtain ⟨release, same, made, grown⟩ := inner
      exact ⟨release, none, same, made, rfl, grown⟩
  | some parentId =>
    have run : createChildRelease files parentId request = (after, outcome) := run
    unfold createChildRelease at run
    cases opened : openParent files parentId request with
    | error error =>
      rw [opened] at run
      cases run
      exact archive
    | ok manifest =>
      rw [opened] at run
      obtain ⟨known, member, named, same, document⟩ :=
        archive.openParent_published not_false opened
      have isParent : IsParent published request (some manifest) :=
        ⟨known, member, same, document⟩
      have inner := createReleaseInternal_archive archive isParent run
      cases outcome with
      | error error => exact inner
      | ok result =>
        obtain ⟨release, is, made, grown⟩ := inner
        exact ⟨release, some manifest, is, made, congrArg some (same ▸ named), grown⟩

/-- The document of a request, as it is saved, is within what a reader takes and is loaded again as a
document of the same identity. -/
def Reloads (request : ReleaseRequest S) : Prop :=
  ∀ document, saveContainer request.snapshot request.containerData = .ok document →
    document.length ≤ maxReleaseDependencyBytes ∧
      ∃ loaded : LoadOutcome S, load document = .ok loaded ∧
        DocumentCodec.documentId loaded.document.snapshot =
          DocumentCodec.documentId request.snapshot ∧
        DocumentCodec.revisionId loaded.document.snapshot =
          DocumentCodec.revisionId request.snapshot ∧
        loaded.document.sourceCanonicalDigest = DocumentCodec.canonicalDigest request.snapshot

/-- **The limits only the reader has**, kept by a creation after others, newest first. -/
structure Fits (created : List (Creation S)) (parent : Option String) (request : ReleaseRequest S) :
    Prop where
  room : created.length < maxReleaseCatalogEntries
  lineage : ∀ parentId ∈ parent,
    lineageLength (created.map Creation.manifest) parentId < maxReleaseLineageDepth
  document : Reloads request

/-- The states that creations reach from an empty repository, with those that succeeded, newest
first. -/
inductive FittingRun : Files → List (Creation S) → Prop
  | empty : FittingRun ∅ []
  | refused {files after : Files} {created : List (Creation S)} {parent : Option String}
      {request : ReleaseRequest S} {error : LocalPdmError} (run : FittingRun files created)
      (call : create files parent request = (after, .error error)) : FittingRun after created
  | created {files after : Files} {created : List (Creation S)} {parent : Option String}
      {request : ReleaseRequest S} {manifest : ReleaseManifest} (run : FittingRun files created)
      (call : create files parent request = (after, .ok manifest))
      (fits : Fits created parent request) :
      FittingRun after (⟨parent, request, manifest⟩ :: created)

/-- A creation opens, and gives back what it was made with. -/
def Opens (files : Files) (creation : Creation S) : Prop :=
  ∃ (opened : VerifiedRelease S) (document : Bytes)
      (dependencies : List (ReleasedDependency × Bytes)),
    openRelease files creation.manifest.releaseId = .ok opened ∧
      opened.manifest = creation.manifest ∧
      opened.manifest.parentReleaseId = creation.parent ∧
      saveContainer creation.request.snapshot creation.request.containerData = .ok document ∧
      readObject files opened.manifest.document.object = .ok document ∧
      readReleaseDependencies creation.request.dependencies maxReleaseDependencyBytes
        maxReleaseTotalDependencyBytes = .ok dependencies ∧
      opened.manifest.dependencies = dependencies.map Prod.fst ∧
      ∀ dependency ∈ dependencies, readObject files dependency.1.object = .ok dependency.2

/-- The release a creation made. -/
def Made (creation : Creation S) (release : PreparedRelease) : Prop :=
  release.manifest = creation.manifest ∧ Reloads creation.request ∧
    ∃ from_ : Option ReleaseManifest, release.Of from_ creation.request ∧
      from_.map ReleaseManifest.releaseId = creation.parent

theorem Made.opens {others : FilePath → Prop} (archive : Archive files published others)
    {creation : Creation S} {release : PreparedRelease} (made : Made creation release)
    (member : release ∈ published) : Opens files creation := by
  obtain ⟨same, reloads, from_, of_, named⟩ := made
  obtain ⟨short, loaded, loads, documentId, revision, digest⟩ := reloads _ of_.saved
  have loadsAs : release.LoadsAs loaded :=
    ⟨loads, documentId.trans of_.documentId.symm, revision.trans of_.revision.symm,
      digest.trans of_.digest.symm⟩
  have sound := archive.sound release member
  have published := archive.present release member
  have opens := (archive.opens_iff member (release.verified loaded)).mpr
    ⟨short, loaded, loadsAs, rfl⟩
  refine ⟨release.verified loaded, release.document, release.dependencies, same ▸ opens, same, ?_,
    of_.saved, ?_, of_.dependencies, sound.named, fun dependency inside =>
      sound.readDependency_ok published inside⟩
  · exact of_.parent.trans named
  · have present := published.document
    show readObject files release.manifest.document.object = _
    rw [sound.document] at present ⊢
    exact PreparedRelease.readObject_identity present short

/-- The limits stay kept when a fitting release is added. -/
theorem Archive.WithinLimits.cons {release : PreparedRelease} (limits : Archive.WithinLimits published)
    (distinct : ((release :: published).map PreparedRelease.releaseId).Nodup)
    (room : published.length < maxReleaseCatalogEntries) (within : release.WithinLimit)
    (lineage : ∀ parentId ∈ release.manifest.parentReleaseId,
      lineageLength (manifests published) parentId < maxReleaseLineageDepth) :
    Archive.WithinLimits (release :: published) where
  few := room
  documents := List.forall_mem_cons.mpr ⟨within, limits.documents⟩
  lineages := by
    refine List.forall_mem_cons.mpr ⟨?_, fun known member => ?_⟩
    · rw [show lineageLength (manifests (release :: published)) release.releaseId =
        release.manifest.parentReleaseId.elim 0 (lineageLength (manifests published)) + 1 from
          lineageLength_newest ..]
      cases is : release.manifest.parentReleaseId with
      | none =>
        show 0 + 1 ≤ maxReleaseLineageDepth
        decide
      | some parentId => exact lineage parentId is
    · have other : release.manifest.releaseId ≠ known.releaseId := fun same =>
        (List.nodup_cons.mp distinct).1 (List.mem_map.mpr ⟨known, member, same.symm⟩)
      rw [show lineageLength (manifests (release :: published)) known.releaseId =
        lineageLength (manifests published) known.releaseId from lineageLength_older other]
      exact limits.lineages known member

theorem manifests_made {created : List (Creation S)} (made : List.Forall₂ Made created published) :
    manifests published = created.map Creation.manifest := by
  induction made with
  | nil => rfl
  | cons here _ ih => exact congrArg₂ List.cons here.1 ih

theorem made_of_mem {created : List (Creation S)} (made : List.Forall₂ Made created published)
    {creation : Creation S} (member : creation ∈ created) :
    ∃ release ∈ published, Made creation release := by
  induction made with
  | nil => cases member
  | cons here _ ih =>
    rcases List.mem_cons.mp member with rfl | member
    · exact ⟨_, List.mem_cons_self .., here⟩
    · obtain ⟨release, among, is⟩ := ih member
      exact ⟨release, List.mem_cons_of_mem _ among, is⟩

/-- An empty repository. -/
theorem archive_empty : Archive ∅ [] fun _ => False := by
  refine ⟨nofun, nofun, nofun, List.nodup_nil, trivial, ?_⟩
  intro path content found
  rw [Std.ExtTreeMap.getElem?_empty] at found
  cases found

/-- What a run of fitting creations leaves. -/
theorem FittingRun.archive {created : List (Creation S)} (run : FittingRun files created)
    (back : ∀ creation ∈ created,
      ReleaseJson.manifest (ReleaseJson.manifestText creation.manifest) = some creation.manifest) :
    ∃ published, List.Forall₂ Made created published ∧ Archive files published (fun _ => False) ∧
      Archive.WithinLimits published := by
  induction run with
  | empty => exact ⟨[], .nil, archive_empty, ⟨Nat.zero_le _, nofun, nofun⟩⟩
  | refused run call ih =>
    obtain ⟨published, made, archive, limits⟩ := ih back
    exact ⟨published, made, create_archive archive call, limits⟩
  | @created files after created parent request manifest run call fits ih =>
    obtain ⟨here, earlier⟩ := List.forall_mem_cons.mp back
    obtain ⟨published, made, archive, limits⟩ := ih earlier
    obtain ⟨release, from_, rfl, of_, named, grown⟩ := create_archive archive call
    have grown := grown here
    refine ⟨release :: published, .cons ⟨rfl, fits.document, from_, of_, named⟩ made, grown,
      limits.cons grown.distinct ?_ (fits.document _ of_.saved).1 ?_⟩
    · rw [← made.length_eq]
      exact fits.room
    · intro parentId is
      rw [of_.parent, named] at is
      rw [manifests_made made]
      exact fits.lineage parentId is

end Steps

end Sequences

/-! ### A document of zeros -/

/-- How many zeros a document is, and the SHA-256 of it, of its file and of its release. -/
structure Zeros where
  count : Nat
  documentSum : Bytes
  fileSum : Bytes
  releaseSum : Bytes
  sized : documentSum.length = 32 ∧ fileSum.length = 32 ∧ releaseSum.length = 32
  fits : count ≤ u64Max

namespace Zeros

variable (zeros : Zeros)

def document : Bytes := List.replicate zeros.count 0

def quietAudit : ReleaseAudit := ⟨"tester", 1, ""⟩

def digest : String := "0123456789abcdef"

/-- The native container of the document alone. -/
def file : Bytes :=
  containerMagic ++ u16Form (if entryLimitOf020 < zeros.count then largeContainerSchema
    else containerSchema) ++ u32Form 1 ++ u32Form 12 ++ utf8 documentEntry ++ boolForm true ++
    u64Form zeros.count ++ zeros.documentSum ++ zeros.document

def manifest : ReleaseManifest where
  schema := releaseSchemaV1
  releaseId := hexDigits zeros.releaseSum
  parentReleaseId := none
  document := ⟨1, 1, digest, millimetres, ⟨hexDigits zeros.fileSum, zeros.count + 73⟩⟩
  dependencies := []
  audit := quietAudit

def payloadText : Bytes :=
  utf8 "\x7b" ++ utf8 ("\"schema\":\"ketchup.local-pdm.release.v1\",\"parent_release_id\":null," ++
    "\"document\":\x7b\"document_id\":1,\"revision\":1," ++
    "\"canonical_digest\":\"0123456789abcdef\",\"units\":\"millimetres\"," ++
    "\"object\":\x7b\"sha256\":\"" ++ hexDigits zeros.fileSum ++ "\",\"byte_len\":" ++
    toString (zeros.count + 73) ++ "\x7d\x7d,\"dependencies\":[]," ++
    "\"audit\":\x7b\"actor\":\"tester\",\"created_unix_ms\":1,\"note\":\"\"\x7d\x7d")

def manifestText : Bytes :=
  utf8 ("\x7b\n  \"schema\": \"ketchup.local-pdm.release.v1\",\n  \"release_id\": \"" ++
    hexDigits zeros.releaseSum ++ "\",\n  \"parent_release_id\": null,\n  \"document\": \x7b\n" ++
    "    \"document_id\": 1,\n    \"revision\": 1,\n" ++
    "    \"canonical_digest\": \"0123456789abcdef\",\n    \"units\": \"millimetres\",\n" ++
    "    \"object\": \x7b\n      \"sha256\": \"" ++ hexDigits zeros.fileSum ++
    "\",\n      \"byte_len\": " ++ toString (zeros.count + 73) ++ "\n    \x7d\n  \x7d,\n" ++
    "  \"dependencies\": [],\n  \"audit\": \x7b\n    \"actor\": \"tester\",\n" ++
    "    \"created_unix_ms\": 1,\n    \"note\": \"\"\n  \x7d\n\x7d")

/-- SHA-256 of the three texts. -/
def sum (bytes : Bytes) : Bytes :=
  if bytes = zeros.document then zeros.documentSum
  else if bytes = zeros.payloadText then zeros.releaseSum
  else zeros.fileSum

@[reducible] def sha256 : Sha256Sum where
  hex bytes := hexDigits (zeros.sum bytes)
  sum := zeros.sum
  sum_length bytes := by
    obtain ⟨document, file, release⟩ := zeros.sized
    unfold sum
    split
    · exact document
    · split
      · exact release
      · exact file
  hex_eq _ := rfl

@[reducible] def json : ReleaseJson where
  payloadText _ := zeros.payloadText
  manifestText _ := zeros.manifestText
  manifest bytes := if bytes = zeros.manifestText then some zeros.manifest else none

/-- Snapshots of zeros, by how many they are. -/
@[reducible] def codec : DocumentCodec Nat where
  documentId _ := 1
  revisionId _ := 1
  canonicalDigest _ := digest
  encodedSnapshot count := List.replicate count 0
  importedSourceBlobHashes _ := ∅
  loadDocument bytes := .ok ⟨bytes.length, digest⟩
  decodeRuleProgram _ := .ok ()

theorem file_length : zeros.file.length = zeros.count + 73 := by
  obtain ⟨document, _, _⟩ := zeros.sized
  have magic : containerMagic.length = 10 := by decide
  have entry : (utf8 documentEntry).length = 12 := by decide
  simp only [file, List.length_append, magic, entry, document, Zeros.document, List.length_replicate,
    u16Form, u32Form, u64Form, boolForm, littleEndian_length, List.length_singleton]
  omega

theorem file_head : zeros.file.head? = some 0x4b := by
  simp only [file, List.append_assoc]
  rfl

theorem payloadText_head : zeros.payloadText.head? = some 0x7b := rfl

theorem sum_document : zeros.sum zeros.document = zeros.documentSum := if_pos rfl

theorem sum_payloadText : zeros.sum zeros.payloadText = zeros.releaseSum := by
  have other : zeros.payloadText ≠ zeros.document := fun same => by
    have head := payloadText_head zeros
    rw [same, document, List.head?_replicate] at head
    split at head
    · cases head
    · exact absurd (Option.some.inj head) (by decide)
  unfold sum
  rw [if_neg other, if_pos rfl]

theorem sum_file : zeros.sum zeros.file = zeros.fileSum := by
  have longer : zeros.file ≠ zeros.document := fun same => by
    have length := congrArg List.length same
    rw [file_length, document, List.length_replicate] at length
    omega
  have other : zeros.file ≠ zeros.payloadText := fun same => by
    have head := file_head zeros
    rw [same, payloadText_head] at head
    exact absurd (Option.some.inj head) (by decide)
  unfold sum
  rw [if_neg longer, if_neg other]

/-- SHA-256 and JSON as they are on these texts. -/
structure Known [Sha256Sum] [ReleaseJson] (zeros : Zeros) : Prop where
  document : Sha256Sum.sum zeros.document = zeros.documentSum
  file : Sha256Sum.sum zeros.file = zeros.fileSum
  release : Sha256Sum.sum zeros.payloadText = zeros.releaseSum
  payloadText : ReleaseJson.payloadText zeros.manifest.payload = zeros.payloadText
  manifestText : ReleaseJson.manifestText zeros.manifest = zeros.manifestText
  manifest : ReleaseJson.manifest zeros.manifestText = some zeros.manifest
  short : zeros.manifestText.length ≤ maxReleaseManifestBytes

section Created

variable {zeros} [Sha256Sum] [ReleaseJson]

attribute [local instance] codec

def request (count : Nat) : ReleaseRequest Nat := ⟨count, .empty, 1, digest, [], quietAudit⟩

theorem Known.saveContainer (known : Known zeros) :
    Ketchup.Pdm.saveContainer zeros.count .empty = .ok zeros.file := by
  have saved : savedEntries zeros.document .empty ∅ none none =
      .ok ((∅ : Entries).insert documentEntry (true, zeros.document)) := rfl
  have listed : ((∅ : Entries).insert documentEntry (true, zeros.document)).toList =
      [(documentEntry, true, zeros.document)] := rfl
  have fits : zeros.document.length ≤ u64Max := by
    rw [Zeros.document, List.length_replicate]
    exact zeros.fits
  have named : validateContainerPath documentEntry = .ok () := by decide
  have form : entryForm (documentEntry, true, zeros.document) =
      .ok (writtenEntry (documentEntry, true, zeros.document)) := entryForm_written fits named
  have count : ((∅ : Entries).insert documentEntry (true, zeros.document)).size = 1 := rfl
  have written : encodeContainer ((∅ : Entries).insert documentEntry (true, zeros.document)) =
      .ok zeros.file := by
    unfold encodeContainer
    rw [count, if_neg (by decide), listed, List.mapM_cons, form]
    have large : ([(documentEntry, true, zeros.document)].any fun entry =>
        decide (entryLimitOf020 < entry.2.2.length)) =
          decide (entryLimitOf020 < zeros.count) := by
      rw [List.any_cons, List.any_nil, Bool.or_false]
      simp only [Zeros.document, List.length_replicate]
    show Except.ok (containerMagic ++ u16Form (if ([(documentEntry, true, zeros.document)].any
      fun entry => decide (entryLimitOf020 < entry.2.2.length)) = true then _ else _) ++ u32Form 1 ++
        [writtenEntry (documentEntry, true, zeros.document)].flatten) = _
    have size : documentEntry.utf8ByteSize = 12 := by decide
    rw [large, List.flatten_singleton, writtenEntry, known.document, size]
    simp only [Zeros.file, Zeros.document, List.length_replicate, decide_eq_true_eq,
      List.append_assoc]
  show (savedEntries zeros.document .empty ∅ none none).bind encodeContainer = _
  rw [saved]
  exact written

theorem Known.prepareRelease (known : Known zeros) :
    Ketchup.Pdm.prepareRelease none (request zeros.count) =
      .ok ⟨zeros.manifest, zeros.file, []⟩ := by
  have object : identity zeros.file = ⟨hexDigits zeros.fileSum, zeros.count + 73⟩ := by
    unfold identity
    rw [Sha256Sum.hex_eq, known.file, file_length]
  have named : canonicalPayloadIdentity zeros.manifest.payload = hexDigits zeros.releaseSum := by
    unfold canonicalPayloadIdentity
    rw [known.payloadText, Sha256Sum.hex_eq, known.release]
  have made : ReleasePayload.manifest zeros.manifest.payload = zeros.manifest := by
    unfold ReleasePayload.manifest
    rw [named]
    rfl
  have short : ¬maxReleaseManifestBytes < (ReleaseJson.manifestText zeros.manifest).length := by
    rw [known.manifestText]
    exact Nat.not_lt.mpr known.short
  have current : refuseIf (DocumentCodec.revisionId (request zeros.count).snapshot ≠
        (request zeros.count).expectedRevision ∨
      DocumentCodec.canonicalDigest (request zeros.count).snapshot ≠
        (request zeros.count).expectedCanonicalDigest) LocalPdmError.staleSnapshot = .ok () :=
    refuseIf_ok.mpr fun either => either.elim (fun other => other rfl) fun other => other rfl
  have audited : validateAudit (request zeros.count).audit = .ok () :=
    show validateAudit quietAudit = .ok () by decide
  have few : refuseIf (maxReleaseDependencies < (request zeros.count).dependencies.length)
      LocalPdmError.tooManyDependencies = .ok () := refuseIf_ok.mpr (Nat.not_lt_zero _)
  have saved : Ketchup.Pdm.saveContainer (request zeros.count).snapshot
      (request zeros.count).containerData = .ok zeros.file := known.saveContainer
  have read : readReleaseDependencies (request zeros.count).dependencies maxReleaseDependencyBytes
      maxReleaseTotalDependencyBytes = .ok [] := by
    show Except.ok (List.mergeSort [] _) = _
    rw [List.mergeSort_nil]
  have payload : releasePayload none (request zeros.count) zeros.file [] = zeros.manifest.payload := by
    unfold releasePayload
    rw [object]
    rfl
  have changed : refuseIf (∃ manifest ∈ (none : Option ReleaseManifest),
      manifest.document.object = zeros.manifest.payload.document.object ∧
        manifest.dependencies = zeros.manifest.payload.dependencies)
      LocalPdmError.noChangesAgainstParent = .ok () := refuseIf_ok.mpr fun ⟨_, never, _⟩ => nomatch never
  unfold Ketchup.Pdm.prepareRelease
  rw [current, audited, few, saved, read]
  dsimp only [bind, Except.bind, Except.mapError]
  rw [payload, made, changed]
  dsimp only
  rw [refuseIf_ok.mpr short]
  rfl

/-- The release is created in an empty repository. -/
theorem Known.create (known : Known zeros) :
    ∃ files, Ketchup.Pdm.create ∅ none (request zeros.count) = (files, .ok zeros.manifest) := by
  have apart : (⟨zeros.manifest, zeros.file, []⟩ : PreparedRelease).manifestTarget.path ≠
      releaseObjectPath zeros.manifest.document.object.sha256 := fun same =>
    releaseObjectPath_apart _ (congrArg FilePath.directory same).symm
  show ∃ files, createReleaseInternal ∅ none (request zeros.count) = _
  unfold createReleaseInternal
  rw [known.prepareRelease]
  have targets : (⟨zeros.manifest, zeros.file, []⟩ : PreparedRelease).targets =
      [.object zeros.manifest.document.object zeros.file,
        .manifest zeros.manifest.releaseId (ReleaseJson.manifestText zeros.manifest)] := rfl
  have first : (∅ : Files)[releaseObjectPath zeros.manifest.document.object.sha256]? = none :=
    Std.ExtTreeMap.getElem?_empty
  have second : ((∅ : Files).insert (releaseObjectPath zeros.manifest.document.object.sha256)
      zeros.file)[releaseManifestPath zeros.manifest.releaseId]? = none := by
    rw [BTreeMap.getElem?_insert, if_neg fun same => apart same.symm]
    exact Std.ExtTreeMap.getElem?_empty
  dsimp only
  rw [targets]
  simp only [writeTargets, writeTarget, Target.path, Target.bytes, first, second]
  exact ⟨_, rfl⟩

end Created

end Zeros

/-- A document of one zero. -/
def light : Zeros where
  count := 1
  documentSum :=
    [0x6e, 0x34, 0x0b, 0x9c, 0xff, 0xb3, 0x7a, 0x98, 0x9c, 0xa5, 0x44, 0xe6, 0xbb, 0x78, 0x0a, 0x2c,
      0x78, 0x90, 0x1d, 0x3f, 0xb3, 0x37, 0x38, 0x76, 0x85, 0x11, 0xa3, 0x06, 0x17, 0xaf, 0xa0, 0x1d]
  fileSum :=
    [0xe1, 0xe9, 0x2d, 0xee, 0x2e, 0x8f, 0xc3, 0xe8, 0xd2, 0x4c, 0x54, 0x23, 0xa0, 0xc4, 0x6d, 0x04,
      0x36, 0x18, 0x1a, 0xde, 0x2a, 0xfe, 0x91, 0x15, 0x0b, 0x06, 0x18, 0x68, 0xcb, 0x7e, 0xa4, 0x0a]
  releaseSum :=
    [0x84, 0xea, 0xb2, 0x4c, 0xb8, 0xa5, 0xed, 0xcc, 0x4b, 0xae, 0xc5, 0x07, 0xd2, 0xb9, 0xd7, 0x43,
      0xb0, 0xaf, 0x11, 0x4b, 0x74, 0x9e, 0xcf, 0xc2, 0x15, 0x19, 0xd1, 0x8b, 0x32, 0x74, 0x70, 0xa7]
  sized := by decide
  fits := by decide

/-- A document of 256 MiB of zeros and one more. -/
def heavy : Zeros where
  count := 2 ^ 28 + 1
  documentSum :=
    [0xda, 0x6c, 0xe8, 0x75, 0x51, 0x51, 0xac, 0xd0, 0x51, 0x95, 0xdb, 0x67, 0xeb, 0xce, 0x3e, 0xe0,
      0xfb, 0x5f, 0x40, 0x12, 0xe7, 0x1e, 0x82, 0x1c, 0xc5, 0x75, 0x0f, 0x33, 0x04, 0xea, 0xf4, 0x1e]
  fileSum :=
    [0xb9, 0xa0, 0xaf, 0x48, 0x8a, 0xaf, 0x4e, 0x8d, 0xb0, 0x1f, 0xc3, 0xa9, 0x21, 0x46, 0x84, 0xa8,
      0x8a, 0x2b, 0x74, 0x6f, 0xfc, 0xcb, 0x4f, 0x9e, 0x04, 0xb4, 0xd8, 0x23, 0x17, 0x65, 0xd9, 0x92]
  releaseSum :=
    [0x24, 0x89, 0x8e, 0x90, 0x28, 0x83, 0x74, 0x58, 0x3c, 0x49, 0x02, 0x8d, 0xf9, 0x0a, 0x52, 0x1c,
      0x45, 0x60, 0xce, 0x73, 0x49, 0xf6, 0xd8, 0xad, 0xe8, 0x14, 0x83, 0x83, 0x59, 0xbd, 0x5c, 0xfe]
  sized := by decide
  fits := by decide

@[reducible] def lightSha256 : Sha256Sum := light.sha256
@[reducible] def lightJson : ReleaseJson := light.json
@[reducible] def heavySha256 : Sha256Sum := heavy.sha256
@[reducible] def heavyJson : ReleaseJson := heavy.json

section Light

attribute [local instance] lightSha256 lightJson Zeros.codec

theorem light_known : light.Known :=
  ⟨light.sum_document, light.sum_file, light.sum_payloadText, rfl, rfl, if_pos rfl, by decide +kernel⟩

theorem light_reloads : Reloads (Zeros.request 1) := by
  intro document saved
  have is : document = light.file :=
    (Except.ok.inj (light_known.saveContainer.symm.trans saved)).symm
  have loads : ((load light.file : Except _ (LoadOutcome Nat)).toOption.map fun loaded =>
      (loaded.document.snapshot, loaded.document.sourceCanonicalDigest)) = some (1, Zeros.digest) := by
    decide +kernel
  obtain ⟨loaded, isLoaded, same⟩ := Option.map_eq_some_iff.mp loads
  rw [is]
  exact ⟨by decide +kernel, loaded, ok_of_toOption isLoaded, rfl, rfl, congrArg Prod.snd same⟩

end Light

section Heavy

attribute [local instance] heavySha256 heavyJson Zeros.codec

theorem heavy_known : heavy.Known :=
  ⟨heavy.sum_document, heavy.sum_file, heavy.sum_payloadText, rfl, rfl, if_pos rfl, by decide +kernel⟩

end Heavy

end Ketchup.Pdm
