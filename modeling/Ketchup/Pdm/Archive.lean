/-
**What published releases are read back as.**

`Archive` is what holds of a repository whatever its creators do: every release that is published was
prepared, has all its files, and came after its parent. `Archive.opens_iff` and `Archive.catalog_iff`
say exactly when a release opens and the catalog is listed: the limits in them are the reader's own.
-/

import Ketchup.Pdm.Prepared

set_option linter.unusedSectionVars false

namespace Ketchup.Pdm

open Ketchup.Persistence

section Archives

variable [Sha256Sum] [ReleaseJson]

/-! ### One release -/

namespace PreparedRelease

/-- The text of the manifest is read as the manifest. -/
def ReadsBack (release : PreparedRelease) : Prop :=
  ReleaseJson.manifest (ReleaseJson.manifestText release.manifest) = some release.manifest

/-- All files of the release are there. -/
def Published (files : Files) (release : PreparedRelease) : Prop :=
  ∀ target ∈ release.targets, files[target.path]? = some target.bytes

/-- The document is within what a reader takes. -/
def WithinLimit (release : PreparedRelease) : Prop :=
  release.document.length ≤ maxReleaseDependencyBytes

instance (release : PreparedRelease) : Decidable release.WithinLimit :=
  inferInstanceAs (Decidable (_ ≤ _))

def documentId (release : PreparedRelease) : Nat := release.manifest.document.documentId

section Reading

variable {release : PreparedRelease} {files : Files}

theorem Published.manifest (published : release.Published files) :
    files[releaseManifestPath release.releaseId]? =
      some (ReleaseJson.manifestText release.manifest) :=
  published release.manifestTarget (List.mem_append_right _ (List.mem_singleton.mpr rfl))

theorem Published.document (published : release.Published files) :
    files[releaseObjectPath release.manifest.document.object.sha256]? = some release.document :=
  published (.object release.manifest.document.object release.document)
    (List.mem_append_left _ (List.mem_cons_self ..))

theorem Published.dependency (published : release.Published files)
    {dependency : ReleasedDependency × Bytes} (member : dependency ∈ release.dependencies) :
    files[releaseObjectPath dependency.1.object.sha256]? = some dependency.2 :=
  published (.object dependency.1.object dependency.2) (List.mem_append_left _
    (List.mem_cons_of_mem _ (List.mem_map_of_mem member)))

/-- The manifest is read, and then checked. -/
theorem Sound.readManifest_eq (sound : release.Sound) (back : release.ReadsBack)
    (published : release.Published files) :
    readManifest files release.releaseId =
      (validateManifest release.manifest release.releaseId).map fun () => release.manifest := by
  unfold readManifest readBoundedRepositoryFile
  rw [sound.validateSha256_releaseId, published.manifest]
  dsimp only [bind, Except.bind]
  rw [if_neg (Nat.not_lt.mpr sound.short)]
  dsimp only
  rw [show ReleaseJson.manifest (ReleaseJson.manifestText release.manifest) = some release.manifest
    from back]
  show (validateManifest release.manifest release.releaseId).bind _ = _
  cases validateManifest release.manifest release.releaseId <;> rfl

theorem readObject_identity {bytes : Bytes}
    (present : files[releaseObjectPath (identity bytes).sha256]? = some bytes)
    (short : bytes.length ≤ maxReleaseDependencyBytes) :
    readObject files (identity bytes) = .ok bytes := by
  unfold readObject readBoundedRepositoryFile
  rw [(Sound.validateObjectIdentity_iff bytes).mpr short, present]
  dsimp only [bind, Except.bind]
  rw [if_neg (Nat.not_lt.mpr short)]
  dsimp only
  rw [refuseIf_ok.mpr (not_not.mpr rfl)]
  rfl

/-- A dependency is within the limit of a release. -/
theorem Sound.dependency_short (sound : release.Sound) {dependency : ReleasedDependency × Bytes}
    (member : dependency ∈ release.dependencies) :
    dependency.2.length ≤ maxReleaseDependencyBytes :=
  (le_dependencyBytes member).trans sound.dependencies.within

theorem Sound.readDependency_ok (sound : release.Sound) (published : release.Published files)
    {dependency : ReleasedDependency × Bytes} (member : dependency ∈ release.dependencies) :
    readObject files dependency.1.object = .ok dependency.2 := by
  have object := (sound.dependencies.each dependency member).object
  have present := published.dependency member
  rw [object] at present ⊢
  exact readObject_identity present (sound.dependency_short member)

/-- The objects of the dependencies, by their paths. -/
def dependencyObjects (release : PreparedRelease) : BTreeMap String ReleaseObjectIdentity :=
  release.manifest.dependencies.foldl
    (fun objects dependency => objects.insert dependency.logicalPath dependency.object) ∅

theorem foldlM_readDependency {dependencies : List ReleasedDependency}
    {objects : BTreeMap String ReleaseObjectIdentity}
    (each : ∀ dependency ∈ dependencies, ∃ bytes, readObject files dependency.object = .ok bytes) :
    dependencies.foldlM (readDependency files) objects = .ok (dependencies.foldl
      (fun objects dependency => objects.insert dependency.logicalPath dependency.object) objects) := by
  induction dependencies generalizing objects with
  | nil => rfl
  | cons dependency rest ih =>
    obtain ⟨bytes, here⟩ := each dependency (List.mem_cons_self ..)
    have step : readDependency files objects dependency =
        .ok (objects.insert dependency.logicalPath dependency.object) := by
      unfold readDependency
      rw [here]
      rfl
    rw [List.foldlM_cons, step]
    exact ih fun other member => each other (List.mem_cons_of_mem _ member)

variable {S : Type} [DocumentCodec S]

/-- The document of a release is loaded as one of the same identity. -/
structure LoadsAs (release : PreparedRelease) (loaded : LoadOutcome S) : Prop where
  loads : load release.document = .ok loaded
  documentId : DocumentCodec.documentId loaded.document.snapshot = release.documentId
  revision : DocumentCodec.revisionId loaded.document.snapshot = release.manifest.document.revision
  digest : loaded.document.sourceCanonicalDigest = release.manifest.document.canonicalDigest

/-- What a release opens as. -/
def verified (release : PreparedRelease) (loaded : LoadOutcome S) : VerifiedRelease S :=
  ⟨release.manifest, loaded.document.snapshot, loaded.containerData, release.dependencyObjects⟩

/-- **A published release opens exactly when** its document is within the limit and is loaded again;
it then opens as what was published. -/
theorem Sound.openRelease_iff (sound : release.Sound) (back : release.ReadsBack)
    (published : release.Published files)
    (parent : validateParent release.manifest.parentReleaseId release.releaseId = .ok ())
    (opened : VerifiedRelease S) :
    openRelease files release.releaseId = .ok opened ↔
      release.WithinLimit ∧ ∃ loaded, release.LoadsAs loaded ∧ opened = release.verified loaded := by
  have present := published.document
  rw [sound.document] at present
  have dependencies : release.manifest.dependencies.foldlM (readDependency files) ∅ =
      .ok release.dependencyObjects := by
    refine foldlM_readDependency fun dependency member => ?_
    rw [sound.named] at member
    obtain ⟨held, inside, rfl⟩ := List.mem_map.mp member
    exact ⟨_, sound.readDependency_ok published inside⟩
  unfold openRelease
  rw [sound.readManifest_eq back published]
  have limit := sound.validateManifest_iff parent
  cases valid : validateManifest release.manifest release.releaseId with
  | error error =>
    rw [valid] at limit
    exact ⟨nofun, fun both => nomatch limit.mpr both.1⟩
  | ok =>
    have within : release.WithinLimit := limit.mp valid
    dsimp only [Except.map, bind, Except.bind]
    rw [sound.document, readObject_identity present within]
    dsimp only
    cases outcome : (load release.document : Except _ (LoadOutcome S)) with
    | error error =>
      refine ⟨nofun, fun both => ?_⟩
      obtain ⟨_, loaded, as_, _⟩ := both
      rw [as_.loads] at outcome
      cases outcome
    | ok loaded =>
      dsimp only [Except.mapError]
      by_cases other : DocumentCodec.documentId loaded.document.snapshot ≠
            release.manifest.document.documentId ∨
          DocumentCodec.revisionId loaded.document.snapshot ≠ release.manifest.document.revision ∨
          loaded.document.sourceCanonicalDigest ≠ release.manifest.document.canonicalDigest ∨
          release.manifest.document.units ≠ millimetres
      · unfold refuseIf
        rw [if_pos other]
        refine ⟨nofun, fun both => ?_⟩
        obtain ⟨_, again, as_, _⟩ := both
        obtain rfl : loaded = again := Except.ok.inj (outcome.symm.trans as_.loads)
        rcases other with other | other | other | other
        · exact absurd as_.documentId other
        · exact absurd as_.revision other
        · exact absurd as_.digest other
        · exact absurd sound.units other
      · rw [refuseIf_ok.mpr other]
        dsimp only
        rw [dependencies]
        obtain ⟨id_, revision, digest, _⟩ := by
          simpa only [ne_eq, not_or, not_not] using other
        constructor
        · intro same
          exact ⟨within, loaded, ⟨outcome, id_, revision, digest⟩, (Except.ok.inj same).symm⟩
        · rintro ⟨_, again, as_, rfl⟩
          obtain rfl : loaded = again := Except.ok.inj (outcome.symm.trans as_.loads)
          rfl

end Reading

end PreparedRelease

/-! ### Lineage -/

/-- Each of the releases, newest first, comes after a parent of the same document, if it has one. -/
def Descends : List PreparedRelease → Prop
  | [] => True
  | newest :: older =>
    (∀ parentId ∈ newest.manifest.parentReleaseId, ∃ parent ∈ older,
      parent.releaseId = parentId ∧ parent.documentId = newest.documentId) ∧ Descends older

/-- How many releases a lineage has, of releases newest first: a release, its parent, and so on. -/
def lineageLength : List ReleaseManifest → String → Nat
  | [], _ => 0
  | newest :: older, releaseId =>
    if newest.releaseId = releaseId then newest.parentReleaseId.elim 0 (lineageLength older) + 1
    else lineageLength older releaseId

theorem lineageLength_newest (newest : ReleaseManifest) (older : List ReleaseManifest) :
    lineageLength (newest :: older) newest.releaseId =
      newest.parentReleaseId.elim 0 (lineageLength older) + 1 := if_pos rfl

theorem lineageLength_older {newest : ReleaseManifest} {older : List ReleaseManifest}
    {releaseId : String} (other : newest.releaseId ≠ releaseId) :
    lineageLength (newest :: older) releaseId = lineageLength older releaseId := if_neg other

/-- The manifests of releases. -/
def manifests (published : List PreparedRelease) : List ReleaseManifest :=
  published.map PreparedRelease.manifest

/-- **A walk to the root passes exactly when** the lineage is no longer than what is left to see. -/
theorem checkLineage_iff {byId : BTreeMap String ReleaseCatalogEntry} {documentId remaining : Nat}
    {seen : BTreeSet String} {published : List PreparedRelease} {release : PreparedRelease}
    (descends : Descends published) (distinct : (published.map PreparedRelease.releaseId).Nodup)
    (known : ∀ release ∈ published, byId[release.releaseId]? = some release.manifest.catalogEntry)
    (member : release ∈ published) (same : release.documentId = documentId)
    (unseen : ∀ release ∈ published, release.releaseId ∉ seen) :
    checkLineage byId documentId remaining seen release.manifest.catalogEntry = .ok () ↔
      lineageLength (manifests published) release.releaseId ≤ remaining := by
  induction published generalizing remaining seen release with
  | nil => cases member
  | cons newest older ih =>
    obtain ⟨parents, descends⟩ := descends
    obtain ⟨apart, distinctOlder⟩ := List.nodup_cons.mp distinct
    have knownOlder := fun other inside => known other (List.mem_cons_of_mem _ inside)
    rcases List.mem_cons.mp member with rfl | member
    · rw [show lineageLength (manifests (release :: older)) release.releaseId =
        release.manifest.parentReleaseId.elim 0 (lineageLength (manifests older)) + 1 from
          lineageLength_newest ..]
      cases remaining with
      | zero => exact ⟨nofun, nofun⟩
      | succ remaining =>
        have here : release.manifest.catalogEntry.releaseId ∉ seen :=
          unseen release (List.mem_cons_self ..)
        unfold checkLineage
        rw [if_neg here]
        rw [show release.manifest.catalogEntry.parentReleaseId = release.manifest.parentReleaseId
          from rfl]
        cases isParent : release.manifest.parentReleaseId with
        | none => exact iff_of_true rfl (Nat.succ_le_succ (Nat.zero_le _))
        | some parentId =>
          obtain ⟨parent, inside, rfl, document⟩ := parents parentId isParent
          dsimp only
          rw [knownOlder parent inside]
          dsimp only
          have agrees : ¬parent.manifest.catalogEntry.documentId ≠ documentId :=
            not_not.mpr (document.trans same)
          rw [if_neg agrees, ih descends distinctOlder knownOlder inside (document.trans same)]
          · exact Nat.succ_le_succ_iff.symm
          · intro other among again
            rcases BTreeSet.mem_insert.mp again with equal | earlier
            · exact apart (List.mem_map.mpr ⟨other, among, equal.symm⟩)
            · exact unseen other (List.mem_cons_of_mem _ among) earlier
    · have other : newest.releaseId ≠ release.releaseId := fun equal =>
        apart (List.mem_map.mpr ⟨release, member, equal.symm⟩)
      rw [show lineageLength (manifests (newest :: older)) release.releaseId =
        lineageLength (manifests older) release.releaseId from lineageLength_older other]
      exact ih descends distinctOlder knownOlder member same fun other among =>
        unseen other (List.mem_cons_of_mem _ among)

/-! ### Names in the releases directory -/

/-- What `tempfile` calls a file that is not published yet. -/
def IsTemporaryName (name : String) : Prop :=
  ∃ random : List Char, random.length = 6 ∧ random.all Char.isAlphanum ∧
    name = ".tmp" ++ String.ofList random

theorem validateSha256_ok {value : String} (ok : validateSha256 value = .ok ()) :
    value ≠ "" ∧ ∀ mark ∈ value.toList, isHexDigit mark = true := by
  obtain ⟨sized, digits⟩ := not_or.mp (refuseIf_ok.mp ok)
  refine ⟨?_, List.all_eq_true.mp (not_not.mp digits)⟩
  rintro rfl
  exact sized (by decide)

/-- A SHA-256 starts with a digit, and a temporary file does not. -/
theorem not_temporary {value ending : String} (valid : validateSha256 value = .ok ()) :
    ¬IsTemporaryName (value ++ ending) := by
  rintro ⟨random, _, _, whole⟩
  obtain ⟨some_, digits⟩ := validateSha256_ok valid
  have whole := congrArg String.toList whole
  rw [String.toList_append, String.toList_append] at whole
  cases marks : value.toList with
  | nil => exact absurd (String.toList_injective marks) some_
  | cons mark rest =>
    rw [marks] at whole
    have isDot : mark = '.' := (List.cons.inj whole).1
    have digit := digits mark (marks ▸ List.mem_cons_self ..)
    rw [isDot] at digit
    cases digit

/-- **The catalog takes no temporary file** for a release. -/
theorem addReleaseId_temporary {name : String} (temporary : IsTemporaryName name)
    (releaseIds : List String) : ∃ error, addReleaseId releaseIds name = .error error := by
  cases outcome : addReleaseId releaseIds name with
  | error error => exact ⟨error, rfl⟩
  | ok after =>
    obtain ⟨_, _, ok⟩ := bind_ok outcome
    obtain ⟨releaseId, stripped, ok⟩ := bind_ok ok
    obtain ⟨_, valid, _⟩ := bind_ok ok
    have strips : stripSuffix ".json" name = some releaseId := by
      cases found : stripSuffix ".json" name with
      | none =>
        rw [found] at stripped
        cases stripped
      | some rest =>
        rw [found] at stripped
        exact congrArg some (Except.ok.inj stripped)
    rw [stripSuffix_eq_some strips] at temporary
    exact absurd temporary (not_temporary valid)

/-- The names of releases, each with its ending, are taken as far as there is room. -/
theorem foldlM_addReleaseId {ids before : List String}
    (valid : ∀ id ∈ ids, validateSha256 id = .ok ())
    (room : before.length ≤ maxReleaseCatalogEntries) :
    (ids.map (· ++ ".json")).foldlM addReleaseId before =
      if before.length + ids.length ≤ maxReleaseCatalogEntries then .ok (before ++ ids)
      else .error .tooManyReleases := by
  induction ids generalizing before with
  | nil =>
    have fits : before.length + ([] : List String).length ≤ maxReleaseCatalogEntries := room
    rw [if_pos fits, List.append_nil]
    rfl
  | cons id rest ih =>
    rw [List.map_cons, List.foldlM_cons]
    by_cases full : before.length = maxReleaseCatalogEntries
    · have refused : addReleaseId before (id ++ ".json") = .error .tooManyReleases := by
        unfold addReleaseId refuseIf
        rw [if_pos full]
        rfl
      rw [refused, if_neg (by rw [List.length_cons]; omega)]
      rfl
    · have taken : addReleaseId before (id ++ ".json") = .ok (before ++ [id]) := by
        unfold addReleaseId
        rw [refuseIf_ok.mpr full, stripSuffix_append]
        dsimp only [Option.elim, bind, Except.bind]
        rw [valid id (List.mem_cons_self ..)]
        rfl
      rw [taken]
      show (rest.map _).foldlM addReleaseId _ = _
      have longer : (before ++ [id]).length = before.length + 1 := by simp
      rw [ih (fun other member => valid other (List.mem_cons_of_mem _ member)) (by omega), longer,
        List.length_cons, List.append_assoc, List.singleton_append, Nat.add_assoc,
        Nat.add_comm 1 rest.length]

/-! ### Archives -/

/-- **What holds of a repository**: its published releases, newest first, and which of the files in
the releases directory are none of theirs. -/
structure Archive (files : Files) (published : List PreparedRelease) (others : FilePath → Prop) :
    Prop where
  sound : ∀ release ∈ published, release.Sound
  back : ∀ release ∈ published, release.ReadsBack
  present : ∀ release ∈ published, release.Published files
  distinct : (published.map PreparedRelease.releaseId).Nodup
  descends : Descends published
  listed : ∀ path content, files[path]? = some content → path.directory = releasesDirectory →
    (∃ release ∈ published, path = releaseManifestPath release.releaseId) ∨ others path

namespace Archive

variable {files : Files} {published : List PreparedRelease} {others : FilePath → Prop}

theorem parent_published (descends : Descends published) {release : PreparedRelease}
    (member : release ∈ published) (distinct : (published.map PreparedRelease.releaseId).Nodup)
    {parentId : String} (is : release.manifest.parentReleaseId = some parentId) :
    ∃ parent ∈ published, parent.releaseId = parentId ∧ parentId ≠ release.releaseId := by
  induction published with
  | nil => cases member
  | cons newest older ih =>
    obtain ⟨parents, descends⟩ := descends
    obtain ⟨apart, distinctOlder⟩ := List.nodup_cons.mp distinct
    rcases List.mem_cons.mp member with rfl | member
    · obtain ⟨parent, inside, rfl, _⟩ := parents parentId is
      exact ⟨parent, List.mem_cons_of_mem _ inside, rfl, fun same =>
        apart (List.mem_map.mpr ⟨parent, inside, same⟩)⟩
    · obtain ⟨parent, inside, named, other⟩ := ih descends member distinctOlder
      exact ⟨parent, List.mem_cons_of_mem _ inside, named, other⟩

theorem validateParent_ok (archive : Archive files published others) {release : PreparedRelease}
    (member : release ∈ published) :
    validateParent release.manifest.parentReleaseId release.releaseId = .ok () := by
  cases is : release.manifest.parentReleaseId with
  | none => rfl
  | some parentId =>
    obtain ⟨parent, inside, rfl, other⟩ :=
      parent_published archive.descends member archive.distinct is
    unfold validateParent
    dsimp only
    rw [(archive.sound parent inside).validateSha256_releaseId]
    exact refuseIf_ok.mpr other

/-- **A published release opens exactly when** its document is within the limit and is loaded as one
of the same identity, and opens as what was published. -/
theorem opens_iff {S : Type} [DocumentCodec S] (archive : Archive files published others)
    {release : PreparedRelease} (member : release ∈ published) (opened : VerifiedRelease S) :
    openRelease files release.releaseId = .ok opened ↔
      release.WithinLimit ∧ ∃ loaded, release.LoadsAs loaded ∧ opened = release.verified loaded :=
  (archive.sound release member).openRelease_iff (archive.back release member)
    (archive.present release member) (archive.validateParent_ok member) opened

theorem readManifest_iff (archive : Archive files published others) {release : PreparedRelease}
    (member : release ∈ published) :
    (∃ manifest, readManifest files release.releaseId = .ok manifest) ↔ release.WithinLimit := by
  have limit := (archive.sound release member).validateManifest_iff (archive.validateParent_ok member)
  rw [(archive.sound release member).readManifest_eq (archive.back release member)
    (archive.present release member), show release.WithinLimit ↔ _ from limit.symm]
  cases validateManifest release.manifest release.releaseId with
  | error error => exact ⟨nofun, nofun⟩
  | ok => exact iff_of_true ⟨_, rfl⟩ rfl

theorem readManifest_ok (archive : Archive files published others) {release : PreparedRelease}
    (member : release ∈ published) (within : release.WithinLimit) :
    readManifest files release.releaseId = .ok release.manifest := by
  have limit := (archive.sound release member).validateManifest_iff (archive.validateParent_ok member)
  rw [(archive.sound release member).readManifest_eq (archive.back release member)
    (archive.present release member), limit.mpr within]
  rfl

/-! ### The catalog of an archive -/

/-- What the limits of the catalog are on. -/
structure WithinLimits (published : List PreparedRelease) : Prop where
  few : published.length ≤ maxReleaseCatalogEntries
  documents : ∀ release ∈ published, release.WithinLimit
  lineages : ∀ release ∈ published,
    lineageLength (manifests published) release.releaseId ≤ maxReleaseLineageDepth

theorem mem_namesIn {directory name : String} :
    name ∈ namesIn files directory ↔ ∃ content, files[(⟨directory, name⟩ : FilePath)]? = some content := by
  unfold namesIn
  rw [List.mem_map]
  constructor
  · rintro ⟨path, member, rfl⟩
    obtain ⟨held, is⟩ := List.mem_filter.mp member
    rw [Std.ExtTreeMap.mem_keys, Std.ExtTreeMap.mem_iff_isSome_getElem?] at held
    obtain ⟨content, found⟩ := Option.isSome_iff_exists.mp held
    refine ⟨content, ?_⟩
    rw [← of_decide_eq_true is]
    exact found
  · rintro ⟨content, found⟩
    exact ⟨⟨directory, name⟩, List.mem_filter.mpr
      ⟨BTreeMap.mem_keys_of_getElem? found, decide_eq_true rfl⟩, rfl⟩

theorem namesIn_nodup (directory : String) : (namesIn files directory).Nodup := by
  unfold namesIn
  have distinct : files.keys.Nodup := files.distinct_keys.imp fun different same =>
    different (Std.LawfulEqCmp.compare_eq_iff_eq.mpr same)
  refine List.Nodup.map_on ?_ (distinct.filter _)
  intro first member second other same
  have one : first.directory = directory := of_decide_eq_true (List.mem_filter.mp member).2
  have two : second.directory = directory := of_decide_eq_true (List.mem_filter.mp other).2
  exact congrArg₂ FilePath.mk (one.trans two.symm) same

/-- Without other files the releases directory holds the manifests. -/
theorem namesIn_releases (archive : Archive files published others) (alone : ∀ path, ¬others path) :
    (namesIn files releasesDirectory).Perm
      ((published.map PreparedRelease.releaseId).map (· ++ ".json")) := by
  have injective : Function.Injective fun id : String => id ++ ".json" := fun first second same =>
    (String.append_left_inj ".json").mp same
  refine (List.perm_ext_iff_of_nodup (namesIn_nodup _) (archive.distinct.map injective)).mpr
    fun name => ?_
  rw [mem_namesIn, List.map_map, List.mem_map]
  constructor
  · rintro ⟨content, found⟩
    obtain ⟨release, member, same⟩ := (archive.listed _ content found rfl).resolve_right (alone _)
    exact ⟨release, member, (congrArg FilePath.name same).symm⟩
  · rintro ⟨release, member, rfl⟩
    exact ⟨_, (archive.present release member).manifest⟩

theorem catalogById_entry {catalog : List ReleaseCatalogEntry}
    (distinct : (catalog.map ReleaseCatalogEntry.releaseId).Nodup) {entry : ReleaseCatalogEntry}
    (member : entry ∈ catalog) : (catalogById catalog)[entry.releaseId]? = some entry := by
  have fresh : ∀ next ∈ catalog,
      (∅ : BTreeMap String ReleaseCatalogEntry)[next.releaseId]? = none :=
    fun _ _ => Std.ExtTreeMap.getElem?_empty
  have held := BTreeMap.toList_foldl_insert_fresh
    (fun entry : ReleaseCatalogEntry => (entry.releaseId, entry)) distinct fresh
  rw [BTreeMap.toList_empty, List.append_nil] at held
  exact Std.ExtTreeMap.mem_toList_iff_getElem?_eq_some.mp
    (held.mem_iff.mpr (List.mem_map.mpr ⟨entry, member, rfl⟩))

/-- The lineages pass together exactly when each is within its limit. -/
theorem validateCatalogLineage_iff (archive : Archive files published others)
    {listed : List PreparedRelease} (permuted : listed.Perm published) :
    validateCatalogLineage (listed.map fun release => release.manifest.catalogEntry) = .ok () ↔
      ∀ release ∈ published,
        lineageLength (manifests published) release.releaseId ≤ maxReleaseLineageDepth := by
  have distinct : ((listed.map fun release => release.manifest.catalogEntry).map
      ReleaseCatalogEntry.releaseId).Nodup := by
    rw [List.map_map]
    exact (permuted.map PreparedRelease.releaseId).nodup_iff.mpr archive.distinct
  have known : ∀ release ∈ published,
      (catalogById (listed.map fun release => release.manifest.catalogEntry))[release.releaseId]? =
        some release.manifest.catalogEntry := fun release member =>
    catalogById_entry distinct (List.mem_map.mpr ⟨release, permuted.mem_iff.mpr member, rfl⟩)
  have each : ∀ release ∈ published, checkLineage
      (catalogById (listed.map fun release => release.manifest.catalogEntry))
      release.manifest.catalogEntry.documentId maxReleaseLineageDepth ∅
      release.manifest.catalogEntry = .ok () ↔
        lineageLength (manifests published) release.releaseId ≤ maxReleaseLineageDepth := fun release member =>
    checkLineage_iff archive.descends archive.distinct known member rfl
      fun _ _ => Std.ExtTreeSet.not_mem_empty
  unfold validateCatalogLineage
  rw [forM_ok_iff]
  constructor
  · intro all release member
    exact (each release member).mp
      (all _ (List.mem_map.mpr ⟨release, permuted.mem_iff.mpr member, rfl⟩))
  · intro all entry member
    obtain ⟨release, inside, rfl⟩ := List.mem_map.mp member
    have inside := permuted.mem_iff.mp inside
    exact (each release inside).mpr (all release inside)

/-- The catalog of an archive that holds nothing but its releases. -/
theorem releaseCatalog_eq (archive : Archive files published others) (alone : ∀ path, ¬others path) :
    ∃ listed : List PreparedRelease, listed.Perm published ∧
      releaseCatalog files =
        if published.length ≤ maxReleaseCatalogEntries then do
          let catalog ← listed.mapM fun release =>
            (readManifest files release.releaseId).map ReleaseManifest.catalogEntry
          validateCatalogLineage catalog
          return catalog.mergeSort catalogBefore
        else .error .tooManyReleases := by
  have names := archive.namesIn_releases alone
  obtain ⟨ids, idsPerm, same⟩ := exists_perm_of_perm_map names
  have sortedPerm := (List.mergeSort_perm ids fun left right => (compare left right).isLE).trans
    idsPerm
  obtain ⟨listed, listedPerm, sorted⟩ := exists_perm_of_perm_map sortedPerm
  have valid : ∀ id ∈ ids, validateSha256 id = .ok () := fun id member => by
    obtain ⟨release, inside, rfl⟩ := List.mem_map.mp (idsPerm.mem_iff.mp member)
    exact (archive.sound release inside).validateSha256_releaseId
  have count : ([] : List String).length + ids.length = published.length := by
    rw [idsPerm.length_eq, List.length_map]
    exact Nat.zero_add _
  refine ⟨listed, listedPerm, ?_⟩
  unfold releaseCatalog
  rw [same, foldlM_addReleaseId valid (Nat.zero_le _), count]
  by_cases few : published.length ≤ maxReleaseCatalogEntries
  · rw [if_pos few, if_pos few]
    dsimp only [bind, Except.bind, List.nil_append]
    rw [sorted, List.mapM_map]
    rfl
  · rw [if_neg few, if_neg few]
    rfl

theorem mapM_readManifest (archive : Archive files published others)
    {listed : List PreparedRelease} (permuted : listed.Perm published)
    (documents : ∀ release ∈ published, release.WithinLimit) :
    (listed.mapM fun release =>
        (readManifest files release.releaseId).map ReleaseManifest.catalogEntry) =
      .ok (listed.map fun release => release.manifest.catalogEntry) :=
  mapM_ok_of_each fun release member => by
    have inside := permuted.mem_iff.mp member
    rw [archive.readManifest_ok inside (documents release inside)]
    rfl

/-- Within the limits the published releases are listed. -/
theorem catalog_ok (archive : Archive files published others) (alone : ∀ path, ¬others path)
    (limits : WithinLimits published) :
    ∃ catalog, releaseCatalog files = .ok catalog ∧
      catalog.Perm (published.map fun release => release.manifest.catalogEntry) := by
  obtain ⟨listed, permuted, same⟩ := archive.releaseCatalog_eq alone
  rw [if_pos limits.few, archive.mapM_readManifest permuted limits.documents] at same
  have lineages := (archive.validateCatalogLineage_iff permuted).mpr limits.lineages
  dsimp only [bind, Except.bind] at same
  rw [lineages] at same
  exact ⟨_, same, (List.mergeSort_perm _ _).trans (permuted.map _)⟩

/-- **The catalog is listed exactly when** there is no other file in the releases directory and the
releases are within the limits of the reader. -/
theorem catalog_iff (archive : Archive files published others)
    (temporary : ∀ path, others path → path.directory = releasesDirectory ∧
      IsTemporaryName path.name ∧ ∃ content, files[path]? = some content) :
    (∃ catalog, releaseCatalog files = .ok catalog) ↔
      (∀ path, ¬others path) ∧ WithinLimits published := by
  constructor
  · rintro ⟨catalog, ok⟩
    have alone : ∀ path, ¬others path := by
      intro path other
      obtain ⟨directory, isTemporary, content, found⟩ := temporary path other
      obtain ⟨ids, taken, _⟩ := bind_ok ok
      have named : path.name ∈ namesIn files releasesDirectory :=
        mem_namesIn.mpr ⟨content, directory ▸ found⟩
      obtain ⟨before, after, one⟩ := each_ok_of_foldlM taken named
      obtain ⟨error, refused⟩ := addReleaseId_temporary isTemporary before
      rw [refused] at one
      cases one
    refine ⟨alone, ?_⟩
    obtain ⟨listed, permuted, same⟩ := archive.releaseCatalog_eq alone
    rw [same] at ok
    by_cases few : published.length ≤ maxReleaseCatalogEntries
    · rw [if_pos few] at ok
      obtain ⟨entries, read, ok⟩ := bind_ok ok
      obtain ⟨_, lineage, _⟩ := bind_ok ok
      have documents : ∀ release ∈ published, release.WithinLimit := fun release member => by
        obtain ⟨entry, one⟩ := each_ok_of_mapM read (permuted.mem_iff.mpr member)
        refine (archive.readManifest_iff member).mp ?_
        cases outcome : readManifest files release.releaseId with
        | error error =>
          rw [outcome] at one
          cases one
        | ok manifest => exact ⟨manifest, rfl⟩
      rw [archive.mapM_readManifest permuted documents] at read
      rw [← Except.ok.inj read] at lineage
      exact ⟨few, documents, (archive.validateCatalogLineage_iff permuted).mp lineage⟩
    · rw [if_neg few] at ok
      cases ok
  · rintro ⟨alone, limits⟩
    obtain ⟨catalog, ok, _⟩ := archive.catalog_ok alone limits
    exact ⟨catalog, ok⟩

/-! ### The parent of a release -/

theorem manifestPath_injective {first second : String}
    (same : releaseManifestPath first = releaseManifestPath second) : first = second :=
  (String.append_left_inj ".json").mp (congrArg FilePath.name same)

/-- What is read as a manifest is one of a published release. -/
theorem readManifest_published (archive : Archive files published others) {releaseId : String}
    (apart : ¬others (releaseManifestPath releaseId)) {manifest : ReleaseManifest}
    (ok : readManifest files releaseId = .ok manifest) :
    ∃ release ∈ published, release.releaseId = releaseId ∧ release.manifest = manifest := by
  obtain ⟨_, _, rest⟩ := bind_ok ok
  obtain ⟨bytes, read, _⟩ := bind_ok rest
  unfold readBoundedRepositoryFile at read
  cases found : files[releaseManifestPath releaseId]? with
  | none =>
    rw [found] at read
    cases read
  | some content =>
    obtain ⟨release, member, same⟩ := (archive.listed _ content found rfl).resolve_right apart
    obtain rfl := manifestPath_injective same
    have within := (archive.readManifest_iff member).mp ⟨manifest, ok⟩
    rw [archive.readManifest_ok member within] at ok
    exact ⟨release, member, rfl, Except.ok.inj ok⟩

theorem openRelease_manifest {S : Type} [DocumentCodec S] {releaseId : String}
    {opened : VerifiedRelease S} (ok : openRelease files releaseId = .ok opened) :
    readManifest files releaseId = .ok opened.manifest := by
  obtain ⟨manifest, read, ok⟩ := bind_ok ok
  obtain ⟨_, _, ok⟩ := bind_ok ok
  obtain ⟨_, _, ok⟩ := bind_ok ok
  obtain ⟨_, _, ok⟩ := bind_ok ok
  obtain ⟨_, _, ok⟩ := bind_ok ok
  rw [read, ← Except.ok.inj ok]

/-- The parent that opens is a published release of the same document. -/
theorem openParent_published {S : Type} [DocumentCodec S] (archive : Archive files published others)
    {parentId : String} (apart : ¬others (releaseManifestPath parentId))
    {request : ReleaseRequest S} {manifest : ReleaseManifest}
    (ok : openParent files parentId request = .ok manifest) :
    ∃ parent ∈ published, parent.releaseId = parentId ∧ parent.manifest = manifest ∧
      parent.documentId = DocumentCodec.documentId request.snapshot := by
  obtain ⟨opened, opens, ok⟩ := bind_ok ok
  obtain ⟨_, agrees, ok⟩ := bind_ok ok
  cases ok
  obtain ⟨parent, member, named, same⟩ :=
    archive.readManifest_published apart (openRelease_manifest opens)
  refine ⟨parent, member, named, same, ?_⟩
  rw [PreparedRelease.documentId, same]
  exact not_not.mp (refuseIf_ok.mp agrees)

/-! ### Archives that grow -/

variable {files' : Files} {others' : FilePath → Prop}

/-- Files that change, but none of a release and none in the releases directory. -/
theorem keep (archive : Archive files published others)
    (keeps : ∀ release ∈ published, release.Published files')
    (listed : ∀ path content, files'[path]? = some content → path.directory = releasesDirectory →
      (∃ release ∈ published, path = releaseManifestPath release.releaseId) ∨ others' path) :
    Archive files' published others' :=
  ⟨archive.sound, archive.back, keeps, archive.distinct, archive.descends, listed⟩

/-- **One more release**, after its parent, under an identifier that was free. -/
theorem publish (archive : Archive files published others)
    (keeps : ∀ release ∈ published, release.Published files') {release : PreparedRelease}
    (sound : release.Sound) (back : release.ReadsBack) (present : release.Published files')
    (fresh : files[releaseManifestPath release.releaseId]? = none)
    (parents : ∀ parentId ∈ release.manifest.parentReleaseId, ∃ parent ∈ published,
      parent.releaseId = parentId ∧ parent.documentId = release.documentId)
    (listed : ∀ path content, files'[path]? = some content → path.directory = releasesDirectory →
      (∃ known ∈ release :: published, path = releaseManifestPath known.releaseId) ∨ others' path) :
    Archive files' (release :: published) others' where
  sound := List.forall_mem_cons.mpr ⟨sound, archive.sound⟩
  back := List.forall_mem_cons.mpr ⟨back, archive.back⟩
  present := List.forall_mem_cons.mpr ⟨present, keeps⟩
  distinct := by
    refine List.nodup_cons.mpr ⟨fun again => ?_, archive.distinct⟩
    obtain ⟨known, member, same⟩ := List.mem_map.mp again
    have held := (archive.present known member).manifest
    rw [same, fresh] at held
    cases held
  descends := ⟨parents, archive.descends⟩
  listed := listed

end Archive

end Archives

end Ketchup.Pdm
