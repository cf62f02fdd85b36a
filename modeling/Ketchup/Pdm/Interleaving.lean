/-
**Creators in any order, some of which crash.**

`Inv` holds of every state that creators reach from an empty repository. With it a manifest that is
there always has its objects, no published file changes, and it is known exactly when the releases can
be read (`Readable`): a temporary file in the releases directory alone keeps the catalog from being
listed.
-/

import Ketchup.Pdm.CreatorFrame

set_option linter.unusedSectionVars false

namespace Ketchup.Pdm

open Ketchup.Persistence

section Interleavings

variable [Sha256Sum] [ReleaseJson] {S : Type}

/-! ### Runs -/

/-- **What holds in every state.** -/
structure Inv (system : System S) : Prop where
  archive : Archive system.files system.published (InReleases system.creators)
  holds : ∀ creator ∈ system.creators, creator.Holds system.files system.published
  apart : system.creators.Pairwise Apart
  completed : ∀ release ∈ system.published, Creator.completed release ∈ system.creators

section Runs

variable [DocumentCodec S] {system later : System S}

theorem inv_initial : Inv (System.initial : System S) where
  archive := by
    refine archive_empty.keep (fun _ never => nomatch never) fun path content found => ?_
    change (∅ : Files)[path]? = some content at found
    rw [Std.ExtTreeMap.getElem?_empty] at found
    cases found
  holds := nofun
  apart := List.Pairwise.nil
  completed := nofun

/-- A temporary file in the releases directory is one of a creator, and is there. -/
theorem Inv.inReleases (inv : Inv system) (path : FilePath)
    (member : InReleases system.creators path) :
    path.directory = releasesDirectory ∧ IsTemporaryName path.name ∧
      ∃ content, system.files[path]? = some content := by
  obtain ⟨inside, creator, among, own⟩ := member
  exact ⟨inside, (inv.holds creator among).temporary own⟩

/-- **A step keeps the invariant**, where the manifest it may release is read back. -/
theorem SystemStep.inv (step : SystemStep system later) (inv : Inv system)
    (back : ∀ release ∈ later.published, release.ReadsBack) : Inv later := by
  cases step with
  | @start files creators published parent request =>
    refine ⟨inv.archive.keep inv.archive.present fun path content found inside => ?_,
      List.forall_mem_cons.mpr ⟨trivial, inv.holds⟩,
      List.pairwise_cons.mpr ⟨(fun _ _ _ never => nomatch never), inv.apart⟩,
      fun release member => List.mem_cons_of_mem _ (inv.completed release member)⟩
    rcases inv.archive.listed path content found inside with known | ⟨_, creator, among, own⟩
    · exact .inl known
    · exact .inr ⟨inside, creator, List.mem_cons_of_mem _ among, own⟩
  | @move files after creator creator' before others published step =>
    have here : creator ∈ before ++ creator :: others :=
      List.mem_append_right _ (List.mem_cons_self ..)
    have holds := inv.holds creator here
    have frame := step.frame holds
    have more : ∀ known ∈ published, known ∈ creator'.released ++ published := fun known member =>
      List.mem_append_right _ member
    have present : ∀ release ∈ published, release.Published after := fun release member =>
      frame.keeps_published holds (inv.archive.sound release member)
        (inv.archive.present release member)
    have own := step.holds inv.archive (fun path other => (inv.inReleases path other).2.1) holds
    obtain ⟨aparts, rest⟩ := List.pairwise_cons.mp
      ((List.pairwise_middle Apart.symm).mp inv.apart)
    have others_ : ∀ other ∈ before ++ others, other.Holds files published := fun other member => by
      refine inv.holds other ?_
      rcases List.mem_append.mp member with member | member
      · exact List.mem_append_left _ member
      · exact List.mem_append_right _ (List.mem_cons_of_mem _ member)
    have target : ∀ (release : PreparedRelease) (target : Target) (rest : List Target)
        (name : String), creator = .publishing release target rest (.synced name) →
        creator' = .next release rest → target.path.directory = releasesDirectory →
        ∃ known ∈ creator'.released ++ published,
          target.path = releaseManifestPath known.releaseId := by
      rintro release target rest name rfl rfl inside
      cases rest with
      | nil =>
        refine ⟨release, List.mem_cons_self .., ?_⟩
        rw [holds.1.last]
        rfl
      | cons other later => exact absurd inside (PreparedRelease.object_apart holds.1.object)
    have listed := frame.listed inv.archive more target
    refine ⟨?_, ?_, ?_, ?_⟩
    · show Archive after (creator'.released ++ published) _
      rcases step.released holds with none_ | ⟨release, rfl, ongoing, free⟩
      · rw [none_] at listed ⊢
        exact inv.archive.keep present listed
      · exact inv.archive.publish present ongoing.sound (back release (List.mem_cons_self ..))
          ongoing.present free ongoing.parents listed
    · have keep : ∀ other ∈ before ++ others,
          other.Holds after (creator'.released ++ published) := fun other member =>
        (others_ other member).keep more (fun _ _ => frame.keeps_named holds)
          fun path theirs content found => frame.keeps path content found fun mine =>
            aparts other member path mine theirs
      intro other member
      rcases List.mem_append.mp member with member | member
      · exact keep other (List.mem_append_left _ member)
      · rcases List.mem_cons.mp member with rfl | member
        · exact own
        · exact keep other (List.mem_append_right _ member)
    · refine (List.pairwise_middle Apart.symm).mpr (List.pairwise_cons.mpr ⟨fun other member => ?_, rest⟩)
      exact frame.apart (aparts other member) (others_ other member)
    · intro release member
      rcases List.mem_append.mp member with new | earlier
      · refine List.mem_append_right _ (List.mem_cons.mpr (.inl ?_))
        cases creator' with
        | completed other => rw [List.mem_singleton.mp new]
        | _ => cases new
      · rcases List.mem_append.mp (inv.completed release earlier) with among | among
        · exact List.mem_append_left _ among
        · rcases List.mem_cons.mp among with same | among
          · rw [← same] at step
            cases step
          · exact List.mem_append_right _ (List.mem_cons_of_mem _ among)

theorem SystemStep.published_grows (step : SystemStep system later) {release : PreparedRelease}
    (member : release ∈ system.published) : release ∈ later.published := by
  cases step with
  | start => exact member
  | move => exact List.mem_append_right _ member

theorem SystemSteps.published_grows (steps : SystemSteps system later) {release : PreparedRelease}
    (member : release ∈ system.published) : release ∈ later.published := by
  induction steps with
  | refl => exact member
  | tail _ step ih => exact step.published_grows ih

/-- **Every reachable state** is one of the invariant. -/
theorem SystemSteps.inv (steps : SystemSteps system later) (inv : Inv system)
    (back : ∀ release ∈ later.published, release.ReadsBack) : Inv later := by
  induction steps with
  | refl => exact inv
  | tail _ step ih =>
    exact step.inv (ih fun release member => back release (step.published_grows member)) back

/-- A step changes no file but temporary ones. -/
theorem SystemStep.keeps (step : SystemStep system later) (inv : Inv system) {path : FilePath}
    {content : Bytes} (named : ¬IsTemporaryName path.name)
    (found : system.files[path]? = some content) : later.files[path]? = some content := by
  cases step with
  | start => exact found
  | @move files after creator creator' before others published step =>
    have holds := inv.holds creator (List.mem_append_right _ (List.mem_cons_self ..))
    exact (step.frame holds).keeps_named holds named found

theorem SystemSteps.keeps (steps : SystemSteps system later) (inv : Inv system)
    (back : ∀ release ∈ later.published, release.ReadsBack) {path : FilePath} {content : Bytes}
    (named : ¬IsTemporaryName path.name) (found : system.files[path]? = some content) :
    later.files[path]? = some content := by
  induction steps with
  | refl => exact found
  | tail steps step ih =>
    have earlier := fun release member => back release (step.published_grows member)
    exact step.keeps (SystemSteps.inv steps inv earlier) named (ih earlier)

/-! ### Reading while others write -/

/-- The objects a manifest names. -/
def ReleaseManifest.objects (manifest : ReleaseManifest) : List ReleaseObjectIdentity :=
  manifest.document.object :: manifest.dependencies.map ReleasedDependency.object

/-- Each manifest that is there is that of its identifier, and its objects are there in full. -/
def Intact (files : Files) : Prop :=
  ∀ releaseId content, files[releaseManifestPath releaseId]? = some content →
    ∃ manifest, ReleaseJson.manifest content = some manifest ∧ manifest.releaseId = releaseId ∧
      ∀ object ∈ manifest.objects, ∃ bytes,
        files[releaseObjectPath object.sha256]? = some bytes ∧ identity bytes = object

/-- Every completed release is listed and opens. -/
structure CanBeRead (system : System S) : Prop where
  listed : ∃ catalog, releaseCatalog system.files = .ok catalog ∧
    ∀ release, Creator.completed release ∈ system.creators → release.manifest.catalogEntry ∈ catalog
  opens : ∀ release, Creator.completed release ∈ system.creators →
    ∃ opened : VerifiedRelease S, openRelease system.files release.releaseId = .ok opened ∧
      opened.manifest = release.manifest

/-- **What reading needs**: that no creator holds or has left a temporary file in the releases
directory, and the limits of a reader. -/
structure Readable (system : System S) : Prop where
  quiet : ∀ creator ∈ system.creators, ∀ path ∈ creator.temporary,
    path.directory ≠ releasesDirectory
  limits : Archive.WithinLimits system.published
  loads : ∀ release ∈ system.published, ∃ loaded : LoadOutcome S, release.LoadsAs loaded

/-- The name of a manifest is none of a temporary file. -/
theorem manifest_not_temporary (releaseId : String) : ¬IsTemporaryName (releaseId ++ ".json") := by
  rintro ⟨random, sized, marks, whole⟩
  have whole := congrArg String.toList whole
  have inner : (String.ofList random).toList = random := String.toList_ofList
  rw [String.toList_append, String.toList_append, inner, ← List.take_append_drop 1 random,
    ← List.append_assoc] at whole
  have ending := (List.append_inj' whole (by rw [List.length_drop, sized]; rfl)).2
  have held : '.' ∈ ".json".toList := by decide
  rw [ending] at held
  have dot : '.' ∈ random := List.mem_of_mem_drop held
  exact absurd (List.all_eq_true.mp marks '.' dot) (by decide)

theorem PreparedRelease.Sound.objects {release : PreparedRelease} {files : Files}
    (sound : release.Sound) (published : release.Published files)
    {object : ReleaseObjectIdentity} (member : object ∈ release.manifest.objects) :
    ∃ bytes, files[releaseObjectPath object.sha256]? = some bytes ∧ identity bytes = object := by
  rcases List.mem_cons.mp member with rfl | member
  · exact ⟨_, published.document, sound.document.symm⟩
  · rw [sound.named, List.map_map] at member
    obtain ⟨dependency, inside, rfl⟩ := List.mem_map.mp member
    exact ⟨_, published.dependency inside, (sound.dependencies.each _ inside).object.symm⟩

theorem Inv.intact (inv : Inv system) : Intact system.files := by
  intro releaseId content found
  rcases inv.archive.listed _ content found rfl with ⟨release, member, same⟩ | other
  · obtain rfl := Archive.manifestPath_injective same
    have published := inv.archive.present release member
    obtain rfl := Option.some.inj (published.manifest.symm.trans found)
    exact ⟨release.manifest, inv.archive.back release member, rfl, fun object among =>
      (inv.archive.sound release member).objects published among⟩
  · exact absurd (inv.inReleases _ other).2.1 (manifest_not_temporary releaseId)

theorem Inv.completed_iff (inv : Inv system) {release : PreparedRelease} :
    Creator.completed release ∈ system.creators ↔ release ∈ system.published :=
  ⟨fun member => inv.holds _ member, inv.completed release⟩

/-- The releases can be read exactly when nothing else is in their directory and the limits of the
reader are kept. -/
theorem Inv.canBeRead_iff (inv : Inv system) : CanBeRead system ↔ Readable system := by
  have quiet : (∀ path, ¬InReleases system.creators path) ↔
      ∀ creator ∈ system.creators, ∀ path ∈ creator.temporary, path.directory ≠ releasesDirectory :=
    ⟨fun none_ creator among path own inside => none_ path ⟨inside, creator, among, own⟩,
      fun none_ path other => by
        obtain ⟨inside, creator, among, own⟩ := other
        exact none_ creator among path own inside⟩
  have catalog := inv.archive.catalog_iff inv.inReleases
  constructor
  · rintro ⟨⟨listed, ok, _⟩, opens⟩
    obtain ⟨alone, limits⟩ := catalog.mp ⟨listed, ok⟩
    refine ⟨quiet.mp alone, limits, fun release member => ?_⟩
    obtain ⟨opened, ok, _⟩ := opens release (inv.completed release member)
    obtain ⟨_, loaded, as_, _⟩ := (inv.archive.opens_iff member opened).mp ok
    exact ⟨loaded, as_⟩
  · rintro ⟨alone, limits, loads⟩
    obtain ⟨listed, ok, permuted⟩ := inv.archive.catalog_ok (quiet.mpr alone) limits
    refine ⟨⟨listed, ok, fun release member => ?_⟩, fun release member => ?_⟩
    · exact permuted.mem_iff.mpr
        (List.mem_map.mpr ⟨release, inv.completed_iff.mp member, rfl⟩)
    · have member := inv.completed_iff.mp member
      obtain ⟨loaded, as_⟩ := loads release member
      exact ⟨release.verified loaded, (inv.archive.opens_iff member _).mpr
        ⟨limits.documents release member, loaded, as_, rfl⟩, rfl⟩

/-- **Creators in any order.** Whatever creators do, fail at or crash at: a manifest that is there has
its objects, what is published stays as it is, and no two releases have one identifier. The completed
releases can be read exactly when no temporary file is in the releases directory and the limits of the
reader are kept. -/
theorem interleaved_creations_safe (reached : SystemSteps System.initial system)
    (back : ∀ release ∈ system.published, release.ReadsBack) :
    Intact system.files ∧
      (∀ earlier, SystemSteps System.initial earlier → SystemSteps earlier system →
        ∀ (path : FilePath) (content : Bytes), ¬IsTemporaryName path.name →
          earlier.files[path]? = some content → system.files[path]? = some content) ∧
      (∀ first second, Creator.completed first ∈ system.creators →
        Creator.completed second ∈ system.creators → first.releaseId = second.releaseId →
          first = second) ∧
      (CanBeRead system ↔ Readable system) := by
  have inv := reached.inv inv_initial back
  refine ⟨inv.intact, fun earlier first then_ path content named found => ?_,
    fun first second one two same => ?_, inv.canBeRead_iff⟩
  · have earlierBack := fun release member => back release (then_.published_grows member)
    exact then_.keeps (first.inv inv_initial earlierBack) back named found
  · exact List.inj_on_of_nodup_map inv.archive.distinct (inv.completed_iff.mp one)
      (inv.completed_iff.mp two) same

/-! ### Runs of one creator -/

/-- The creator that started last moves. -/
theorem SystemStep.first {files after : Files} {creator creator' : Creator S}
    {others : List (Creator S)} {published : List PreparedRelease}
    (step : CreatorStep files creator after creator') :
    SystemStep ⟨files, creator :: others, published⟩
      ⟨after, creator' :: others, creator'.released ++ published⟩ := by
  have move : SystemStep ⟨files, [] ++ creator :: others, published⟩
      ⟨after, [] ++ creator' :: others, creator'.released ++ published⟩ := .move step
  exact move

/-- A target that is not there is published, by a creator that nothing disturbs. -/
theorem steps_publish {files : Files} {before others : List (Creator S)}
    {published : List PreparedRelease} {release : PreparedRelease} {target : Target}
    {rest : List Target} {name : String} (absent : files[target.path]? = none)
    (named : IsTemporaryName name) (fresh : files[target.temporary name]? = none)
    (apart : ¬IsTemporaryName target.path.name) :
    ∃ after : Files, (∀ path, after[path]? =
        if target.path = path then some target.bytes else files[path]?) ∧
      SystemSteps ⟨files, before ++ .publishing release target rest .looking :: others, published⟩
        ⟨after, before ++ .next release rest :: others,
          (Creator.next release rest : Creator S).released ++ published⟩ := by
  have distinct : target.path ≠ target.temporary name := fun same => apart (by
    rw [same]
    exact named)
  have looked : SystemSteps
      ⟨files, before ++ .publishing release target rest .looking :: others, published⟩
      ⟨files.insert (target.temporary name) [],
        before ++ .publishing release target rest (.writing name 0) :: others, published⟩ :=
    .tail (.single (.move (.missing absent))) (.move (.openTemporary named fresh))
  have wrote : ∃ held : Files,
      (∀ path, held[path]? =
        if target.temporary name = path then some target.bytes else files[path]?) ∧
      SystemSteps
        ⟨files.insert (target.temporary name) [],
          before ++ .publishing release target rest (.writing name 0) :: others, published⟩
        ⟨held, before ++ .publishing release target rest (.writing name target.bytes.length) :: others,
          published⟩ := by
    rcases Nat.eq_zero_or_pos target.bytes.length with empty | some_
    · have nothing : target.bytes = [] := List.eq_nil_of_length_eq_zero empty
      refine ⟨files.insert (target.temporary name) [], fun path => ?_, ?_⟩
      · rw [BTreeMap.getElem?_insert, nothing]
      · rw [empty]
    · refine ⟨_, fun path => ?_, .single (.move (.write some_ le_rfl))⟩
      rw [BTreeMap.getElem?_insert, BTreeMap.getElem?_insert, List.take_length]
      split <;> rfl
  obtain ⟨held, is, wrote⟩ := wrote
  have free : held[target.path]? = none := by
    rw [is, if_neg fun same => distinct same.symm]
    exact absent
  have full : held[target.temporary name]? = some target.bytes := by rw [is, if_pos rfl]
  refine ⟨(held.erase (target.temporary name)).insert target.path target.bytes, fun path => ?_,
    (looked.trans wrote).trans (.tail (.single (.move .sync)) (.move (.persist free full)))⟩
  rw [BTreeMap.getElem?_insert, BTreeMap.getElem?_erase, is]
  by_cases same : target.path = path
  · rw [if_pos same, if_pos same]
  · rw [if_neg same, if_neg same]
    by_cases temporary : target.temporary name = path
    · rw [if_pos temporary, ← temporary]
      exact fresh.symm
    · rw [if_neg temporary, if_neg temporary]

end Runs

end Interleavings

/-! ### One release, made by one creator and by two -/

section Light

attribute [local instance] lightSha256 lightJson Zeros.codec

def lightRelease : PreparedRelease := ⟨light.manifest, light.file, []⟩

def lightObject : Target := .object light.manifest.document.object light.file

theorem lightRelease_prepared (files : Files) :
    prepareCreation files none (Zeros.request 1) = .ok lightRelease := light_known.prepareRelease

theorem lightRelease_sound : lightRelease.Sound :=
  (prepareRelease_sound light_known.prepareRelease).1

theorem lightRelease_back : lightRelease.ReadsBack := if_pos rfl

theorem light_temporary : IsTemporaryName ".tmpAAAAAA" := ⟨"AAAAAA".toList, by decide, by decide, rfl⟩

theorem light_other_temporary : IsTemporaryName ".tmpBBBBBB" :=
  ⟨"BBBBBB".toList, by decide, by decide, rfl⟩

theorem lightObject_named : ¬IsTemporaryName lightObject.path.name :=
  lightRelease_sound.target_named (List.mem_cons_self ..)

/-- A creator publishes the object of the release. -/
theorem light_object (before : List (Creator Nat)) :
    ∃ files : Files, (∀ path, files[path]? =
        if lightObject.path = path then some lightObject.bytes else none) ∧
      SystemSteps ⟨∅, before ++ [.requested none (Zeros.request 1)], []⟩
        ⟨files, before ++ [.publishing lightRelease lightRelease.manifestTarget [] .looking], []⟩ := by
  have publish : ∃ after : Files, (∀ path, after[path]? =
        if lightObject.path = path then some lightObject.bytes else (∅ : Files)[path]?) ∧
      SystemSteps
        ⟨∅, before ++ [.publishing lightRelease lightObject [lightRelease.manifestTarget] .looking],
          []⟩
        ⟨after, before ++ [.publishing lightRelease lightRelease.manifestTarget [] .looking], []⟩ :=
    steps_publish Std.ExtTreeMap.getElem?_empty light_temporary Std.ExtTreeMap.getElem?_empty
      lightObject_named
  obtain ⟨files, is, steps⟩ := publish
  refine ⟨files, fun path => ?_, .head (.move (.prepare (lightRelease_prepared ∅))) steps⟩
  rw [is, Std.ExtTreeMap.getElem?_empty]

/-- A creator publishes the manifest of the release. -/
theorem light_manifest {files : Files} {name : String} (before : List (Creator Nat))
    (absent : files[lightRelease.manifestTarget.path]? = none) (named : IsTemporaryName name)
    (fresh : files[lightRelease.manifestTarget.temporary name]? = none) :
    ∃ after : Files, SystemSteps
      ⟨files, before ++ [.publishing lightRelease lightRelease.manifestTarget [] .looking], []⟩
      ⟨after, before ++ [.completed lightRelease], [lightRelease]⟩ := by
  have publish : ∃ after : Files, (∀ path, after[path]? =
        if lightRelease.manifestTarget.path = path then some lightRelease.manifestTarget.bytes
        else files[path]?) ∧
      SystemSteps
        ⟨files, before ++ [.publishing lightRelease lightRelease.manifestTarget [] .looking], []⟩
        ⟨after, before ++ [.completed lightRelease], [lightRelease]⟩ :=
    steps_publish absent named fresh (not_temporary lightRelease_sound.validateSha256_releaseId)
  obtain ⟨after, _, steps⟩ := publish
  exact ⟨after, steps⟩

theorem light_apart (path : FilePath) (inside : path.directory = releasesDirectory) :
    lightObject.path ≠ path := by
  rintro rfl
  exact releaseObjectPath_apart _ inside

/-- One creator that nothing disturbs: the release can be read. -/
theorem light_release_readable :
    ∃ system : System Nat, SystemSteps System.initial system ∧
      Creator.completed lightRelease ∈ system.creators ∧ CanBeRead system := by
  obtain ⟨files, is, object⟩ := light_object []
  obtain ⟨after, manifest⟩ := light_manifest []
    (by rw [is, if_neg (light_apart _ rfl)]) light_temporary (by rw [is, if_neg (light_apart _ rfl)])
  have steps : SystemSteps System.initial
      (⟨after, [.completed lightRelease], [lightRelease]⟩ : System Nat) :=
    .head (.start none (Zeros.request 1)) (object.trans manifest)
  have back : ∀ release ∈ [lightRelease], release.ReadsBack := fun release member => by
    rw [List.mem_singleton.mp member]
    exact lightRelease_back
  obtain ⟨short, loaded, loads, documentId, revision, digest⟩ :=
    light_reloads light.file light_known.saveContainer
  have readable : Readable (⟨after, [.completed lightRelease], [lightRelease]⟩ : System Nat) := by
    refine ⟨fun creator member path own => ?_,
      ⟨show 1 ≤ maxReleaseCatalogEntries by decide, ?_, ?_⟩, ?_⟩
    · rw [List.mem_singleton.mp member] at own
      cases own
    · intro release member
      rw [List.mem_singleton.mp member]
      exact short
    · intro release member
      rw [List.mem_singleton.mp member]
      exact (lineageLength_newest light.manifest []).trans_le (by decide)
    · intro release member
      rw [List.mem_singleton.mp member]
      exact ⟨loaded, loads, documentId, revision, digest⟩
  exact ⟨_, steps, List.mem_cons_self .., (interleaved_creations_safe steps back).2.2.2.mpr readable⟩

/-- Two creators make the same release; one crashes before it has renamed its manifest. The other
completes, and the catalog cannot be listed any more. -/
theorem crashed_creator_blocks_catalog :
    ∃ system : System Nat, SystemSteps System.initial system ∧
      Creator.completed lightRelease ∈ system.creators ∧
      ∀ catalog, releaseCatalog system.files ≠ .ok catalog := by
  obtain ⟨files, is, object⟩ := light_object [.requested none (Zeros.request 1)]
  have absent : files[lightRelease.manifestTarget.path]? = none := by
    rw [is, if_neg (light_apart _ rfl)]
  have fresh : files[lightRelease.manifestTarget.temporary ".tmpAAAAAA"]? = none := by
    rw [is, if_neg (light_apart _ rfl)]
  have present : files[lightObject.path]? = some lightObject.bytes := by rw [is, if_pos rfl]
  have same : lightObject.whenPresent lightObject.bytes = .ok () := by decide +kernel
  let left := lightRelease.manifestTarget.temporary ".tmpAAAAAA"
  have crashes : SystemSteps
      (⟨files, [.requested none (Zeros.request 1),
        .publishing lightRelease lightRelease.manifestTarget [] .looking], []⟩ : System Nat)
      ⟨files.insert left [], [.crashed (some left),
        .publishing lightRelease lightRelease.manifestTarget [] .looking], []⟩ :=
    .head (.first (.prepare (lightRelease_prepared files)))
      (.head (.first (.found present same))
        (.head (.first (.missing absent))
          (.head (.first (.openTemporary light_temporary fresh)) (.single (.first .crash)))))
  have apart : ∀ path : FilePath, path.name ≠ ".tmpAAAAAA" →
      path.directory = releasesDirectory → (files.insert left [])[path]? = none := by
    intro path other inside
    rw [BTreeMap.getElem?_insert, if_neg, is, if_neg (light_apart _ inside)]
    rintro rfl
    exact other rfl
  have unnamed : lightRelease.manifestTarget.path.name ≠ ".tmpAAAAAA" := fun named => by
    have temporary := light_temporary
    rw [← named] at temporary
    exact manifest_not_temporary lightRelease.releaseId temporary
  obtain ⟨after, manifest⟩ := light_manifest [.crashed (some left)] (apart _ unnamed rfl)
    light_other_temporary (apart _ (by decide) rfl)
  have steps : SystemSteps System.initial
      (⟨after, [.crashed (some left), .completed lightRelease], [lightRelease]⟩ : System Nat) :=
    .head (.start none (Zeros.request 1)) (.head (.start none (Zeros.request 1))
      (object.trans (crashes.trans manifest)))
  have inv := steps.inv inv_initial fun release member => by
    rw [List.mem_singleton.mp member]
    exact lightRelease_back
  refine ⟨_, steps, List.mem_cons_of_mem _ (List.mem_cons_self ..), fun catalog ok => ?_⟩
  have alone := ((inv.archive.catalog_iff inv.inReleases).mp ⟨catalog, ok⟩).1
  exact alone left ⟨rfl, _, List.mem_cons_self .., rfl⟩

end Light

end Ketchup.Pdm
