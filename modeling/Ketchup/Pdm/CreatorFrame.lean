/-
**What every step of a creator keeps.**

`Creator.Holds` is what a creator relies on between its steps. `CreatorStep.frame` says what a step
changes in the files: the temporary file of the creator that moves, and its target where it renames.
From it follow what the creator that moved has then (`CreatorStep.holds`) and that the others have what
they had (`Creator.Holds.keep`).
-/

import Ketchup.Pdm.Creators
import Ketchup.Pdm.Sequence

set_option linter.unusedSectionVars false

namespace Ketchup.Pdm

open Ketchup.Persistence

section Interleavings

variable [Sha256Sum] [ReleaseJson]

/-! ### Targets -/

theorem validateSha256_identity (bytes : Bytes) : validateSha256 (identity bytes).sha256 = .ok () :=
  validateSha256_hex bytes

namespace PreparedRelease

variable {release : PreparedRelease}

theorem Sound.object_named (sound : release.Sound) {target : Target}
    (member : target ∈ release.objects) : ∃ bytes, target = .object (identity bytes) bytes := by
  rcases List.mem_cons.mp member with rfl | member
  · exact ⟨release.document, congrArg (Target.object · _) sound.document⟩
  · obtain ⟨dependency, inside, rfl⟩ := List.mem_map.mp member
    exact ⟨dependency.2, congrArg (Target.object · _) (sound.dependencies.each _ inside).object⟩

/-- No target is named as a temporary file is. -/
theorem Sound.target_named (sound : release.Sound) {target : Target}
    (member : target ∈ release.targets) : ¬IsTemporaryName target.path.name := by
  rcases List.mem_append.mp member with object | last
  · obtain ⟨bytes, rfl⟩ := sound.object_named object
    have named : ¬IsTemporaryName ((identity bytes).sha256 ++ "") :=
      not_temporary (validateSha256_identity bytes)
    rw [String.append_empty] at named
    exact named
  · rw [List.mem_singleton.mp last]
    exact not_temporary sound.validateSha256_releaseId

/-- The target before which all others come is the manifest. -/
theorem last_target {done : List Target} {target : Target}
    (targets : release.targets = done ++ [target]) :
    done = release.objects ∧ target = release.manifestTarget := by
  obtain ⟨objects, last⟩ := List.append_inj' (show release.objects ++ [release.manifestTarget] =
    done ++ [target] from targets) rfl
  exact ⟨objects.symm, (List.singleton_injective last).symm⟩

/-- A target before which not all others come is an object. -/
theorem object_target {done rest : List Target} {target other : Target}
    (targets : release.targets = done ++ target :: other :: rest) : target ∈ release.objects := by
  have front : release.objects = (done ++ target :: other :: rest).dropLast := by
    rw [← targets, PreparedRelease.targets, List.dropLast_concat]
  rw [front, List.dropLast_append_of_ne_nil (List.cons_ne_nil target (other :: rest))]
  exact List.mem_append_right _ (List.mem_cons_self ..)

end PreparedRelease

/-! ### What a creator relies on -/

/-- A release whose last targets are still to be published. -/
structure Ongoing (files : Files) (published : List PreparedRelease) (release : PreparedRelease)
    (pending : List Target) : Prop where
  sound : release.Sound
  parents : ∀ parentId ∈ release.manifest.parentReleaseId, ∃ parent ∈ published,
    parent.releaseId = parentId ∧ parent.documentId = release.documentId
  written : ∃ done, release.targets = done ++ pending ∧
    ∀ target ∈ done, files[target.path]? = some target.bytes

/-- The temporary file of a stage holds what was written. -/
def Stage.Holds (files : Files) (target : Target) : Stage → Prop
  | looking | absent => True
  | writing name written => IsTemporaryName name ∧
      files[target.temporary name]? = some (target.bytes.take written)
  | synced name => IsTemporaryName name ∧ files[target.temporary name]? = some target.bytes

def Creator.Holds {S : Type} (files : Files) (published : List PreparedRelease) : Creator S → Prop
  | publishing release target rest stage =>
    Ongoing files published release (target :: rest) ∧ stage.Holds files target
  | completed release => release ∈ published
  | crashed left => ∀ path ∈ left, IsTemporaryName path.name ∧ ∃ content, files[path]? = some content
  | requested .. | failed _ => True

variable {S : Type}

/-- A file in the releases directory that a creator holds or has left. -/
def InReleases (creators : List (Creator S)) (path : FilePath) : Prop :=
  path.directory = releasesDirectory ∧ ∃ creator ∈ creators, path ∈ creator.temporary

/-- No two creators have one temporary file. -/
def Apart (first second : Creator S) : Prop := ∀ path ∈ first.temporary, path ∉ second.temporary

theorem Apart.symm {first second : Creator S} (apart : Apart first second) : Apart second first :=
  fun path here there => apart path there here

/-! ### What a step does to the files -/

section Steps

variable {files after : Files} {creator creator' : Creator S} {published : List PreparedRelease}

theorem Stage.Holds.temporary {target : Target} {stage : Stage} (holds : stage.Holds files target)
    {path : FilePath} (member : path ∈ stage.temporary target) :
    IsTemporaryName path.name ∧ path.directory = target.path.directory ∧
      ∃ content, files[path]? = some content := by
  cases stage with
  | looking | absent => cases member
  | writing name written =>
    cases member
    exact ⟨holds.1, rfl, _, holds.2⟩
  | synced name =>
    cases member
    exact ⟨holds.1, rfl, _, holds.2⟩

/-- The temporary file of a creator is there, under a name of such files. -/
theorem Creator.Holds.temporary (holds : creator.Holds files published) {path : FilePath}
    (member : path ∈ creator.temporary) :
    IsTemporaryName path.name ∧ ∃ content, files[path]? = some content := by
  cases creator with
  | requested | completed | failed => cases member
  | publishing release target rest stage =>
    obtain ⟨named, _, present⟩ := holds.2.temporary member
    exact ⟨named, present⟩
  | crashed left => exact holds path member

theorem next_temporary (release : PreparedRelease) (rest : List Target) :
    (Creator.next release rest : Creator S).temporary = none := by
  cases rest <;> rfl

/-- **The frame of a step**: files stay but the temporary file of the creator, and a file that is new
is its temporary file or its target. -/
structure Frame (files after : Files) (creator creator' : Creator S) : Prop where
  keeps : ∀ path content, files[path]? = some content → path ∉ creator.temporary →
    after[path]? = some content
  only : ∀ path content, after[path]? = some content →
    files[path]? = some content ∨ path ∈ creator'.temporary ∨
      ∃ release target rest name, creator = .publishing release target rest (.synced name) ∧
        creator' = .next release rest ∧ path = target.path
  fresh : ∀ path ∈ creator'.temporary, path ∈ creator.temporary ∨ files[path]? = none
  gone : ∀ path ∈ creator.temporary, path ∈ creator'.temporary ∨ after[path]? = none

theorem Frame.same (same : creator'.temporary = creator.temporary) :
    Frame files files creator creator' where
  keeps _ _ found _ := found
  only _ _ found := .inl found
  fresh _ member := .inl (same ▸ member)
  gone _ member := .inl (same.symm ▸ member)

/-- A creator that has no temporary file any more. -/
theorem Frame.dropped (held : Option FilePath) (own : creator.temporary = held)
    (dropped : creator'.temporary = none) :
    Frame files (dropTemporary files held) creator creator' where
  keeps path content found other := by
    cases held with
    | none => exact found
    | some path' =>
      rw [own] at other
      show (files.erase path')[path]? = _
      rw [BTreeMap.getElem?_erase, if_neg fun same => other (congrArg some same)]
      exact found
  only path content found := by
    cases held with
    | none => exact .inl found
    | some path' =>
      change (files.erase path')[path]? = _ at found
      rw [BTreeMap.getElem?_erase] at found
      split at found
      · cases found
      · exact .inl found
  fresh path member := by
    rw [dropped] at member
    cases member
  gone path member := by
    refine .inr ?_
    rw [← own, show creator.temporary = some path from member]
    show (files.erase path)[path]? = none
    rw [BTreeMap.getElem?_erase, if_pos rfl]

/-- A creator whose temporary file gets some content. -/
theorem Frame.written {own : FilePath} {content : Bytes} (is : creator'.temporary = some own)
    (from_ : creator.temporary = some own ∨ creator.temporary = none ∧ files[own]? = none) :
    Frame files (files.insert own content) creator creator' where
  keeps path kept found other := by
    rw [BTreeMap.getElem?_insert, if_neg]
    · exact found
    · rintro rfl
      rcases from_ with already | ⟨_, absent⟩
      · exact other already
      · rw [absent] at found
        cases found
  only path kept found := by
    rw [BTreeMap.getElem?_insert] at found
    split at found
    case isTrue same => exact .inr (.inl (same ▸ is))
    case isFalse => exact .inl found
  fresh path member := by
    obtain rfl : own = path := Option.some.inj (is.symm.trans member)
    exact from_.imp id And.right
  gone path member := by
    rcases from_ with already | ⟨none_, _⟩
    · obtain rfl : own = path := Option.some.inj (already.symm.trans member)
      exact .inl is
    · rw [none_] at member
      cases member

theorem CreatorStep.frame [DocumentCodec S] (step : CreatorStep files creator after creator')
    (holds : creator.Holds files published) : Frame files after creator creator' := by
  cases step with
  | prepare => exact .same (next_temporary ..)
  | refuse | missing | conflict | sync | crash | crashEarly => exact .same rfl
  | found => exact .same (next_temporary ..)
  | openTemporary named fresh => exact .written rfl (.inr ⟨rfl, fresh⟩)
  | write => exact .written rfl (.inl rfl)
  | outrun => exact .dropped (some _) rfl (next_temporary ..)
  | outrunConflict => exact .dropped (some _) rfl rfl
  | fail => exact .dropped _ rfl rfl
  | @persist release target rest name content absent held =>
    have dropped : Frame files (files.erase (target.temporary name))
        (.publishing release target rest (.synced name)) (.next release rest : Creator S) :=
      .dropped (some _) rfl (next_temporary ..)
    have apart : target.path ≠ target.temporary name := fun same => by
      obtain ⟨⟨sound, _, done, targets, _⟩, named, _⟩ := holds
      refine sound.target_named (targets ▸ List.mem_append_right _ (List.mem_cons_self ..)) ?_
      rw [same]
      exact named
    have unpublished : (files.erase (target.temporary name))[target.path]? = none := by
      rw [BTreeMap.getElem?_erase, if_neg fun same => apart same.symm]
      exact absent
    refine ⟨fun path kept found other => ?_, fun path kept found => ?_, dropped.fresh, ?_⟩
    · have stays := dropped.keeps path kept found other
      rw [BTreeMap.getElem?_insert, if_neg]
      · exact stays
      · rintro rfl
        rw [unpublished] at stays
        cases stays
    · rw [BTreeMap.getElem?_insert] at found
      split at found
      case isTrue same => exact .inr (.inr ⟨release, target, rest, name, rfl, rfl, same.symm⟩)
      case isFalse => exact dropped.only path kept found
    · intro path member
      refine (dropped.gone path member).imp id fun erased => ?_
      obtain rfl : target.temporary name = path := Option.some.inj member
      rw [BTreeMap.getElem?_insert, if_neg apart]
      exact erased

/-! ### What a step leaves established -/

/-- Files under names that no temporary file has stay. -/
theorem Frame.keeps_named (frame : Frame files after creator creator')
    (holds : creator.Holds files published) {path : FilePath} {content : Bytes}
    (named : ¬IsTemporaryName path.name) (found : files[path]? = some content) :
    after[path]? = some content :=
  frame.keeps path content found fun own => named (holds.temporary own).1

theorem Frame.keeps_published (frame : Frame files after creator creator')
    (holds : creator.Holds files published) {release : PreparedRelease} (sound : release.Sound)
    (present : release.Published files) : release.Published after :=
  fun target member => frame.keeps_named holds (sound.target_named member) (present target member)

section Ongoing

variable {release : PreparedRelease} {target : Target} {rest pending : List Target}
  {published' : List PreparedRelease}

theorem Ongoing.mono (ongoing : Ongoing files published release pending)
    (more : ∀ known ∈ published, known ∈ published')
    (keeps : ∀ (path : FilePath) (content : Bytes), ¬IsTemporaryName path.name →
      files[path]? = some content → after[path]? = some content) :
    Ongoing after published' release pending where
  sound := ongoing.sound
  parents parentId is := by
    obtain ⟨parent, member, same⟩ := ongoing.parents parentId is
    exact ⟨parent, more parent member, same⟩
  written := by
    obtain ⟨done, targets, present⟩ := ongoing.written
    refine ⟨done, targets, fun target member => ?_⟩
    have named := ongoing.sound.target_named (targets ▸ List.mem_append_left _ member)
    exact keeps _ _ named (present target member)

/-- One more target is there. -/
theorem Ongoing.advance (ongoing : Ongoing files published release (target :: rest))
    (present : files[target.path]? = some target.bytes) : Ongoing files published release rest where
  sound := ongoing.sound
  parents := ongoing.parents
  written := by
    obtain ⟨done, targets, earlier⟩ := ongoing.written
    refine ⟨done ++ [target], by rw [targets, List.append_assoc, List.singleton_append], ?_⟩
    intro other member
    rcases List.mem_append.mp member with member | member
    · exact earlier other member
    · rw [List.mem_singleton.mp member]
      exact present

theorem Ongoing.present (ongoing : Ongoing files published release []) : release.Published files := by
  obtain ⟨done, targets, present⟩ := ongoing.written
  rw [List.append_nil] at targets
  intro target member
  exact present target (targets ▸ member)

/-- The last target is the manifest. -/
theorem Ongoing.last (ongoing : Ongoing files published release [target]) :
    target = release.manifestTarget := by
  obtain ⟨done, targets, _⟩ := ongoing.written
  exact (PreparedRelease.last_target targets).2

theorem Ongoing.object {other : Target} (ongoing : Ongoing files published release
    (target :: other :: rest)) : target ∈ release.objects := by
  obtain ⟨done, targets, _⟩ := ongoing.written
  exact PreparedRelease.object_target targets

/-- A target that is there already is an object of the same bytes. -/
theorem whenPresent_ok {actual : Bytes} (ok : target.whenPresent actual = .ok ()) :
    actual = target.bytes ∧ ∃ object bytes, target = .object object bytes := by
  cases target with
  | object object expected => exact ⟨verifyExistingObject_ok ok, object, expected, rfl⟩
  | manifest => cases ok

/-- What is there already is not the last target. -/
theorem Ongoing.further {actual : Bytes} (ongoing : Ongoing files published release (target :: rest))
    (ok : target.whenPresent actual = .ok ()) : ∃ other later, rest = other :: later := by
  cases rest with
  | nil =>
    obtain ⟨_, object, bytes, is⟩ := whenPresent_ok ok
    rw [ongoing.last] at is
    cases is
  | cons other later => exact ⟨other, later, rfl⟩

theorem Ongoing.next {other : Target} (ongoing : Ongoing files published release (other :: rest)) :
    (Creator.next release (other :: rest) : Creator S).Holds files published :=
  ⟨ongoing, trivial⟩

end Ongoing

variable [DocumentCodec S]

/-- A release that is prepared comes after its parent. -/
theorem prepareCreation_ongoing {others : FilePath → Prop} (archive : Archive files published others)
    (named : ∀ path, others path → IsTemporaryName path.name) {parent : Option String}
    {request : ReleaseRequest S} {release : PreparedRelease}
    (prepared : prepareCreation files parent request = .ok release) :
    Ongoing files published release release.targets := by
  have from_ : ∃ manifest, IsParent published request manifest ∧
      prepareRelease manifest request = .ok release := by
    cases parent with
    | none => exact ⟨none, trivial, prepared⟩
    | some parentId =>
      obtain ⟨manifest, opened, prepared⟩ := bind_ok prepared
      obtain ⟨_, opens, _⟩ := bind_ok opened
      obtain ⟨_, valid, _⟩ := bind_ok (Archive.openRelease_manifest opens)
      obtain ⟨known, member, _, same, document⟩ :=
        archive.openParent_published (fun other => not_temporary valid (named _ other)) opened
      exact ⟨some manifest, ⟨known, member, same, document⟩, prepared⟩
  obtain ⟨manifest, isParent, prepared⟩ := from_
  obtain ⟨sound, made⟩ := prepareRelease_sound prepared
  exact ⟨sound, isParent.parents made, [], rfl, nofun⟩

/-- **The creator that moved** still has what it relies on. -/
theorem CreatorStep.holds {others : FilePath → Prop} (archive : Archive files published others)
    (named : ∀ path, others path → IsTemporaryName path.name)
    (step : CreatorStep files creator after creator') (holds : creator.Holds files published) :
    creator'.Holds after (creator'.released ++ published) := by
  have frame := step.frame holds
  have keeps : ∀ (path : FilePath) (content : Bytes), ¬IsTemporaryName path.name →
      files[path]? = some content → after[path]? = some content := fun path content =>
    frame.keeps_named holds
  cases step with
  | prepare prepared => exact (prepareCreation_ongoing archive named prepared).next
  | refuse | conflict | outrunConflict | fail => trivial
  | crashEarly => exact fun path never => nomatch never
  | missing => exact ⟨holds.1, trivial⟩
  | found present same =>
    obtain ⟨other, later, rfl⟩ := holds.1.further same
    rw [(whenPresent_ok same).1] at present
    exact (holds.1.advance present).next
  | openTemporary isNamed =>
    refine ⟨holds.1.mono (fun _ member => member) keeps, isNamed, ?_⟩
    rw [BTreeMap.getElem?_insert, if_pos rfl]
    rfl
  | write =>
    refine ⟨holds.1.mono (fun _ member => member) keeps, holds.2.1, ?_⟩
    rw [BTreeMap.getElem?_insert, if_pos rfl]
  | sync =>
    refine ⟨holds.1, holds.2.1, ?_⟩
    have whole := holds.2.2
    rw [List.take_length] at whole
    exact whole
  | @persist release target rest name content absent held =>
    obtain rfl : target.bytes = content := Option.some.inj (holds.2.2.symm.trans held)
    have advanced := (holds.1.mono (fun _ member => member) keeps).advance (by
      rw [BTreeMap.getElem?_insert, if_pos rfl])
    cases rest with
    | nil => exact List.mem_cons_self ..
    | cons other later => exact advanced.next
  | outrun present same =>
    obtain ⟨other, later, rfl⟩ := holds.1.further same
    rw [(whenPresent_ok same).1] at present
    have named := holds.1.sound.target_named (holds.1.written.choose_spec.1 ▸
      List.mem_append_right _ (List.mem_cons_self ..))
    exact ((holds.1.mono (fun _ member => member) keeps).advance (keeps _ _ named present)).next
  | crash =>
    intro path member
    obtain ⟨named, _, present⟩ := holds.2.temporary member
    exact ⟨named, present⟩

/-- **What a step releases**: nothing, or the manifest of a release whose other files are there. -/
theorem CreatorStep.released (step : CreatorStep files creator after creator')
    (holds : creator.Holds files published) :
    creator'.released = [] ∨ ∃ release, creator' = .completed release ∧
      Ongoing after published release [] ∧ files[releaseManifestPath release.releaseId]? = none := by
  have frame := step.frame holds
  cases step with
  | refuse | conflict | outrunConflict | fail | crashEarly | missing | openTemporary | write | sync
  | crash => exact .inl rfl
  | @prepare _ parent request release =>
    exact .inl (by rw [PreparedRelease.targets, PreparedRelease.objects]; rfl)
  | found _ same =>
    obtain ⟨other, later, rfl⟩ := holds.1.further same
    exact .inl rfl
  | outrun _ same =>
    obtain ⟨other, later, rfl⟩ := holds.1.further same
    exact .inl rfl
  | @persist release target rest name content absent held =>
    cases rest with
    | cons other later => exact .inl rfl
    | nil =>
      obtain rfl : target.bytes = content := Option.some.inj (holds.2.2.symm.trans held)
      have ongoing := holds.1
      obtain rfl := ongoing.last
      refine .inr ⟨release, rfl, ?_, absent⟩
      exact (ongoing.mono (fun _ member => member) fun _ _ => frame.keeps_named holds).advance (by
        rw [BTreeMap.getElem?_insert, if_pos rfl])

/-! ### The creators that did not move -/

/-- **A creator that did not move** keeps what it relies on. -/
theorem Creator.Holds.keep {other : Creator S} {published' : List PreparedRelease}
    (holds : other.Holds files published) (more : ∀ known ∈ published, known ∈ published')
    (keeps : ∀ (path : FilePath) (content : Bytes), ¬IsTemporaryName path.name →
      files[path]? = some content → after[path]? = some content)
    (own : ∀ path ∈ other.temporary, ∀ content, files[path]? = some content →
      after[path]? = some content) : other.Holds after published' := by
  cases other with
  | requested | failed => trivial
  | completed release => exact more release holds
  | crashed left =>
    intro path member
    obtain ⟨named, content, found⟩ := holds path member
    exact ⟨named, content, own path member content found⟩
  | publishing release target rest stage =>
    obtain ⟨ongoing, held⟩ := holds
    refine ⟨ongoing.mono more keeps, ?_⟩
    cases stage with
    | looking | absent => trivial
    | writing name written => exact ⟨held.1, own _ rfl _ held.2⟩
    | synced name => exact ⟨held.1, own _ rfl _ held.2⟩

/-- The temporary files stay apart: a new one was free. -/
theorem Frame.apart {other : Creator S} (frame : Frame files after creator creator')
    (apart : Apart creator other) (holds : other.Holds files published) : Apart creator' other := by
  intro path mine theirs
  rcases frame.fresh path mine with before | free
  · exact apart path before theirs
  · obtain ⟨_, content, found⟩ := holds.temporary theirs
    rw [free] at found
    cases found

/-- The files in the releases directory after a step. -/
theorem Frame.listed {before others : List (Creator S)} {published' : List PreparedRelease}
    (frame : Frame files after creator creator')
    (archive : Archive files published (InReleases (before ++ creator :: others)))
    (more : ∀ known ∈ published, known ∈ published')
    (target : ∀ (release : PreparedRelease) (target : Target) (rest : List Target) (name : String),
      creator = .publishing release target rest (.synced name) → creator' = .next release rest →
        target.path.directory = releasesDirectory →
        ∃ known ∈ published', target.path = releaseManifestPath known.releaseId)
    (path : FilePath) (content : Bytes) (found : after[path]? = some content)
    (inside : path.directory = releasesDirectory) :
    (∃ known ∈ published', path = releaseManifestPath known.releaseId) ∨
      InReleases (before ++ creator' :: others) path := by
  have mine : path ∈ creator'.temporary → InReleases (before ++ creator' :: others) path := fun own =>
    ⟨inside, creator', List.mem_append_right _ (List.mem_cons_self ..), own⟩
  rcases frame.only path content found with earlier | own | ⟨release, wrote, rest, name, was, is, rfl⟩
  · rcases archive.listed path content earlier inside with ⟨known, member, same⟩ | ⟨_, holder, among, own⟩
    · exact .inl ⟨known, more known member, same⟩
    · rcases List.mem_append.mp among with among | among
      · exact .inr ⟨inside, holder, List.mem_append_left _ among, own⟩
      · rcases List.mem_cons.mp among with rfl | among
        · rcases frame.gone path own with still | gone
          · exact .inr (mine still)
          · rw [gone] at found
            cases found
        · exact .inr ⟨inside, holder,
            List.mem_append_right _ (List.mem_cons_of_mem _ among), own⟩
  · exact .inr (mine own)
  · exact .inl (target release wrote rest name was is inside)

end Steps

end Interleavings

end Ketchup.Pdm
