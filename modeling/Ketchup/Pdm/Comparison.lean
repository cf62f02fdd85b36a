/-
**Two releases compared.**

`compareReleases` reads the lineages of two releases to their roots, says how the two stand to each
other, and lists the dependencies that only one has or that differ.

* `compareReleases_mirror`: compared the other way round, two releases give the same comparison seen
  from the other side;
* `compareReleases_true`: the relationship is the one of the parent links (`Reaches`), the common
  ancestor is the nearest one, and a dependency is listed exactly when it changed.
-/

import Ketchup.Library.Climb
import Ketchup.Pdm.Repository

namespace Ketchup.Pdm

inductive DependencyChangeKind
  | added
  | removed
  | modified
  deriving DecidableEq

structure DependencyChange where
  logicalPath : String
  kind : DependencyChangeKind
  deriving DecidableEq

inductive ReleaseRelationship
  | same
  | leftAncestor
  | rightAncestor
  | diverged (commonAncestor : String)
  | unrelated
  deriving DecidableEq

inductive ReleaseConflictVerdict
  | alreadyCurrent
  | fastForward
  | incomingBehind
  | divergedConflict
  | unrelatedConflict
  deriving DecidableEq

structure ReleaseComparison where
  leftReleaseId : String
  rightReleaseId : String
  relationship : ReleaseRelationship
  conflictVerdict : ReleaseConflictVerdict
  documentChanged : Bool
  dependencyChanges : List DependencyChange
  deriving DecidableEq

/-! ### Lineages -/

section Reading

variable [Sha256Sum] [ReleaseJson]

/-- The releases from `current` on up to its root; `remaining` more may be listed. -/
def ancestryFrom (files : Files) (documentId : Nat) :
    Nat → List String → ReleaseManifest → Except LocalPdmError (List String)
  | 0, _, _ => .error .lineageTooDeep
  | remaining + 1, ancestry, current => do
    refuseIf (current.document.documentId ≠ documentId ∨ current.releaseId ∈ ancestry) .invalidManifest
    match current.parentReleaseId with
    | none => return ancestry ++ [current.releaseId]
    | some parentReleaseId =>
      let parent ← readManifest files parentReleaseId
      ancestryFrom files documentId remaining (ancestry ++ [current.releaseId]) parent

def releaseAncestry (files : Files) (release : ReleaseManifest) : Except LocalPdmError (List String) :=
  ancestryFrom files release.document.documentId maxReleaseLineageDepth [] release

def releaseRelationship (files : Files) (left right : ReleaseManifest) :
    Except LocalPdmError ReleaseRelationship := do
  let leftAncestry ← releaseAncestry files left
  let rightAncestry ← releaseAncestry files right
  if left.releaseId ∈ rightAncestry then return .leftAncestor
  else if right.releaseId ∈ leftAncestry then return .rightAncestor
  else
    let rightIds : BTreeSet String := .ofList rightAncestry compare
    match leftAncestry.find? fun releaseId => rightIds.contains releaseId with
    | some commonAncestor => return .diverged commonAncestor
    | none => return .unrelated

/-! ### Dependencies -/

def ReleaseManifest.objectsByPath (manifest : ReleaseManifest) : BTreeMap String ReleaseObjectIdentity :=
  manifest.dependencies.foldl (fun objects dependency =>
    objects.insert dependency.logicalPath dependency.object) ∅

/-- How an object under one path changed. -/
def changeKind : Option ReleaseObjectIdentity → Option ReleaseObjectIdentity → Option DependencyChangeKind
  | none, some _ => some .added
  | some _, none => some .removed
  | some left, some right => if left ≠ right then some .modified else none
  | none, none => none

def dependencyChanges (left right : BTreeMap String ReleaseObjectIdentity) : List DependencyChange :=
  let paths : BTreeSet String := .ofList (left.keys ++ right.keys) compare
  paths.toList.filterMap fun path => (changeKind left[path]? right[path]?).map (⟨path, ·⟩)

def ReleaseRelationship.verdict : ReleaseRelationship → ReleaseConflictVerdict
  | .same => .alreadyCurrent
  | .leftAncestor => .fastForward
  | .rightAncestor => .incomingBehind
  | .diverged _ => .divergedConflict
  | .unrelated => .unrelatedConflict

def compareReleases (files : Files) (leftReleaseId rightReleaseId : String) :
    Except LocalPdmError ReleaseComparison := do
  let left ← readManifest files leftReleaseId
  let right ← readManifest files rightReleaseId
  let relationship ← (if left.releaseId = right.releaseId then do
      let _ ← releaseAncestry files left
      return .same
    else if left.document.documentId ≠ right.document.documentId then do
      let _ ← releaseAncestry files left
      let _ ← releaseAncestry files right
      return .unrelated
    else releaseRelationship files left right)
  return {
    leftReleaseId := left.releaseId
    rightReleaseId := right.releaseId
    relationship := relationship
    conflictVerdict := relationship.verdict
    documentChanged := left.document.object ≠ right.document.object ∨
      left.document.canonicalDigest ≠ right.document.canonicalDigest
    dependencyChanges := dependencyChanges left.objectsByPath right.objectsByPath }

/-! ### The other side -/

def DependencyChangeKind.mirror : DependencyChangeKind → DependencyChangeKind
  | .added => .removed
  | .removed => .added
  | .modified => .modified

def DependencyChange.mirror (change : DependencyChange) : DependencyChange :=
  ⟨change.logicalPath, change.kind.mirror⟩

def ReleaseRelationship.mirror : ReleaseRelationship → ReleaseRelationship
  | .same => .same
  | .leftAncestor => .rightAncestor
  | .rightAncestor => .leftAncestor
  | .diverged commonAncestor => .diverged commonAncestor
  | .unrelated => .unrelated

def ReleaseConflictVerdict.mirror : ReleaseConflictVerdict → ReleaseConflictVerdict
  | .alreadyCurrent => .alreadyCurrent
  | .fastForward => .incomingBehind
  | .incomingBehind => .fastForward
  | .divergedConflict => .divergedConflict
  | .unrelatedConflict => .unrelatedConflict

/-- The comparison seen from the other side. -/
def ReleaseComparison.mirror (comparison : ReleaseComparison) : ReleaseComparison where
  leftReleaseId := comparison.rightReleaseId
  rightReleaseId := comparison.leftReleaseId
  relationship := comparison.relationship.mirror
  conflictVerdict := comparison.conflictVerdict.mirror
  documentChanged := comparison.documentChanged
  dependencyChanges := comparison.dependencyChanges.map DependencyChange.mirror

omit [Sha256Sum] [ReleaseJson] in
theorem ReleaseRelationship.verdict_mirror (relationship : ReleaseRelationship) :
    relationship.mirror.verdict = relationship.verdict.mirror := by
  cases relationship <;> rfl

omit [Sha256Sum] [ReleaseJson] in
theorem ReleaseComparison.mirror_mirror (comparison : ReleaseComparison) :
    comparison.mirror.mirror = comparison := by
  obtain ⟨left, right, relationship, verdict, changed, changes⟩ := comparison
  have kinds : DependencyChange.mirror ∘ DependencyChange.mirror = id := by
    funext change
    obtain ⟨path, kind⟩ := change
    cases kind <;> rfl
  have back : (changes.map DependencyChange.mirror).map DependencyChange.mirror = changes := by
    rw [List.map_map, kinds, List.map_id]
  simp only [mirror, back, ReleaseComparison.mk.injEq, true_and, and_true]
  cases relationship <;> cases verdict <;> exact ⟨rfl, rfl⟩

omit [Sha256Sum] [ReleaseJson] in
theorem changeKind_mirror (left right : Option ReleaseObjectIdentity) :
    changeKind right left = (changeKind left right).map DependencyChangeKind.mirror := by
  cases left <;> cases right
  case some.some left right =>
    by_cases same : left = right
    · simp [changeKind, same]
    · simp [changeKind, same, Ne.symm same, DependencyChangeKind.mirror]
  all_goals rfl

omit [Sha256Sum] [ReleaseJson] in
theorem dependencyChanges_mirror (left right : BTreeMap String ReleaseObjectIdentity) :
    dependencyChanges right left = (dependencyChanges left right).map DependencyChange.mirror := by
  have paths : (Std.ExtTreeSet.ofList (right.keys ++ left.keys) compare : BTreeSet String) =
      .ofList (left.keys ++ right.keys) compare := by
    ext path
    simp [or_comm]
  simp only [dependencyChanges, paths, List.map_filterMap, Option.map_map]
  refine List.filterMap_congr fun path _ => ?_
  rw [changeKind_mirror, Option.map_map]
  rfl

/-! ### What was read -/

variable {files : Files}

/-- The parent a release names, of the releases that are read. -/
def parentIn (files : Files) (releaseId : String) : Option (Option String) :=
  (readManifest files releaseId).toOption.map ReleaseManifest.parentReleaseId

theorem parentIn_of_read {releaseId : String} {manifest : ReleaseManifest}
    (read : readManifest files releaseId = .ok manifest) :
    parentIn files releaseId = some manifest.parentReleaseId := by
  rw [parentIn, read]
  rfl

theorem readManifest_valid {releaseId : String} {manifest : ReleaseManifest}
    (read : readManifest files releaseId = .ok manifest) :
    validateManifest manifest releaseId = .ok () := by
  obtain ⟨_, _, later⟩ := bind_ok read
  obtain ⟨_, _, later⟩ := bind_ok later
  obtain ⟨_, _, later⟩ := bind_ok later
  obtain ⟨_, valid, done⟩ := bind_ok later
  cases done
  exact valid

theorem readManifest_releaseId {releaseId : String} {manifest : ReleaseManifest}
    (read : readManifest files releaseId = .ok manifest) : manifest.releaseId = releaseId := by
  obtain ⟨_, identified, _⟩ := bind_ok (readManifest_valid read)
  have named := refuseIf_ok.mp identified
  simp only [not_or, not_not] at named
  exact named.2.1

/-- The lineage of a release: up to its root, all of one document. -/
structure Lineage (files : Files) (release : ReleaseManifest) (ancestry : List String) : Prop where
  chain : Ancestry (parentIn files) (some release.releaseId) ancestry
  document : ∀ releaseId ∈ ancestry, ∃ manifest, readManifest files releaseId = .ok manifest ∧
    manifest.document.documentId = release.document.documentId

theorem ancestryFrom_ok {documentId remaining : Nat} {listed result : List String}
    {current : ReleaseManifest} (read : readManifest files current.releaseId = .ok current)
    (ok : ancestryFrom files documentId remaining listed current = .ok result) :
    ∃ chain, result = listed ++ chain ∧ Ancestry (parentIn files) (some current.releaseId) chain ∧
      (∀ releaseId ∈ chain, ∃ manifest, readManifest files releaseId = .ok manifest ∧
        manifest.document.documentId = documentId) ∧ chain.length ≤ remaining := by
  induction remaining generalizing listed current with
  | zero => cases ok
  | succ remaining ih =>
    obtain ⟨_, fits, later⟩ := bind_ok ok
    have same : current.document.documentId = documentId :=
      not_not.mp fun other => refuseIf_ok.mp fits (.inl other)
    have known := parentIn_of_read read
    rcases parent : current.parentReleaseId with _ | parentReleaseId
    · rw [parent] at later known
      cases later
      refine ⟨[current.releaseId], rfl, .link known .top, ?_, Nat.le_add_left 1 remaining⟩
      intro releaseId member
      obtain rfl := List.mem_singleton.mp member
      exact ⟨current, read, same⟩
    · rw [parent] at later known
      obtain ⟨next, nextRead, later⟩ := bind_ok later
      have named := readManifest_releaseId nextRead
      obtain ⟨chain, rfl, above, documents, enough⟩ := ih (named ▸ nextRead) later
      refine ⟨current.releaseId :: chain, ?_, .link known (named ▸ above), ?_,
        Nat.succ_le_succ enough⟩
      · rw [List.append_assoc, List.singleton_append]
      · intro releaseId member
        rcases List.mem_cons.mp member with rfl | inside
        · exact ⟨current, read, same⟩
        · exact documents releaseId inside

theorem ancestryFrom_of_ancestry {documentId remaining : Nat} {listed chain : List String}
    {current : ReleaseManifest} (read : readManifest files current.releaseId = .ok current)
    (above : Ancestry (parentIn files) (some current.releaseId) chain)
    (documents : ∀ releaseId ∈ chain, ∃ manifest, readManifest files releaseId = .ok manifest ∧
      manifest.document.documentId = documentId)
    (enough : chain.length ≤ remaining) (fresh : ∀ releaseId ∈ chain, releaseId ∉ listed) :
    ancestryFrom files documentId remaining listed current = .ok (listed ++ chain) := by
  induction remaining generalizing listed chain current with
  | zero =>
    obtain ⟨_, _, _, _, rfl⟩ := above.known_head
    cases enough
  | succ remaining ih =>
    have distinct := above.nodup
    obtain ⟨parent, rest, known, further, rfl⟩ := above.known_head
    obtain ⟨manifest, read', same⟩ := documents _ (List.mem_cons_self ..)
    obtain rfl := Except.ok.inj (read.symm.trans read')
    rw [parentIn_of_read read] at known
    obtain rfl := Option.some.inj known
    have admitted : refuseIf (current.document.documentId ≠ documentId ∨ current.releaseId ∈ listed)
        LocalPdmError.invalidManifest = .ok () := by
      refine refuseIf_ok.mpr ?_
      rw [not_or]
      exact ⟨not_not_intro same, fresh _ (List.mem_cons_self ..)⟩
    rw [ancestryFrom, admitted]
    dsimp only [bind, Except.bind]
    rcases parent : current.parentReleaseId with _ | parentReleaseId
    · rw [parent] at further
      cases further
      rfl
    · rw [parent] at further
      obtain ⟨_, _, _, _, rfl⟩ := further.known_head
      obtain ⟨next, nextRead, _⟩ :=
        documents parentReleaseId (List.mem_cons_of_mem _ (List.mem_cons_self ..))
      have named := readManifest_releaseId nextRead
      subst named
      dsimp only
      rw [nextRead]
      refine (ih nextRead further (fun other member => documents other (List.mem_cons_of_mem _ member))
        (Nat.le_of_succ_le_succ enough) fun other member again => ?_).trans ?_
      · rcases List.mem_append.mp again with earlier | here
        · exact fresh other (List.mem_cons_of_mem _ member) earlier
        · obtain rfl := List.mem_singleton.mp here
          exact (List.nodup_cons.mp distinct).1 member
      · rw [List.append_assoc, List.singleton_append]

/-- **A lineage is read where it ends** within the depth that is allowed. -/
theorem releaseAncestry_iff {release : ReleaseManifest} {ancestry : List String}
    (read : readManifest files release.releaseId = .ok release) :
    releaseAncestry files release = .ok ancestry ↔
      Lineage files release ancestry ∧ ancestry.length ≤ maxReleaseLineageDepth := by
  constructor
  · intro ok
    obtain ⟨chain, rfl, above, documents, enough⟩ := ancestryFrom_ok read ok
    exact ⟨⟨above, documents⟩, enough⟩
  · rintro ⟨⟨above, documents⟩, enough⟩
    exact ancestryFrom_of_ancestry read above documents enough fun _ _ => List.not_mem_nil

/-! ### How two lineages stand to each other -/

/-- The relationship that two lineages show. -/
def relationshipOf (left right : ReleaseManifest) (leftAncestry rightAncestry : List String) :
    ReleaseRelationship :=
  if left.releaseId = right.releaseId then .same
  else if left.document.documentId ≠ right.document.documentId then .unrelated
  else if left.releaseId ∈ rightAncestry then .leftAncestor
  else if right.releaseId ∈ leftAncestry then .rightAncestor
  else ((leftAncestry.find? fun releaseId => decide (releaseId ∈ rightAncestry)).map
    ReleaseRelationship.diverged).getD .unrelated

/-- The comparison of two manifests in a relationship. -/
def compared (left right : ReleaseManifest) (relationship : ReleaseRelationship) : ReleaseComparison where
  leftReleaseId := left.releaseId
  rightReleaseId := right.releaseId
  relationship := relationship
  conflictVerdict := relationship.verdict
  documentChanged := left.document.object ≠ right.document.object ∨
    left.document.canonicalDigest ≠ right.document.canonicalDigest
  dependencyChanges := dependencyChanges left.objectsByPath right.objectsByPath

theorem releaseRelationship_eq {left right : ReleaseManifest} {leftAncestry rightAncestry : List String}
    (apart : left.releaseId ≠ right.releaseId)
    (together : left.document.documentId = right.document.documentId)
    (isLeft : releaseAncestry files left = .ok leftAncestry)
    (isRight : releaseAncestry files right = .ok rightAncestry) :
    releaseRelationship files left right =
      .ok (relationshipOf left right leftAncestry rightAncestry) := by
  have shared : (fun releaseId => (Std.ExtTreeSet.ofList rightAncestry compare).contains releaseId) =
      fun releaseId => decide (releaseId ∈ rightAncestry) := by
    funext releaseId
    simp
  unfold releaseRelationship relationshipOf
  rw [isLeft, isRight, if_neg apart, if_neg (not_not_intro together)]
  dsimp only [bind, Except.bind]
  rw [shared]
  by_cases onRight : left.releaseId ∈ rightAncestry
  · rw [if_pos onRight, if_pos onRight]
    rfl
  · rw [if_neg onRight, if_neg onRight]
    by_cases onLeft : right.releaseId ∈ leftAncestry
    · rw [if_pos onLeft, if_pos onLeft]
      rfl
    · rw [if_neg onLeft, if_neg onLeft]
      rcases leftAncestry.find? _ <;> rfl

/-- **What a comparison is made of.** -/
theorem compareReleases_iff {leftReleaseId rightReleaseId : String} {comparison : ReleaseComparison} :
    compareReleases files leftReleaseId rightReleaseId = .ok comparison ↔
      ∃ left right leftAncestry rightAncestry, readManifest files leftReleaseId = .ok left ∧
        readManifest files rightReleaseId = .ok right ∧
        releaseAncestry files left = .ok leftAncestry ∧ releaseAncestry files right = .ok rightAncestry ∧
        comparison = compared left right (relationshipOf left right leftAncestry rightAncestry) := by
  constructor
  · intro ok
    obtain ⟨left, leftRead, later⟩ := bind_ok ok
    obtain ⟨right, rightRead, later⟩ := bind_ok later
    obtain ⟨relationship, related, done⟩ := bind_ok later
    obtain rfl : compared left right relationship = comparison := Except.ok.inj done
    split at related
    case isTrue same =>
      obtain ⟨ancestry, isLeft, done⟩ := bind_ok related
      cases done
      have leftName := readManifest_releaseId leftRead
      have rightName := readManifest_releaseId rightRead
      rw [leftName, rightName] at same
      obtain rfl : left = right := Except.ok.inj (leftRead.symm.trans (same ▸ rightRead))
      exact ⟨left, left, ancestry, ancestry, leftRead, rightRead, isLeft, isLeft,
        by rw [relationshipOf, if_pos rfl]⟩
    case isFalse apart =>
      split at related
      case isTrue other =>
        obtain ⟨leftAncestry, isLeft, related⟩ := bind_ok related
        obtain ⟨rightAncestry, isRight, done⟩ := bind_ok related
        cases done
        exact ⟨left, right, leftAncestry, rightAncestry, leftRead, rightRead, isLeft, isRight,
          by rw [relationshipOf, if_neg apart, if_pos other]⟩
      case isFalse together =>
        obtain ⟨leftAncestry, isLeft, both⟩ := bind_ok related
        obtain ⟨rightAncestry, isRight, _⟩ := bind_ok both
        rw [releaseRelationship_eq apart (not_not.mp together) isLeft isRight] at related
        exact ⟨left, right, leftAncestry, rightAncestry, leftRead, rightRead, isLeft, isRight,
          by rw [Except.ok.inj related]⟩
  · rintro ⟨left, right, leftAncestry, rightAncestry, leftRead, rightRead, isLeft, isRight, rfl⟩
    unfold compareReleases
    rw [leftRead, rightRead]
    dsimp only [bind, Except.bind]
    by_cases same : left.releaseId = right.releaseId
    · rw [if_pos same, isLeft, relationshipOf, if_pos same]
      rfl
    · rw [if_neg same]
      by_cases together : left.document.documentId = right.document.documentId
      · rw [if_neg (not_not_intro together), releaseRelationship_eq same together isLeft isRight]
        rfl
      · rw [if_pos together, isLeft, isRight, relationshipOf, if_neg same, if_pos together]
        rfl

/-- What a relationship says of the parent links. -/
def Stands (files : Files) (left right : String) : ReleaseRelationship → Prop
  | .same => left = right
  | .leftAncestor => left ≠ right ∧ Reaches (parentIn files) right left
  | .rightAncestor => left ≠ right ∧ Reaches (parentIn files) left right
  | .diverged commonAncestor => ¬Reaches (parentIn files) left right ∧
      ¬Reaches (parentIn files) right left ∧ NearestCommon (parentIn files) left right commonAncestor
  | .unrelated => ¬∃ releaseId, Reaches (parentIn files) left releaseId ∧
      Reaches (parentIn files) right releaseId

theorem Stands.mirror {left right : String} {relationship : ReleaseRelationship}
    (stands : Stands files left right relationship) : Stands files right left relationship.mirror := by
  cases relationship with
  | same => exact stands.symm
  | leftAncestor => exact ⟨Ne.symm stands.1, stands.2⟩
  | rightAncestor => exact ⟨Ne.symm stands.1, stands.2⟩
  | diverged commonAncestor => exact ⟨stands.2.1, stands.1, stands.2.2.symm⟩
  | unrelated => exact fun ⟨releaseId, onRight, onLeft⟩ => stands ⟨releaseId, onLeft, onRight⟩

section Lineages

variable {left right : ReleaseManifest} {leftAncestry rightAncestry : List String}

/-- **Two releases stand to each other in one way.** -/
theorem Stands.unique (leftLineage : Lineage files left leftAncestry)
    (rightLineage : Lineage files right rightAncestry) {one two : ReleaseRelationship}
    (first : Stands files left.releaseId right.releaseId one)
    (second : Stands files left.releaseId right.releaseId two) : one = two := by
  have self (releaseId : String) : Reaches (parentIn files) releaseId releaseId := .refl
  have antisymm (onRight : Reaches (parentIn files) left.releaseId right.releaseId)
      (onLeft : Reaches (parentIn files) right.releaseId left.releaseId) :
      left.releaseId = right.releaseId :=
    leftLineage.chain.antisymm rightLineage.chain (leftLineage.chain.mem_iff.mpr onRight)
      (rightLineage.chain.mem_iff.mpr onLeft)
  have nearest (releaseId other : String)
      (isNearest : NearestCommon (parentIn files) left.releaseId right.releaseId releaseId)
      (isNearest' : NearestCommon (parentIn files) left.releaseId right.releaseId other) :
      releaseId = other :=
    Option.some.inj (((leftLineage.chain.find_iff_nearest rightLineage.chain).mpr isNearest).symm.trans
      ((leftLineage.chain.find_iff_nearest rightLineage.chain).mpr isNearest'))
  have common (releaseId : String)
      (isNearest : NearestCommon (parentIn files) left.releaseId right.releaseId releaseId) :=
    (⟨isNearest.onOne, isNearest.onTwo⟩ : Reaches (parentIn files) left.releaseId releaseId ∧
      Reaches (parentIn files) right.releaseId releaseId)
  cases one <;> cases two <;> grind [Stands]

/-- **The relationship of two lineages is the one of the parent links.** -/
theorem relationshipOf_stands (leftLineage : Lineage files left leftAncestry)
    (rightLineage : Lineage files right rightAncestry) :
    Stands files left.releaseId right.releaseId
      (relationshipOf left right leftAncestry rightAncestry) := by
  have onLeft (releaseId : String) : releaseId ∈ leftAncestry ↔
      Reaches (parentIn files) left.releaseId releaseId := leftLineage.chain.mem_iff
  have onRight (releaseId : String) : releaseId ∈ rightAncestry ↔
      Reaches (parentIn files) right.releaseId releaseId := rightLineage.chain.mem_iff
  unfold relationshipOf
  split
  case isTrue same => exact same
  case isFalse apart =>
    split
    case isTrue documents =>
      rintro ⟨releaseId, below, beside⟩
      obtain ⟨manifest, read, ofLeft⟩ := leftLineage.document releaseId ((onLeft _).mpr below)
      obtain ⟨manifest', read', ofRight⟩ := rightLineage.document releaseId ((onRight _).mpr beside)
      obtain rfl := Except.ok.inj (read.symm.trans read')
      exact documents (ofLeft.symm.trans ofRight)
    case isFalse =>
      split
      case isTrue member => exact ⟨apart, (onRight _).mp member⟩
      case isFalse offRight =>
        split
        case isTrue member => exact ⟨apart, (onLeft _).mp member⟩
        case isFalse offLeft =>
          rcases found : leftAncestry.find? fun releaseId => decide (releaseId ∈ rightAncestry)
            with _ | commonAncestor
          · exact (leftLineage.chain.find_none_iff rightLineage.chain).mp found
          · exact ⟨mt (onLeft _).mpr offLeft, mt (onRight _).mpr offRight,
              (leftLineage.chain.find_iff_nearest rightLineage.chain).mp found⟩

end Lineages

/-! ### Which dependencies changed -/

omit [Sha256Sum] [ReleaseJson] in
theorem foldlM_checkDependency_ordered {dependencies : List ReleasedDependency}
    {before after : DependencyCheck} (ok : dependencies.foldlM checkDependency before = .ok after) :
    (∀ path ∈ before.previous, ∀ dependency ∈ dependencies,
        compare path dependency.logicalPath = .lt) ∧
      dependencies.Pairwise fun left right => compare left.logicalPath right.logicalPath = .lt := by
  induction dependencies generalizing before with
  | nil => exact ⟨fun _ _ _ member => absurd member List.not_mem_nil, .nil⟩
  | cons dependency rest ih =>
    rw [List.foldlM_cons] at ok
    obtain ⟨next, checked, others⟩ := bind_ok ok
    obtain ⟨_, _, later⟩ := bind_ok checked
    obtain ⟨_, _, later⟩ := bind_ok later
    obtain ⟨_, _, later⟩ := bind_ok later
    obtain ⟨_, follows, done⟩ := bind_ok later
    cases done
    obtain ⟨first, ordered⟩ := ih others
    have here := first dependency.logicalPath rfl
    refine ⟨fun path is other member => ?_, List.pairwise_cons.mpr ⟨here, ordered⟩⟩
    have next : compare path dependency.logicalPath = .lt :=
      not_not.mp fun wrong => refuseIf_ok.mp follows ⟨path, is, wrong⟩
    rcases List.mem_cons.mp member with rfl | inside
    · exact next
    · exact Std.TransCmp.lt_trans next (here other inside)

/-- A manifest that is read names each path once. -/
theorem objects_getElem? {releaseId : String} {manifest : ReleaseManifest}
    (read : readManifest files releaseId = .ok manifest) {path : String} {object : ReleaseObjectIdentity} :
    manifest.objectsByPath[path]? = some object ↔ ⟨path, object⟩ ∈ manifest.dependencies := by
  obtain ⟨_, _, later⟩ := bind_ok (readManifest_valid read)
  obtain ⟨_, _, later⟩ := bind_ok later
  obtain ⟨_, _, later⟩ := bind_ok later
  obtain ⟨_, _, later⟩ := bind_ok later
  obtain ⟨_, checked, _⟩ := bind_ok later
  have ordered := (foldlM_checkDependency_ordered checked).2
  have distinct : (manifest.dependencies.map ReleasedDependency.logicalPath).Nodup := by
    refine List.pairwise_map.mpr (ordered.imp fun less same => ?_)
    rw [same] at less
    cases less.symm.trans Std.ReflCmp.compare_self
  have once : ∀ one ∈ manifest.dependencies, ∀ two ∈ manifest.dependencies,
      one.logicalPath = two.logicalPath → one = two :=
    fun one isOne two isTwo => List.inj_on_of_nodup_map distinct isOne isTwo
  constructor
  · intro held
    by_cases named : ∃ dependency ∈ manifest.dependencies, dependency.logicalPath = path
    · obtain ⟨dependency, member, rfl⟩ := named
      rw [ReleaseManifest.objectsByPath, BTreeMap.getElem?_foldl_insert once member] at held
      obtain rfl := Option.some.inj held
      exact member
    · have absent : manifest.objectsByPath[path]? = none := by
        rw [ReleaseManifest.objectsByPath, BTreeMap.getElem?_foldl_insert_other
          fun dependency member is => named ⟨dependency, member, is⟩]
        exact Std.ExtTreeMap.getElem?_empty
      rw [absent] at held
      cases held
  · intro member
    exact BTreeMap.getElem?_foldl_insert once member

/-- A dependency changed between two manifests. -/
def Changed (left right : ReleaseManifest) (change : DependencyChange) : Prop :=
  match change.kind with
  | .added => (∃ object, ⟨change.logicalPath, object⟩ ∈ right.dependencies) ∧
      ∀ object, ⟨change.logicalPath, object⟩ ∉ left.dependencies
  | .removed => (∃ object, ⟨change.logicalPath, object⟩ ∈ left.dependencies) ∧
      ∀ object, ⟨change.logicalPath, object⟩ ∉ right.dependencies
  | .modified => ∃ one two, ⟨change.logicalPath, one⟩ ∈ left.dependencies ∧
      ⟨change.logicalPath, two⟩ ∈ right.dependencies ∧ one ≠ two

omit [Sha256Sum] [ReleaseJson] in
theorem mem_dependencyChanges {left right : BTreeMap String ReleaseObjectIdentity}
    {change : DependencyChange} : change ∈ dependencyChanges left right ↔
      changeKind left[change.logicalPath]? right[change.logicalPath]? = some change.kind := by
  obtain ⟨path, kind⟩ := change
  simp only [dependencyChanges, List.mem_filterMap, Option.map_eq_some_iff, DependencyChange.mk.injEq]
  constructor
  · rintro ⟨other, _, found, is, rfl, rfl⟩
    exact is
  · intro is
    refine ⟨path, ?_, kind, is, rfl, rfl⟩
    have there : path ∈ left ∨ path ∈ right := by
      rw [BTreeMap.mem_iff_exists, BTreeMap.mem_iff_exists]
      rcases one : left[path]? with _ | object
      · rcases two : right[path]? with _ | object
        · rw [one, two] at is
          cases is
        · exact .inr ⟨object, rfl⟩
      · exact .inl ⟨object, rfl⟩
    simpa using there

omit [Sha256Sum] [ReleaseJson] in
/-- The changes are listed in the order of their paths, each path once. -/
theorem dependencyChanges_ordered (left right : BTreeMap String ReleaseObjectIdentity) :
    (dependencyChanges left right).Pairwise fun one two =>
      compare one.logicalPath two.logicalPath = .lt := by
  refine List.Pairwise.filterMap _ (fun one two less change is other is' => ?_)
    Std.ExtTreeSet.ordered_toList
  obtain ⟨_, _, rfl⟩ := Option.map_eq_some_iff.mp is
  obtain ⟨_, _, rfl⟩ := Option.map_eq_some_iff.mp is'
  exact less

theorem mem_dependencyChanges_iff {leftReleaseId rightReleaseId : String} {left right : ReleaseManifest}
    (leftRead : readManifest files leftReleaseId = .ok left)
    (rightRead : readManifest files rightReleaseId = .ok right) {change : DependencyChange} :
    change ∈ dependencyChanges left.objectsByPath right.objectsByPath ↔ Changed left right change := by
  have inLeft (object : ReleaseObjectIdentity) : left.objectsByPath[change.logicalPath]? = some object ↔
      ⟨change.logicalPath, object⟩ ∈ left.dependencies := objects_getElem? leftRead
  have inRight (object : ReleaseObjectIdentity) : right.objectsByPath[change.logicalPath]? = some object ↔
      ⟨change.logicalPath, object⟩ ∈ right.dependencies := objects_getElem? rightRead
  rw [mem_dependencyChanges]
  unfold Changed
  simp only [← inLeft, ← inRight]
  generalize left.objectsByPath[change.logicalPath]? = one
  generalize right.objectsByPath[change.logicalPath]? = two
  rcases change.kind <;> rcases one with _ | one <;> rcases two with _ | two <;> simp [changeKind]

/-! ### Comparisons -/

/-- What a comparison of two releases says is so. -/
structure TrueComparison (files : Files) (leftReleaseId rightReleaseId : String)
    (comparison : ReleaseComparison) : Prop where
  left : comparison.leftReleaseId = leftReleaseId
  right : comparison.rightReleaseId = rightReleaseId
  relationship : ∀ relationship, comparison.relationship = relationship ↔
    Stands files leftReleaseId rightReleaseId relationship
  verdict : comparison.conflictVerdict = comparison.relationship.verdict
  changes : ∃ left right, readManifest files leftReleaseId = .ok left ∧
    readManifest files rightReleaseId = .ok right ∧
    (comparison.documentChanged = true ↔ left.document.object ≠ right.document.object ∨
      left.document.canonicalDigest ≠ right.document.canonicalDigest) ∧
    ∀ change, change ∈ comparison.dependencyChanges ↔ Changed left right change
  ordered : comparison.dependencyChanges.Pairwise fun one two =>
    compare one.logicalPath two.logicalPath = .lt

theorem compareReleases_true {leftReleaseId rightReleaseId : String} {comparison : ReleaseComparison}
    (ok : compareReleases files leftReleaseId rightReleaseId = .ok comparison) :
    TrueComparison files leftReleaseId rightReleaseId comparison := by
  obtain ⟨left, right, leftAncestry, rightAncestry, leftRead, rightRead, isLeft, isRight, rfl⟩ :=
    compareReleases_iff.mp ok
  obtain rfl := readManifest_releaseId leftRead
  obtain rfl := readManifest_releaseId rightRead
  have leftLineage := ((releaseAncestry_iff leftRead).mp isLeft).1
  have rightLineage := ((releaseAncestry_iff rightRead).mp isRight).1
  have stands := relationshipOf_stands leftLineage rightLineage
  refine ⟨rfl, rfl, fun relationship => ⟨?_, stands.unique leftLineage rightLineage⟩, rfl,
    ⟨left, right, leftRead, rightRead, decide_eq_true_iff, fun change =>
      mem_dependencyChanges_iff leftRead rightRead⟩, dependencyChanges_ordered ..⟩
  rintro rfl
  exact stands

theorem compareReleases_mirror {leftReleaseId rightReleaseId : String} {comparison : ReleaseComparison}
    (ok : compareReleases files leftReleaseId rightReleaseId = .ok comparison) :
    compareReleases files rightReleaseId leftReleaseId = .ok comparison.mirror := by
  obtain ⟨left, right, leftAncestry, rightAncestry, leftRead, rightRead, isLeft, isRight, rfl⟩ :=
    compareReleases_iff.mp ok
  refine compareReleases_iff.mpr
    ⟨right, left, rightAncestry, leftAncestry, rightRead, leftRead, isRight, isLeft, ?_⟩
  obtain rfl := readManifest_releaseId leftRead
  obtain rfl := readManifest_releaseId rightRead
  have leftLineage := ((releaseAncestry_iff leftRead).mp isLeft).1
  have rightLineage := ((releaseAncestry_iff rightRead).mp isRight).1
  have back : relationshipOf right left rightAncestry leftAncestry =
      (relationshipOf left right leftAncestry rightAncestry).mirror :=
    (relationshipOf_stands rightLineage leftLineage).unique rightLineage leftLineage
      (relationshipOf_stands leftLineage rightLineage).mirror
  have changed : (right.document.object ≠ left.document.object ∨
      right.document.canonicalDigest ≠ left.document.canonicalDigest) ↔
      (left.document.object ≠ right.document.object ∨
        left.document.canonicalDigest ≠ right.document.canonicalDigest) := by
    simp only [ne_comm]
  rw [back]
  unfold compared ReleaseComparison.mirror
  rw [ReleaseRelationship.verdict_mirror, dependencyChanges_mirror left.objectsByPath]
  simp only [changed]

/-- Two releases can be compared where the lineage of each ends within the depth that is allowed. -/
theorem compareReleases_ok_iff {leftReleaseId rightReleaseId : String} :
    (∃ comparison, compareReleases files leftReleaseId rightReleaseId = .ok comparison) ↔
      ∀ releaseId ∈ [leftReleaseId, rightReleaseId], ∃ release ancestry,
        readManifest files releaseId = .ok release ∧ Lineage files release ancestry ∧
          ancestry.length ≤ maxReleaseLineageDepth := by
  have read_iff (releaseId : String) (release : ReleaseManifest) (ancestry : List String)
      (read : readManifest files releaseId = .ok release) :
      releaseAncestry files release = .ok ancestry ↔
        Lineage files release ancestry ∧ ancestry.length ≤ maxReleaseLineageDepth := by
    obtain rfl := readManifest_releaseId read
    exact releaseAncestry_iff read
  simp only [List.forall_mem_cons, List.not_mem_nil, false_implies, implies_true, and_true]
  constructor
  · rintro ⟨comparison, ok⟩
    obtain ⟨left, right, leftAncestry, rightAncestry, leftRead, rightRead, isLeft, isRight, _⟩ :=
      compareReleases_iff.mp ok
    exact ⟨⟨left, leftAncestry, leftRead, (read_iff _ _ _ leftRead).mp isLeft⟩,
      ⟨right, rightAncestry, rightRead, (read_iff _ _ _ rightRead).mp isRight⟩⟩
  · rintro ⟨⟨left, leftAncestry, leftRead, isLeft⟩, ⟨right, rightAncestry, rightRead, isRight⟩⟩
    exact ⟨_, compareReleases_iff.mpr ⟨left, right, leftAncestry, rightAncestry, leftRead, rightRead,
      (read_iff _ _ _ leftRead).mpr isLeft, (read_iff _ _ _ rightRead).mpr isRight, rfl⟩⟩

/-- **A comparison is the same from both sides, and true of the forest of releases**; there is one where
the lineages end within the depth that is allowed. -/
theorem comparison_mirrored_and_true (files : Files) (leftReleaseId rightReleaseId : String) :
    (∀ comparison, compareReleases files leftReleaseId rightReleaseId = .ok comparison ↔
      compareReleases files rightReleaseId leftReleaseId = .ok comparison.mirror) ∧
    (∀ comparison, compareReleases files leftReleaseId rightReleaseId = .ok comparison →
      TrueComparison files leftReleaseId rightReleaseId comparison) ∧
    ((∃ comparison, compareReleases files leftReleaseId rightReleaseId = .ok comparison) ↔
      ∀ releaseId ∈ [leftReleaseId, rightReleaseId], ∃ release ancestry,
        readManifest files releaseId = .ok release ∧ Lineage files release ancestry ∧
          ancestry.length ≤ maxReleaseLineageDepth) := by
  refine ⟨fun comparison => ⟨compareReleases_mirror, fun back => ?_⟩, fun comparison =>
    compareReleases_true, compareReleases_ok_iff⟩
  rw [← comparison.mirror_mirror]
  exact compareReleases_mirror back

end Reading

end Ketchup.Pdm
