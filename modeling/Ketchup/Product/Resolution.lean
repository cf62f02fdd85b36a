/-
**The scene against its paths.**

The path of a part resolves to where the scene has it (`Reaches`), each path to a part is of a part in the
scene (`exists_part_of_resolves`), and no two parts have one path (`nodup_paths`).
-/

import Ketchup.Product.Listing

set_option linter.unusedSectionVars false

namespace Ketchup.Product

variable {R : Type} [Add R] [Mul R] [Zero R] [One R]

/-! ### Steps of a path -/

/-- A walk that has come to an owner and on into some of its groups, the last one first. -/
structure InGroups (product : ProductModel R) (owner : SceneOccurrence R) (lineage : List LocalGroupId)
    (cursor : InstanceCursor R) : Prop where
  definition : cursor.definitionId = owner.definitionId
  path : cursor.resolvedPath =
    ⟨owner.instancePath.root, owner.instancePath.steps ++ lineage.reverse.map .group⟩
  transform : cursor.transform =
    product.localGroupWorld owner.definitionId owner.transform lineage
  ancestry : Ancestry (product.localGroupParent owner.definitionId) cursor.parent lineage

theorem localGroupWorld_cons {product : ProductModel R} {definitionId : DefinitionId}
    {start : Transform R} {id : LocalGroupId} {lineage : List LocalGroupId} :
    product.localGroupWorld definitionId start (id :: lineage) =
      (product.localGroupWorld definitionId start lineage).compose
        (product.localPlacement definitionId id) := by
  rw [ProductModel.localGroupWorld, List.reverse_cons, List.foldl_append]
  rfl

theorem resolveStep_group_ok_iff {product : ProductModel R} {cursor next : InstanceCursor R}
    {id : LocalGroupId} :
    resolveStep product cursor (.group id) = .ok next ↔
      ∃ group, product.localGroups[(⟨cursor.definitionId, id⟩ : LocalGroupKey)]? = some group ∧
        group.parent = cursor.parent ∧
        next = { cursor with
          resolvedPath := cursor.resolvedPath.withStep (.group id)
          parentWorldTransform := cursor.transform
          localTransform := group.transform
          transform := cursor.transform.compose group.transform
          parent := some id } := by
  rw [resolveStep]
  cases found : product.localGroups[(⟨cursor.definitionId, id⟩ : LocalGroupKey)]? with
  | none => exact ⟨nofun, fun ⟨_, isThere, _⟩ => nomatch isThere⟩
  | some group =>
    by_cases same : group.parent = cursor.parent
    · simp only [ne_eq, same, not_true_eq_false, if_false, Except.ok.injEq, Option.some.injEq]
      exact ⟨fun is => ⟨group, rfl, same, is.symm⟩, fun ⟨_, is, _, isNext⟩ => is ▸ isNext.symm⟩
    · simp only [ne_eq, same, not_false_eq_true, if_true, Option.some.injEq]
      exact ⟨nofun, fun ⟨_, is, parent, _⟩ => absurd (is ▸ parent) same⟩

theorem resolveStep_occurrence_ok_iff {product : ProductModel R} {cursor next : InstanceCursor R}
    {id : LocalOccurrenceId} :
    resolveStep product cursor (.occurrence id) = .ok next ↔
      ∃ occurrence,
        product.localOccurrences[(⟨cursor.definitionId, id⟩ : LocalOccurrenceKey)]? = some occurrence ∧
        occurrence.parent = cursor.parent ∧
        next = {
          definitionId := occurrence.definitionId
          localTransform := (product.instanceTransformOverrides[
            cursor.resolvedPath.withStep (.occurrence id)]?).getD occurrence.transform
          parentWorldTransform := cursor.transform
          transform := cursor.transform.compose ((product.instanceTransformOverrides[
            cursor.resolvedPath.withStep (.occurrence id)]?).getD occurrence.transform)
          resolvedPath := cursor.resolvedPath.withStep (.occurrence id)
          parent := none } := by
  rw [resolveStep]
  cases found : product.localOccurrences[(⟨cursor.definitionId, id⟩ : LocalOccurrenceKey)]? with
  | none => exact ⟨nofun, fun ⟨_, isThere, _⟩ => nomatch isThere⟩
  | some occurrence =>
    by_cases same : occurrence.parent = cursor.parent
    · simp only [ne_eq, same, not_true_eq_false, if_false, Except.ok.injEq, Option.some.injEq]
      exact ⟨fun is => ⟨occurrence, rfl, same, is.symm⟩, fun ⟨_, is, _, isNext⟩ => is ▸ isNext.symm⟩
    · simp only [ne_eq, same, not_false_eq_true, if_true, Option.some.injEq]
      exact ⟨nofun, fun ⟨_, is, parent, _⟩ => absurd (is ▸ parent) same⟩

/-- A step into a group goes down the lineage. -/
theorem InGroups.group {product : ProductModel R} {owner : SceneOccurrence R}
    {lineage : List LocalGroupId} {cursor next : InstanceCursor R}
    (inGroups : InGroups product owner lineage cursor) {id : LocalGroupId}
    (ok : resolveStep product cursor (.group id) = .ok next) :
    InGroups product owner (id :: lineage) next := by
  obtain ⟨group, found, parent, rfl⟩ := resolveStep_group_ok_iff.mp ok
  rw [inGroups.definition] at found
  have placement : product.localPlacement owner.definitionId id = group.transform := by
    rw [ProductModel.localPlacement, found]
    rfl
  refine ⟨inGroups.definition, ?_, ?_, .link ?_ inGroups.ancestry⟩
  · rw [InstancePath.withStep, inGroups.path, List.reverse_cons, List.map_append, List.map_singleton,
      List.append_assoc]
  · rw [localGroupWorld_cons, placement, ← inGroups.transform]
  · rw [ProductModel.localGroupParent, found, Option.map_some, parent]

/-- A step to an occurrence comes to its part. -/
theorem InGroups.occurrence {product : ProductModel R} (sound : Structured product)
    {owner : SceneOccurrence R} {lineage : List LocalGroupId} {cursor next : InstanceCursor R}
    (inGroups : InGroups product owner lineage cursor) {id : LocalOccurrenceId}
    (ok : resolveStep product cursor (.occurrence id) = .ok next) :
    ∃ entry, IsLocalPart product owner id entry ∧ InGroups product entry [] next ∧
      entry.instancePath = owner.instancePath.through lineage.reverse id := by
  obtain ⟨occurrence, found, parent, rfl⟩ := resolveStep_occurrence_ok_iff.mp ok
  rw [inGroups.definition] at found
  obtain ⟨-, there, -⟩ := sound.localOccurrence _ _ found
  obtain ⟨definition, isDefinition⟩ := BTreeMap.mem_iff_exists.mp there
  have ancestry := inGroups.ancestry
  rw [← parent] at ancestry
  have path : cursor.resolvedPath.withStep (.occurrence id) =
      owner.instancePath.through lineage.reverse id := by
    rw [inGroups.path]
    rfl
  refine ⟨_, .intro found isDefinition ancestry, ⟨rfl, ?_, ?_, .top⟩, rfl⟩
  · rw [path, List.reverse_nil, List.map_nil, List.append_nil]
    rfl
  · rw [path, inGroups.transform]
    rfl

/-- A step into the next group of a lineage. -/
theorem InGroups.enter {product : ProductModel R} {owner : SceneOccurrence R}
    {lineage : List LocalGroupId} {cursor : InstanceCursor R}
    (inGroups : InGroups product owner lineage cursor) {id : LocalGroupId}
    (isParent : product.localGroupParent owner.definitionId id = some cursor.parent) :
    ∃ next, resolveStep product cursor (.group id) = .ok next ∧ next.parent = some id := by
  obtain ⟨group, found, parent⟩ := Option.map_eq_some_iff.mp isParent
  rw [← inGroups.definition] at found
  exact ⟨_, resolveStep_group_ok_iff.mpr ⟨group, found, parent, rfl⟩, rfl⟩

/-- **A lineage is followed** from its top down to the group below. -/
theorem resolve_lineage {product : ProductModel R} {owner : SceneOccurrence R}
    {start : InstanceCursor R} (atOwner : InGroups product owner [] start)
    {cursor : Option LocalGroupId} {lineage : List LocalGroupId}
    (ancestry : Ancestry (product.localGroupParent owner.definitionId) cursor lineage) :
    ∃ reached, (lineage.reverse.map InstancePathStep.group).foldlM (resolveStep product) start =
      .ok reached ∧ InGroups product owner lineage reached ∧ reached.parent = cursor := by
  induction ancestry with
  | top =>
    have atTop := atOwner.ancestry
    refine ⟨start, rfl, atOwner, ?_⟩
    generalize start.parent = parent at atTop
    cases atTop
    rfl
  | @link id parent rest known above ih =>
    obtain ⟨reached, walked, inGroups, rfl⟩ := ih
    obtain ⟨next, isNext, isParent⟩ := inGroups.enter known
    refine ⟨next, ?_, inGroups.group isNext, isParent⟩
    rw [List.reverse_cons, List.map_append, List.foldlM_append, walked]
    exact bind_eq_of_ok isNext

/-! ### The path of a part -/

theorem worldTransformForGroup_eq {product : ProductModel R} {id : GroupId} {lineage : List GroupId}
    (ancestry : Ancestry product.groupParent (some id) lineage) :
    worldTransformForGroup product id = .ok (product.groupWorld lineage) := by
  have known := ancestry.length_le groupParent_listed
  rw [Std.ExtTreeMap.length_keys] at known
  have climbed : climb (fun _ _ => .ok ()) product.groupParent
      (fun _ => Fault.error CanonicalError.invalidInstancePath) .hang (product.groups.size + 1) []
      (some id) = .ok lineage :=
    climb_of_ancestry ancestry (Nat.le_succ_of_le known) fun _ _ _ _ => rfl
  exact (bind_eq_of_ok climbed).trans (composeAlong_eq (groupTransform_eq ancestry) _)

theorem parentWorldTransform_eq {product : ProductModel R} {parent : Option GroupId}
    {lineage : List GroupId} (ancestry : Ancestry product.groupParent parent lineage) :
    parentWorldTransform product parent = .ok (product.groupWorld lineage) := by
  cases parent with
  | none =>
    cases ancestry
    rfl
  | some above => exact worldTransformForGroup_eq ancestry

/-- Where the walk along a path starts: at the part of its root. -/
theorem resolveRoot_eq {product : ProductModel R} {id : OccurrenceId} {occurrence : Occurrence R}
    {lineage : List GroupId} (found : product.occurrences[id]? = some occurrence)
    (ancestry : Ancestry product.groupParent occurrence.parent lineage) :
    resolveRoot product id = .ok {
      definitionId := occurrence.definitionId
      localTransform := occurrence.transform
      parentWorldTransform := product.groupWorld lineage
      transform := (product.groupWorld lineage).compose occurrence.transform
      resolvedPath := ⟨id, []⟩
      parent := none } := by
  rw [resolveRoot, found]
  exact bind_eq_of_ok (parentWorldTransform_eq ancestry)

/-- One part is at a local id of an owner. -/
theorem IsLocalPart.unique {product : ProductModel R} {owner one two : SceneOccurrence R}
    {id : LocalOccurrenceId} (isOne : IsLocalPart product owner id one)
    (isTwo : IsLocalPart product owner id two) : one = two := by
  obtain ⟨found, isDefinition, ancestry⟩ := isOne
  obtain ⟨found', isDefinition', ancestry'⟩ := isTwo
  obtain rfl := Option.some.inj (found.symm.trans found')
  obtain rfl := Option.some.inj (isDefinition.symm.trans isDefinition')
  rw [ancestry.unique ancestry']

theorem IsRootPart.unique {product : ProductModel R} {one two : SceneOccurrence R} {id : OccurrenceId}
    (isOne : IsRootPart product id one) (isTwo : IsRootPart product id two) : one = two := by
  obtain ⟨found, isDefinition, ancestry⟩ := isOne
  obtain ⟨found', isDefinition', ancestry'⟩ := isTwo
  obtain rfl := Option.some.inj (found.symm.trans found')
  obtain rfl := Option.some.inj (isDefinition.symm.trans isDefinition')
  rw [ancestry.unique ancestry']

/-- The walk along the path of a part comes to the part. -/
def Reaches (product : ProductModel R) (entry : SceneOccurrence R) : Prop :=
  ∃ start reached, resolveRoot product entry.instancePath.root = .ok start ∧
    entry.instancePath.steps.foldlM (resolveStep product) start = .ok reached ∧
    InGroups product entry [] reached

theorem IsRootPart.reaches {product : ProductModel R} {id : OccurrenceId} {entry : SceneOccurrence R}
    (isPart : IsRootPart product id entry) : Reaches product entry := by
  obtain ⟨found, -, ancestry⟩ := isPart
  exact ⟨_, _, resolveRoot_eq found ancestry, rfl, rfl, rfl, rfl, .top⟩

theorem IsLocalPart.reaches {product : ProductModel R} (sound : Structured product)
    {owner entry : SceneOccurrence R} {id : LocalOccurrenceId} (isOwner : Reaches product owner)
    (isPart : IsLocalPart product owner id entry) : Reaches product entry := by
  obtain ⟨start, atOwner, isRoot, walked, inOwner⟩ := isOwner
  have isEntry := isPart
  obtain ⟨found, isDefinition, ancestry⟩ := isPart
  rename_i occurrence definition lineage
  obtain ⟨atGroups, inside, inGroups, parent⟩ := resolve_lineage inOwner ancestry
  have next : ∃ next, resolveStep product atGroups (.occurrence id) = .ok next := by
    refine ⟨_, resolveStep_occurrence_ok_iff.mpr ⟨occurrence, ?_, parent.symm, rfl⟩⟩
    rw [inGroups.definition, found]
  obtain ⟨reached, isNext⟩ := next
  obtain ⟨other, isOther, atEntry, -⟩ := inGroups.occurrence sound isNext
  obtain rfl := isEntry.unique isOther
  refine ⟨start, reached, isRoot, ?_, atEntry⟩
  have path : (localEntry product owner id occurrence definition lineage
      (product.localGroupWorld owner.definitionId owner.transform lineage)).instancePath.steps =
        owner.instancePath.steps ++ (lineage.reverse.map .group ++ [.occurrence id]) := by
    rw [← List.append_assoc]
    rfl
  rw [path, List.foldlM_append, bind_eq_of_ok walked, List.foldlM_append, bind_eq_of_ok inside]
  exact bind_eq_of_ok isNext

/-! ### The part of a path -/

/-- What is inside the parts listed is listed. -/
theorem PartsBelow.closed {product : ProductModel R} (sound : Structured product)
    {owner : SceneOccurrence R} {ids : List LocalOccurrenceId} {entries : List (SceneOccurrence R)}
    (below : PartsBelow product owner ids entries) :
    (∀ id ∈ ids, ∀ entry, IsLocalPart product owner id entry → entry ∈ entries) ∧
      ∀ other ∈ entries, ∀ id entry, IsLocalPart product other id entry → entry ∈ entries := by
  induction below with
  | none => exact ⟨nofun, nofun⟩
  | @part owner entry localId definition rest inner others isPart isDefinition _ _ ihInner ihOthers =>
    constructor
    · intro id member other isOther
      rcases List.mem_cons.mp member with rfl | later
      · rw [isOther.unique isPart]
        exact List.mem_cons_self ..
      · exact List.mem_append_right _ (ihOthers.1 id later other isOther)
    · intro other member id found isFound
      rcases List.mem_append.mp member with first | later
      · refine List.mem_append_left _ (List.mem_cons_of_mem _ ?_)
        rcases List.mem_cons.mp first with rfl | inside
        · refine ihInner.1 id ?_ found isFound
          obtain ⟨isThere, -, -⟩ := isFound
          obtain ⟨definition', isDefinition', listed⟩ :=
            lists_iff.mp (sound.localOccurrence _ _ isThere).1
          obtain rfl := Option.some.inj (isDefinition.symm.trans isDefinition')
          exact listed
        · exact ihInner.2 other inside id found isFound
      · exact List.mem_append_right _ (ihOthers.2 other later id found isFound)

theorem SceneOf.closed {product : ProductModel R} (sound : Structured product)
    {ids : List OccurrenceId} {scene : List (SceneOccurrence R)} (listed : SceneOf product ids scene) :
    (∀ id ∈ ids, ∀ entry, IsRootPart product id entry → entry ∈ scene) ∧
      ∀ other ∈ scene, ∀ id entry, IsLocalPart product other id entry → entry ∈ scene := by
  induction listed with
  | none => exact ⟨nofun, nofun⟩
  | @part id entry definition rest inner others isPart isDefinition below _ ih =>
    constructor
    · intro other member found isFound
      rcases List.mem_cons.mp member with rfl | later
      · rw [isFound.unique isPart]
        exact List.mem_cons_self ..
      · exact List.mem_append_right _ (ih.1 other later found isFound)
    · intro other member localId found isFound
      rcases List.mem_append.mp member with first | later
      · refine List.mem_append_left _ (List.mem_cons_of_mem _ ?_)
        rcases List.mem_cons.mp first with rfl | inside
        · refine (below.closed sound).1 localId ?_ found isFound
          obtain ⟨isThere, -, -⟩ := isFound
          obtain ⟨definition', isDefinition', listed⟩ :=
            lists_iff.mp (sound.localOccurrence _ _ isThere).1
          obtain rfl := Option.some.inj (isDefinition.symm.trans isDefinition')
          exact listed
        · exact (below.closed sound).2 other inside localId found isFound
      · exact List.mem_append_right _ (ih.2 other later localId found isFound)

/-- The parts of a product, and those inside them. -/
inductive IsPart (product : ProductModel R) : SceneOccurrence R → Prop
  | root {id : OccurrenceId} {entry : SceneOccurrence R} :
      IsRootPart product id entry → IsPart product entry
  | inside {owner entry : SceneOccurrence R} {id : LocalOccurrenceId} :
      IsPart product owner → IsLocalPart product owner id entry → IsPart product entry

theorem PartsBelow.isPart {product : ProductModel R} {owner : SceneOccurrence R}
    {ids : List LocalOccurrenceId} {entries : List (SceneOccurrence R)}
    (below : PartsBelow product owner ids entries) (isOwner : IsPart product owner) :
    ∀ entry ∈ entries, IsPart product entry := by
  induction below with
  | none => exact nofun
  | part isLocal _ _ _ ihInner ihOthers =>
    have here := IsPart.inside isOwner isLocal
    intro other member
    rcases List.mem_append.mp member with first | later
    · rcases List.mem_cons.mp first with rfl | inside
      · exact here
      · exact ihInner here other inside
    · exact ihOthers isOwner other later

theorem SceneOf.isPart {product : ProductModel R} {ids : List OccurrenceId}
    {scene : List (SceneOccurrence R)} (listed : SceneOf product ids scene) :
    ∀ entry ∈ scene, IsPart product entry := by
  induction listed with
  | none => exact nofun
  | part isRoot _ below _ ih =>
    intro other member
    rcases List.mem_append.mp member with first | later
    · rcases List.mem_cons.mp first with rfl | inside
      · exact .root isRoot
      · exact below.isPart (.root isRoot) other inside
    · exact ih other later

/-- **The scene lists the parts.** -/
theorem mem_scene_iff {product : ProductModel R} (sound : Structured product)
    {scene : List (SceneOccurrence R)} (listed : SceneOf product product.occurrences.keys scene)
    {entry : SceneOccurrence R} : entry ∈ scene ↔ IsPart product entry := by
  refine ⟨listed.isPart entry, fun isPart => ?_⟩
  have closed := listed.closed sound
  induction isPart with
  | @root id entry isRoot =>
    refine closed.1 id ?_ entry isRoot
    obtain ⟨found, -, -⟩ := isRoot
    exact BTreeMap.mem_keys_of_getElem? found
  | inside _ isLocal ih => exact closed.2 _ ih _ _ isLocal

/-- The last step of a path, where it has one, is to an occurrence. -/
def InstancePath.EndsAtPart (path : InstancePath) : Prop :=
  ∀ step ∈ path.steps.getLast?, ∃ id, step = .occurrence id

/-- Steps that end at a part come from an owner in the scene to one in the scene. -/
theorem exists_part_of_steps {product : ProductModel R} (sound : Structured product)
    {scene : List (SceneOccurrence R)}
    (closed : ∀ other ∈ scene, ∀ id entry, IsLocalPart product other id entry → entry ∈ scene)
    {steps : List InstancePathStep} {owner : SceneOccurrence R} (member : owner ∈ scene)
    (lineage : List LocalGroupId) {cursor reached : InstanceCursor R}
    (inGroups : InGroups product owner lineage cursor)
    (ok : steps.foldlM (resolveStep product) cursor = .ok reached)
    (ends : ∀ step ∈ steps.getLast?, ∃ id, step = .occurrence id) (none : steps = [] → lineage = []) :
    ∃ entry ∈ scene, entry.instancePath =
      ⟨owner.instancePath.root, owner.instancePath.steps ++ lineage.reverse.map .group ++ steps⟩ := by
  induction steps generalizing owner lineage cursor with
  | nil =>
    obtain rfl := none rfl
    refine ⟨owner, member, ?_⟩
    rw [List.append_nil, List.reverse_nil, List.map_nil, List.append_nil]
  | cons step rest ih =>
    rw [List.foldlM_cons] at ok
    obtain ⟨next, isNext, walked⟩ := bind_ok ok
    have endsRest : ∀ step ∈ rest.getLast?, ∃ id, step = .occurrence id := by
      intro last isLast
      refine ends last ?_
      cases rest with
      | nil => cases isLast
      | cons second others => rw [List.getLast?_cons_cons]; exact isLast
    cases step with
    | group id =>
      have goesOn : rest ≠ [] := by
        rintro rfl
        obtain ⟨other, is⟩ := ends (.group id) rfl
        cases is
      obtain ⟨entry, isIn, path⟩ := ih member (id :: lineage) (inGroups.group isNext) walked endsRest
        fun empty => absurd empty goesOn
      refine ⟨entry, isIn, path.trans ?_⟩
      rw [List.reverse_cons, List.map_append, List.map_singleton]
      simp only [List.append_assoc, List.singleton_append]
    | occurrence id =>
      obtain ⟨part, isPart, atPart, isPath⟩ := inGroups.occurrence sound isNext
      obtain ⟨entry, isIn, path⟩ := ih (closed owner member id part isPart) [] atPart walked endsRest
        fun _ => rfl
      refine ⟨entry, isIn, path.trans ?_⟩
      rw [isPath, InstancePath.through]
      simp only [List.reverse_nil, List.map_nil, List.append_nil, List.append_assoc,
        List.singleton_append]

theorem resolveRoot_found {product : ProductModel R} {id : OccurrenceId} {start : InstanceCursor R}
    (ok : resolveRoot product id = .ok start) :
    ∃ occurrence, product.occurrences[id]? = some occurrence := by
  unfold resolveRoot at ok
  split at ok
  case h_1 => cases ok
  case h_2 occurrence found => exact ⟨occurrence, found⟩

/-- **The walk along the path of each part comes to it.** -/
theorem IsPart.reaches {product : ProductModel R} (sound : Structured product)
    {entry : SceneOccurrence R} (isPart : IsPart product entry) : Reaches product entry := by
  induction isPart with
  | root isRoot => exact isRoot.reaches
  | inside _ isLocal ih => exact isLocal.reaches sound ih

theorem Reaches.resolves {product : ProductModel R} {entry : SceneOccurrence R}
    (reaches : Reaches product entry) : ∃ resolved,
      resolveInstancePath product entry.instancePath = .ok resolved ∧
        resolved.definitionId = entry.definitionId ∧ resolved.worldTransform = entry.transform := by
  obtain ⟨start, reached, isRoot, walked, inPart⟩ := reaches
  exact ⟨_, (bind_eq_of_ok isRoot).trans (bind_eq_of_ok walked), inPart.definition, inPart.transform⟩

/-- **A path that ends at a part and resolves is of a part in the scene.** -/
theorem exists_part_of_resolves {product : ProductModel R} (sound : Structured product)
    {scene : List (SceneOccurrence R)} (listed : SceneOf product product.occurrences.keys scene)
    {path : InstancePath} (ends : path.EndsAtPart) {resolved : ResolvedInstance R}
    (ok : resolveInstancePath product path = .ok resolved) :
    ∃ entry ∈ scene, entry.instancePath = path := by
  obtain ⟨start, isRoot, ok⟩ := bind_ok ok
  obtain ⟨reached, walked, -⟩ := bind_ok ok
  obtain ⟨occurrence, found⟩ := resolveRoot_found isRoot
  obtain ⟨there, -, lineage, ancestry⟩ := sound.occurrence _ _ found
  obtain ⟨definition, isDefinition⟩ := BTreeMap.mem_iff_exists.mp there
  obtain rfl := Except.ok.inj ((resolveRoot_eq found ancestry).symm.trans isRoot)
  have isPart := IsRootPart.intro found isDefinition ancestry
  have inScene := (listed.closed sound).1 path.root
    (Std.ExtTreeMap.mem_keys.mpr (BTreeMap.mem_iff_exists.mpr ⟨occurrence, found⟩)) _ isPart
  obtain ⟨entry, isIn, isPath⟩ := exists_part_of_steps sound (listed.closed sound).2 inScene
    [] ⟨rfl, rfl, rfl, .top⟩ walked ends fun _ => rfl
  exact ⟨entry, isIn, isPath⟩

/-! ### One part for each path -/

/-- A path goes on from an owner to the part at a local id, and on. -/
def Under (owner : InstancePath) (id : LocalOccurrenceId) (path : InstancePath) : Prop :=
  path.root = owner.root ∧ ∃ (groups : List LocalGroupId) (more : List InstancePathStep),
    path.steps = owner.steps ++ (groups.map .group ++ .occurrence id :: more)

theorem first_occurrence_unique {groups groups' : List LocalGroupId} {id id' : LocalOccurrenceId}
    {more more' : List InstancePathStep}
    (same : groups.map InstancePathStep.group ++ .occurrence id :: more =
      groups'.map .group ++ .occurrence id' :: more') : id = id' := by
  induction groups generalizing groups' with
  | nil =>
    cases groups' with
    | nil => exact InstancePathStep.occurrence.inj (List.cons.inj same).1
    | cons group' rest' => cases (List.cons.inj same).1
  | cons group rest ih =>
    cases groups' with
    | nil => cases (List.cons.inj same).1
    | cons group' rest' => exact ih (List.cons.inj same).2

theorem Under.unique {owner path : InstancePath} {id id' : LocalOccurrenceId}
    (one : Under owner id path) (two : Under owner id' path) : id = id' := by
  obtain ⟨-, groups, more, steps⟩ := one
  obtain ⟨-, groups', more', steps'⟩ := two
  exact first_occurrence_unique (List.append_cancel_left (steps.symm.trans steps'))

theorem IsLocalPart.under {product : ProductModel R} {owner entry : SceneOccurrence R}
    {id : LocalOccurrenceId} (isPart : IsLocalPart product owner id entry) :
    Under owner.instancePath id entry.instancePath := by
  obtain ⟨-, -, -⟩ := isPart
  exact ⟨rfl, _, [], List.append_assoc ..⟩

/-- What goes on from a part goes on from its owner. -/
theorem Under.below {owner part path : InstancePath} {id inner : LocalOccurrenceId}
    (isPart : Under owner id part) (isInner : Under part inner path) : Under owner id path := by
  obtain ⟨root, groups, more, steps⟩ := isPart
  obtain ⟨root', groups', more', steps'⟩ := isInner
  refine ⟨root'.trans root, groups, more ++ (groups'.map .group ++ .occurrence inner :: more'), ?_⟩
  rw [steps', steps]
  simp only [List.append_assoc, List.cons_append]

theorem PartsBelow.under {product : ProductModel R} {owner : SceneOccurrence R}
    {ids : List LocalOccurrenceId} {entries : List (SceneOccurrence R)}
    (below : PartsBelow product owner ids entries) :
    ∀ entry ∈ entries, ∃ id ∈ ids, Under owner.instancePath id entry.instancePath := by
  induction below with
  | none => exact nofun
  | @part owner entry localId definition rest inner others isPart _ _ _ ihInner ihOthers =>
    intro other member
    rcases List.mem_append.mp member with first | later
    · refine ⟨localId, List.mem_cons_self .., ?_⟩
      rcases List.mem_cons.mp first with rfl | inside
      · exact isPart.under
      · obtain ⟨id, -, under⟩ := ihInner other inside
        exact isPart.under.below under
    · obtain ⟨id, isIn, under⟩ := ihOthers other later
      exact ⟨id, List.mem_cons_of_mem _ isIn, under⟩

theorem Under.ne {owner path : InstancePath} {id : LocalOccurrenceId} (under : Under owner id path) :
    path ≠ owner := by
  rintro rfl
  obtain ⟨-, groups, more, steps⟩ := under
  have length := congrArg List.length steps
  simp only [List.length_append, List.length_cons] at length
  omega

theorem PartsBelow.nodup_paths {product : ProductModel R} (sound : Structured product)
    {owner : SceneOccurrence R} {ids : List LocalOccurrenceId} {entries : List (SceneOccurrence R)}
    (below : PartsBelow product owner ids entries) (distinct : ids.Nodup) :
    (entries.map SceneOccurrence.instancePath).Nodup := by
  induction below with
  | none => exact List.nodup_nil
  | @part owner entry localId definition rest inner others isPart isDefinition isInner isOthers ihInner
      ihOthers =>
    obtain ⟨apart, distinct⟩ := List.nodup_cons.mp distinct
    have own := (List.nodup_append.mp (sound.localIds _ _ isDefinition)).2.1
    rw [List.map_append, List.map_cons]
    refine List.Nodup.append (List.nodup_cons.mpr ⟨?_, ihInner own⟩) (ihOthers distinct) ?_
    · intro member
      obtain ⟨other, isOther, same⟩ := List.mem_map.mp member
      obtain ⟨id, -, under⟩ := isInner.under other isOther
      exact under.ne same
    · intro path first later
      obtain ⟨other, isOther, rfl⟩ := List.mem_map.mp later
      obtain ⟨id, isIn, under⟩ := isOthers.under other isOther
      have here : Under owner.instancePath localId other.instancePath := by
        rcases List.mem_cons.mp first with same | inside
        · rw [same]
          exact isPart.under
        · obtain ⟨found, isFound, same⟩ := List.mem_map.mp inside
          obtain ⟨_, -, below⟩ := isInner.under found isFound
          rw [← same]
          exact isPart.under.below below
      obtain rfl := here.unique under
      exact apart isIn

theorem SceneOf.root {product : ProductModel R} {ids : List OccurrenceId}
    {scene : List (SceneOccurrence R)} (listed : SceneOf product ids scene) :
    ∀ entry ∈ scene, entry.instancePath.root ∈ ids := by
  induction listed with
  | none => exact nofun
  | @part id entry definition rest inner others isPart isDefinition below _ ih =>
    have root : entry.instancePath.root = id := by
      obtain ⟨-, -, -⟩ := isPart
      rfl
    intro other member
    rcases List.mem_append.mp member with first | later
    · rcases List.mem_cons.mp first with rfl | inside
      · rw [root]
        exact List.mem_cons_self ..
      · obtain ⟨_, -, same, -⟩ := below.under other inside
        rw [same, root]
        exact List.mem_cons_self ..
    · exact List.mem_cons_of_mem _ (ih other later)

/-- **No two parts of a scene have one path.** -/
theorem SceneOf.nodup_paths {product : ProductModel R} (sound : Structured product)
    {ids : List OccurrenceId} {scene : List (SceneOccurrence R)} (listed : SceneOf product ids scene)
    (distinct : ids.Nodup) : (scene.map SceneOccurrence.instancePath).Nodup := by
  induction listed with
  | none => exact List.nodup_nil
  | @part id entry definition rest inner others isPart isDefinition below later ih =>
    obtain ⟨apart, distinct⟩ := List.nodup_cons.mp distinct
    have own := (List.nodup_append.mp (sound.localIds _ _ isDefinition)).2.1
    have root : entry.instancePath.root = id := by
      obtain ⟨-, -, -⟩ := isPart
      rfl
    rw [List.map_append, List.map_cons]
    refine List.Nodup.append (List.nodup_cons.mpr ⟨?_, below.nodup_paths sound own⟩) (ih distinct) ?_
    · intro member
      obtain ⟨other, isOther, same⟩ := List.mem_map.mp member
      obtain ⟨localId, -, under⟩ := below.under other isOther
      exact under.ne same
    · intro path first after
      obtain ⟨other, isOther, rfl⟩ := List.mem_map.mp after
      have isRoot : other.instancePath.root = id := by
        rcases List.mem_cons.mp first with same | inside
        · rw [same, root]
        · obtain ⟨found, isFound, same⟩ := List.mem_map.mp inside
          obtain ⟨_, -, isRoot, -⟩ := below.under found isFound
          rw [← same, isRoot, root]
      exact apart (isRoot ▸ later.root other isOther)

/-! ### The two ways to resolve -/

theorem resolveProductStep_eq {product : ProductModel R} (cursor : InstanceCursor R)
    (step : InstancePathStep) :
    (resolveStep product cursor step).toOption.map (fun next => (next.definitionId, next.parent)) =
      resolveProductStep product (cursor.definitionId, cursor.parent) step := by
  cases step with
  | group id =>
    rw [resolveStep, resolveProductStep]
    cases product.localGroups[(⟨cursor.definitionId, id⟩ : LocalGroupKey)]? with
    | none => rfl
    | some group =>
      show _ = if group.parent ≠ cursor.parent then none else some (cursor.definitionId, some id)
      by_cases same : group.parent = cursor.parent
      · simp only [ne_eq, same, not_true_eq_false, if_false]
        rfl
      · simp only [ne_eq, same, not_false_eq_true, if_true]
        rfl
  | occurrence id =>
    rw [resolveStep, resolveProductStep]
    cases product.localOccurrences[(⟨cursor.definitionId, id⟩ : LocalOccurrenceKey)]? with
    | none => rfl
    | some occurrence =>
      show _ = if occurrence.parent ≠ cursor.parent then none else some (occurrence.definitionId, none)
      by_cases same : occurrence.parent = cursor.parent
      · simp only [ne_eq, same, not_true_eq_false, if_false]
        rfl
      · simp only [ne_eq, same, not_false_eq_true, if_true]
        rfl

/-- **Both ways to resolve a path agree.** -/
theorem resolveProductInstancePath_eq {product : ProductModel R} (sound : Structured product)
    (path : InstancePath) : resolveProductInstancePath product path =
      (resolveInstancePath product path).toOption.map ResolvedInstance.definitionId := by
  rw [resolveProductInstancePath, resolveInstancePath]
  cases found : product.occurrences[path.root]? with
  | none =>
    rw [resolveRoot, found]
    rfl
  | some occurrence =>
    obtain ⟨-, -, lineage, ancestry⟩ := sound.occurrence _ _ found
    rw [bind_eq_of_ok (resolveRoot_eq found ancestry)]
    have walk := foldlM_view (resolveStep product) (resolveProductStep product)
      resolveProductStep_eq (⟨occurrence.definitionId, occurrence.transform, product.groupWorld lineage,
        (product.groupWorld lineage).compose occurrence.transform, ⟨path.root, []⟩, none⟩ :
          InstanceCursor R) path.steps
    show (path.steps.foldlM (resolveProductStep product) (occurrence.definitionId, none) >>= _) = _
    rw [← walk]
    generalize path.steps.foldlM (resolveStep product) _ = walked
    cases walked <;> rfl

/-! ### The scene and its paths -/

theorem withinBudget_countSharing_iff {product : ProductModel R} {budget : SceneBudget}
    {scene : List (SceneOccurrence R)} :
    WithinBudget product budget (countSharing scene) ↔ WithinBudget product budget scene := by
  have bytes : (countSharing scene).map SceneOccurrence.textBytes =
      scene.map SceneOccurrence.textBytes := List.map_map
  have length : (countSharing scene).length = scene.length := List.length_map _
  refine ⟨fun within => ⟨length ▸ within.occurrences, fun entry member => ?_, bytes ▸ within.textBytes⟩,
    fun within => ⟨length ▸ within.occurrences, fun entry member => ?_, bytes ▸ within.textBytes⟩⟩
  · have image := within.pathSteps _ (List.mem_map.mpr ⟨entry, member, rfl⟩)
    exact image
  · obtain ⟨other, isOther, rfl⟩ := List.mem_map.mp member
    exact within.pathSteps other isOther

/-- **A scene that agrees with its paths.** -/
structure SceneAgrees (product : ProductModel R) (scene : List (SceneOccurrence R)) : Prop where
  listed : sceneQuery product = .ok scene
  /-- The path of each part resolves to the part. -/
  resolves : ∀ entry ∈ scene, ∃ resolved,
    resolveInstancePath product entry.instancePath = .ok resolved ∧
      resolved.definitionId = entry.definitionId ∧ resolved.worldTransform = entry.transform
  /-- Each path to a part that resolves is of one part. -/
  once : ∀ path resolved, path.EndsAtPart → resolveInstancePath product path = .ok resolved →
    scene.countP (fun entry => entry.instancePath = path) = 1
  /-- Both ways to resolve a path agree. -/
  agree : ∀ path, resolveProductInstancePath product path =
    (resolveInstancePath product path).toOption.map ResolvedInstance.definitionId
  /-- A query with budgets lists the scene where they hold it. -/
  within : ∀ budget, WithinBudget product budget scene → sceneQueryBounded product budget = .ok scene
  exceeded : ∀ budget, ¬WithinBudget product budget scene →
    ∃ exceeded, sceneQueryBounded product budget = .error (.error exceeded)

/-- **The scene of a valid product agrees with its paths.** -/
theorem scene_agrees_with_paths {product : ProductModel R}
    (valid : validateStructure product = .ok ()) : ∃ scene, SceneAgrees product scene := by
  have sound := validateStructure_ok_iff.mp valid
  obtain ⟨scene, listed⟩ := exists_sceneOf sound fun id => Std.ExtTreeMap.mem_keys.mp
  have paths : (countSharing scene).map SceneOccurrence.instancePath =
      scene.map SceneOccurrence.instancePath := List.map_map
  refine ⟨countSharing scene, sceneQuery_eq sound listed, fun entry member => ?_,
    fun path resolved ends ok => ?_, resolveProductInstancePath_eq sound, fun budget within => ?_,
    fun budget exceeds => ?_⟩
  · obtain ⟨other, isOther, rfl⟩ := List.mem_map.mp member
    exact ((listed.isPart other isOther).reaches sound).resolves
  · obtain ⟨entry, member, isPath⟩ := exists_part_of_resolves sound listed ends ok
    have distinct := listed.nodup_paths sound Std.ExtTreeMap.nodup_keys
    rw [← paths] at distinct
    have isIn : path ∈ (countSharing scene).map SceneOccurrence.instancePath :=
      paths ▸ List.mem_map.mpr ⟨entry, member, isPath⟩
    rw [← List.count_eq_one_of_mem distinct isIn, List.count, List.countP_map]
    exact List.countP_congr fun entry _ => by simp
  · exact sceneQueryBounded_eq sound listed (withinBudget_countSharing_iff.mp within)
  · obtain ⟨fault, ⟨exceeded, rfl⟩, failed⟩ := sceneQueryBounded_exceeded sound listed
      fun within => exceeds (withinBudget_countSharing_iff.mpr within)
    exact ⟨exceeded, failed⟩

/-- A shelf of two boards in a group, placed once; one of the boards is moved there. -/
def shelfProduct : ProductModel ℤ where
  definitions := (∅ : BTreeMap DefinitionId Definition)
    |>.insert 1 ⟨"Board", [], ∅, 1, ∅, [], []⟩
    |>.insert 2 ⟨"Shelf", [], ∅, 1, ∅, [1, 2], [3]⟩
  occurrences := (∅ : BTreeMap OccurrenceId (Occurrence ℤ)).insert 1
    ⟨2, "Left shelf", .identity, some 1, [], true, none⟩
  groups := (∅ : BTreeMap GroupId (Group ℤ)).insert 1 ⟨"Cabinet", .identity, none⟩
  localOccurrences := (∅ : BTreeMap LocalOccurrenceKey (LocalOccurrence ℤ))
    |>.insert ⟨2, 1⟩ ⟨1, "Top", .identity, some 3, [], true, none⟩
    |>.insert ⟨2, 2⟩ ⟨1, "Bottom", .identity, some 3, [], true, none⟩
  localGroups := (∅ : BTreeMap LocalGroupKey (LocalGroup ℤ)).insert ⟨2, 3⟩ ⟨"Boards", .identity, none⟩
  tags := ∅
  instanceTransformOverrides := (∅ : BTreeMap InstancePath (Transform ℤ)).insert
    ⟨1, [.group 3, .occurrence 2]⟩ { Transform.identity with translation := ⟨0, 0, -300⟩ }
  partReferences := []

theorem shelf_scene_agrees : ∃ scene, SceneAgrees shelfProduct scene ∧ scene.length = 3 := by
  have agreed : ∃ scene, SceneAgrees shelfProduct scene := scene_agrees_with_paths (by decide +kernel)
  obtain ⟨scene, agrees⟩ := agreed
  refine ⟨scene, agrees, ?_⟩
  have three : (sceneQuery shelfProduct).toOption.map List.length = some 3 := by decide +kernel
  rw [agrees.listed] at three
  exact Option.some.inj three

end Ketchup.Product
