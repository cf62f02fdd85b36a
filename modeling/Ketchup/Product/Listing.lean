/-
**What a scene lists.**

`PartsBelow` and `SceneOf` are the lists of parts the traversal goes through, with no budget and no
recursion to end. A structured product has one (`exists_sceneOf`), and a query lists it where it is within
the budget (`sceneQueryBounded_eq`), else ends with an error (`sceneQueryBounded_exceeded`).
-/

import Ketchup.Library.Budget
import Ketchup.Product.Scene

set_option linter.unusedSectionVars false

namespace Ketchup.Product

variable {R : Type} [Add R] [Mul R] [Zero R] [One R]

/-! ### Where groups are -/

/-- Where a group is in its parent. -/
def ProductModel.placement (product : ProductModel R) (id : GroupId) : Transform R :=
  (product.groups[id]?).elim .identity Group.transform

def ProductModel.localPlacement (product : ProductModel R) (definitionId : DefinitionId)
    (id : LocalGroupId) : Transform R :=
  (product.localGroups[(⟨definitionId, id⟩ : LocalGroupKey)]?).elim .identity LocalGroup.transform

theorem composeAlong_eq {ε K : Type} {transformOf : K → Outcome ε (Transform R)}
    {placement : K → Transform R} {lineage : List K}
    (known : ∀ key ∈ lineage, transformOf key = .ok (placement key)) (start : Transform R) :
    composeAlong transformOf start lineage =
      .ok (lineage.foldl (fun transform key => transform.compose (placement key)) start) := by
  unfold composeAlong
  induction lineage generalizing start with
  | nil => rfl
  | cons key rest ih =>
    rw [List.foldlM_cons, known key (List.mem_cons_self ..)]
    exact ih (fun other later => known other (List.mem_cons_of_mem _ later)) _

theorem groupTransform_eq {ε : Type} {product : ProductModel R} {cursor : Option GroupId}
    {lineage : List GroupId} (ancestry : Ancestry product.groupParent cursor lineage)
    (id : GroupId) (member : id ∈ lineage.reverse) :
    (product.groupTransform id : Outcome ε (Transform R)) = .ok (product.placement id) := by
  obtain ⟨parent, known⟩ := ancestry.known id (List.mem_reverse.mp member)
  obtain ⟨group, found, -⟩ := Option.map_eq_some_iff.mp known
  rw [ProductModel.groupTransform, ProductModel.placement, index, found]
  rfl

theorem localGroupTransform_eq {ε : Type} {product : ProductModel R} {definitionId : DefinitionId}
    {cursor : Option LocalGroupId} {lineage : List LocalGroupId}
    (ancestry : Ancestry (product.localGroupParent definitionId) cursor lineage)
    (id : LocalGroupId) (member : id ∈ lineage.reverse) :
    (product.localGroupTransform definitionId id : Outcome ε (Transform R)) =
      .ok (product.localPlacement definitionId id) := by
  obtain ⟨parent, known⟩ := ancestry.known id (List.mem_reverse.mp member)
  obtain ⟨group, found, -⟩ := Option.map_eq_some_iff.mp known
  rw [ProductModel.localGroupTransform, ProductModel.localPlacement, index, found]
  rfl

/-- Where what hangs in a lineage is, from the top down. -/
def ProductModel.groupWorld (product : ProductModel R) (lineage : List GroupId) : Transform R :=
  lineage.reverse.foldl (fun transform id => transform.compose (product.placement id)) .identity

def ProductModel.localGroupWorld (product : ProductModel R) (definitionId : DefinitionId)
    (start : Transform R) (lineage : List LocalGroupId) : Transform R :=
  lineage.reverse.foldl
    (fun transform id => transform.compose (product.localPlacement definitionId id)) start

/-! ### The parts -/

/-- The part of an occurrence. -/
inductive IsRootPart (product : ProductModel R) (id : OccurrenceId) : SceneOccurrence R → Prop
  | intro {occurrence : Occurrence R} {definition : Definition} {lineage : List GroupId} :
      product.occurrences[id]? = some occurrence →
      product.definitions[occurrence.definitionId]? = some definition →
      Ancestry product.groupParent occurrence.parent lineage →
      IsRootPart product id (rootEntry product id occurrence definition
        ((product.groupWorld lineage).compose occurrence.transform))

/-- The part of a local occurrence inside another part. -/
inductive IsLocalPart (product : ProductModel R) (owner : SceneOccurrence R)
    (localId : LocalOccurrenceId) : SceneOccurrence R → Prop
  | intro {occurrence : LocalOccurrence R} {definition : Definition} {lineage : List LocalGroupId} :
      product.localOccurrences[(⟨owner.definitionId, localId⟩ : LocalOccurrenceKey)]? = some occurrence →
      product.definitions[occurrence.definitionId]? = some definition →
      Ancestry (product.localGroupParent owner.definitionId) occurrence.parent lineage →
      IsLocalPart product owner localId (localEntry product owner localId occurrence definition lineage
        (product.localGroupWorld owner.definitionId owner.transform lineage))

/-- The parts inside an owner at some of its local ids, each followed by what is inside it. -/
inductive PartsBelow (product : ProductModel R) :
    SceneOccurrence R → List LocalOccurrenceId → List (SceneOccurrence R) → Prop
  | none {owner : SceneOccurrence R} : PartsBelow product owner [] []
  | part {owner entry : SceneOccurrence R} {localId : LocalOccurrenceId} {definition : Definition}
      {rest : List LocalOccurrenceId} {inner others : List (SceneOccurrence R)} :
      IsLocalPart product owner localId entry →
      product.definitions[entry.definitionId]? = some definition →
      PartsBelow product entry definition.localOccurrenceIds inner →
      PartsBelow product owner rest others →
      PartsBelow product owner (localId :: rest) (entry :: inner ++ others)

/-- The parts of some occurrences, each followed by what is inside it. -/
inductive SceneOf (product : ProductModel R) : List OccurrenceId → List (SceneOccurrence R) → Prop
  | none : SceneOf product [] []
  | part {id : OccurrenceId} {entry : SceneOccurrence R} {definition : Definition}
      {rest : List OccurrenceId} {inner others : List (SceneOccurrence R)} :
      IsRootPart product id entry →
      product.definitions[entry.definitionId]? = some definition →
      PartsBelow product entry definition.localOccurrenceIds inner →
      SceneOf product rest others →
      SceneOf product (id :: rest) (entry :: inner ++ others)

/-! ### They exist -/

/-- What is at a local id is one level down. -/
theorem IsLocalPart.leadsTo {product : ProductModel R} (sound : Structured product)
    {owner entry : SceneOccurrence R} {localId : LocalOccurrenceId}
    (isPart : IsLocalPart product owner localId entry) :
    LeadsTo product.placedIn entry.definitionId owner.definitionId := by
  obtain ⟨found, -, -⟩ := isPart
  exact sound.leadsTo found

theorem exists_isLocalPart {product : ProductModel R} (sound : Structured product)
    {owner : SceneOccurrence R} {definition : Definition}
    (isDefinition : product.definitions[owner.definitionId]? = some definition)
    {localId : LocalOccurrenceId} (member : localId ∈ definition.localOccurrenceIds) :
    ∃ entry, IsLocalPart product owner localId entry ∧
      ∃ inside, product.definitions[entry.definitionId]? = some inside := by
  obtain ⟨occurrence, found⟩ := BTreeMap.mem_iff_exists.mp
    (sound.localOccurrences _ definition isDefinition localId member)
  obtain ⟨-, isThere, -, lineage, ancestry⟩ := sound.localOccurrence _ _ found
  obtain ⟨target, isTarget⟩ := BTreeMap.mem_iff_exists.mp isThere
  exact ⟨_, .intro found isTarget ancestry, target, isTarget⟩

/-- **What is inside a part can be listed**, by induction down the definitions. -/
theorem exists_partsBelow {product : ProductModel R} (sound : Structured product)
    (owner : SceneOccurrence R) {definition : Definition}
    (isDefinition : product.definitions[owner.definitionId]? = some definition) :
    ∃ entries, PartsBelow product owner definition.localOccurrenceIds entries := by
  generalize same : owner.definitionId = id at isDefinition
  induction id using sound.founded.induction generalizing owner definition with
  | _ id ih =>
    subst same
    suffices each : ∀ ids : List LocalOccurrenceId, (∀ id ∈ ids, id ∈ definition.localOccurrenceIds) →
        ∃ entries, PartsBelow product owner ids entries from each _ fun _ => id
    intro ids among
    induction ids with
    | nil => exact ⟨[], .none⟩
    | cons localId rest each =>
      obtain ⟨others, isOthers⟩ := each fun other later => among other (List.mem_cons_of_mem _ later)
      obtain ⟨entry, isPart, inside, isInside⟩ :=
        exists_isLocalPart sound isDefinition (among localId (List.mem_cons_self ..))
      obtain ⟨inner, isInner⟩ := ih entry.definitionId (isPart.leadsTo sound) entry rfl isInside
      exact ⟨_, .part isPart isInside isInner isOthers⟩

theorem exists_isRootPart {product : ProductModel R} (sound : Structured product) {id : OccurrenceId}
    (there : id ∈ product.occurrences) : ∃ entry, IsRootPart product id entry ∧
      ∃ inside, product.definitions[entry.definitionId]? = some inside := by
  obtain ⟨occurrence, found⟩ := BTreeMap.mem_iff_exists.mp there
  obtain ⟨isThere, -, lineage, ancestry⟩ := sound.occurrence _ _ found
  obtain ⟨target, isTarget⟩ := BTreeMap.mem_iff_exists.mp isThere
  exact ⟨_, .intro found isTarget ancestry, target, isTarget⟩

theorem exists_sceneOf {product : ProductModel R} (sound : Structured product)
    {ids : List OccurrenceId} (there : ∀ id ∈ ids, id ∈ product.occurrences) :
    ∃ scene, SceneOf product ids scene := by
  induction ids with
  | nil => exact ⟨[], .none⟩
  | cons id rest ih =>
    obtain ⟨others, isOthers⟩ := ih fun other later => there other (List.mem_cons_of_mem _ later)
    obtain ⟨entry, isPart, inside, isInside⟩ :=
      exists_isRootPart sound (there id (List.mem_cons_self ..))
    obtain ⟨inner, isInner⟩ := exists_partsBelow sound entry isInside
    exact ⟨_, .part isPart isInside isInner isOthers⟩

/-! ### Budgets -/

/-- What is used is within a limit. -/
def Fits (limit : Option Nat) (used : Nat) : Prop := ∀ bound, limit = some bound → used ≤ bound

theorem Fits.mono {limit : Option Nat} {used less : Nat} (fits : Fits limit used) (le : less ≤ used) :
    Fits limit less := fun bound same => le.trans (fits bound same)

def SceneOccurrence.textBytes (entry : SceneOccurrence R) : Nat :=
  entry.occurrenceName.utf8ByteSize + entry.definitionName.utf8ByteSize

/-- How many groups a group hangs in, itself the first. -/
def ProductModel.groupDepth (product : ProductModel R) (parent : Option GroupId) : Nat :=
  ((climb (fun _ _ => .ok ()) product.groupParent (fun _ => ()) () product.groups.size []
    parent).toOption.elim 0 List.length)

/-- The steps to a part: those of its path, or through the groups of an occurrence. -/
def SceneOccurrence.pathSteps (product : ProductModel R) (entry : SceneOccurrence R) : Nat :=
  if entry.instancePath.steps = [] then product.groupDepth entry.parent
  else entry.instancePath.steps.length

/-- **The parts are within a budget.** -/
structure WithinBudget (product : ProductModel R) (budget : SceneBudget)
    (scene : List (SceneOccurrence R)) : Prop where
  occurrences : Fits budget.maxOccurrences scene.length
  pathSteps : ∀ entry ∈ scene, Fits budget.maxPathSteps (entry.pathSteps product)
  textBytes : Fits budget.maxTextBytes (scene.map SceneOccurrence.textBytes).sum

theorem WithinBudget.front {product : ProductModel R} {budget : SceneBudget}
    {front rest : List (SceneOccurrence R)} (within : WithinBudget product budget (front ++ rest)) :
    WithinBudget product budget front where
  occurrences := within.occurrences.mono (by rw [List.length_append]; exact Nat.le_add_right ..)
  pathSteps entry member := within.pathSteps entry (List.mem_append_left _ member)
  textBytes := within.textBytes.mono (by
    rw [List.map_append, List.sum_append]
    exact Nat.le_add_right ..)

/-- A query that has listed some parts. -/
def SceneState.holding (held : List (SceneOccurrence R)) : SceneState R where
  occurrences := held
  textBytes := (held.map SceneOccurrence.textBytes).sum

/-- The error of a budget. -/
def IsExceeded (fault : Fault SceneQueryBudgetExceeded) : Prop := ∃ exceeded, fault = .error exceeded

theorem spend_ok_iff {kind : SceneQueryBudgetKind} {limit : Option Nat} {needed : Nat}
    {observed : Nat → Nat} : spend kind limit needed observed = .ok () ↔ Fits limit needed := by
  cases limit with
  | none => exact iff_of_true rfl nofun
  | some bound =>
    rw [spend, refuseIf_ok, not_lt]
    exact ⟨fun le _ same => Option.some.inj same ▸ le, fun fits => fits bound rfl⟩

theorem spend_exceeded {kind : SceneQueryBudgetKind} {limit : Option Nat} {needed : Nat}
    {observed : Nat → Nat} {fault : Fault SceneQueryBudgetExceeded}
    (failed : spend kind limit needed observed = .error fault) : IsExceeded fault := by
  cases limit with
  | none => cases failed
  | some bound => exact ⟨_, refuseIf_error failed⟩

theorem groupDepth_eq {product : ProductModel R} {parent : Option GroupId} {lineage : List GroupId}
    (ancestry : Ancestry product.groupParent parent lineage) :
    product.groupDepth parent = lineage.length := by
  unfold ProductModel.groupDepth
  have within : lineage.length ≤ product.groups.size := by
    rw [← Std.ExtTreeMap.length_keys]
    exact ancestry.length_le groupParent_listed
  rw [climb_of_ancestry ancestry within fun _ _ _ _ => rfl]
  rfl

theorem spend_stops {kind : SceneQueryBudgetKind} {limit : Option Nat} {needed : Nat}
    {observed : Nat → Nat} (exceeds : ¬Fits limit needed) :
    Stops IsExceeded (spend kind limit needed observed) := by
  cases failed : spend kind limit needed observed with
  | ok => exact absurd (spend_ok_iff.mp failed) exceeds
  | error fault => exact ⟨fault, spend_exceeded failed, rfl⟩

theorem consumeSceneTextBudget_ok {used additional : Nat} {limit : Option Nat}
    (fits : Fits limit (used + additional)) :
    consumeSceneTextBudget used additional limit = .ok (used + additional) :=
  bind_eq_of_ok (spend_ok_iff.mpr fits)

theorem consumeSceneTextBudget_stops {used additional : Nat} {limit : Option Nat}
    (exceeds : ¬Fits limit (used + additional)) :
    Stops IsExceeded (consumeSceneTextBudget used additional limit) :=
  (spend_stops exceeds).here

/-- A part more. -/
theorem withinBudget_push_iff {product : ProductModel R} {budget : SceneBudget}
    {held : List (SceneOccurrence R)} {entry : SceneOccurrence R}
    (within : WithinBudget product budget held) :
    WithinBudget product budget (held ++ [entry]) ↔
      Fits budget.maxOccurrences (held.length + 1) ∧
        Fits budget.maxPathSteps (entry.pathSteps product) ∧
        Fits budget.maxTextBytes ((held.map SceneOccurrence.textBytes).sum + entry.textBytes) := by
  have length : (held ++ [entry]).length = held.length + 1 := List.length_append
  have bytes : ((held ++ [entry]).map SceneOccurrence.textBytes).sum =
      (held.map SceneOccurrence.textBytes).sum + entry.textBytes := by
    rw [List.map_append, List.sum_append, List.map_singleton, List.sum_singleton]
  refine ⟨fun all => ⟨length ▸ all.occurrences, all.pathSteps entry (by simp), bytes ▸ all.textBytes⟩,
    fun each => ⟨length ▸ each.1, fun other member => ?_, bytes ▸ each.2.2⟩⟩
  rcases List.mem_append.mp member with before | here
  · exact within.pathSteps other before
  · rw [List.mem_singleton.mp here]
    exact each.2.1

theorem holding_push {held : List (SceneOccurrence R)} {entry : SceneOccurrence R} :
    (⟨held ++ [entry], (held.map SceneOccurrence.textBytes).sum + entry.textBytes⟩ : SceneState R) =
      .holding (held ++ [entry]) := by
  rw [SceneState.holding, List.map_append, List.sum_append, List.map_singleton, List.sum_singleton]

/-- **A part is listed within the budget**, and else the query stops. -/
theorem projectLocalOccurrence_spec {product : ProductModel R} (budget : SceneBudget)
    {owner entry : SceneOccurrence R} {localId : LocalOccurrenceId}
    (isPart : IsLocalPart product owner localId entry) {held : List (SceneOccurrence R)}
    (within : WithinBudget product budget held) :
    (WithinBudget product budget (held ++ [entry]) →
      projectLocalOccurrence product budget owner localId (.holding held) =
        .ok ⟨entry, .holding (held ++ [entry])⟩) ∧
    (¬WithinBudget product budget (held ++ [entry]) →
      Stops IsExceeded (projectLocalOccurrence product budget owner localId (.holding held))) := by
  rw [withinBudget_push_iff within]
  obtain ⟨found, isTarget, ancestry⟩ := isPart
  rename_i occurrence definition lineage
  have steps : (localEntry product owner localId occurrence definition lineage
      (product.localGroupWorld owner.definitionId owner.transform lineage)).pathSteps product =
        owner.instancePath.steps.length + lineage.length + 1 := by
    rw [SceneOccurrence.pathSteps, localEntry, if_neg (by simp [InstancePath.through])]
    simp only [InstancePath.through, List.length_append, List.length_map, List.length_reverse,
      List.length_singleton]
  have enough : lineage.length ≤ product.localGroups.size + budget.maxPathSteps.getD 0 + 1 := by
    have known := ancestry.length_le localGroupParent_listed
    rw [List.length_map, Std.ExtTreeMap.length_keys] at known
    omega
  rw [steps]
  unfold projectLocalOccurrence
  rw [bind_eq_of_ok (index_found found)]
  rcases climb_metered (fun step => spend .pathSteps budget.maxPathSteps
      (owner.instancePath.steps.length + step + 1) (· + 1)) (fun _ => .panic) .hang ancestry
      enough with ⟨-, climbed⟩ | ⟨step, fault, inside, failed, stopped⟩
  · rw [bind_eq_of_ok climbed]
    have placed := composeAlong_eq (ε := SceneQueryBudgetExceeded)
      (localGroupTransform_eq ancestry) owner.transform
    refine ⟨fun fits => ?_, fun exceeds => ?_⟩
    · refine (bind_eq_of_ok (spend_ok_iff.mpr fits.2.1)).trans ?_
      refine (bind_eq_of_ok (index_found isTarget)).trans ?_
      refine (bind_eq_of_ok (consumeSceneTextBudget_ok fits.2.2)).trans ?_
      refine (bind_eq_of_ok placed).trans ?_
      refine (bind_eq_of_ok (spend_ok_iff.mpr fits.1)).trans ?_
      exact congrArg (fun state => Except.ok (_, state)) holding_push
    -- The first budget that is exceeded stops the query.
    · by_cases fitsSteps : Fits budget.maxPathSteps
          (owner.instancePath.steps.length + lineage.length + 1)
      · refine .later (spend_ok_iff.mpr fitsSteps) (.later (index_found isTarget) ?_)
        by_cases fitsText : Fits budget.maxTextBytes ((held.map SceneOccurrence.textBytes).sum +
            (occurrence.name.utf8ByteSize + definition.name.utf8ByteSize))
        · refine .later (consumeSceneTextBudget_ok fitsText) (.later placed (spend_stops ?_).here)
          exact fun fits => exceeds ⟨fits, fitsSteps, fitsText⟩
        · exact (consumeSceneTextBudget_stops fitsText).here
      · exact (spend_stops fitsSteps).here
  · have exceeds : ¬Fits budget.maxPathSteps (owner.instancePath.steps.length + step + 1) :=
      fun fits => nomatch failed.symm.trans (spend_ok_iff.mpr fits)
    refine ⟨fun fits => absurd (fits.2.1.mono (by omega)) exceeds, fun _ => ?_⟩
    exact .here ⟨fault, spend_exceeded failed, stopped⟩

/-- The transform of an occurrence takes as many steps as it hangs in groups. -/
theorem worldTransformForOccurrenceBounded_spec {product : ProductModel R} {occurrence : Occurrence R}
    {lineage : List GroupId} (ancestry : Ancestry product.groupParent occurrence.parent lineage)
    (limit : Option Nat) :
    (Fits limit lineage.length → worldTransformForOccurrenceBounded product occurrence limit =
      .ok ((product.groupWorld lineage).compose occurrence.transform)) ∧
    (¬Fits limit lineage.length →
      Stops IsExceeded (worldTransformForOccurrenceBounded product occurrence limit)) := by
  have enough : lineage.length ≤ product.groups.size + limit.getD 0 + 1 := by
    have known := ancestry.length_le groupParent_listed
    rw [Std.ExtTreeMap.length_keys] at known
    omega
  have placed := composeAlong_eq (ε := SceneQueryBudgetExceeded) (groupTransform_eq ancestry) .identity
  unfold worldTransformForOccurrenceBounded
  rcases climb_metered (fun step => spend .pathSteps limit (step + 1) (· + 1)) (fun _ => .panic)
      .hang ancestry enough with
    ⟨admitted, climbed⟩ | ⟨step, fault, inside, failed, stopped⟩
  · have fits : Fits limit lineage.length := by
      cases length : lineage.length with
      | zero => exact fun bound _ => Nat.zero_le bound
      | succ last => exact spend_ok_iff.mp (admitted last (by omega))
    exact ⟨fun _ => (bind_eq_of_ok climbed).trans (bind_eq_of_ok placed), fun exceeds => absurd fits exceeds⟩
  · have exceeds : ¬Fits limit (step + 1) := fun fits =>
      nomatch failed.symm.trans (spend_ok_iff.mpr fits)
    exact ⟨fun fits => absurd (fits.mono inside) exceeds,
      fun _ => .here ⟨fault, spend_exceeded failed, stopped⟩⟩

theorem projectOccurrence_spec {product : ProductModel R} (budget : SceneBudget) {id : OccurrenceId}
    {occurrence : Occurrence R} (found : product.occurrences[id]? = some occurrence)
    {entry : SceneOccurrence R} (isPart : IsRootPart product id entry)
    {held : List (SceneOccurrence R)} (within : WithinBudget product budget held) :
    (WithinBudget product budget (held ++ [entry]) →
      projectOccurrence product budget id occurrence (.holding held) =
        .ok ⟨entry, .holding (held ++ [entry])⟩) ∧
    (¬WithinBudget product budget (held ++ [entry]) →
      Stops IsExceeded (projectOccurrence product budget id occurrence (.holding held))) := by
  rw [withinBudget_push_iff within]
  obtain ⟨found', isTarget, ancestry⟩ := isPart
  rename_i definition lineage
  obtain rfl := Option.some.inj (found.symm.trans found')
  have steps : (rootEntry product id occurrence definition
      ((product.groupWorld lineage).compose occurrence.transform)).pathSteps product =
        lineage.length := by
    rw [SceneOccurrence.pathSteps, rootEntry, if_pos rfl]
    exact groupDepth_eq ancestry
  rw [steps]
  have world := worldTransformForOccurrenceBounded_spec ancestry budget.maxPathSteps
  unfold projectOccurrence
  refine ⟨fun fits => ?_, fun exceeds => ?_⟩
  · refine (bind_eq_of_ok (spend_ok_iff.mpr fits.1)).trans ?_
    refine (bind_eq_of_ok (index_found isTarget)).trans ?_
    refine (bind_eq_of_ok (consumeSceneTextBudget_ok fits.2.2)).trans ?_
    refine (bind_eq_of_ok (world.1 fits.2.1)).trans ?_
    exact congrArg (fun state => Except.ok (_, state)) holding_push
  -- The first budget that is exceeded stops the query.
  · by_cases fitsOne : Fits budget.maxOccurrences (held.length + 1)
    · refine .later (spend_ok_iff.mpr fitsOne) (.later (index_found isTarget) ?_)
      by_cases fitsText : Fits budget.maxTextBytes ((held.map SceneOccurrence.textBytes).sum +
          (occurrence.name.utf8ByteSize + definition.name.utf8ByteSize))
      · refine .later (consumeSceneTextBudget_ok fitsText) (.here (world.2 fun fits => ?_))
        exact exceeds ⟨fitsOne, fits, fitsText⟩
      · exact (consumeSceneTextBudget_stops fitsText).here
    · exact (spend_stops fitsOne).here

/-! ### The whole listing -/

/-- **What is inside a part is listed within the budget**, with fuel for the level of its definition. -/
theorem partsBelow_adds {product : ProductModel R} {budget : SceneBudget} (sound : Structured product)
    {level : DefinitionId → Nat}
    (levelled : Levelled product.placedIn product.definitions.keys level)
    {owner : SceneOccurrence R} {ids : List LocalOccurrenceId} {entries : List (SceneOccurrence R)}
    (below : PartsBelow product owner ids entries) (there : owner.definitionId ∈ product.definitions)
    {fuel : Nat} (enough : level owner.definitionId ≤ fuel) {held : List (SceneOccurrence R)}
    (within : WithinBudget product budget held) :
    Adds SceneState.holding (WithinBudget product budget) IsExceeded
      (fun state => ids.foldlM (fun state localId => do
        let listed ← projectLocalOccurrence product budget owner localId state
        projectLocalOccurrencesBounded product budget fuel listed.1 listed.2) state) held entries := by
  induction below generalizing fuel held with
  | none => exact .nil within
  | @part owner entry localId definition rest inner others isPart isDefinition _ _ ihInner ihOthers =>
    have falls := levelled.falls _ (Std.ExtTreeMap.mem_keys.mpr there) _ (isPart.leadsTo sound)
    obtain ⟨fuel, rfl⟩ : ∃ less, fuel = less + 1 := ⟨fuel - 1, by omega⟩
    have isThere : entry.definitionId ∈ product.definitions :=
      BTreeMap.mem_iff_exists.mpr ⟨definition, isDefinition⟩
    refine Adds.bind (fun _ _ => WithinBudget.front) ?_ fun fits => ihOthers there enough fits
    have step := projectLocalOccurrence_spec budget isPart within
    refine Adds.enter (fun _ _ => WithinBudget.front) step.1 step.2 fun fits => ?_
    have inside := ihInner isThere (Nat.le_of_lt_succ (falls.trans_le enough)) fits
    refine ⟨fun all => ?_, fun exceeds => .later (index_found isDefinition) (inside.refused exceeds)⟩
    exact (bind_eq_of_ok (index_found isDefinition)).trans (inside.ok all)

theorem sceneOf_adds {product : ProductModel R} {budget : SceneBudget} (sound : Structured product)
    {entries : List (OccurrenceId × Occurrence R)} {scene : List (SceneOccurrence R)}
    (found : ∀ entry ∈ entries, product.occurrences[entry.1]? = some entry.2)
    (listed : SceneOf product (entries.map Prod.fst) scene) {held : List (SceneOccurrence R)}
    (within : WithinBudget product budget held) :
    Adds SceneState.holding (WithinBudget product budget) IsExceeded
      (fun state => entries.foldlM (fun state entry => do
        let listed ← projectOccurrence product budget entry.1 entry.2 state
        projectLocalOccurrencesBounded product budget (product.definitions.size + budget.total + 1)
          listed.1 listed.2) state) held scene := by
  obtain ⟨level, bounded, levelled⟩ := exists_levelled sound.founded sound.placedIn
  induction entries generalizing scene held with
  | nil =>
    cases listed
    exact .nil within
  | cons first rest ih =>
    cases listed with
    | @part _ entry definition _ inner others isPart isDefinition below later =>
      have step := projectOccurrence_spec budget (found first (List.mem_cons_self ..)) isPart
        within
      refine Adds.bind (fun _ _ => WithinBudget.front) ?_ fun fits =>
        ih (fun other member => found other (List.mem_cons_of_mem _ member)) later fits
      refine Adds.enter (fun _ _ => WithinBudget.front) step.1 step.2 fun fits => ?_
      have inside := partsBelow_adds sound levelled below
        (BTreeMap.mem_iff_exists.mpr ⟨definition, isDefinition⟩)
        ((bounded _).trans (Nat.le_add_right product.definitions.size budget.total)) fits
      refine ⟨fun all => ?_, fun exceeds => .later (index_found isDefinition) (inside.refused exceeds)⟩
      exact (bind_eq_of_ok (index_found isDefinition)).trans (inside.ok all)

/-- Nothing listed is within every budget. -/
theorem withinBudget_nil {product : ProductModel R} {budget : SceneBudget} :
    WithinBudget product budget [] where
  occurrences bound _ := Nat.zero_le bound
  pathSteps := nofun
  textBytes bound _ := Nat.zero_le bound

theorem withinBudget_unlimited {product : ProductModel R} {scene : List (SceneOccurrence R)} :
    WithinBudget product ⟨none, none, none⟩ scene where
  occurrences := nofun
  pathSteps _ _ := nofun
  textBytes := nofun

section Query

variable {product : ProductModel R} {budget : SceneBudget} {scene : List (SceneOccurrence R)}
  (sound : Structured product) (listed : SceneOf product product.occurrences.keys scene)

include sound listed

theorem scene_adds : Adds SceneState.holding (WithinBudget product budget) IsExceeded
    (fun state => product.occurrences.toList.foldlM (fun state entry => do
      let listed ← projectOccurrence product budget entry.1 entry.2 state
      projectLocalOccurrencesBounded product budget (product.definitions.size + budget.total + 1)
        listed.1 listed.2) state) [] scene := by
  rw [← Std.ExtTreeMap.map_fst_toList_eq_keys] at listed
  exact sceneOf_adds sound (fun entry member =>
    Std.ExtTreeMap.mem_toList_iff_getElem?_eq_some.mp member) listed withinBudget_nil

/-- **A query within budget lists the scene.** -/
theorem sceneQueryBounded_eq (within : WithinBudget product budget scene) :
    sceneQueryBounded product budget = .ok (countSharing scene) :=
  bind_eq_of_ok ((scene_adds sound listed).ok within)

theorem sceneQueryBounded_exceeded (exceeds : ¬WithinBudget product budget scene) :
    Stops IsExceeded (sceneQueryBounded product budget) :=
  ((scene_adds sound listed).refused exceeds).here

theorem sceneQuery_eq : sceneQuery product = .ok (countSharing scene) :=
  sceneQueryBounded_eq sound listed withinBudget_unlimited

end Query

end Ketchup.Product
