/-
**Validation of a product's structure.**

`validateStructure` is what the validation of a product checks of where its parts are placed. A product
that passes is `Structured`, and only then: all that is named is there, the parents of each group end at
the top, and no definition holds itself (`validateStructure_ok_iff`).
-/

import Ketchup.Library.Climb
import Ketchup.Library.Descent
import Ketchup.Product.Structure

namespace Ketchup.Product

inductive CanonicalError
  | reservedProductId
  | emptyProductName
  | definitionNotFound (id : DefinitionId)
  | occurrenceNotFound (id : OccurrenceId)
  | groupNotFound (id : GroupId)
  | tagNotFound (id : TagId)
  | groupCycle (id : GroupId)
  | invalidLocalGraph
  | invalidInstancePath
  | definitionAlreadyExists (id : DefinitionId)
  | occurrenceAlreadyExists (id : OccurrenceId)
  /-- The error of the entry that names the part. -/
  | partNotFound (reference : PartReference)
  deriving DecidableEq

variable {R : Type}

/-! ### The checks -/

def ensureProductId (id : Nat) : Outcome CanonicalError Unit :=
  refuseIf (id = 0) (.error .reservedProductId)

/-- The `White_Space` characters of Unicode. -/
def isWhiteSpace (char : Char) : Bool :=
  (9 ≤ char.val && char.val ≤ 13) || char.val = 32 || char.val = 0x85 || char.val = 0xA0 ||
    char.val = 0x1680 || (0x2000 ≤ char.val && char.val ≤ 0x200A) || char.val = 0x2028 ||
    char.val = 0x2029 || char.val = 0x202F || char.val = 0x205F || char.val = 0x3000

/-- Nothing is left of the text when it is trimmed. -/
def isBlank (name : String) : Bool := name.toList.all isWhiteSpace

def ensureName (name : String) : Outcome CanonicalError Unit :=
  refuseIf (isBlank name = true) (.error .emptyProductName)

/-- Local ids that are new, each of an entry that is there. -/
def validateLocalIds (isThere : Nat → Bool) (seen ids : List Nat) : Outcome CanonicalError (List Nat) :=
  ids.foldlM (fun seen id =>
    if id ∈ seen ∨ isThere id = false then fail .invalidLocalGraph else .ok (seen ++ [id])) seen

/-- Groups and parts of a definition share their local ids. -/
def validateDefinition (product : ProductModel R) (id : DefinitionId) (definition : Definition) :
    Outcome CanonicalError Unit := do
  ensureProductId id
  ensureName definition.name
  let seen ← validateLocalIds (fun localId => product.localGroups.contains ⟨id, localId⟩) []
    definition.localGroupIds
  let _ ← validateLocalIds (fun localId => product.localOccurrences.contains ⟨id, localId⟩) seen
    definition.localOccurrenceIds
  return

def validateTags (product : ProductModel R) (tags : List TagId) : Outcome CanonicalError Unit :=
  tags.forM fun tag => refuseIf (tag ∉ product.tags) (.error (.tagNotFound tag))

def validateOccurrence (product : ProductModel R) (id : OccurrenceId) (occurrence : Occurrence R) :
    Outcome CanonicalError Unit := do
  ensureProductId id
  ensureName occurrence.name
  refuseIf (occurrence.definitionId ∉ product.definitions)
    (.error (.definitionNotFound occurrence.definitionId))
  occurrence.parent.toList.forM fun parent =>
    refuseIf (product.groups.contains parent = false) (.error (.groupNotFound parent))
  validateTags product occurrence.tags

/-- A parent that is there, and parents that end at the top. -/
def validateLineage {K : Type} [DecidableEq K] (isThere : K → Bool) (parentOf : K → Option (Option K))
    (missing cyclic : K → CanonicalError) (fuel : Nat) (id : K) (parent : Option K) :
    Outcome CanonicalError Unit := do
  parent.toList.forM fun parent => refuseIf (isThere parent = false) (.error (missing parent))
  let _ ← climb (fun visiting id => refuseIf (id ∈ visiting) (.error (cyclic id))) parentOf
    (fun _ => .panic) .hang fuel [] (some id)
  return

def validateGroup (product : ProductModel R) (id : GroupId) (group : Group R) :
    Outcome CanonicalError Unit := do
  ensureProductId id
  ensureName group.name
  validateLineage (fun parent => product.groups.contains parent) product.groupParent .groupNotFound
    .groupCycle (product.groups.size + 1) id group.parent

/-- A definition that is there lists the local id. -/
def ProductModel.lists (product : ProductModel R) (localIds : Definition → List Nat)
    (definitionId : DefinitionId) (localId : Nat) : Bool :=
  (product.definitions[definitionId]?).any fun definition => (localIds definition).contains localId

def validateLocalGroup (product : ProductModel R) (key : LocalGroupKey) (group : LocalGroup R) :
    Outcome CanonicalError Unit := do
  refuseIf (product.lists Definition.localGroupIds key.definitionId key.localId = false)
    (.error .invalidLocalGraph)
  validateLineage (fun parent => product.localGroups.contains ⟨key.definitionId, parent⟩)
    (product.localGroupParent key.definitionId) (fun _ => .invalidLocalGraph)
    (fun _ => .invalidLocalGraph) (product.localGroups.size + 1) key.localId group.parent

def validateLocalOccurrence (product : ProductModel R) (key : LocalOccurrenceKey)
    (occurrence : LocalOccurrence R) : Outcome CanonicalError Unit := do
  refuseIf (product.lists Definition.localOccurrenceIds key.definitionId key.localId = false ∨
    occurrence.definitionId ∉ product.definitions) (.error .invalidLocalGraph)
  occurrence.parent.toList.forM fun parent =>
    refuseIf (product.localGroups.contains ⟨key.definitionId, parent⟩ = false)
      (.error .invalidLocalGraph)
  validateTags product occurrence.tags

/-- The definitions placed inside a definition. -/
def ProductModel.placedIn (product : ProductModel R) (definitionId : DefinitionId) :
    Outcome CanonicalError (List DefinitionId) := do
  let definition ← index product.definitions definitionId
  definition.localOccurrenceIds.mapM fun localId => do
    let occurrence ← index product.localOccurrences ⟨definitionId, localId⟩
    return occurrence.definitionId

def validateDefinitionOwnershipGraph (product : ProductModel R) : Outcome CanonicalError Unit := do
  let _ ← product.definitions.keys.foldlM
    (visit product.placedIn (.error .invalidLocalGraph) .hang (product.definitions.size + 1) ∅) ∅
  return

def validateStructure (product : ProductModel R) : Outcome CanonicalError Unit := do
  product.definitions.toList.forM fun entry => validateDefinition product entry.1 entry.2
  product.occurrences.toList.forM fun entry => validateOccurrence product entry.1 entry.2
  product.groups.toList.forM fun entry => validateGroup product entry.1 entry.2
  product.localGroups.toList.forM fun entry => validateLocalGroup product entry.1 entry.2
  product.localOccurrences.toList.forM fun entry => validateLocalOccurrence product entry.1 entry.2
  validateDefinitionOwnershipGraph product

/-! ### What a valid structure is -/

/-- **A sound structure**: all that is named is there, each group hangs from the top, and no definition
holds itself. -/
structure Structured (product : ProductModel R) : Prop where
  definitionNamed : ∀ (id : DefinitionId) (definition : Definition),
    product.definitions[id]? = some definition → id ≠ 0 ∧ isBlank definition.name = false
  occurrenceNamed : ∀ (id : OccurrenceId) (occurrence : Occurrence R),
    product.occurrences[id]? = some occurrence → id ≠ 0 ∧ isBlank occurrence.name = false
  groupNamed : ∀ (id : GroupId) (group : Group R),
    product.groups[id]? = some group → id ≠ 0 ∧ isBlank group.name = false
  localIds : ∀ (id : DefinitionId) (definition : Definition),
    product.definitions[id]? = some definition →
    (definition.localGroupIds ++ definition.localOccurrenceIds).Nodup
  localGroups : ∀ (id : DefinitionId) (definition : Definition),
    product.definitions[id]? = some definition →
    ∀ localId ∈ definition.localGroupIds, (⟨id, localId⟩ : LocalGroupKey) ∈ product.localGroups
  localOccurrences : ∀ (id : DefinitionId) (definition : Definition),
    product.definitions[id]? = some definition →
    ∀ localId ∈ definition.localOccurrenceIds,
      (⟨id, localId⟩ : LocalOccurrenceKey) ∈ product.localOccurrences
  occurrence : ∀ (id : OccurrenceId) (occurrence : Occurrence R),
    product.occurrences[id]? = some occurrence →
    occurrence.definitionId ∈ product.definitions ∧ (∀ tag ∈ occurrence.tags, tag ∈ product.tags) ∧
      ∃ lineage, Ancestry product.groupParent occurrence.parent lineage
  group : ∀ id ∈ product.groups, ∃ lineage, Ancestry product.groupParent (some id) lineage
  localGroup : ∀ key ∈ product.localGroups,
    product.lists Definition.localGroupIds key.definitionId key.localId = true ∧
      ∃ lineage, Ancestry (product.localGroupParent key.definitionId) (some key.localId) lineage
  localOccurrence : ∀ (key : LocalOccurrenceKey) (occurrence : LocalOccurrence R),
    product.localOccurrences[key]? = some occurrence →
    product.lists Definition.localOccurrenceIds key.definitionId key.localId = true ∧
      occurrence.definitionId ∈ product.definitions ∧
      (∀ tag ∈ occurrence.tags, tag ∈ product.tags) ∧
      ∃ lineage, Ancestry (product.localGroupParent key.definitionId) occurrence.parent lineage
  founded : WellFounded (LeadsTo product.placedIn)

/-! ### Each check -/

theorem ensureProductId_ok_iff {id : Nat} : ensureProductId id = .ok () ↔ id ≠ 0 := refuseIf_ok

theorem ensureName_ok_iff {name : String} : ensureName name = .ok () ↔ isBlank name = false := by
  rw [ensureName, refuseIf_ok, Bool.not_eq_true]

theorem validateLocalIds_ok_iff {isThere : Nat → Bool} {seen ids result : List Nat}
    (distinct : seen.Nodup) :
    validateLocalIds isThere seen ids = .ok result ↔
      result = seen ++ ids ∧ (seen ++ ids).Nodup ∧ ∀ id ∈ ids, isThere id = true := by
  unfold validateLocalIds
  induction ids generalizing seen with
  | nil =>
    rw [List.append_nil]
    refine ⟨fun ok => ⟨(Except.ok.inj ok).symm, distinct, nofun⟩, fun both => ?_⟩
    rw [both.1]
    rfl
  | cons id rest ih =>
    rw [List.foldlM_cons, bind_ok_iff]
    by_cases refused : id ∈ seen ∨ isThere id = false
    · rw [if_pos refused]
      refine ⟨fun both => (nomatch both.choose_spec.1), fun both => ?_⟩
      obtain ⟨-, apart, there⟩ := both
      rcases refused with again | missing
      · exact (List.disjoint_of_nodup_append apart again (List.mem_cons_self ..)).elim
      · exact absurd (there id (List.mem_cons_self ..)) (by rw [missing]; exact nofun)
    · rw [if_neg refused]
      obtain ⟨isNew, isThere'⟩ := not_or.mp refused
      have extended : (seen ++ [id]).Nodup :=
        distinct.append (List.nodup_singleton id) fun other member same =>
          isNew (List.mem_singleton.mp same ▸ member)
      have rest_iff := ih extended
      rw [List.append_assoc, List.singleton_append] at rest_iff
      refine ⟨fun both => ?_, fun both => ⟨seen ++ [id], rfl, rest_iff.mpr ⟨both.1, both.2.1, ?_⟩⟩⟩
      · obtain ⟨value, is, ok⟩ := both
        obtain rfl := Except.ok.inj is
        obtain ⟨isResult, nodup, there⟩ := rest_iff.mp ok
        refine ⟨isResult, nodup, fun other member => ?_⟩
        rcases List.mem_cons.mp member with rfl | later
        · simpa using isThere'
        · exact there other later
      · exact fun other later => both.2.2 other (List.mem_cons_of_mem _ later)

theorem validateDefinition_ok_iff {product : ProductModel R} {id : DefinitionId}
    {definition : Definition} :
    validateDefinition product id definition = .ok () ↔
      id ≠ 0 ∧ isBlank definition.name = false ∧ (definition.localGroupIds ++ definition.localOccurrenceIds).Nodup ∧
        (∀ localId ∈ definition.localGroupIds, (⟨id, localId⟩ : LocalGroupKey) ∈ product.localGroups) ∧
        ∀ localId ∈ definition.localOccurrenceIds,
          (⟨id, localId⟩ : LocalOccurrenceKey) ∈ product.localOccurrences := by
  unfold validateDefinition
  rw [check_ok_iff, check_ok_iff, ensureProductId_ok_iff, ensureName_ok_iff, bind_ok_iff]
  refine and_congr_right fun _ => and_congr_right fun _ => ?_
  refine ⟨fun both => ?_, fun both => ?_⟩
  · obtain ⟨seen, groups, rest⟩ := both
    obtain ⟨all, parts, _⟩ := bind_ok rest
    obtain ⟨rfl, distinct, groupsThere⟩ := (validateLocalIds_ok_iff List.nodup_nil).mp groups
    obtain ⟨-, distinct', partsThere⟩ := (validateLocalIds_ok_iff distinct).mp parts
    exact ⟨distinct', fun localId member => Std.ExtTreeMap.contains_iff_mem.mp (groupsThere localId member),
      fun localId member => Std.ExtTreeMap.contains_iff_mem.mp (partsThere localId member)⟩
  · obtain ⟨distinct, groupsThere, partsThere⟩ := both
    have groups : definition.localGroupIds.Nodup := (List.nodup_append.mp distinct).1
    refine ⟨[] ++ definition.localGroupIds, (validateLocalIds_ok_iff List.nodup_nil).mpr
      ⟨rfl, groups, fun localId member => Std.ExtTreeMap.contains_iff_mem.mpr (groupsThere localId member)⟩,
      bind_ok_iff.mpr ⟨_, (validateLocalIds_ok_iff groups).mpr ⟨rfl, distinct, fun localId member =>
        Std.ExtTreeMap.contains_iff_mem.mpr (partsThere localId member)⟩, rfl⟩⟩

theorem validateTags_ok_iff {product : ProductModel R} {tags : List TagId} :
    validateTags product tags = .ok () ↔ ∀ tag ∈ tags, tag ∈ product.tags := by
  unfold validateTags
  rw [forM_ok_iff]
  simp only [refuseIf_ok, not_not]

theorem parent_ok_iff {K : Type} (isThere : K → Bool) {parent : Option K}
    {missing : K → Fault CanonicalError} :
    (parent.toList.forM fun parent => refuseIf (isThere parent = false) (missing parent)) = .ok () ↔
      ∀ id, parent = some id → isThere id = true := by
  rw [forM_ok_iff]
  simp only [refuseIf_ok, Bool.not_eq_false, Option.mem_toList]

theorem validateLineage_ok_iff {K : Type} [DecidableEq K] {isThere : K → Bool}
    {parentOf : K → Option (Option K)} {missing cyclic : K → CanonicalError} {keys : List K}
    (there : ∀ key, isThere key = true ↔ ∃ parent, parentOf key = some parent)
    (listed : ∀ key parent, parentOf key = some parent → key ∈ keys) {fuel : Nat}
    (enough : keys.length ≤ fuel) {id : K} {parent : Option K} (isParent : parentOf id = some parent) :
    validateLineage isThere parentOf missing cyclic fuel id parent = .ok () ↔
      ∃ lineage, Ancestry parentOf (some id) lineage := by
  have walk := climb_distinct_ok_iff (fun id => Fault.error (cyclic id)) (fun _ => .panic) .hang listed
    enough (some id)
  unfold validateLineage
  rw [check_ok_iff, parent_ok_iff, bind_ok_iff]
  refine ⟨fun both => walk.mp ⟨both.2.choose, both.2.choose_spec.1⟩, fun ends => ⟨?_, ?_⟩⟩
  · intro above isAbove
    obtain ⟨lineage, ancestry⟩ := ends
    obtain ⟨parent', rest, known, upward, -⟩ := ancestry.known_head
    obtain rfl := Option.some.inj (isParent.symm.trans known)
    rw [isAbove] at upward
    obtain ⟨next, _, known, _⟩ := upward.known_head
    exact (there above).mpr ⟨next, known⟩
  · obtain ⟨result, ok⟩ := walk.mpr ends
    exact ⟨result, ok, rfl⟩

theorem validateOccurrence_ok_iff {product : ProductModel R} {id : OccurrenceId}
    {occurrence : Occurrence R} :
    validateOccurrence product id occurrence = .ok () ↔
      id ≠ 0 ∧ isBlank occurrence.name = false ∧ occurrence.definitionId ∈ product.definitions ∧
        (∀ parent, occurrence.parent = some parent → product.groups.contains parent = true) ∧
        ∀ tag ∈ occurrence.tags, tag ∈ product.tags := by
  unfold validateOccurrence
  rw [check_ok_iff, check_ok_iff, check_ok_iff, check_ok_iff, ensureProductId_ok_iff,
    ensureName_ok_iff, refuseIf_ok, not_not, parent_ok_iff, validateTags_ok_iff]

theorem lists_iff {product : ProductModel R} {localIds : Definition → List Nat}
    {definitionId : DefinitionId} {localId : Nat} :
    product.lists localIds definitionId localId = true ↔
      ∃ definition, product.definitions[definitionId]? = some definition ∧
        localId ∈ localIds definition := by
  rw [ProductModel.lists, Option.any_eq_true]
  simp only [List.contains_iff_mem]

theorem groups_contains_iff {product : ProductModel R} {id : GroupId} :
    product.groups.contains id = true ↔ ∃ parent, product.groupParent id = some parent := by
  rw [Std.ExtTreeMap.contains_iff_mem, BTreeMap.mem_iff_exists]
  simp only [ProductModel.groupParent, Option.map_eq_some_iff]
  exact ⟨fun ⟨group, found⟩ => ⟨group.parent, group, found, rfl⟩,
    fun ⟨_, group, found, _⟩ => ⟨group, found⟩⟩

theorem localGroups_contains_iff {product : ProductModel R} {definitionId : DefinitionId}
    {id : LocalGroupId} : product.localGroups.contains ⟨definitionId, id⟩ = true ↔
      ∃ parent, product.localGroupParent definitionId id = some parent := by
  rw [Std.ExtTreeMap.contains_iff_mem, BTreeMap.mem_iff_exists]
  simp only [ProductModel.localGroupParent, Option.map_eq_some_iff]
  exact ⟨fun ⟨group, found⟩ => ⟨group.parent, group, found, rfl⟩,
    fun ⟨_, group, found, _⟩ => ⟨group, found⟩⟩

theorem groupParent_listed {product : ProductModel R} (key : GroupId) (parent : Option GroupId)
    (isParent : product.groupParent key = some parent) : key ∈ product.groups.keys := by
  rw [Std.ExtTreeMap.mem_keys, ← Std.ExtTreeMap.contains_iff_mem]
  exact groups_contains_iff.mpr ⟨parent, isParent⟩

theorem localGroupParent_listed {product : ProductModel R} {definitionId : DefinitionId}
    (key : LocalGroupId) (parent : Option LocalGroupId)
    (isParent : product.localGroupParent definitionId key = some parent) :
    key ∈ product.localGroups.keys.map LocalGroupKey.localId := by
  refine List.mem_map.mpr ⟨⟨definitionId, key⟩, ?_, rfl⟩
  rw [Std.ExtTreeMap.mem_keys, ← Std.ExtTreeMap.contains_iff_mem]
  exact localGroups_contains_iff.mpr ⟨parent, isParent⟩

theorem validateGroup_ok_iff {product : ProductModel R} {id : GroupId} {group : Group R}
    (found : product.groups[id]? = some group) :
    validateGroup product id group = .ok () ↔ id ≠ 0 ∧ isBlank group.name = false ∧
      ∃ lineage, Ancestry product.groupParent (some id) lineage := by
  unfold validateGroup
  rw [check_ok_iff, check_ok_iff, ensureProductId_ok_iff, ensureName_ok_iff]
  refine and_congr_right fun _ => and_congr_right fun _ => ?_
  refine validateLineage_ok_iff (fun _ => groups_contains_iff) groupParent_listed ?_ ?_
  · rw [Std.ExtTreeMap.length_keys]
    exact Nat.le_succ _
  · rw [ProductModel.groupParent, found]
    rfl

theorem validateLocalGroup_ok_iff {product : ProductModel R} {key : LocalGroupKey}
    {group : LocalGroup R} (found : product.localGroups[key]? = some group) :
    validateLocalGroup product key group = .ok () ↔
      product.lists Definition.localGroupIds key.definitionId key.localId = true ∧
        ∃ lineage, Ancestry (product.localGroupParent key.definitionId) (some key.localId) lineage := by
  unfold validateLocalGroup
  rw [check_ok_iff, refuseIf_ok, Bool.not_eq_false]
  refine and_congr_right fun _ => ?_
  refine validateLineage_ok_iff (fun _ => localGroups_contains_iff) localGroupParent_listed ?_ ?_
  · rw [List.length_map, Std.ExtTreeMap.length_keys]
    exact Nat.le_succ _
  · rw [ProductModel.localGroupParent, found]
    rfl

theorem validateLocalOccurrence_ok_iff {product : ProductModel R} {key : LocalOccurrenceKey}
    {occurrence : LocalOccurrence R} :
    validateLocalOccurrence product key occurrence = .ok () ↔
      product.lists Definition.localOccurrenceIds key.definitionId key.localId = true ∧
        occurrence.definitionId ∈ product.definitions ∧
        (∀ parent, occurrence.parent = some parent →
          product.localGroups.contains ⟨key.definitionId, parent⟩ = true) ∧
        ∀ tag ∈ occurrence.tags, tag ∈ product.tags := by
  unfold validateLocalOccurrence
  rw [check_ok_iff, check_ok_iff, refuseIf_ok,
    parent_ok_iff (fun parent => product.localGroups.contains ⟨key.definitionId, parent⟩),
    validateTags_ok_iff, not_or, Bool.not_eq_false, not_not, and_assoc]

/-- A parent that is there or none hangs from the top, where the groups do. -/
theorem parent_there_iff {K : Type} {parentOf : K → Option (Option K)}
    (ends : ∀ key parent, parentOf key = some parent → ∃ lineage, Ancestry parentOf (some key) lineage)
    {parent : Option K} : (∀ key, parent = some key → ∃ above, parentOf key = some above) ↔
      ∃ lineage, Ancestry parentOf parent lineage := by
  cases parent with
  | none => exact iff_of_true nofun ⟨[], .top⟩
  | some key =>
    refine ⟨fun there => ?_, fun lineage other same => ?_⟩
    · obtain ⟨above, known⟩ := there key rfl
      exact ends key above known
    · obtain rfl := Option.some.inj same
      obtain ⟨above, _, known, _⟩ := lineage.choose_spec.known_head
      exact ⟨above, known⟩

/-- The parts of a definition that are there are of known definitions. -/
theorem placedIn_eq {product : ProductModel R} {id : DefinitionId} {definition : Definition}
    (found : product.definitions[id]? = some definition) (placed : LocalOccurrenceId → DefinitionId)
    (parts : ∀ localId ∈ definition.localOccurrenceIds, ∃ occurrence,
      product.localOccurrences[(⟨id, localId⟩ : LocalOccurrenceKey)]? = some occurrence ∧
        occurrence.definitionId = placed localId) :
    product.placedIn id = .ok (definition.localOccurrenceIds.map placed) := by
  unfold ProductModel.placedIn
  refine bind_ok_iff.mpr ⟨definition, ?_, mapM_ok_of_each fun localId member => ?_⟩
  · rw [index, found]
  · obtain ⟨occurrence, isThere, same⟩ := parts localId member
    refine bind_ok_iff.mpr ⟨occurrence, ?_, ?_⟩
    · rw [index, isThere]
    · rw [same]
      rfl

theorem founded_of_validateDefinitionOwnershipGraph {product : ProductModel R}
    (ok : validateDefinitionOwnershipGraph product = .ok ()) :
    WellFounded (LeadsTo product.placedIn) := by
  obtain ⟨visited, walked, _⟩ := bind_ok ok
  obtain ⟨founded, all, -⟩ := visits_keep (fun _ _ _ before => visit_acc before)
    (fun other member => absurd member Std.ExtTreeSet.not_mem_empty) walked
  refine ⟨fun id => ?_⟩
  by_cases there : id ∈ product.definitions
  · exact founded id (all id (Std.ExtTreeMap.mem_keys.mpr there))
  · refine .intro id fun target leadsTo => ?_
    obtain ⟨leads, isLeads, -⟩ := leadsTo
    obtain ⟨definition, isDefinition, -⟩ := bind_ok isLeads
    exact absurd (BTreeMap.mem_iff_exists.mpr ⟨definition, index_ok isDefinition⟩) there

/-- The definitions that are there have levels, where those placed in them are there too. -/
theorem exists_levelled {product : ProductModel R} (founded : WellFounded (LeadsTo product.placedIn))
    (known : ∀ id ∈ product.definitions, ∃ leads, product.placedIn id = .ok leads ∧
      ∀ target ∈ leads, target ∈ product.definitions) :
    ∃ level, (∀ id, level id ≤ product.definitions.size) ∧
      Levelled product.placedIn product.definitions.keys level := by
  obtain ⟨level, within, falls⟩ := exists_level founded product.definitions.keys
  rw [Std.ExtTreeMap.length_keys] at within
  refine ⟨level, within, ⟨fun id member => ?_, falls⟩⟩
  obtain ⟨leads, isLeads, inside⟩ := known id (Std.ExtTreeMap.mem_keys.mp member)
  exact ⟨leads, isLeads, fun target isTarget => Std.ExtTreeMap.mem_keys.mpr (inside target isTarget)⟩

theorem validateDefinitionOwnershipGraph_ok_iff {product : ProductModel R}
    (known : ∀ id ∈ product.definitions, ∃ leads, product.placedIn id = .ok leads ∧
      ∀ target ∈ leads, target ∈ product.definitions) :
    validateDefinitionOwnershipGraph product = .ok () ↔ WellFounded (LeadsTo product.placedIn) := by
  refine ⟨founded_of_validateDefinitionOwnershipGraph, fun founded => ?_⟩
  obtain ⟨level, within, levelled⟩ := exists_levelled founded known
  obtain ⟨visited, walked⟩ := visits_succeed _ _ (fun id member visited =>
    visit_of_levelled (.error CanonicalError.invalidLocalGraph) .hang levelled visited member
      (Nat.lt_succ_of_le (within id)) fun other member => absurd member Std.ExtTreeSet.not_mem_empty) ∅
  exact bind_ok_iff.mpr ⟨visited, walked, rfl⟩

/-! ### All checks -/

/-- The definition a local part is placed from. -/
def ProductModel.placedAt (product : ProductModel R) (id : DefinitionId) (localId : LocalOccurrenceId) :
    DefinitionId :=
  (product.localOccurrences[(⟨id, localId⟩ : LocalOccurrenceKey)]?).elim 0 LocalOccurrence.definitionId

/-- What is placed in a definition that is there. -/
theorem placedIn_known {product : ProductModel R}
    (localOccurrences : ∀ (id : DefinitionId) (definition : Definition),
      product.definitions[id]? = some definition → ∀ localId ∈ definition.localOccurrenceIds,
        (⟨id, localId⟩ : LocalOccurrenceKey) ∈ product.localOccurrences)
    (placed : ∀ (key : LocalOccurrenceKey) (occurrence : LocalOccurrence R),
      product.localOccurrences[key]? = some occurrence → occurrence.definitionId ∈ product.definitions)
    (id : DefinitionId) (there : id ∈ product.definitions) :
    ∃ leads, product.placedIn id = .ok leads ∧ ∀ target ∈ leads, target ∈ product.definitions := by
  obtain ⟨definition, found⟩ := BTreeMap.mem_iff_exists.mp there
  refine ⟨_, placedIn_eq found (product.placedAt id) fun localId member => ?_,
    fun target isTarget => ?_⟩
  · obtain ⟨occurrence, isThere⟩ :=
      BTreeMap.mem_iff_exists.mp (localOccurrences id definition found localId member)
    exact ⟨occurrence, isThere, by rw [ProductModel.placedAt, isThere]; rfl⟩
  · obtain ⟨localId, member, rfl⟩ := List.mem_map.mp isTarget
    obtain ⟨occurrence, isThere⟩ :=
      BTreeMap.mem_iff_exists.mp (localOccurrences id definition found localId member)
    rw [ProductModel.placedAt, isThere]
    exact placed _ _ isThere

/-- **A product passes validation exactly when its structure is sound.** -/
theorem validateStructure_ok_iff {product : ProductModel R} :
    validateStructure product = .ok () ↔ Structured product := by
  unfold validateStructure
  simp only [check_ok_iff, forM_ok_iff, BTreeMap.forall_mem_toList, validateDefinition_ok_iff,
    validateOccurrence_ok_iff, validateLocalOccurrence_ok_iff]
  constructor
  · rintro ⟨definitions, occurrences, groups, localGroups, localOccurrences, graph⟩
    have group : ∀ id parent, product.groupParent id = some parent →
        ∃ lineage, Ancestry product.groupParent (some id) lineage := by
      intro id parent isParent
      obtain ⟨group, found, -⟩ := Option.map_eq_some_iff.mp isParent
      exact ((validateGroup_ok_iff found).mp (groups id group found)).2.2
    have localGroup : ∀ definitionId id parent,
        product.localGroupParent definitionId id = some parent →
          ∃ lineage, Ancestry (product.localGroupParent definitionId) (some id) lineage := by
      intro definitionId id parent isParent
      obtain ⟨group, found, -⟩ := Option.map_eq_some_iff.mp isParent
      exact ((validateLocalGroup_ok_iff found).mp (localGroups _ group found)).2
    exact {
      definitionNamed := fun id definition found =>
        ⟨(definitions id definition found).1, (definitions id definition found).2.1⟩
      occurrenceNamed := fun id occurrence found =>
        ⟨(occurrences id occurrence found).1, (occurrences id occurrence found).2.1⟩
      groupNamed := fun id group found => by
        have checked := (validateGroup_ok_iff found).mp (groups id group found)
        exact ⟨checked.1, checked.2.1⟩
      localIds := fun id definition found => (definitions id definition found).2.2.1
      localGroups := fun id definition found => (definitions id definition found).2.2.2.1
      localOccurrences := fun id definition found => (definitions id definition found).2.2.2.2
      occurrence := fun id occurrence found => by
        obtain ⟨-, -, definition, parent, tags⟩ := occurrences id occurrence found
        exact ⟨definition, tags, (parent_there_iff group).mp fun key same =>
          groups_contains_iff.mp (parent key same)⟩
      group := fun id there => by
        obtain ⟨group, found⟩ := BTreeMap.mem_iff_exists.mp there
        exact ((validateGroup_ok_iff found).mp (groups id group found)).2.2
      localGroup := fun key there => by
        obtain ⟨group, found⟩ := BTreeMap.mem_iff_exists.mp there
        exact (validateLocalGroup_ok_iff found).mp (localGroups key group found)
      localOccurrence := fun key occurrence found => by
        obtain ⟨listed, definition, parent, tags⟩ := localOccurrences key occurrence found
        exact ⟨listed, definition, tags, (parent_there_iff (localGroup _)).mp fun id same =>
          localGroups_contains_iff.mp (parent id same)⟩
      founded := founded_of_validateDefinitionOwnershipGraph graph }
  · intro sound
    refine ⟨fun id definition found => ⟨(sound.definitionNamed id definition found).1,
      (sound.definitionNamed id definition found).2, sound.localIds id definition found,
      sound.localGroups id definition found, sound.localOccurrences id definition found⟩,
      fun id occurrence found => ?_, fun id group found => ?_, fun key group found => ?_,
      fun key occurrence found => ?_, ?_⟩
    · obtain ⟨definition, tags, lineage⟩ := sound.occurrence id occurrence found
      refine ⟨(sound.occurrenceNamed id occurrence found).1, (sound.occurrenceNamed id occurrence found).2,
        definition, fun parent same => groups_contains_iff.mpr ?_, tags⟩
      exact (parent_there_iff fun key above isAbove => sound.group key (Std.ExtTreeMap.contains_iff_mem.mp
        (groups_contains_iff.mpr ⟨above, isAbove⟩))).mpr lineage parent same
    · exact (validateGroup_ok_iff found).mpr ⟨(sound.groupNamed id group found).1,
        (sound.groupNamed id group found).2, sound.group id (BTreeMap.mem_iff_exists.mpr ⟨_, found⟩)⟩
    · exact (validateLocalGroup_ok_iff found).mpr
        (sound.localGroup key (BTreeMap.mem_iff_exists.mpr ⟨_, found⟩))
    · obtain ⟨listed, definition, tags, lineage⟩ := sound.localOccurrence key occurrence found
      refine ⟨listed, definition, fun parent same => localGroups_contains_iff.mpr ?_, tags⟩
      exact (parent_there_iff fun id above isAbove =>
        (sound.localGroup ⟨key.definitionId, id⟩ (Std.ExtTreeMap.contains_iff_mem.mp
          (localGroups_contains_iff.mpr ⟨above, isAbove⟩))).2).mpr lineage parent same
    · exact (validateDefinitionOwnershipGraph_ok_iff (placedIn_known sound.localOccurrences
        fun key occurrence found => (sound.localOccurrence key occurrence found).2.1)).mpr sound.founded

namespace Structured

variable {product : ProductModel R} (sound : Structured product)

include sound

/-- What is placed in a definition that is there. -/
theorem placedIn (id : DefinitionId) (there : id ∈ product.definitions) :
    ∃ leads, product.placedIn id = .ok leads ∧ ∀ target ∈ leads, target ∈ product.definitions :=
  placedIn_known sound.localOccurrences
    (fun key occurrence found => (sound.localOccurrence key occurrence found).2.1) id there

/-- A local part is placed in the definition that holds it. -/
theorem leadsTo {key : LocalOccurrenceKey} {occurrence : LocalOccurrence R}
    (found : product.localOccurrences[key]? = some occurrence) :
    LeadsTo product.placedIn occurrence.definitionId key.definitionId := by
  obtain ⟨definition, isDefinition, member⟩ := lists_iff.mp (sound.localOccurrence key _ found).1
  refine ⟨_, placedIn_eq isDefinition (product.placedAt key.definitionId) fun localId listed => ?_,
    List.mem_map.mpr ⟨key.localId, member, ?_⟩⟩
  · obtain ⟨other, isThere⟩ := BTreeMap.mem_iff_exists.mp
      (sound.localOccurrences key.definitionId definition isDefinition localId listed)
    exact ⟨other, isThere, by rw [ProductModel.placedAt, isThere]; rfl⟩
  · rw [ProductModel.placedAt, found]
    rfl

end Structured

end Ketchup.Product
