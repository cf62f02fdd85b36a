/-
**Groups form a forest, and instances are copies of what components captured.**

Each call keeps `Kept`: the tables are true, a component holds all that is in its group (`Captured`), and an
instance has a copy of each of these (`Placed`).

* `step_kept` — a call that is not refused keeps it.
* `run_forest` — after any calls, names are distinct, members are there, in one group, and no group is in itself.
-/

import Ketchup.Assemblies.Names
import Ketchup.Exact.Connectivity
import Mathlib.Algebra.Order.BigOperators.Group.List

set_option linter.unusedSectionVars false

namespace Ketchup.Assemblies

section Kept

variable {T G : Type}

/-- The names of what a component captured. -/
def Component.names (component : Component G) : List String :=
  component.parts.map Part.name ++ component.groups.map Group.name

/-- What a joint keeps wherever its parts go. -/
def Joint.ends (joint : Joint G) : String × (String × String) × List JointLink := (joint.name, joint.parts, joint.links)

/-- A group of that name has the other among its members. -/
def Member (groups : List Group) (name member : String) : Prop := ∃ group ∈ groups, group.name = name ∧ member ∈ group.members

/-- A component holds all that is in its group. -/
structure Captured (model : Model T G) (component : Component G) : Prop where
  parts : (component.parts.map Part.name).Sublist (model.namesOf .part)
  groups : component.groups.Sublist model.groups
  closed : ∀ group ∈ component.groups, ∀ member ∈ group.members, member ∈ component.names
  root : component.name ∈ component.groups.map Group.name
  free : ∀ group ∈ component.groups, component.name ∉ group.members
  reached : ∀ name ∈ component.names, Relation.ReflTransGen (Member model.groups) component.name name
  joints : ∀ joint ∈ component.joints, joint.ends ∈ model.joints.map Joint.ends ∧ joint.parts.1 ∈ component.names ∧ joint.parts.2 ∈ component.names ∧
    ∀ link ∈ joint.links, ∀ part ∈ link.hardwareParts, part ∈ component.names
  motions : ∀ motion ∈ component.motions, motion ∈ model.motions ∧ motion.endpoints.1 ∈ component.names ∧
    motion.endpoints.2 ∈ component.names

variable [Placement T G]

/-- An instance has a copy of all that its component captured, under its own names. -/
structure Placed (model : Model T G) (component : Component G) (inst : Instance T) : Prop where
  parts : ∀ part ∈ component.parts, (instancePart inst part).name ∈ model.namesOf .part
  groups : ∀ group ∈ instanceGroups component inst, ∃ held ∈ model.groups, held.name = group.name ∧
    held.members = group.members ∧ held.logical = group.logical ∧ (held.grounded = group.grounded ∨ held.name = inst.name)
  joints : ∀ joint ∈ component.joints, (instanceJoint inst joint).ends ∈ model.joints.map Joint.ends
  motions : ∀ motion ∈ component.motions, instanced inst motion ∈ model.motions
  distinct : ((component.parts.map (instancePart inst)).map Part.name ++ (instanceGroups component inst).map Group.name).Nodup

structure Kept (state : State T G) : Prop where
  sound : Sound state
  captured : ∀ component ∈ state.model.components, Captured state.model component
  placed : ∀ inst ∈ state.model.instances, ∃ component ∈ state.model.components, component.name = inst.component ∧
    Placed state.model component inst

/-- A model that holds what another does, and perhaps more. -/
structure Extends (model other : Model T G) : Prop where
  parts : (model.namesOf .part).Sublist (other.namesOf .part)
  groups : model.groups.Sublist other.groups
  components : model.components ⊆ other.components
  joints : model.joints.map Joint.ends ⊆ other.joints.map Joint.ends
  motions : model.motions ⊆ other.motions

theorem Captured.mono {model other : Model T G} {component : Component G} (captured : Captured model component)
    (more : Extends model other) : Captured other component where
  parts := captured.parts.trans more.parts
  groups := captured.groups.trans more.groups
  closed := captured.closed
  root := captured.root
  free := captured.free
  reached name among := (captured.reached name among).lift id fun one two member => by
    obtain ⟨group, held, rest⟩ := member
    exact ⟨group, more.groups.subset held, rest⟩
  joints joint among := (captured.joints joint among).imp_left fun held => more.joints held
  motions motion among := (captured.motions motion among).imp_left fun held => more.motions held

theorem Placed.mono {model other : Model T G} {component : Component G} {inst : Instance T} (placed : Placed model component inst)
    (more : Extends model other) : Placed other component inst where
  parts part among := more.parts.subset (placed.parts part among)
  groups group among := by
    obtain ⟨held, inside, rest⟩ := placed.groups group among
    exact ⟨held, more.groups.subset inside, rest⟩
  joints joint among := more.joints (placed.joints joint among)
  motions motion among := more.motions (placed.motions motion among)
  distinct := placed.distinct

/-- A state whose tables are true and that holds what the last did, with no new component or instance. -/
theorem Kept.extend {state other : State T G} (kept : Kept state) (sound : Sound other) (more : Extends state.model other.model)
    (components : other.model.components = state.model.components) (instances : other.model.instances = state.model.instances) :
    Kept other where
  sound := sound
  captured component among := (kept.captured component (components ▸ among)).mono more
  placed inst among := by
    obtain ⟨component, held, is, placed⟩ := kept.placed inst (instances ▸ among)
    exact ⟨component, more.components held, is, placed.mono more⟩

theorem Extends.refl (model : Model T G) : Extends model model :=
  ⟨.refl _, .refl _, List.Subset.refl _, List.Subset.refl _, List.Subset.refl _⟩

theorem within_injective (inst : String) : Function.Injective (within inst) := by
  intro one two same
  unfold within at same
  exact (String.append_right_inj _).mp same

theorem start_kept : Kept (start : State T G) where
  sound := start_sound
  captured _ among := absurd among List.not_mem_nil
  placed _ among := absurd among List.not_mem_nil

/-! ### Instances -/

theorem Sound.single {state : State T G} (sound : Sound state) : Single state.model.groups := by
  have distinct := sound.distinct .group
  unfold Model.namesOf at distinct
  rw [List.nodup_iff_pairwise_ne, List.pairwise_map] at distinct
  refine List.Pairwise.imp_of_mem ?_ distinct
  intro one two isOne isTwo apart member first second
  have its := (sound.parents member one.name).mpr ⟨one, isOne, rfl, first⟩
  rw [(sound.parents member two.name).mpr ⟨two, isTwo, rfl, second⟩] at its
  exact apart (Option.some.inj its).symm

theorem Sound.apart {state : State T G} (sound : Sound state) {name : String} {one two : Named}
    (first : name ∈ state.model.namesOf one) (second : name ∈ state.model.namesOf two) : one = two :=
  Option.some.inj (((sound.named name one).mpr first).symm.trans ((sound.named name two).mpr second))

section Instance

variable {state : State T G} {component : Component G} {inst : Instance T}

/-- A captured name is that of a part or of a group. -/
theorem Captured.namesOf {model : Model T G} (captured : Captured model component) {name : String} (among : name ∈ component.names) :
    name ∈ model.namesOf .part ∨ name ∈ model.namesOf .group :=
  (List.mem_append.mp among).imp (fun part => captured.parts.subset part)
    fun group => (captured.groups.map Group.name).subset group

theorem Captured.root_mem {model : Model T G} (captured : Captured model component) : component.name ∈ component.names :=
  List.mem_append_right _ captured.root

/-- Parts keep their names under the instance's, as the component is none of them. -/
theorem Captured.groupName_part (sound : Sound state) (captured : Captured state.model component) {part : Part G}
    (among : part ∈ component.parts) : groupName component inst part.name = within inst.name part.name := by
  refine if_neg fun is => ?_
  have asPart := captured.parts.subset (List.mem_map_of_mem among)
  have asGroup : component.name ∈ state.model.namesOf .group := (captured.groups.map Group.name).subset captured.root
  cases sound.apart (is ▸ asPart) asGroup

theorem Captured.names_image (sound : Sound state) (captured : Captured state.model component) :
    (component.parts.map (instancePart inst)).map Part.name ++ (instanceGroups component inst).map Group.name =
      component.names.map (groupName component inst) := by
  rw [Component.names, List.map_append, List.map_map, List.map_map, instanceGroups, List.map_map, List.map_map]
  congr 1
  exact List.map_congr_left fun part among => (captured.groupName_part sound among).symm

variable (inst) in
/-- A copy of a group for an instance. -/
structure Copies (component : Component G) (copy : Group → Group) : Prop where
  name : ∀ group, (copy group).name = groupName component inst group.name
  members : ∀ group, (copy group).members = group.members.map (within inst.name)

/-- **The names of an instance fit in where they are new and distinct.** -/
theorem Captured.fits (sound : Sound state) (captured : Captured state.model component) {copy : Group → Group}
    (copies : Copies inst component copy)
    (fresh : ∀ name ∈ component.names.map (groupName component inst), name ∉ state.names)
    (distinct : (component.names.map (groupName component inst)).Nodup) :
    Fits state (component.parts.map (instancePart inst)) (component.groups.map copy) := by
  have names : (component.parts.map (instancePart inst)).map Part.name ++ (component.groups.map copy).map Group.name =
      component.names.map (groupName component inst) := by
    rw [← captured.names_image sound, instanceGroups, List.map_map, List.map_map, List.map_map]
    congr 1
    exact List.map_congr_left fun group _ => copies.name group
  have injective : ∀ one ∈ component.names, ∀ two ∈ component.names,
      groupName component inst one = groupName component inst two → one = two := fun one isOne two isTwo same =>
    List.inj_on_of_nodup_map distinct isOne isTwo same
  -- A member is called by its image, as it is not the component itself.
  have member : ∀ group ∈ component.groups, ∀ other ∈ group.members, within inst.name other = groupName component inst other := by
    intro group among other inside
    rw [groupName, if_neg]
    rintro rfl
    exact captured.free group among inside
  constructor
  · rw [names]
    exact fresh
  · rw [names]
    exact distinct
  · intro _ new
    obtain ⟨group, among, rfl⟩ := List.mem_map.mp new
    rw [copies.members]
    exact (sound.once group (captured.groups.subset among)).map (within_injective _)
  · intro _ new _ its
    obtain ⟨group, among, rfl⟩ := List.mem_map.mp new
    rw [copies.members] at its
    obtain ⟨other, inside, rfl⟩ := List.mem_map.mp its
    have new := List.mem_map_of_mem (f := groupName component inst) (captured.closed group among other inside)
    rw [← names, ← member group among other inside] at new
    exact (List.mem_append.mp new).imp_right .inl
  · intro _ new _ its
    obtain ⟨group, among, rfl⟩ := List.mem_map.mp new
    rw [copies.members] at its
    obtain ⟨other, inside, rfl⟩ := List.mem_map.mp its
    by_contra owned
    obtain ⟨parent, held⟩ := Option.ne_none_iff_exists'.mp owned
    obtain ⟨owner, isOwner, _, its⟩ := (sound.parents _ _).mp held
    have new := List.mem_map_of_mem (f := groupName component inst) (captured.closed group among other inside)
    rw [← member group among other inside] at new
    have absent := sound.fresh_iff.mp (fresh _ new)
    exact (sound.there owner isOwner _ its).elim (absent .part) (absent .group)
  · refine List.pairwise_map.mpr ((sound.single.sublist captured.groups).imp fun {one two} apart other first second => ?_)
    rw [copies.members] at first second
    obtain ⟨one', inOne, rfl⟩ := List.mem_map.mp first
    obtain ⟨two', inTwo, same⟩ := List.mem_map.mp second
    exact apart one' inOne (within_injective _ same ▸ inTwo)
  · intro level levelled
    -- New names lie as high as those they are images of.
    refine ⟨fun name => ((component.names.find? fun old => groupName component inst old = name).map level).getD (level name), ?_, ?_⟩
    · intro name out
      rw [names] at out
      have none : (component.names.find? fun old => groupName component inst old = name) = none := by
        refine List.find?_eq_none.mpr fun old among is => out ?_
        exact of_decide_eq_true is ▸ List.mem_map_of_mem among
      simp only [none, Option.map_none, Option.getD_none]
    · have found : ∀ old ∈ component.names,
          (component.names.find? fun other => groupName component inst other = groupName component inst old) = some old := by
        intro old among
        cases is : component.names.find? fun other => groupName component inst other = groupName component inst old with
        | none => exact absurd (decide_eq_true rfl) (List.find?_eq_none.mp is old among)
        | some other =>
          have same : groupName component inst other = groupName component inst old := by simpa using List.find?_some is
          rw [injective other (List.mem_of_find?_eq_some is) old among same]
      intro _ new _ its
      obtain ⟨group, among, rfl⟩ := List.mem_map.mp new
      rw [copies.members] at its
      obtain ⟨other, inside, rfl⟩ := List.mem_map.mp its
      have named : group.name ∈ component.names := List.mem_append_right _ (List.mem_map_of_mem among)
      rw [copies.name, member group among other inside]
      simp only [found _ named, found _ (captured.closed group among other inside), Option.map_some, Option.getD_some]
      exact levelled group (captured.groups.subset among) other inside

end Instance

/-! ### Calls -/

section Calls

variable {state after : State T G}

theorem checkName_ok {name : String} (ok : checkName state name = .ok ()) : name ∉ state.names :=
  refuseIf_ok.mp (check_ok_iff.mp ok).2

theorem checkNames_ok {name : String} {names : BTreeSet String} {list : List String}
    (ok : checkNames state name names list = .ok ()) :
    list.Nodup ∧ ∀ next ∈ list, next ∉ state.names ∧ next ∉ names := by
  induction list generalizing names with
  | nil => exact ⟨.nil, fun _ among => absurd among List.not_mem_nil⟩
  | cons next rest ih =>
    obtain ⟨free, ok⟩ := check_ok_iff.mp ok
    obtain ⟨new, ok⟩ := check_ok_iff.mp ok
    obtain ⟨distinct, each⟩ := ih ok
    refine ⟨List.nodup_cons.mpr ⟨fun later => ?_, distinct⟩, List.forall_mem_cons.mpr ⟨⟨checkName_ok free, refuseIf_ok.mp new⟩, ?_⟩⟩
    · exact (each next later).2 (BTreeSet.mem_insert.mpr (.inl rfl))
    · exact fun other later => (each other later).imp_right fun out inside => out (BTreeSet.mem_insert.mpr (.inr inside))

theorem checkMembers_ok {name : String} {unique : BTreeSet String} {members : List String}
    (ok : checkMembers state name unique members = .ok ()) :
    members.Nodup ∧ ∀ member ∈ members, member ∉ unique ∧
      (state.names[member]? = some .part ∨ state.names[member]? = some .group) ∧ state.groupOf[member]? = none := by
  induction members generalizing unique with
  | nil => exact ⟨.nil, fun _ among => absurd among List.not_mem_nil⟩
  | cons member rest ih =>
    obtain ⟨new, ok⟩ := check_ok_iff.mp ok
    obtain ⟨known, ok⟩ := check_ok_iff.mp ok
    cases orphan : state.groupOf[member]? with
    | some parent => rw [orphan] at ok; cases ok
    | none =>
      rw [orphan] at ok
      obtain ⟨distinct, each⟩ := ih ok
      have known := refuseIf_ok.mp known
      refine ⟨List.nodup_cons.mpr ⟨fun later => ?_, distinct⟩,
        List.forall_mem_cons.mpr ⟨⟨refuseIf_ok.mp new, by tauto, orphan⟩, fun other later => ?_⟩⟩
      · exact (each member later).1 (BTreeSet.mem_insert.mpr (.inl rfl))
      · exact (each other later).imp_left fun out inside => out (BTreeSet.mem_insert.mpr (.inr inside))

/-- **A group that is not refused fits in, and is in no group.** -/
theorem addGroup_ok (sound : Sound state) {group : Group} (ok : addGroup state group = .ok after) :
    after = state.grow [] [group] ∧ Fits state [] [group] ∧ group.name ∉ state.names := by
  obtain ⟨free, ok⟩ := check_ok_iff.mp ok
  obtain ⟨_, ok⟩ := check_ok_iff.mp ok
  obtain ⟨members, ok⟩ := check_ok_iff.mp ok
  have fresh := checkName_ok free
  obtain ⟨distinct, each⟩ := checkMembers_ok members
  have there : ∀ member ∈ group.members, member ∈ state.model.namesOf .part ∨ member ∈ state.model.namesOf .group :=
    fun member inside => (each member inside).2.1.imp (sound.named member .part).mp (sound.named member .group).mp
  have apart : ∀ member ∈ group.members, member ≠ group.name := by
    rintro member inside rfl
    exact (there _ inside).elim (sound.fresh_iff.mp fresh .part) (sound.fresh_iff.mp fresh .group)
  refine ⟨?_, ?_, fresh⟩
  · rw [← Except.ok.inj ok, State.grow]
    simp [State.takeGroup, State.takeName]
  constructor
  · simpa using fresh
  · simp
  · simpa using distinct
  · intro other new member inside
    obtain rfl := List.mem_singleton.mp new
    exact .inr (.inr (there member inside))
  · intro other new member inside
    obtain rfl := List.mem_singleton.mp new
    exact (each member inside).2.2
  · exact List.pairwise_singleton _ _
  · intro level _
    refine ⟨fun name => if name = group.name then (group.members.map level).sum + 1 else level name, ?_, ?_⟩
    · intro name out
      exact if_neg (by simpa using out)
    · intro other new member inside
      obtain rfl := List.mem_singleton.mp new
      dsimp only
      rw [if_pos rfl, if_neg (apart member inside)]
      exact Nat.lt_succ_of_le (List.single_le_sum (fun _ _ => Nat.zero_le _) _ (List.mem_map_of_mem inside))

theorem grow_extends (parts : List (Part G)) (groups : List Group) : Extends state.model (state.grow parts groups).model where
  parts := by
    rw [grow_namesOf]
    exact List.sublist_append_left _ _
  groups := List.sublist_append_left _ _
  components := List.Subset.refl _
  joints := List.Subset.refl _
  motions := List.Subset.refl _

theorem Kept.grow (kept : Kept state) {parts : List (Part G)} {groups : List Group} (fits : Fits state parts groups) :
    Kept (state.grow parts groups) :=
  kept.extend (kept.sound.grow fits) (grow_extends parts groups) rfl rfl

theorem find_group (sound : Sound state) {group : Group} (among : group ∈ state.model.groups) :
    state.model.groups.find? (·.name = group.name) = some group := by
  cases found : state.model.groups.find? (·.name = group.name) with
  | none => exact absurd (decide_eq_true rfl) (List.find?_eq_none.mp found group among)
  | some other =>
    have same : other.name = group.name := by simpa using List.find?_some found
    exact congrArg some (List.inj_on_of_nodup_map (sound.distinct .group) (List.mem_of_find?_eq_some found) among same)

theorem Holds.member {groups : List Group} {name member : String} (holds : Holds groups name member) : Member groups name member := by
  obtain ⟨group, found, inside⟩ := holds
  exact ⟨group, List.mem_of_find?_eq_some found, by simpa using List.find?_some found, inside⟩

theorem Sound.holds (sound : Sound state) {name member : String} (its : Member state.model.groups name member) :
    Holds state.model.groups name member := by
  obtain ⟨group, among, rfl, inside⟩ := its
  exact ⟨group, find_group sound among, inside⟩

theorem capture_ok {model : Model T G} {name : String} {component : Component G} (ok : capture model name = .ok component) :
    component.name = name ∧ (∀ other ∈ component.names, other ∈ memberNames model.groups name) ∧
      ∀ motion, motion ∈ component.motions ↔ motion ∈ model.motions ∧
        motion.endpoints.1 ∈ memberNames model.groups name ∧ motion.endpoints.2 ∈ memberNames model.groups name := by
  unfold capture at ok
  extract_lets names joints at ok
  split at ok
  case h_1 => cases ok
  case h_2 =>
    obtain rfl := Except.ok.inj ok
    refine ⟨rfl, fun other among => ?_, fun motion => ?_⟩
    · rcases List.mem_append.mp among with part | group
      · obtain ⟨part, isPart, rfl⟩ := List.mem_map.mp part
        exact of_decide_eq_true (List.mem_filter.mp isPart).2
      · obtain ⟨group, isGroup, rfl⟩ := List.mem_map.mp group
        exact of_decide_eq_true (List.mem_filter.mp isGroup).2
    · rw [List.mem_filter, decide_eq_true_iff]

/-- **What a component captures is all that is in its group.** -/
theorem capture_captured (sound : Sound state) {group : Group} (among : group ∈ state.model.groups)
    (top : ∀ other ∈ state.model.groups, group.name ∉ other.members) {component : Component G}
    (ok : capture state.model group.name = .ok component) : component.name = group.name ∧ Captured state.model component := by
  have reached := (capture_ok ok).2.1
  unfold capture at ok
  extract_lets names joints at ok
  split at ok
  case h_1 => cases ok
  case h_2 inside =>
    obtain rfl := Except.ok.inj ok
    refine ⟨rfl, ?_⟩
    -- The member names are the names captured.
    have captured : ∀ {name}, name ∈ names → name ∈ (state.model.parts.filter (·.name ∈ names)).map Part.name ++
        (state.model.groups.filter (·.name ∈ names)).map Group.name := by
      intro name held
      have kind : name ∈ state.model.namesOf .part ∨ name ∈ state.model.namesOf .group := by
        rcases (mem_memberNames_iff.mp held).cases_tail with is | ⟨one, _, other, found, member⟩
        · exact .inr (is ▸ List.mem_map_of_mem among)
        · exact sound.there other (List.mem_of_find?_eq_some found) name member
      rcases kind with part | group
      · obtain ⟨part, isPart, rfl⟩ := List.mem_map.mp part
        exact List.mem_append_left _ (List.mem_map_of_mem (List.mem_filter.mpr ⟨isPart, decide_eq_true held⟩))
      · obtain ⟨group, isGroup, rfl⟩ := List.mem_map.mp group
        exact List.mem_append_right _ (List.mem_map_of_mem (List.mem_filter.mpr ⟨isGroup, decide_eq_true held⟩))
    constructor
    · exact List.filter_sublist.map _
    · exact List.filter_sublist
    · intro other isOther member its
      obtain ⟨isOther, held⟩ := List.mem_filter.mp isOther
      refine captured (mem_memberNames_iff.mpr ?_)
      exact (mem_memberNames_iff.mp (of_decide_eq_true held)).tail ⟨other, find_group sound isOther, its⟩
    · exact List.mem_map_of_mem (List.mem_filter.mpr ⟨among, decide_eq_true (mem_memberNames_iff.mpr .refl)⟩)
    · exact fun other isOther => top other (List.mem_of_mem_filter isOther)
    · exact fun name its => (mem_memberNames_iff.mp (reached name its)).lift id fun _ _ => Holds.member
    · intro joint isJoint
      obtain ⟨held, both⟩ := List.mem_filter.mp isJoint
      obtain ⟨first, second⟩ := of_decide_eq_true both
      refine ⟨List.mem_map_of_mem held, captured first, captured second, fun link isLink part isPart => captured ?_⟩
      by_contra out
      refine List.find?_eq_none.mp inside joint isJoint (List.any_eq_true.mpr ⟨link, isLink, List.any_eq_true.mpr ⟨part, isPart, ?_⟩⟩)
      exact decide_eq_true out
    · intro motion isMotion
      obtain ⟨held, both⟩ := List.mem_filter.mp isMotion
      obtain ⟨first, second⟩ := of_decide_eq_true both
      exact ⟨held, captured first, captured second⟩

/-- A new component is captured from its group, which no group holds. -/
theorem component_kept (kept : Kept state) {name : String} {members : List String} {grounded : Bool} {component : Component G}
    (added : addGroup state ⟨name, grounded, members, false⟩ = .ok after) (ok : capture after.model name = .ok component) :
    Kept { after with model := { after.model with components := after.model.components ++ [component] } } := by
  obtain ⟨rfl, fits, fresh⟩ := addGroup_ok kept.sound added
  have grown := kept.grow fits
  have among : (⟨name, grounded, members, false⟩ : Group) ∈ (state.grow [] [⟨name, grounded, members, false⟩]).model.groups :=
    List.mem_append_right _ (List.mem_singleton_self _)
  have top : ∀ other ∈ (state.grow [] [⟨name, grounded, members, false⟩]).model.groups, name ∉ other.members := by
    intro other isOther inside
    rcases List.mem_append.mp isOther with old | new
    · exact (kept.sound.there other old name inside).elim (kept.sound.fresh_iff.mp fresh .part) (kept.sound.fresh_iff.mp fresh .group)
    · obtain ⟨level, levelled⟩ := grown.sound.levels
      have lower := levelled other isOther name inside
      rw [List.mem_singleton.mp new] at lower
      exact Nat.lt_irrefl _ lower
  obtain ⟨called, captured⟩ := capture_captured grown.sound among top ok
  have more : Extends (state.grow [] [⟨name, grounded, members, false⟩]).model
      { (state.grow [] [⟨name, grounded, members, false⟩]).model with
        components := (state.grow [] [⟨name, grounded, members, false⟩]).model.components ++ [component] } :=
    { Extends.refl _ with components := List.subset_append_left _ _ }
  constructor
  · exact grown.sound.congr rfl rfl rfl rfl rfl
  · intro other isOther
    rcases List.mem_append.mp isOther with old | new
    · exact (grown.captured other old).mono more
    · exact List.mem_singleton.mp new ▸ captured.mono more
  · intro inst isInst
    obtain ⟨other, held, is, placed⟩ := grown.placed inst isInst
    exact ⟨other, more.components held, is, placed.mono more⟩

/-- The copy of a group that an instance holds. -/
def groundedGroup (grounded : Option Bool) (inst : Instance T) (component : Component G) (group : Group) : Group where
  name := groupName component inst group.name
  grounded := if groupName component inst group.name = inst.name then grounded.getD group.grounded else group.grounded
  members := group.members.map (within inst.name)
  logical := group.logical

theorem groundedGroups_eq {grounded : Option Bool} {inst : Instance T} {component : Component G} :
    groundedGroups grounded inst.name (instanceGroups component inst) =
      component.groups.map (groundedGroup grounded inst component) := by
  cases grounded with
  | none =>
    refine List.map_congr_left fun group _ => ?_
    rw [groundedGroup, Option.getD_none, ite_self]
  | some grounded =>
    rw [groundedGroups, instanceGroups, List.map_map]
    refine List.map_congr_left fun group _ => ?_
    rw [Function.comp_apply, groundedGroup, Option.getD_some]
    split
    case isTrue => rfl
    case isFalse => rfl

/-- **An instance has a copy of all that its component captured.** -/
theorem place_kept (kept : Kept state) {inst : Instance T} {grounded : Option Bool} {component : Component G}
    (held : component ∈ state.model.components) (called : component.name = inst.component)
    (ok : place state inst grounded component = .ok after) : Kept after := by
  obtain ⟨_, ok⟩ := check_ok_iff.mp ok
  obtain ⟨_, ok⟩ := check_ok_iff.mp ok
  obtain ⟨names, ok⟩ := check_ok_iff.mp ok
  obtain ⟨_, ok⟩ := check_ok_iff.mp ok
  have captured := kept.captured component held
  have copies : Copies inst component (groundedGroup grounded inst component) := ⟨fun _ => rfl, fun _ => rfl⟩
  have image : (component.parts.map (instancePart inst)).map Part.name ++
      (component.groups.map (groundedGroup grounded inst component)).map Group.name =
        component.names.map (groupName component inst) := by
    rw [← captured.names_image kept.sound, instanceGroups, List.map_map, List.map_map, List.map_map]
    rfl
  rw [groundedGroups_eq, image] at names
  obtain ⟨distinct, each⟩ := checkNames_ok names
  have fits := captured.fits kept.sound copies (fun name among => (each name among).1) distinct
  have grown := kept.grow fits
  rw [groundedGroups_eq] at ok
  obtain rfl := Except.ok.inj ok
  have more : Extends (state.grow (component.parts.map (instancePart inst))
      (component.groups.map (groundedGroup grounded inst component))).model
      { (state.grow (component.parts.map (instancePart inst))
          (component.groups.map (groundedGroup grounded inst component))).model with
        joints := state.model.joints ++ component.joints.map (instanceJoint inst)
        motions := state.model.motions ++ component.motions.map (instanced inst)
        instances := state.model.instances ++ [inst] } :=
    { Extends.refl _ with
      joints := List.map_subset _ (List.subset_append_left _ _)
      motions := List.subset_append_left _ _ }
  constructor
  · exact grown.sound.congr rfl rfl rfl rfl rfl
  · exact fun other isOther => (grown.captured other isOther).mono more
  · intro other isOther
    rcases List.mem_append.mp isOther with old | new
    · obtain ⟨component, held, is, placed⟩ := grown.placed other old
      exact ⟨component, held, is, placed.mono more⟩
    · obtain rfl := List.mem_singleton.mp new
      refine ⟨component, held, called, ?_⟩
      constructor
      · intro part among
        exact List.mem_map_of_mem (List.mem_append_right _ (List.mem_map_of_mem among))
      · intro group among
        obtain ⟨source, isSource, rfl⟩ := List.mem_map.mp among
        refine ⟨_, List.mem_append_right _ (List.mem_map_of_mem isSource), rfl, rfl, rfl, ?_⟩
        by_cases its : groupName component other source.name = other.name
        · exact .inr its
        · exact .inl (if_neg its)
      · exact fun joint among => List.mem_map_of_mem (List.mem_append_right _ (List.mem_map_of_mem among))
      · exact fun motion among => List.mem_append_right _ (List.mem_map_of_mem among)
      · rw [captured.names_image kept.sound]
        exact distinct

theorem addInstance_kept (kept : Kept state) {inst : Instance T} {grounded : Option Bool}
    (ok : addInstance state inst grounded = .ok after) : Kept after := by
  unfold addInstance at ok
  split at ok
  case h_1 component found =>
    exact place_kept kept (List.mem_of_find?_eq_some found) (by simpa using List.find?_some found) ok
  case h_2 => cases ok

/-- A part taken by its name fits in; a tool is in no group. -/
theorem insertPart_kept (kept : Kept state) {part : Part G} {tool : Bool} (ok : insertPart state part tool = .ok after) :
    Kept after := by
  obtain ⟨free, ok⟩ := check_ok_iff.mp ok
  obtain ⟨_, ok⟩ := check_ok_iff.mp ok
  obtain rfl := Except.ok.inj ok
  have fresh := refuseIf_ok.mp free
  have sound := kept.sound
  cases tool with
  | false =>
    have fits : Fits state [part] [] := by
      refine ⟨?_, ?_, nofun, nofun, nofun, .nil, fun level _ => ⟨level, fun _ _ => rfl, nofun⟩⟩
      · simpa using fresh
      · simp
    refine (kept.grow fits).extend ?_ ?_ rfl rfl
    · exact (sound.grow fits).congr rfl rfl (by simp [State.grow, Model.namesOf]) rfl (by simp [State.grow])
    · refine ⟨?_, ?_, List.Subset.refl _, List.Subset.refl _, List.Subset.refl _⟩
      · simp [State.grow, Model.namesOf]
      · simp [State.grow]
  | true =>
    have absent := sound.fresh_iff.mp fresh
    refine kept.extend ?_ ⟨.refl _, .refl _, List.Subset.refl _, List.Subset.refl _, List.Subset.refl _⟩ rfl rfl
    constructor
    · intro name kind
      have here : (state.names.insert part.name .tool)[name]? = if part.name = name then some .tool else state.names[name]? :=
        BTreeMap.getElem?_insert
      have each := sound.named name kind
      by_cases is : part.name = name
      · subst is
        cases kind with
        | part => simpa [State.takeName, here, Model.namesOf] using absent .part
        | tool => simp [State.takeName, Model.namesOf]
        | group => simpa [State.takeName, here, Model.namesOf] using absent .group
      · cases kind with
        | part => simpa [State.takeName, here, is, Model.namesOf] using each
        | tool => simpa [State.takeName, here, is, Ne.symm is, Model.namesOf] using each
        | group => simpa [State.takeName, here, is, Model.namesOf] using each
    · rintro (_ | _ | _)
      · exact sound.distinct .part
      · have distinct := sound.distinct .tool
        have new := absent .tool
        simp only [Model.namesOf, if_true, List.map_append, List.map_cons, List.map_nil] at distinct new ⊢
        exact List.nodup_append.mpr ⟨distinct, List.nodup_singleton _, fun one old two is same =>
          new ((List.mem_singleton.mp is) ▸ same ▸ old)⟩
      · exact sound.distinct .group
    · exact sound.parents
    · exact sound.once
    · exact sound.there
    · exact sound.levels

theorem putFirst_names {part : Part G} {parts : List (Part G)} : (putFirst part parts).map Part.name = parts.map Part.name := by
  induction parts with
  | nil => rfl
  | cons other parts ih =>
    unfold putFirst
    split
    case isTrue is => rw [List.map_cons, List.map_cons, is]
    case isFalse => rw [List.map_cons, List.map_cons, ih]

/-- A change of shapes that leaves all names. -/
theorem Kept.reshape (kept : Kept state) {parts tools : List (Part G)} {joints : List (Joint G)}
    (sameParts : parts.map Part.name = state.model.parts.map Part.name)
    (sameTools : tools.map Part.name = state.model.tools.map Part.name)
    (sameJoints : joints.map Joint.ends = state.model.joints.map Joint.ends) :
    Kept { state with model := { state.model with parts := parts, tools := tools, joints := joints } } := by
  refine kept.extend (kept.sound.congr rfl rfl sameParts sameTools rfl) ?_ rfl rfl
  have still : (state.model.parts.map Part.name).Sublist (parts.map Part.name) := by rw [sameParts]
  exact ⟨still, .refl _, List.Subset.refl _, sameJoints ▸ List.Subset.refl _, List.Subset.refl _⟩

theorem withPart_kept (kept : Kept state) {name : String} {edit : Part G → Except Refusal (Part G)}
    (ok : withPart state name edit = .ok after) : Kept after := by
  unfold withPart at ok
  extract_lets carry at ok
  have carried : ∀ before after : G, (state.model.joints.map (carry before after)).map Joint.ends = state.model.joints.map Joint.ends := by
    intro before after
    rw [List.map_map]
    refine List.map_congr_left fun joint _ => ?_
    unfold carry
    rw [Function.comp_apply]
    split
    case isTrue => rfl
    case isFalse => rfl
  split at ok
  case h_1 part _ =>
    obtain ⟨edited, _, ok⟩ := bind_ok ok
    obtain rfl := Except.ok.inj ok
    exact kept.reshape putFirst_names rfl (carried part.shape edited.shape)
  case h_2 =>
    split at ok
    case h_1 tool _ =>
      obtain ⟨edited, _, ok⟩ := bind_ok ok
      obtain rfl := Except.ok.inj ok
      exact kept.reshape rfl putFirst_names (carried tool.shape edited.shape)
    case h_2 => cases ok

/-- **A call that is not refused keeps the tables true and the copies whole.** -/
theorem step_kept (kept : Kept state) {call : Call T G} (ok : step state call = .ok after) : Kept after := by
  cases call with
  | part part tool => exact insertPart_kept kept (check_ok_iff.mp ok).2
  | edit name edit => exact withPart_kept kept ok
  | group group =>
    obtain ⟨rfl, fits, _⟩ := addGroup_ok kept.sound (check_ok_iff.mp ok).2
    exact kept.grow fits
  | component name members grounded =>
    obtain ⟨grown, added, ok⟩ := bind_ok ok
    obtain ⟨component, captured, ok⟩ := bind_ok ok
    exact Except.ok.inj ok ▸ component_kept kept added captured
  | inst inst grounded => exact addInstance_kept kept ok
  | joint joint =>
    obtain ⟨_, ok⟩ := check_ok_iff.mp ok
    obtain ⟨_, ok⟩ := check_ok_iff.mp ok
    obtain rfl := Except.ok.inj ok
    exact kept.extend (kept.sound.congr rfl rfl rfl rfl rfl) ⟨.refl _, .refl _, List.Subset.refl _,
      List.map_subset _ (List.subset_append_left _ _), List.Subset.refl _⟩ rfl rfl
  | motion motion =>
    obtain rfl := Except.ok.inj ok
    exact kept.extend (kept.sound.congr rfl rfl rfl rfl rfl) ⟨.refl _, .refl _, List.Subset.refl _,
      List.Subset.refl _, List.subset_append_left _ _⟩ rfl rfl

theorem run_kept {calls : List (Call T G)} (ran : run calls = .ok state) : Kept state := by
  have each : ∀ (calls : List (Call T G)) (before : State T G), Kept before → calls.foldlM step before = .ok state → Kept state := by
    intro calls
    induction calls with
    | nil => exact fun before kept ran => Except.ok.inj ran ▸ kept
    | cons call calls ih =>
      intro before kept ran
      obtain ⟨next, ok, ran⟩ := bind_ok ran
      exact ih next (step_kept kept ok) ran
  exact each calls start start_kept ran

/-- A group as the check of contacts reads it. -/
def Group.plain (group : Group) : Exact.Group := ⟨group.name, group.logical, group.members⟩

/-- Names stand for one thing each, members are there and in one group, and no group is in itself. -/
structure IsForest (state : State T G) : Prop where
  distinct : ∀ kind, (state.model.namesOf kind).Nodup
  named : ∀ name kind, state.names[name]? = some kind ↔ name ∈ state.model.namesOf kind
  once : ∀ group ∈ state.model.groups, group.members.Nodup
  there : ∀ group ∈ state.model.groups, ∀ member ∈ group.members,
    member ∈ state.model.namesOf .part ∨ member ∈ state.model.namesOf .group
  single : ∀ one ∈ state.model.groups, ∀ two ∈ state.model.groups, ∀ member ∈ one.members, member ∈ two.members → one = two
  parents : ∀ member parent, state.groupOf[member]? = some parent ↔
    ∃ group ∈ state.model.groups, group.name = parent ∧ member ∈ group.members
  rooted : ∀ {B : Type} (program : Exact.Program B), program.groups = state.model.groups.map Group.plain →
    WellFounded (Exact.Contains program)

theorem Sound.isForest (sound : Sound state) : IsForest state where
  distinct := sound.distinct
  named := sound.named
  once := sound.once
  there := sound.there
  single one isOne two isTwo member first second := by
    have its := (sound.parents member one.name).mpr ⟨one, isOne, rfl, first⟩
    rw [(sound.parents member two.name).mpr ⟨two, isTwo, rfl, second⟩] at its
    exact List.inj_on_of_nodup_map (sound.distinct .group) isOne isTwo (Option.some.inj its).symm
  parents := sound.parents
  rooted {B} program same := by
    obtain ⟨level, levelled⟩ := sound.levels
    refine Subrelation.wf (fun {member name} contains => ?_) (measure level).wf
    obtain ⟨child, found, inside⟩ := contains
    have among := List.mem_reverse.mp (List.mem_of_find?_eq_some found)
    have called : child.name = name := by simpa using List.find?_some found
    rw [same] at among
    obtain ⟨group, isGroup, rfl⟩ := List.mem_map.mp among
    exact called ▸ levelled group isGroup member inside

/-- **After any calls of which none is refused, groups form a forest.** -/
theorem run_forest {calls : List (Call T G)} (ran : run calls = .ok state) : IsForest state := (run_kept ran).sound.isForest

end Calls

end Kept

/-- A run that ends with a component and a copy of it. -/
theorem run_copied {T G : Type} [Placement T G] {calls : List (Call T G)} {name : String} {members : List String} {grounded : Bool}
    {inst : Instance T} {before grown after : State T G} {component : Component G} (first : run calls = .ok before)
    (added : addGroup before ⟨name, grounded, members, false⟩ = .ok grown) (captured : capture grown.model name = .ok component)
    (last : addInstance { grown with model := { grown.model with components := grown.model.components ++ [component] } } inst none = .ok after) :
    run (calls ++ [.component name members grounded, .inst inst none]) = .ok after := by
  have taken : step before (.component name members grounded) =
      .ok { grown with model := { grown.model with components := grown.model.components ++ [component] } } :=
    (bind_eq_of_ok added).trans (bind_eq_of_ok captured)
  unfold run
  rw [List.foldlM_append]
  exact (bind_eq_of_ok first).trans ((bind_eq_of_ok taken).trans (bind_eq_of_ok last))

section Shelf

instance : Placement Unit Unit := ⟨fun _ _ => (), fun _ => true, fun _ _ _ => ()⟩

def plank (name : String) : Part Unit := ⟨name, true, none, [], ()⟩

/-- A shelf of a board and a side, and a copy of it. -/
def shelf : List (Call Unit Unit) := [.part (plank "top") false, .part (plank "side") false, .part (plank "cut") true,
  .group ⟨"board", false, ["top"], false⟩, .component "shelf" ["board", "side"] false, .inst ⟨"east", "shelf", ()⟩ none]

def shelfGroups : List Group := [⟨"board", false, ["top"], false⟩, ⟨"shelf", false, ["board", "side"], false⟩]

theorem shelfGroups_names : memberNames shelfGroups "shelf" =
    ((((∅ : BTreeSet String).insert "shelf").insert "side").insert "board").insert "top" := by
  have shelf : memberNames shelfGroups "shelf" = descendants shelfGroups ((∅ : BTreeSet String).insert "shelf") ["side", "board"] := by
    unfold memberNames
    have found : shelfGroups.find? (·.name = "shelf") = some ⟨"shelf", false, ["board", "side"], false⟩ := rfl
    exact descendants_group Std.ExtTreeSet.not_mem_empty found
  have side : descendants shelfGroups ((∅ : BTreeSet String).insert "shelf") ["side", "board"] = descendants shelfGroups
      (((∅ : BTreeSet String).insert "shelf").insert "side") ["board"] := descendants_none (by decide) rfl
  have found : shelfGroups.find? (·.name = "board") = some ⟨"board", false, ["top"], false⟩ := rfl
  have board : descendants shelfGroups (((∅ : BTreeSet String).insert "shelf").insert "side") ["board"] = descendants shelfGroups
      ((((∅ : BTreeSet String).insert "shelf").insert "side").insert "board") ["top"] := descendants_group (by decide) found
  have top : descendants shelfGroups ((((∅ : BTreeSet String).insert "shelf").insert "side").insert "board") ["top"] =
      descendants shelfGroups (((((∅ : BTreeSet String).insert "shelf").insert "side").insert "board").insert "top") [] :=
    descendants_none (by decide) rfl
  rw [shelf, side, board, top, descendants]

theorem capture_shelf {model : Model Unit Unit} (parts : model.parts = [plank "top", plank "side"])
    (groups : model.groups = shelfGroups) (joints : model.joints = []) (motions : model.motions = []) :
    capture model "shelf" = .ok ⟨"shelf", [plank "top", plank "side"], shelfGroups, [], []⟩ := by
  unfold capture
  rw [groups, shelfGroups_names, parts, joints, motions]
  rfl

def shelfModel : Model Unit Unit where
  parts := [plank "top", plank "side", plank "east/top", plank "east/side"]
  tools := [plank "cut"]
  groups := shelfGroups ++ [⟨"east/board", false, ["east/top"], false⟩, ⟨"east", false, ["east/board", "east/side"], false⟩]
  components := [⟨"shelf", [plank "top", plank "side"], shelfGroups, [], []⟩]
  instances := [⟨"east", "shelf", ()⟩]
  joints := []
  motions := []

theorem run_shelf : ∃ state, run shelf = .ok state ∧ state.model = shelfModel := by
  have begun : ∃ before : State Unit Unit, run (shelf.take 4) = .ok before ∧
      ∃ grown, addGroup before ⟨"shelf", false, ["board", "side"], false⟩ = .ok grown ∧
        capture grown.model "shelf" = .ok ⟨"shelf", [plank "top", plank "side"], shelfGroups, [], []⟩ ∧
        ∃ after, addInstance { grown with model := { grown.model with components := grown.model.components ++
          [⟨"shelf", [plank "top", plank "side"], shelfGroups, [], []⟩] } } ⟨"east", "shelf", ()⟩ none = .ok after ∧
          after.model = shelfModel :=
    ⟨_, rfl, _, rfl, capture_shelf rfl rfl rfl rfl, _, rfl, rfl⟩
  obtain ⟨before, first, grown, added, captured, after, last, model⟩ := begun
  exact ⟨after, run_copied first added captured last, model⟩

theorem run_forest_shelf : ∃ state, run shelf = .ok state ∧ state.model.groups.length = 4 ∧ IsForest state := by
  obtain ⟨state, ran, model⟩ := run_shelf
  exact ⟨state, ran, model ▸ rfl, run_forest ran⟩

end Shelf

end Ketchup.Assemblies
