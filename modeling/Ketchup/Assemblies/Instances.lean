/-
**What a program must hold at its end, and what instances then are.**

At its end a program is refused where a part changed after it was captured or copied, where a joint names what
is not there, or an operation or hardware that another link has, and where motions overlap.

* `run_instances` — in a program that is not refused, each instance is a whole copy of its component: parts as
  the placement puts them, and groups, joints and motions between these.
-/

import Ketchup.Assemblies.Forest

set_option linter.unusedSectionVars false

namespace Ketchup.Assemblies

attribute [local instance] lexOrd

/-- Why a program is refused at its end. -/
inductive Problem where
  | planarMachined (part : String)
  | memberChanged (component part : String)
  | copyEdited (inst part : String)
  | missingPart (joint part : String)
  | unknownOperationPart (joint part : String)
  | operationElsewhere (joint part : String)
  | unknownOperation (joint id part : String)
  | operationOwned (joint id part : String)
  | unknownHardware (joint part : String)
  | hardwareTaken (joint part : String)
  | unknownEndpoint (motion name : String)
  | copyDriven (motion : String)
  | sharedMember (motion target component : String)
  | anchorOverlaps (motion : String)
  | movingOverlap (motion : String)
  | anchorDriven (motion : String)
  | invalidMotion (motion : String)
  deriving DecidableEq

section Parts

variable {T G : Type} [Placement T G] [DecidableEq G]

/-- Checks of each of a list, up to the first that fails. -/
def forEach {A : Type} (check : A → Except Problem Unit) : List A → Except Problem Unit
  | [] => .ok ()
  | next :: rest => do
    check next
    forEach check rest

/-- `assemblies::validate`. -/
def checkAssemblies (model : Model T G) : Except Problem Unit := do
  forEach (fun part => refuseIf (part.operations ≠ [] ∨
      (model.joints.any fun joint => joint.parts.1 = part.name || joint.parts.2 = part.name) = true) (.planarMachined part.name))
    (model.parts.filter fun part => !part.solid)
  forEach (fun component => do
    forEach (fun part => refuseIf (model.part? part.name ≠ some part) (.memberChanged component.name part.name)) component.parts
    forEach (fun inst => forEach (fun part =>
        refuseIf (model.part? (instancePart inst part).name ≠ some (instancePart inst part))
          (.copyEdited inst.name (instancePart inst part).name)) component.parts)
      (model.instances.filter (·.component = component.name))) model.components

end Parts

section Joints

variable {T G : Type}

def checkOperations (model : Model T G) (joint : Joint G) (link : JointLink) (owned : BTreeSet (String × String)) :
    List JointOperationRef → Except Problem (BTreeSet (String × String))
  | [] => .ok owned
  | operation :: operations =>
    match model.part? operation.part with
    | none => .error (.unknownOperationPart joint.name operation.part)
    | some part => do
      refuseIf (operation.part ≠ joint.parts.1 ∧ operation.part ≠ joint.parts.2 ∧ operation.part ∉ link.hardwareParts)
        (.operationElsewhere joint.name operation.part)
      refuseIf (operation.id ∉ part.operations) (.unknownOperation joint.name operation.id operation.part)
      refuseIf ((operation.part, operation.id) ∈ owned) (.operationOwned joint.name operation.id operation.part)
      checkOperations model joint link (owned.insert (operation.part, operation.id)) operations

def checkHardware (model : Model T G) (joint : Joint G) (hardware : BTreeSet String) :
    List String → Except Problem (BTreeSet String)
  | [] => .ok hardware
  | part :: parts => do
    refuseIf (model.part? part = none) (.unknownHardware joint.name part)
    refuseIf (part = joint.parts.1 ∨ part = joint.parts.2 ∨ part ∈ hardware) (.hardwareTaken joint.name part)
    checkHardware model joint (hardware.insert part) parts

def checkLinks (model : Model T G) (joint : Joint G) (owned : BTreeSet (String × String)) (hardware : BTreeSet String) :
    List JointLink → Except Problem (BTreeSet (String × String) × BTreeSet String)
  | [] => .ok (owned, hardware)
  | link :: links => do
    let owned ← checkOperations model joint link owned link.operations
    let hardware ← checkHardware model joint hardware link.hardwareParts
    checkLinks model joint owned hardware links

def checkJoints (model : Model T G) (owned : BTreeSet (String × String)) (hardware : BTreeSet String) :
    List (Joint G) → Except Problem Unit
  | [] => .ok ()
  | joint :: joints => do
    refuseIf (model.part? joint.parts.1 = none) (.missingPart joint.name joint.parts.1)
    refuseIf (model.part? joint.parts.2 = none) (.missingPart joint.name joint.parts.2)
    let (owned, hardware) ← checkLinks model joint owned hardware joint.links
    checkJoints model owned hardware joints

end Joints

section Motions

variable {T G : Type} [DecidableEq G]

def isDisjoint (one two : BTreeSet String) : Bool := one.toList.all (· ∉ two)

def isSubset (one two : BTreeSet String) : Bool := one.toList.all (· ∈ two)

def validateShared (model : Model T G) (motion : Motion G) : Except Problem Unit :=
  if motion.instanced then .ok ()
  else do
    let target := motion.endpoints.2
    refuseIf ((model.instances.any fun inst => inst.name ≠ target && target ∈ memberNames model.groups inst.name) = true)
      (.copyDriven motion.name)
    match model.components.find? fun component => component.groups.any (target ∈ ·.members) with
    | some owner => refuseIf (motion ∉ owner.motions) (.sharedMember motion.name target owner.name)
    | none => .ok ()

def checkMotion (model : Model T G) (moving : List (BTreeSet String)) (motion : Motion G) (index : ℕ) : Except Problem Unit := do
  let known (name : String) : Bool := (model.part? name).isSome || model.groups.any (·.name = name)
  refuseIf (known motion.endpoints.1 = false) (.unknownEndpoint motion.name motion.endpoints.1)
  refuseIf (known motion.endpoints.2 = false) (.unknownEndpoint motion.name motion.endpoints.2)
  validateShared model motion
  let own := memberNames model.groups motion.endpoints.2
  let anchored := memberNames model.groups motion.endpoints.1
  refuseIf (isDisjoint own anchored = false) (.anchorOverlaps motion.name)
  forEach (fun (names, other) =>
    if other = index then .ok ()
    else do
      refuseIf (isDisjoint own names = false ∧ (own = names ∨ isSubset own names = false ∧ isSubset names own = false))
        (.movingOverlap motion.name)
      refuseIf (isDisjoint anchored names = false ∧ ¬(isSubset anchored names = true ∧ isSubset own names = true))
        (.anchorDriven motion.name)) moving.zipIdx

/-- `motion::validate`. -/
def checkMotions (model : Model T G) : Except Problem Unit :=
  forEach (fun (motion, index) =>
    checkMotion model (model.motions.map fun motion => memberNames model.groups motion.endpoints.2) motion index)
    model.motions.zipIdx

/-- The checks of a program at its end. -/
def close [Placement T G] (model : Model T G) : Except Problem Unit := do
  checkAssemblies model
  checkJoints model ∅ ∅ model.joints
  checkMotions model

end Motions

section Checks

variable {T G : Type}

theorem forEach_ok {A : Type} {check : A → Except Problem Unit} {list : List A} :
    forEach check list = .ok () ↔ ∀ next ∈ list, check next = .ok () := by
  induction list with
  | nil => exact ⟨fun _ _ among => absurd among List.not_mem_nil, fun _ => rfl⟩
  | cons next rest ih =>
    rw [forEach, check_ok_iff, ih, List.forall_mem_cons]

theorem isDisjoint_iff {one two : BTreeSet String} : isDisjoint one two = true ↔ ∀ name ∈ one, name ∉ two := by
  simp [isDisjoint]

theorem isSubset_iff {one two : BTreeSet String} : isSubset one two = true ↔ ∀ name ∈ one, name ∈ two := by
  simp [isSubset]

theorem part?_isSome_iff {model : Model T G} {name : String} : model.part? name ≠ none ↔ name ∈ model.namesOf .part := by
  rw [Model.part?, ne_eq, List.find?_eq_none]
  simp only [Model.namesOf, List.mem_map, decide_eq_true_eq, not_forall, not_not, exists_prop]

/-- Neither parts captured nor their copies changed since. -/
theorem checkAssemblies_ok [Placement T G] [DecidableEq G] {model : Model T G} (ok : checkAssemblies model = .ok ()) :
    ∀ component ∈ model.components, ∀ part ∈ component.parts, model.part? part.name = some part ∧
      ∀ inst ∈ model.instances, inst.component = component.name →
        model.part? (instancePart inst part).name = some (instancePart inst part) := by
  intro component among part isPart
  have each := forEach_ok.mp (check_ok_iff.mp ok).2 component among
  obtain ⟨members, copies⟩ := check_ok_iff.mp each
  refine ⟨not_not.mp (refuseIf_ok.mp (forEach_ok.mp members part isPart)), fun inst isInst its => ?_⟩
  have copy := forEach_ok.mp copies inst (List.mem_filter.mpr ⟨isInst, decide_eq_true its⟩)
  exact not_not.mp (refuseIf_ok.mp (forEach_ok.mp copy part isPart))

section Joint

variable {model : Model T G} {joint : Joint G}

theorem checkOperations_ok {link : JointLink} {operations : List JointOperationRef} {owned owned' : BTreeSet (String × String)}
    (ok : checkOperations model joint link owned operations = .ok owned') :
    ∀ operation ∈ operations, operation.part = joint.parts.1 ∨ operation.part = joint.parts.2 ∨ operation.part ∈ link.hardwareParts := by
  induction operations generalizing owned with
  | nil => exact fun _ among => absurd among List.not_mem_nil
  | cons operation operations ih =>
    unfold checkOperations at ok
    split at ok
    case h_1 => cases ok
    case h_2 =>
      obtain ⟨its, ok⟩ := check_ok_iff.mp ok
      obtain ⟨_, ok⟩ := check_ok_iff.mp ok
      obtain ⟨_, ok⟩ := check_ok_iff.mp ok
      have its := refuseIf_ok.mp its
      exact List.forall_mem_cons.mpr ⟨by tauto, ih ok⟩

theorem checkHardware_ok {parts : List String} {hardware hardware' : BTreeSet String}
    (ok : checkHardware model joint hardware parts = .ok hardware') : ∀ part ∈ parts, part ∈ model.namesOf .part := by
  induction parts generalizing hardware with
  | nil => exact fun _ among => absurd among List.not_mem_nil
  | cons part parts ih =>
    obtain ⟨known, ok⟩ := check_ok_iff.mp ok
    obtain ⟨_, ok⟩ := check_ok_iff.mp ok
    exact List.forall_mem_cons.mpr ⟨part?_isSome_iff.mp (refuseIf_ok.mp known), ih ok⟩

/-- The parts a joint names. -/
def Joint.mentions (joint : Joint G) : List String :=
  joint.parts.1 :: joint.parts.2 ::
    joint.links.flatMap fun link => link.operations.map JointOperationRef.part ++ link.hardwareParts

theorem checkLinks_ok {links : List JointLink} {owned : BTreeSet (String × String)} {hardware : BTreeSet String}
    {result : BTreeSet (String × String) × BTreeSet String} (ok : checkLinks model joint owned hardware links = .ok result) :
    ∀ link ∈ links, (∀ operation ∈ link.operations,
        operation.part = joint.parts.1 ∨ operation.part = joint.parts.2 ∨ operation.part ∈ link.hardwareParts) ∧
      ∀ part ∈ link.hardwareParts, part ∈ model.namesOf .part := by
  induction links generalizing owned hardware with
  | nil => exact fun _ among => absurd among List.not_mem_nil
  | cons link links ih =>
    obtain ⟨_, operations, ok⟩ := bind_ok ok
    obtain ⟨_, parts, ok⟩ := bind_ok ok
    exact List.forall_mem_cons.mpr ⟨⟨checkOperations_ok operations, checkHardware_ok parts⟩, ih ok⟩

/-- **What a joint names are parts.** -/
theorem checkJoints_ok {joints : List (Joint G)} {owned : BTreeSet (String × String)} {hardware : BTreeSet String}
    (ok : checkJoints model owned hardware joints = .ok ()) :
    ∀ joint ∈ joints, (∀ part ∈ joint.mentions, part ∈ model.namesOf .part) ∧
      ∀ link ∈ joint.links, ∀ operation ∈ link.operations,
        operation.part = joint.parts.1 ∨ operation.part = joint.parts.2 ∨ operation.part ∈ link.hardwareParts := by
  induction joints generalizing owned hardware with
  | nil => exact fun _ among => absurd among List.not_mem_nil
  | cons joint joints ih =>
    obtain ⟨first, ok⟩ := check_ok_iff.mp ok
    obtain ⟨second, ok⟩ := check_ok_iff.mp ok
    obtain ⟨_, links, ok⟩ := bind_ok ok
    have first := part?_isSome_iff.mp (refuseIf_ok.mp first)
    have second := part?_isSome_iff.mp (refuseIf_ok.mp second)
    have each := checkLinks_ok links
    refine List.forall_mem_cons.mpr ⟨⟨?_, fun link among => (each link among).1⟩, ih ok⟩
    intro part mentioned
    rcases List.mem_cons.mp mentioned with rfl | mentioned
    · exact first
    rcases List.mem_cons.mp mentioned with rfl | mentioned
    · exact second
    obtain ⟨link, among, its⟩ := List.mem_flatMap.mp mentioned
    obtain ⟨operations, hardware⟩ := each link among
    rcases List.mem_append.mp its with its | its
    · obtain ⟨operation, isOperation, rfl⟩ := List.mem_map.mp its
      rcases operations operation isOperation with is | is | is
      · exact is ▸ first
      · exact is ▸ second
      · exact hardware _ is
    · exact hardware part its

end Joint

/-- **No motion is between assemblies that share a member.** -/
theorem checkMotions_ok [DecidableEq G] {model : Model T G} (ok : checkMotions model = .ok ()) :
    ∀ motion ∈ model.motions, ∀ name ∈ memberNames model.groups motion.endpoints.2,
      name ∉ memberNames model.groups motion.endpoints.1 := by
  intro motion among
  obtain ⟨index, bound, rfl⟩ := List.getElem_of_mem among
  have indexed : (model.motions[index], index) ∈ model.motions.zipIdx := List.mem_zipIdx_iff_getElem?.mpr (List.getElem?_eq_getElem bound)
  have each := forEach_ok.mp ok _ indexed
  obtain ⟨_, each⟩ := check_ok_iff.mp each
  obtain ⟨_, each⟩ := check_ok_iff.mp each
  obtain ⟨_, each⟩ := check_ok_iff.mp each
  obtain ⟨apart, _⟩ := check_ok_iff.mp each
  exact isDisjoint_iff.mp (Bool.not_eq_false _ ▸ refuseIf_ok.mp apart)

end Checks

section Whole

variable {T G : Type} [Placement T G]

/-- An instance is a whole copy of its component, and what is copied names only what is copied. -/
structure Whole (model : Model T G) (component : Component G) (inst : Instance T) : Prop where
  parts : ∀ part ∈ component.parts, model.part? part.name = some part ∧
    model.part? (instancePart inst part).name = some (instancePart inst part)
  groups : ∀ group ∈ component.groups, group ∈ model.groups ∧ (∀ member ∈ group.members, member ∈ component.names) ∧
    ∃ copy ∈ model.groups, copy.name = groupName component inst group.name ∧
      copy.members = group.members.map (groupName component inst) ∧ copy.logical = group.logical ∧
      (copy.grounded = group.grounded ∨ copy.name = inst.name)
  joints : ∀ joint ∈ component.joints, (∃ copy ∈ model.joints, copy.ends = (instanceJoint inst joint).ends) ∧
    ∀ part ∈ joint.mentions, part ∈ component.parts.map Part.name
  motions : ∀ motion ∈ component.motions, instanced inst motion ∈ model.motions ∧
    motion.endpoints.1 ∈ component.names ∧ motion.endpoints.2 ∈ component.names ∧
    (instanced inst motion).endpoints = (groupName component inst motion.endpoints.1, groupName component inst motion.endpoints.2)
  distinct : (component.names.map (groupName component inst)).Nodup

section Component

variable {state : State T G} {component : Component G}

/-- A captured name of a part is that of a part captured. -/
theorem Captured.part_mem (sound : Sound state) (captured : Captured state.model component) {name : String}
    (among : name ∈ component.names) (part : name ∈ state.model.namesOf .part) : name ∈ component.parts.map Part.name := by
  rcases List.mem_append.mp among with its | group
  · exact its
  · have asGroup : name ∈ state.model.namesOf .group := (captured.groups.map Group.name).subset group
    cases sound.apart part asGroup

theorem Captured.mem_memberNames (sound : Sound state) (captured : Captured state.model component) {name : String}
    (among : name ∈ component.names) : name ∈ memberNames state.model.groups component.name :=
  mem_memberNames_iff.mpr ((captured.reached name among).lift id fun _ _ => sound.holds)

theorem Captured.joint_mentions (sound : Sound state) (captured : Captured state.model component)
    {owned : BTreeSet (String × String)} {hardware : BTreeSet String}
    (closed : checkJoints state.model owned hardware state.model.joints = .ok ()) {joint : Joint G}
    (among : joint ∈ component.joints) : ∀ part ∈ joint.mentions, part ∈ component.parts.map Part.name := by
  obtain ⟨held, first, second, linked⟩ := captured.joints joint among
  obtain ⟨stands, isStands, same⟩ := List.mem_map.mp held
  obtain ⟨known, its⟩ := checkJoints_ok closed stands isStands
  -- What stands in the model for it names the same.
  obtain ⟨parts, links⟩ : stands.parts = joint.parts ∧ stands.links = joint.links := by
    rw [Joint.ends, Joint.ends, Prod.mk.injEq, Prod.mk.injEq] at same
    exact same.2
  have mentions : stands.mentions = joint.mentions := by
    unfold Joint.mentions
    rw [parts, links]
  intro part mentioned
  refine captured.part_mem sound ?_ (known part (mentions ▸ mentioned))
  unfold Joint.mentions at mentioned
  rcases List.mem_cons.mp mentioned with rfl | mentioned
  · exact first
  rcases List.mem_cons.mp mentioned with rfl | mentioned
  · exact second
  obtain ⟨link, isLink, inside⟩ := List.mem_flatMap.mp mentioned
  rcases List.mem_append.mp inside with inside | inside
  · obtain ⟨operation, isOperation, rfl⟩ := List.mem_map.mp inside
    rcases its link (links ▸ isLink) operation isOperation with is | is | is
    · rw [is, parts]
      exact first
    · rw [is, parts]
      exact second
    · exact linked link isLink _ is
  · exact linked link isLink part inside

/-- A motion captured has ends below the component. -/
theorem Captured.motion_ends [DecidableEq G] (sound : Sound state) (captured : Captured state.model component)
    (closed : checkMotions state.model = .ok ()) {motion : Motion G} (among : motion ∈ component.motions) :
    motion.endpoints.1 ≠ component.name ∧ motion.endpoints.2 ≠ component.name := by
  obtain ⟨held, first, second⟩ := captured.motions motion among
  have apart := checkMotions_ok closed motion held
  refine ⟨fun is => ?_, fun is => ?_⟩
  · refine apart motion.endpoints.2 (mem_memberNames_iff.mpr .refl) ?_
    exact is ▸ captured.mem_memberNames sound second
  · refine apart motion.endpoints.1 ?_ (mem_memberNames_iff.mpr .refl)
    exact is ▸ captured.mem_memberNames sound first

end Component

/-- **In a program that is not refused, instances are whole copies.** -/
theorem run_instances [DecidableEq G] {calls : List (Call T G)} {state : State T G} (ran : run calls = .ok state)
    (closed : close state.model = .ok ()) : ∀ inst ∈ state.model.instances, ∃ component ∈ state.model.components,
      component.name = inst.component ∧ Whole state.model component inst := by
  obtain ⟨sound, captured, placed⟩ := run_kept ran
  obtain ⟨assemblies, closed⟩ := check_ok_iff.mp closed
  obtain ⟨joints, motions⟩ := check_ok_iff.mp closed
  intro inst isInst
  obtain ⟨component, isComponent, its, placed⟩ := placed inst isInst
  have captured := captured component isComponent
  refine ⟨component, isComponent, its, ?_⟩
  constructor
  · intro part among
    obtain ⟨member, copies⟩ := checkAssemblies_ok assemblies component isComponent part among
    exact ⟨member, copies inst isInst its.symm⟩
  · intro group among
    refine ⟨captured.groups.subset among, captured.closed group among, ?_⟩
    obtain ⟨copy, isCopy, name, members, rest⟩ := placed.groups _ (List.mem_map_of_mem among)
    refine ⟨copy, isCopy, name, members.trans (List.map_congr_left fun member inside => ?_), rest⟩
    refine (if_neg ?_).symm
    rintro rfl
    exact captured.free group among inside
  · intro joint among
    obtain ⟨copy, isCopy, same⟩ := List.mem_map.mp (placed.joints joint among)
    exact ⟨⟨copy, isCopy, same⟩, captured.joint_mentions sound joints among⟩
  · intro motion among
    obtain ⟨first, second⟩ := captured.motion_ends sound motions among
    refine ⟨placed.motions motion among, (captured.motions motion among).2.1, (captured.motions motion among).2.2, ?_⟩
    rw [groupName, groupName, if_neg first, if_neg second]
    rfl
  · exact captured.names_image sound ▸ placed.distinct

end Whole

section Shelf

theorem run_instances_shelf : ∃ state, run shelf = .ok state ∧ state.model.instances.length = 1 ∧
    ∀ inst ∈ state.model.instances, ∃ component ∈ state.model.components,
      component.name = inst.component ∧ Whole state.model component inst := by
  obtain ⟨state, ran, model⟩ := run_shelf
  have closed : close state.model = .ok () := by
    rw [model]
    rfl
  exact ⟨state, ran, model ▸ rfl, run_instances ran closed⟩

end Shelf

end Ketchup.Assemblies
