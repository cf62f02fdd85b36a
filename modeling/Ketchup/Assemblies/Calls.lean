/-
**The calls of a program that make its parts, groups and instances.**

An evaluation calls builtins one after another and ends at the first that is refused. Beside the model it keeps
two tables: what each name stands for, and the group each member joined. A component captures what its
group holds; an instance puts a copy of that in the model under its name.

Where a part lies and its shape are one value (`shape`), as are a joint's fasteners and volume and a motion's
axis; a placement moves them.
-/

import Ketchup.Library.Outcome
import Ketchup.Library.Propagation
import Ketchup.Library.Text

namespace Ketchup.Assemblies

structure Part (G : Type) where
  name : String
  solid : Bool
  boughtItem : Option String
  operations : List String
  shape : G
  deriving DecidableEq

structure Group where
  name : String
  grounded : Bool
  members : List String
  logical : Bool
  deriving DecidableEq

/-- An operation, by its part and its id. -/
structure JointOperationRef where
  part : String
  id : String
  deriving DecidableEq

structure JointLink where
  operations : List JointOperationRef
  hardwareParts : List String
  deriving DecidableEq

structure Joint (G : Type) where
  name : String
  parts : String × String
  links : List JointLink
  shape : G
  deriving DecidableEq

structure Motion (G : Type) where
  name : String
  endpoints : String × String
  instanced : Bool
  shape : G
  deriving DecidableEq

structure Component (G : Type) where
  name : String
  parts : List (Part G)
  groups : List Group
  joints : List (Joint G)
  motions : List (Motion G)

/-- A copy of a component, and how it is placed. -/
structure Instance (T : Type) where
  name : String
  component : String
  placement : T

structure Model (T G : Type) where
  parts : List (Part G)
  tools : List (Part G)
  groups : List Group
  components : List (Component G)
  instances : List (Instance T)
  joints : List (Joint G)
  motions : List (Motion G)

inductive Named where
  | part
  | tool
  | group
  deriving DecidableEq

structure State (T G : Type) where
  model : Model T G
  names : BTreeMap String Named
  groupOf : BTreeMap String String

/-- Why a call is refused. -/
inductive Refusal where
  | groupName
  | groupTaken (name : String)
  | tooManyGroups
  | listedTwice (group member : String)
  | unknownMember (group member : String)
  | otherParent (member parent : String)
  | groundedLogical (name : String)
  | partName (name : String)
  | partTaken (name : String)
  | tooManyParts
  | unknownPart (name : String)
  | hardwareOutside (component joint : String)
  | unknownComponent (name : String)
  | nonrigid (name : String)
  | badEdit
  | exceeds (name : String)
  | colliding (name : String)
  deriving DecidableEq

/-- `MAX_PARTS`. -/
def maxParts : ℕ := 20000

/-- `limits::NAME_BYTES`. -/
def nameBytes : ℕ := 128

/-- What a placement does to shapes. -/
class Placement (T G : Type) where
  move : T → G → G
  rigid : T → Bool
  /-- A joint's points, after its first part went from one place to another. -/
  carried : (before after : G) → G → G

section Names

/-- `check_part_name`. -/
def checkPartName (name : String) : Except Refusal Unit :=
  refuseIf ((trim name).isEmpty ∨ nameBytes < name.utf8ByteSize ∨ name.toList.any isControl) (.partName name)

variable {T G : Type}

/-- `check_name` of a group. -/
def checkName (state : State T G) (name : String) : Except Refusal Unit := do
  refuseIf ((trim name).isEmpty ∨ name.toList.any isControl) .groupName
  refuseIf (name ∈ state.names) (.groupTaken name)

def State.takeName (state : State T G) (name : String) (named : Named) : State T G :=
  { state with names := state.names.insert name named }

def State.takeGroup (state : State T G) (group : Group) : State T G :=
  { state.takeName group.name .group with
    groupOf := group.members.foldl (fun groupOf member => groupOf.insert member group.name) state.groupOf }

def Model.part? (model : Model T G) (name : String) : Option (Part G) := model.parts.find? (·.name = name)

end Names

section Groups

variable {T G : Type}

def checkMembers (state : State T G) (name : String) (unique : BTreeSet String) : List String → Except Refusal Unit
  | [] => .ok ()
  | member :: members => do
    refuseIf (member ∈ unique) (.listedTwice name member)
    refuseIf (state.names[member]? ≠ some .part ∧ state.names[member]? ≠ some .group) (.unknownMember name member)
    match state.groupOf[member]? with
    | some parent => .error (.otherParent member parent)
    | none => checkMembers state name (unique.insert member) members

def addGroup (state : State T G) (group : Group) : Except Refusal (State T G) := do
  checkName state group.name
  refuseIf (maxParts ≤ state.model.groups.length) .tooManyGroups
  checkMembers state group.name ∅ group.members
  let taken := state.takeGroup group
  .ok { taken with model := { state.model with groups := state.model.groups ++ [group] } }

section Shrinks

variable {groups : List Group} {name : String} {names : BTreeSet String}

theorem shrinks : (groups.countP fun group => !decide (group.name ∈ names.insert name)) ≤
    groups.countP fun group => !decide (group.name ∈ names) := by
  refine List.countP_mono_left fun group _ out => ?_
  simp only [BTreeSet.mem_insert, not_or, Bool.not_eq_true', decide_eq_false_iff_not] at out ⊢
  exact out.2

theorem shrinks_found (fresh : name ∉ names) {group : Group} (found : groups.find? (·.name = name) = some group) :
    (groups.countP fun group => !decide (group.name ∈ names.insert name)) <
      groups.countP fun group => !decide (group.name ∈ names) := by
  have called : group.name = name := by simpa using List.find?_some found
  refine countP_lt (fun other inside => ?_) (List.mem_of_find?_eq_some found) ?_ ?_
  · exact decide_eq_true (BTreeSet.mem_insert.mpr (.inr (of_decide_eq_true inside)))
  · exact decide_eq_false (called ▸ fresh)
  · exact decide_eq_true (BTreeSet.mem_insert.mpr (.inl called.symm))

end Shrinks

/-- The names pending and all that is in the groups of these names. -/
def descendants (groups : List Group) (names : BTreeSet String) : List String → BTreeSet String
  | [] => names
  | name :: pending =>
    if name ∈ names then descendants groups names pending
    else
      match _found : groups.find? (·.name = name) with
      | none => descendants groups (names.insert name) pending
      | some group => descendants groups (names.insert name) (group.members.reverse ++ pending)
termination_by pending => (groups.countP fun group => !decide (group.name ∈ names), pending.length)
decreasing_by
  · exact Prod.Lex.right _ (Nat.lt_succ_self _)
  · rcases Nat.lt_or_eq_of_le shrinks with less | same
    · exact Prod.Lex.left _ _ less
    · exact same ▸ Prod.Lex.right _ (Nat.lt_succ_self _)
  · exact Prod.Lex.left _ _ (shrinks_found ‹_› _found)

/-- `ProgramModel::member_names`. -/
def memberNames (groups : List Group) (endpoint : String) : BTreeSet String := descendants groups ∅ [endpoint]

/-- What a component keeps of its group. -/
def capture (model : Model T G) (name : String) : Except Refusal (Component G) := do
  let names := memberNames model.groups name
  let joints := model.joints.filter fun joint => joint.parts.1 ∈ names ∧ joint.parts.2 ∈ names
  match joints.find? fun joint => joint.links.any fun link => link.hardwareParts.any (· ∉ names) with
  | some joint => .error (.hardwareOutside name joint.name)
  | none =>
    .ok {
      name := name
      parts := model.parts.filter (·.name ∈ names)
      groups := model.groups.filter (·.name ∈ names)
      joints := joints
      motions := model.motions.filter fun motion => motion.endpoints.1 ∈ names ∧ motion.endpoints.2 ∈ names }

end Groups

section Instances

variable {T G : Type} [Placement T G]

/-- `"{instance}/{name}"`. -/
def within (inst name : String) : String := inst ++ "/" ++ name

def instancePart (inst : Instance T) (part : Part G) : Part G where
  name := within inst.name part.name
  solid := part.solid
  boughtItem := part.boughtItem.map (within inst.name)
  operations := part.operations
  shape := Placement.move inst.placement part.shape

/-- The group of the component itself is the instance. -/
def groupName (component : Component G) (inst : Instance T) (name : String) : String :=
  if name = component.name then inst.name else within inst.name name

def instanceGroups (component : Component G) (inst : Instance T) : List Group :=
  component.groups.map fun group =>
    { name := groupName component inst group.name
      grounded := group.grounded
      members := group.members.map (within inst.name)
      logical := group.logical }

def instanceJoint (inst : Instance T) (joint : Joint G) : Joint G where
  name := within inst.name joint.name
  parts := (within inst.name joint.parts.1, within inst.name joint.parts.2)
  links := joint.links.map fun link =>
    { operations := link.operations.map fun operation => { operation with part := within inst.name operation.part }
      hardwareParts := link.hardwareParts.map (within inst.name) }
  shape := Placement.move inst.placement joint.shape

def instanced (inst : Instance T) (motion : Motion G) : Motion G where
  name := within inst.name motion.name
  endpoints := (within inst.name motion.endpoints.1, within inst.name motion.endpoints.2)
  instanced := true
  shape := Placement.move inst.placement motion.shape

def checkNames (state : State T G) (name : String) (names : BTreeSet String) : List String → Except Refusal Unit
  | [] => .ok ()
  | next :: rest => do
    checkName state next
    refuseIf (next ∈ names) (.colliding name)
    checkNames state name (names.insert next) rest

def checkPartNames : List String → Except Refusal Unit
  | [] => .ok ()
  | name :: names => do
    checkPartName name
    checkPartNames names

/-- The groups of an instance, the one of the instance itself grounded as asked. -/
def groundedGroups (grounded : Option Bool) (name : String) (groups : List Group) : List Group :=
  match grounded with
  | none => groups
  | some grounded => groups.map fun group => if group.name = name then { group with grounded := grounded } else group

/-- The copy of a component put in the model. -/
def place (state : State T G) (inst : Instance T) (grounded : Option Bool) (component : Component G) :
    Except Refusal (State T G) := do
  refuseIf (Placement.rigid G inst.placement = false ∧
    ((component.parts.any fun part => part.solid || !part.operations.isEmpty) = true ∨ component.joints ≠ [] ∨
      component.motions ≠ [])) (.nonrigid inst.name)
  let parts := component.parts.map (instancePart inst)
  let groups := groundedGroups grounded inst.name (instanceGroups component inst)
  refuseIf (maxParts < state.model.parts.length + state.model.tools.length + parts.length ∨
    maxParts < state.model.groups.length + groups.length) (.exceeds inst.name)
  checkNames state inst.name ∅ (parts.map Part.name ++ groups.map Group.name)
  checkPartNames (parts.map Part.name)
  let taken := parts.foldl (fun state part => state.takeName part.name .part) state
  let taken := groups.foldl State.takeGroup taken
  .ok { taken with model := {
    state.model with
      parts := state.model.parts ++ parts
      groups := state.model.groups ++ groups
      joints := state.model.joints ++ component.joints.map (instanceJoint inst)
      motions := state.model.motions ++ component.motions.map (instanced inst)
      instances := state.model.instances ++ [inst] } }

def addInstance (state : State T G) (inst : Instance T) (grounded : Option Bool) : Except Refusal (State T G) :=
  match state.model.components.find? (·.name = inst.component) with
  | some component => place state inst grounded component
  | none => .error (.unknownComponent inst.component)

end Instances

section Runs

variable {T G : Type}

inductive Call (T G : Type) where
  | part (part : Part G) (tool : Bool)
  /-- Machining, placing or tagging a part or tool in its place. -/
  | edit (name : String) (edit : Part G → Except Refusal (Part G))
  | group (group : Group)
  | component (name : String) (members : List String) (grounded : Bool)
  | inst (inst : Instance T) (grounded : Option Bool)
  | joint (joint : Joint G)
  | motion (motion : Motion G)

def insertPart (state : State T G) (part : Part G) (tool : Bool) : Except Refusal (State T G) := do
  refuseIf (part.name ∈ state.names) (.partTaken part.name)
  refuseIf (maxParts ≤ state.model.parts.length + state.model.tools.length) .tooManyParts
  let model := if tool then { state.model with tools := state.model.tools ++ [part] }
    else { state.model with parts := state.model.parts ++ [part] }
  .ok { state.takeName part.name (if tool then .tool else .part) with model := model }

/-- The part in place of the first of its name. -/
def putFirst (part : Part G) : List (Part G) → List (Part G)
  | [] => []
  | other :: parts => if other.name = part.name then part :: parts else other :: putFirst part parts

/-- What `with_part` leaves of a part is in its place, under its name; joints go along with their first part. -/
def withPart [Placement T G] (state : State T G) (name : String) (edit : Part G → Except Refusal (Part G)) :
    Except Refusal (State T G) :=
  let carry (before after : G) (joint : Joint G) : Joint G :=
    if joint.parts.1 = name then { joint with shape := Placement.carried T before after joint.shape } else joint
  match state.model.part? name with
  | some part => do
    let edited ← edit part
    .ok { state with model := {
      state.model with
        parts := putFirst { edited with name := name } state.model.parts
        joints := state.model.joints.map (carry part.shape edited.shape) } }
  | none =>
    match state.model.tools.find? (·.name = name) with
    | some tool => do
      let edited ← edit tool
      .ok { state with model := {
        state.model with
          tools := putFirst { edited with name := name } state.model.tools
          joints := state.model.joints.map (carry tool.shape edited.shape) } }
    | none => .error (.unknownPart name)

def addJoint (state : State T G) (joint : Joint G) : Except Refusal (State T G) := do
  refuseIf (state.model.part? joint.parts.1 = none) (.unknownPart joint.parts.1)
  refuseIf (state.model.part? joint.parts.2 = none) (.unknownPart joint.parts.2)
  .ok { state with model := { state.model with joints := state.model.joints ++ [joint] } }

def step [Placement T G] (state : State T G) : Call T G → Except Refusal (State T G)
  | .part part tool => do
    checkPartName part.name
    insertPart state part tool
  | .edit name edit => withPart state name edit
  | .group group => do
    refuseIf (group.logical = true ∧ group.grounded = true) (.groundedLogical group.name)
    addGroup state group
  | .component name members grounded => do
    let state ← addGroup state ⟨name, grounded, members, false⟩
    let component ← capture state.model name
    .ok { state with model := { state.model with components := state.model.components ++ [component] } }
  | .inst inst grounded => addInstance state inst grounded
  | .joint joint => addJoint state joint
  | .motion motion =>
    .ok { state with model := { state.model with motions := state.model.motions ++ [{ motion with instanced := false }] } }

/-- Before any call. -/
def start : State T G := ⟨⟨[], [], [], [], [], [], []⟩, ∅, ∅⟩

/-- The state after calls of which none is refused. -/
def run [Placement T G] (calls : List (Call T G)) : Except Refusal (State T G) := calls.foldlM step start

end Runs

end Ketchup.Assemblies
