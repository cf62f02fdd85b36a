/-
**What names stand for.**

`Sound` says that the two tables hold what the model does: a name stands for one part, tool or group, a member
is in one group at most and is there, and groups lie above their members.

* `Sound.grow` — parts and groups put in at once, with names that fit in, leave it so.
* `mem_memberNames_iff` — the member names of a group are those that can be reached from it.
-/

import Ketchup.Assemblies.Calls
import Mathlib.Logic.Relation

set_option linter.unusedSectionVars false

namespace Ketchup.Assemblies

section Forest

variable {T G : Type}

/-- The names of one kind. -/
def Model.namesOf (model : Model T G) : Named → List String
  | .part => model.parts.map Part.name
  | .tool => model.tools.map Part.name
  | .group => model.groups.map Group.name

/-- Members lie lower than their groups. -/
def Levelled (level : String → ℕ) (groups : List Group) : Prop :=
  ∀ group ∈ groups, ∀ member ∈ group.members, level member < level group.name

/-- The tables hold what the model does, and groups form a forest. -/
structure Sound (state : State T G) : Prop where
  named : ∀ name kind, state.names[name]? = some kind ↔ name ∈ state.model.namesOf kind
  distinct : ∀ kind, (state.model.namesOf kind).Nodup
  parents : ∀ member parent, state.groupOf[member]? = some parent ↔
    ∃ group ∈ state.model.groups, group.name = parent ∧ member ∈ group.members
  once : ∀ group ∈ state.model.groups, group.members.Nodup
  there : ∀ group ∈ state.model.groups, ∀ member ∈ group.members,
    member ∈ state.model.namesOf .part ∨ member ∈ state.model.namesOf .group
  levels : ∃ level, Levelled level state.model.groups

theorem start_sound : Sound (start : State T G) where
  named name kind := by
    cases kind <;> simp [start, Model.namesOf]
  distinct kind := by cases kind <;> exact .nil
  parents member parent := by simp [start]
  once group among := absurd among List.not_mem_nil
  there group among := absurd among List.not_mem_nil
  levels := ⟨fun _ => 0, fun group among => absurd among List.not_mem_nil⟩

/-- A state with the same names, groups and tables. -/
theorem Sound.congr {state other : State T G} (sound : Sound state) (names : other.names = state.names)
    (groupOf : other.groupOf = state.groupOf) (parts : other.model.namesOf .part = state.model.namesOf .part)
    (tools : other.model.namesOf .tool = state.model.namesOf .tool) (groups : other.model.groups = state.model.groups) :
    Sound other := by
  have all : ∀ kind, other.model.namesOf kind = state.model.namesOf kind := by
    rintro (_ | _ | _)
    · exact parts
    · exact tools
    · exact congrArg (List.map Group.name) groups
  constructor
  · intro name kind
    rw [names, all]
    exact sound.named name kind
  · intro kind
    exact all kind ▸ sound.distinct kind
  · rw [groupOf, groups]
    exact sound.parents
  · exact groups ▸ sound.once
  · rw [groups, all, all]
    exact sound.there
  · exact groups ▸ sound.levels

theorem Sound.fresh_iff {state : State T G} (sound : Sound state) {name : String} :
    name ∉ state.names ↔ ∀ kind, name ∉ state.model.namesOf kind := by
  rw [Std.ExtTreeMap.mem_iff_isSome_getElem?, Option.not_isSome_iff_eq_none]
  constructor
  · intro none kind among
    rw [(sound.named name kind).mpr among] at none
    cases none
  · intro absent
    cases found : state.names[name]? with
    | none => rfl
    | some kind => exact absurd ((sound.named name kind).mp found) (absent kind)

/-! ### New names at once -/

/-- Parts and groups put in the model, and in the tables. -/
def State.grow (state : State T G) (parts : List (Part G)) (groups : List Group) : State T G :=
  let taken := groups.foldl State.takeGroup (parts.foldl (fun state part => state.takeName part.name .part) state)
  { taken with model := { state.model with parts := state.model.parts ++ parts, groups := state.model.groups ++ groups } }

theorem foldl_takeName_names {parts : List (Part G)} {state : State T G} {name : String} :
    (parts.foldl (fun state part => state.takeName part.name .part) state).names[name]? =
      if name ∈ parts.map Part.name then some .part else state.names[name]? := by
  induction parts generalizing state with
  | nil => simp
  | cons part parts ih =>
    have here : (state.takeName part.name .part).names[name]? = if part.name = name then some .part else state.names[name]? :=
      BTreeMap.getElem?_insert
    rw [List.foldl_cons, ih, here]
    by_cases later : name ∈ parts.map Part.name
    · simp [later]
    · by_cases is : part.name = name
      · simp [is]
      · simp [later, is, Ne.symm is]

theorem foldl_takeName_groupOf {parts : List (Part G)} {state : State T G} :
    (parts.foldl (fun state part => state.takeName part.name .part) state).groupOf = state.groupOf := by
  induction parts generalizing state with
  | nil => rfl
  | cons part parts ih => exact ih

theorem takeGroup_groupOf {state : State T G} {group : Group} {member : String} :
    (state.takeGroup group).groupOf[member]? = if member ∈ group.members then some group.name else state.groupOf[member]? := by
  have each : ∀ (members : List String) (groupOf : BTreeMap String String),
      (members.foldl (fun groupOf member => groupOf.insert member group.name) groupOf)[member]? =
        if member ∈ members then some group.name else groupOf[member]? := by
    intro members
    induction members with
    | nil => simp
    | cons first members ih =>
      intro groupOf
      rw [List.foldl_cons, ih, BTreeMap.getElem?_insert]
      by_cases later : member ∈ members
      · simp [later]
      · by_cases here : first = member
        · simp [here]
        · simp [later, here, Ne.symm here]
  exact each group.members state.groupOf

theorem foldl_takeGroup_names {groups : List Group} {state : State T G} {name : String} :
    (groups.foldl State.takeGroup state).names[name]? =
      if name ∈ groups.map Group.name then some .group else state.names[name]? := by
  induction groups generalizing state with
  | nil => simp
  | cons group groups ih =>
    have here : (state.takeGroup group).names[name]? = if group.name = name then some .group else state.names[name]? :=
      BTreeMap.getElem?_insert
    rw [List.foldl_cons, ih, here]
    by_cases later : name ∈ groups.map Group.name
    · simp [later]
    · by_cases is : group.name = name
      · simp [is]
      · simp [later, is, Ne.symm is]

/-- No member is in two groups. -/
def Single (groups : List Group) : Prop := groups.Pairwise fun one two => ∀ member ∈ one.members, member ∉ two.members

theorem foldl_takeGroup_groupOf {groups : List Group} (single : Single groups) {state : State T G} {member parent : String} :
    (groups.foldl State.takeGroup state).groupOf[member]? = some parent ↔
      (∃ group ∈ groups, group.name = parent ∧ member ∈ group.members) ∨
        (∀ group ∈ groups, member ∉ group.members) ∧ state.groupOf[member]? = some parent := by
  induction groups generalizing state with
  | nil => simp
  | cons group groups ih =>
    obtain ⟨apart, single⟩ := List.pairwise_cons.mp single
    rw [List.foldl_cons, ih single, takeGroup_groupOf]
    simp only [List.exists_mem_cons_iff, List.forall_mem_cons]
    by_cases here : member ∈ group.members
    · have later : ∀ other ∈ groups, member ∉ other.members := fun other among => apart other among member here
      have none : ¬∃ other ∈ groups, other.name = parent ∧ member ∈ other.members := fun ⟨other, among, _, inside⟩ =>
        later other among inside
      rw [if_pos here, Option.some_inj]
      constructor
      · rintro (found | ⟨_, is⟩)
        · exact absurd found none
        · exact .inl (.inl ⟨is, here⟩)
      · rintro ((⟨is, _⟩ | found) | ⟨⟨out, _⟩, _⟩)
        · exact .inr ⟨later, is⟩
        · exact absurd found none
        · exact absurd here out
    · simp [here]

section Grow

variable {state : State T G} {parts : List (Part G)} {groups : List Group}

theorem grow_names {name : String} : (state.grow parts groups).names[name]? =
    if name ∈ groups.map Group.name then some .group
    else if name ∈ parts.map Part.name then some .part else state.names[name]? := by
  rw [State.grow]
  exact foldl_takeGroup_names.trans (by rw [foldl_takeName_names])

theorem grow_namesOf {kind : Named} : (state.grow parts groups).model.namesOf kind = state.model.namesOf kind ++
    match kind with
    | .part => parts.map Part.name
    | .tool => []
    | .group => groups.map Group.name := by
  cases kind <;> simp [State.grow, Model.namesOf]

/-- What makes new parts and groups fit in. -/
structure Fits (state : State T G) (parts : List (Part G)) (groups : List Group) : Prop where
  fresh : ∀ name ∈ parts.map Part.name ++ groups.map Group.name, name ∉ state.names
  distinct : (parts.map Part.name ++ groups.map Group.name).Nodup
  once : ∀ group ∈ groups, group.members.Nodup
  there : ∀ group ∈ groups, ∀ member ∈ group.members,
    member ∈ parts.map Part.name ∨ member ∈ groups.map Group.name ∨
      member ∈ state.model.namesOf .part ∨ member ∈ state.model.namesOf .group
  orphans : ∀ group ∈ groups, ∀ member ∈ group.members, state.groupOf[member]? = none
  single : Single groups
  levels : ∀ level, Levelled level state.model.groups →
    ∃ new, (∀ name ∉ parts.map Part.name ++ groups.map Group.name, new name = level name) ∧ Levelled new groups

/-- **Names that fit in leave the tables true and the groups a forest.** -/
theorem Sound.grow (sound : Sound state) (fits : Fits state parts groups) : Sound (state.grow parts groups) := by
  -- New names are not old ones.
  have absent : ∀ name ∈ parts.map Part.name ++ groups.map Group.name, ∀ kind, name ∉ state.model.namesOf kind :=
    fun name among => sound.fresh_iff.mp (fits.fresh name among)
  obtain ⟨distinctParts, distinctGroups, apart⟩ := List.nodup_append.mp fits.distinct
  have old : ∀ {name kind}, name ∈ state.model.namesOf kind → name ∉ parts.map Part.name ∧ name ∉ groups.map Group.name :=
    fun {name kind} held => ⟨fun new => absent name (List.mem_append_left _ new) kind held,
      fun new => absent name (List.mem_append_right _ new) kind held⟩
  constructor
  · intro name kind
    have none : ∀ {name}, name ∈ parts.map Part.name ++ groups.map Group.name → state.names[name]? = none := fun among =>
      Option.not_isSome_iff_eq_none.mp (mt Std.ExtTreeMap.mem_iff_isSome_getElem?.mpr (fits.fresh _ among))
    rw [grow_names, grow_namesOf, List.mem_append, ← sound.named name kind]
    by_cases group : name ∈ groups.map Group.name
    · have part : name ∉ parts.map Part.name := fun part => apart name part name group rfl
      rw [if_pos group, none (List.mem_append_right _ group)]
      cases kind <;> simp [group, part]
    · rw [if_neg group]
      by_cases part : name ∈ parts.map Part.name
      · rw [if_pos part, none (List.mem_append_left _ part)]
        cases kind <;> simp [group, part]
      · rw [if_neg part]
        cases kind <;> simp [group, part]
  · intro kind
    rw [grow_namesOf]
    refine List.nodup_append.mpr ⟨sound.distinct kind, ?_, ?_⟩
    · cases kind with
      | part => exact distinctParts
      | tool => exact .nil
      | group => exact distinctGroups
    · intro name held other new
      rintro rfl
      cases kind with
      | part => exact (old held).1 new
      | tool => cases new
      | group => exact (old held).2 new
  · intro member parent
    have either : (state.grow parts groups).groupOf[member]? = some parent ↔
        (∃ group ∈ groups, group.name = parent ∧ member ∈ group.members) ∨
          (∀ group ∈ groups, member ∉ group.members) ∧ state.groupOf[member]? = some parent := by
      rw [State.grow]
      exact (foldl_takeGroup_groupOf fits.single).trans (by rw [foldl_takeName_groupOf])
    rw [either, sound.parents]
    constructor
    · rintro (⟨group, among, is, inside⟩ | ⟨_, group, among, is, inside⟩)
      · exact ⟨group, List.mem_append_right _ among, is, inside⟩
      · exact ⟨group, List.mem_append_left _ among, is, inside⟩
    · rintro ⟨group, among, is, inside⟩
      rcases List.mem_append.mp among with among | among
      · refine .inr ⟨fun new isNew inside' => ?_, group, among, is, inside⟩
        have orphan := fits.orphans new isNew member inside'
        rw [(sound.parents member parent).mpr ⟨group, among, is, inside⟩] at orphan
        cases orphan
      · exact .inl ⟨group, among, is, inside⟩
  · intro group among
    rcases List.mem_append.mp among with among | among
    · exact sound.once group among
    · exact fits.once group among
  · intro group among member inside
    rw [grow_namesOf, grow_namesOf, List.mem_append, List.mem_append]
    rcases List.mem_append.mp among with among | among
    · exact (sound.there group among member inside).imp .inl .inl
    · rcases fits.there group among member inside with new | new | held | held
      · exact .inl (.inr new)
      · exact .inr (.inr new)
      · exact .inl (.inl held)
      · exact .inr (.inl held)
  · obtain ⟨level, levelled⟩ := sound.levels
    obtain ⟨new, same, levelled'⟩ := fits.levels level levelled
    refine ⟨new, fun group among member inside => ?_⟩
    rcases List.mem_append.mp among with among | among
    · -- Old groups and their members have old names.
      have named : group.name ∈ state.model.namesOf .group := List.mem_map_of_mem among
      have still : ∀ {name kind}, name ∈ state.model.namesOf kind → new name = level name := fun {name kind} held =>
        same name fun among => (List.mem_append.mp among).elim (old held).1 (old held).2
      rw [still named, (sound.there group among member inside).elim still still]
      exact levelled group among member inside
    · exact levelled' group among member inside

end Grow

/-! ### Descendants -/

/-- A name is that of a group, and the other one of its members. -/
def Holds (groups : List Group) (name member : String) : Prop :=
  ∃ group, groups.find? (·.name = name) = some group ∧ member ∈ group.members

theorem descendants_none {groups : List Group} {names : BTreeSet String} {name : String} {pending : List String} (fresh : name ∉ names)
    (none : groups.find? (·.name = name) = none) :
    descendants groups names (name :: pending) = descendants groups (names.insert name) pending := by
  rw [descendants, if_neg fresh]
  split
  case h_1 => rfl
  case h_2 found => rw [none] at found; cases found

theorem descendants_group {groups : List Group} {names : BTreeSet String} {name : String} {pending : List String} {group : Group}
    (fresh : name ∉ names) (found : groups.find? (·.name = name) = some group) :
    descendants groups names (name :: pending) = descendants groups (names.insert name) (group.members.reverse ++ pending) := by
  rw [descendants, if_neg fresh]
  split
  case h_1 none => rw [none] at found; cases found
  case h_2 other is => rw [Option.some.inj (found.symm.trans is)]

theorem descendants_holds {groups : List Group} {names : BTreeSet String} {pending : List String} {kept : String → Prop}
    (closed : ∀ name, kept name → ∀ member, Holds groups name member → kept member) (before : ∀ name ∈ names, kept name)
    (waits : ∀ name ∈ pending, kept name) : ∀ name ∈ descendants groups names pending, kept name := by
  induction names, pending using descendants.induct groups with
  | case1 names =>
    rw [descendants]
    exact before
  | case2 names name pending inside ih =>
    rw [descendants, if_pos inside]
    exact ih before fun other later => waits other (List.mem_cons_of_mem _ later)
  | case3 names name pending fresh none ih =>
    rw [descendants_none fresh none]
    refine ih (fun other inside => ?_) fun other later => waits other (List.mem_cons_of_mem _ later)
    rcases BTreeSet.mem_insert.mp inside with rfl | held
    · exact waits _ List.mem_cons_self
    · exact before other held
  | case4 names name pending fresh group found ih =>
    rw [descendants_group fresh found]
    refine ih (fun other inside => ?_) fun other inside => ?_
    · rcases BTreeSet.mem_insert.mp inside with rfl | held
      · exact waits _ List.mem_cons_self
      · exact before other held
    · rcases List.mem_append.mp inside with member | later
      · exact closed name (waits name List.mem_cons_self) other ⟨group, found, List.mem_reverse.mp member⟩
      · exact waits other (List.mem_cons_of_mem _ later)

theorem descendants_follows {groups : List Group} {names : BTreeSet String} {pending : List String}
    (followed : ∀ name ∈ names, ∀ member, Holds groups name member → member ∈ names ∨ member ∈ pending) :
    (∀ name, name ∈ names ∨ name ∈ pending → name ∈ descendants groups names pending) ∧
      ∀ name ∈ descendants groups names pending, ∀ member, Holds groups name member → member ∈ descendants groups names pending := by
  induction names, pending using descendants.induct groups with
  | case1 names =>
    rw [descendants]
    refine ⟨fun name either => either.resolve_right List.not_mem_nil, fun name inside member holds => ?_⟩
    exact (followed name inside member holds).resolve_right List.not_mem_nil
  | case2 names name pending inside ih =>
    rw [descendants, if_pos inside]
    have drop : ∀ other, other ∈ names ∨ other ∈ name :: pending → other ∈ names ∨ other ∈ pending := by
      rintro other (held | waits)
      · exact .inl held
      · rcases List.mem_cons.mp waits with rfl | later
        · exact .inl inside
        · exact .inr later
    obtain ⟨finds, follows⟩ := ih fun each held member holds => drop member (followed each held member holds)
    exact ⟨fun other either => finds other (drop other either), follows⟩
  | case3 names name pending fresh none ih =>
    rw [descendants_none fresh none]
    have move : ∀ other, other ∈ names ∨ other ∈ name :: pending → other ∈ names.insert name ∨ other ∈ pending := by
      rintro other (held | waits)
      · exact .inl (BTreeSet.mem_insert.mpr (.inr held))
      · exact (List.mem_cons.mp waits).imp (fun is => BTreeSet.mem_insert.mpr (.inl is.symm)) id
    obtain ⟨finds, follows⟩ := ih fun each held member holds => by
      rcases BTreeSet.mem_insert.mp held with rfl | held
      · obtain ⟨group, found, _⟩ := holds
        rw [none] at found
        cases found
      · exact move member (followed each held member holds)
    exact ⟨fun other either => finds other (move other either), follows⟩
  | case4 names name pending fresh group found ih =>
    rw [descendants_group fresh found]
    have move : ∀ other, other ∈ names ∨ other ∈ name :: pending →
        other ∈ names.insert name ∨ other ∈ group.members.reverse ++ pending := by
      rintro other (held | waits)
      · exact .inl (BTreeSet.mem_insert.mpr (.inr held))
      · exact (List.mem_cons.mp waits).imp (fun is => BTreeSet.mem_insert.mpr (.inl is.symm))
          fun later => List.mem_append_right _ later
    obtain ⟨finds, follows⟩ := ih fun each held member holds => by
      rcases BTreeSet.mem_insert.mp held with rfl | held
      · obtain ⟨other, isOther, inside⟩ := holds
        obtain rfl := Option.some.inj (found.symm.trans isOther)
        exact .inr (List.mem_append_left _ (List.mem_reverse.mpr inside))
      · exact move member (followed each held member holds)
    exact ⟨fun other either => finds other (move other either), follows⟩

/-- **The member names are those that can be reached.** -/
theorem mem_memberNames_iff {groups : List Group} {endpoint name : String} :
    name ∈ memberNames groups endpoint ↔ Relation.ReflTransGen (Holds groups) endpoint name := by
  constructor
  · refine descendants_holds (fun one reached member holds => reached.tail holds) (fun other held => ?_)
      (fun other waits => ?_) name
    · exact absurd held Std.ExtTreeSet.not_mem_empty
    · rw [List.mem_singleton.mp waits]
  · have all : ∀ name ∈ (∅ : BTreeSet String), ∀ member, Holds groups name member → member ∈ (∅ : BTreeSet String) ∨ member ∈ [endpoint] :=
      fun other held => absurd held Std.ExtTreeSet.not_mem_empty
    obtain ⟨finds, follows⟩ := descendants_follows all
    intro reached
    induction reached with
    | refl => exact finds endpoint (.inr (List.mem_singleton_self _))
    | tail _ holds ih => exact follows _ ih _ holds

theorem memberNames_single {groups : List Group} {name : String} (none : groups.find? (·.name = name) = none) :
    memberNames groups name = (∅ : BTreeSet String).insert name := by
  unfold memberNames
  rw [descendants_none Std.ExtTreeSet.not_mem_empty none, descendants]

/-- A group of two members of which neither is a group. -/
theorem memberNames_pair {groups : List Group} (group : Group) {one two : String} (found : groups.find? (·.name = group.name) = some group)
    (members : group.members = [one, two]) (first : groups.find? (·.name = one) = none) (second : groups.find? (·.name = two) = none)
    (apart : group.name ≠ one ∧ group.name ≠ two ∧ two ≠ one) :
    memberNames groups group.name = (((∅ : BTreeSet String).insert group.name).insert two).insert one := by
  have fresh : two ∉ (∅ : BTreeSet String).insert group.name := by
    rw [BTreeSet.mem_insert]
    exact fun either => either.elim apart.2.1 Std.ExtTreeSet.not_mem_empty
  have fresh' : one ∉ ((∅ : BTreeSet String).insert group.name).insert two := by
    rw [BTreeSet.mem_insert, BTreeSet.mem_insert]
    exact fun either => either.elim apart.2.2 fun either => either.elim apart.1 Std.ExtTreeSet.not_mem_empty
  unfold memberNames
  rw [descendants_group Std.ExtTreeSet.not_mem_empty found, members]
  calc descendants groups ((∅ : BTreeSet String).insert group.name) [two, one]
      = descendants groups (((∅ : BTreeSet String).insert group.name).insert two) [one] := descendants_none fresh second
    _ = descendants groups ((((∅ : BTreeSet String).insert group.name).insert two).insert one) [] := descendants_none fresh' first
    _ = (((∅ : BTreeSet String).insert group.name).insert two).insert one := by rw [descendants]

end Forest

end Ketchup.Assemblies
