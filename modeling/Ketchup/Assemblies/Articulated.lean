/-
**A copy moves as what it is a copy of.**

Each call keeps `Traced`: copied motions are those of components, no two instances put in the same name, and a
component that has another in it has its motions too. With the closing checks this says which motions can move a
member alone.

* `step_traced` — a call that is not refused keeps it.
* `run_articulated` — the motions that move a member alone are those its component captured, and those that move
  its copy alone are the copies of these, in the same order.
-/

import Ketchup.Assemblies.Pose

set_option linter.unusedSectionVars false

namespace Ketchup.Assemblies

section Traced

variable {T G : Type} [Placement T G]

/-- The names an instance put in. -/
def Owns (model : Model T G) (inst : Instance T) (name : String) : Prop :=
  ∃ component ∈ model.components, component.name = inst.component ∧ name ∈ component.names.map (groupName component inst)

/-- A motion between members of a component other than the component itself. -/
def Inner (component : Component G) (motion : Motion G) : Prop :=
  motion.endpoints.1 ≠ component.name ∧ motion.endpoints.2 ≠ component.name

structure Traced (model : Model T G) : Prop where
  nested : model.components.Pairwise fun one two => two.name ∉ one.names ∧ (one.name ∈ two.names → one.motions ⊆ two.motions)
  apart : model.instances.Pairwise fun one two => ∀ name, Owns model one name → ¬Owns model two name
  roots : ∀ inst ∈ model.instances, ∀ component ∈ model.components, ¬Owns model inst component.name
  copied : ∀ motion ∈ model.motions, motion.instanced = true → ∃ inst ∈ model.instances, ∃ component ∈ model.components,
    component.name = inst.component ∧ ∃ source ∈ component.motions, motion = instanced inst source
  held : ∀ component ∈ model.components, ∀ inst ∈ model.instances, inst.name ∈ component.names →
    ∀ source ∈ model.components, source.name = inst.component → ∀ motion ∈ source.motions, Inner source motion →
      instanced inst motion ∈ component.motions

theorem start_traced : Traced (start : State T G).model where
  nested := .nil
  apart := .nil
  roots _ among := absurd among List.not_mem_nil
  copied _ among := absurd among List.not_mem_nil
  held _ among := absurd among List.not_mem_nil

/-- A model with the same components and instances, and no new copied motion. -/
theorem Traced.congr {model other : Model T G} (traced : Traced model) (components : other.components = model.components)
    (instances : other.instances = model.instances)
    (motions : ∀ motion ∈ other.motions, motion.instanced = true → motion ∈ model.motions) : Traced other := by
  have owns : ∀ inst name, Owns other inst name ↔ Owns model inst name := by
    intro inst name
    unfold Owns
    rw [components]
  constructor
  · exact components ▸ traced.nested
  · rw [instances]
    exact traced.apart.imp fun {one two} apart name first second => apart name ((owns one name).mp first) ((owns two name).mp second)
  · rw [instances, components]
    exact fun inst isInst component isComponent its => traced.roots inst isInst component isComponent ((owns inst _).mp its)
  · rw [instances, components]
    exact fun motion among is => traced.copied motion (motions motion among is) is
  · rw [instances, components]
    exact traced.held

/-- Groups that lead from one name down to another. -/
def Reaches (groups : List Group) : String → String → Prop := Relation.ReflTransGen (Member groups)

theorem Sound.mem_memberNames {state : State T G} (sound : Sound state) {endpoint name : String} :
    name ∈ memberNames state.model.groups endpoint ↔ Reaches state.model.groups endpoint name := by
  rw [mem_memberNames_iff]
  exact ⟨fun reached => reached.lift id fun _ _ => Holds.member, fun reached => reached.lift id fun _ _ => sound.holds⟩

/-- The name of a component is that of no other. -/
theorem Traced.component_unique {model : Model T G} (traced : Traced model) (root : ∀ component ∈ model.components, component.name ∈ component.names)
    {one two : Component G} (isOne : one ∈ model.components) (isTwo : two ∈ model.components) (same : one.name = two.name) : one = two := by
  have distinct : model.components.Pairwise fun one two => one.name ≠ two.name :=
    traced.nested.imp_of_mem fun {one two} isOne _ its same => its.1 (same ▸ root one isOne)
  have : Std.Symm fun one two : Component G => one.name ≠ two.name := ⟨fun _ _ => Ne.symm⟩
  by_contra apart
  exact distinct.forall isOne isTwo apart same

section Call

variable {state after : State T G}

theorem Kept.root (kept : Kept state) : ∀ component ∈ state.model.components, component.name ∈ component.names :=
  fun component among => (kept.captured component among).root_mem

/-- What an instance put in has a name. -/
theorem Kept.owns_named (kept : Kept state) (traced : Traced state.model) {inst : Instance T} (isInst : inst ∈ state.model.instances)
    {name : String} (owns : Owns state.model inst name) : name ∈ state.names := by
  obtain ⟨component, isComponent, its, placed⟩ := kept.placed inst isInst
  obtain ⟨other, isOther, called, among⟩ := owns
  obtain rfl := traced.component_unique kept.root isOther isComponent (called.trans its.symm)
  by_contra fresh
  have absent := kept.sound.fresh_iff.mp fresh
  rw [← (kept.captured other isOther).names_image kept.sound] at among
  rcases List.mem_append.mp among with part | group
  · rw [List.map_map] at part
    obtain ⟨copied, isPart, rfl⟩ := List.mem_map.mp part
    exact absent .part (placed.parts copied isPart)
  · obtain ⟨copied, isGroup, rfl⟩ := List.mem_map.mp group
    obtain ⟨held, isHeld, same, _⟩ := placed.groups copied isGroup
    exact absent .group (same ▸ List.mem_map_of_mem isHeld)

theorem Kept.name_named (kept : Kept state) {component : Component G} (among : component ∈ state.model.components) {name : String}
    (its : name ∈ component.names) : name ∈ state.names := by
  by_contra fresh
  have absent := kept.sound.fresh_iff.mp fresh
  exact ((kept.captured component among).namesOf its).elim (absent .part) (absent .group)

/-- A group of a captured name is captured. -/
theorem Captured.group_of_member (sound : Sound state) {component : Component G} (captured : Captured state.model component)
    {one name : String} (among : one ∈ component.names) (member : Member state.model.groups one name) :
    ∃ group ∈ component.groups, group.name = one ∧ name ∈ group.members := by
  obtain ⟨group, isGroup, rfl, inside⟩ := member
  have named : group.name ∈ state.model.namesOf .group := List.mem_map_of_mem isGroup
  rcases List.mem_append.mp among with part | its
  · cases sound.apart (captured.parts.subset part) named
  · obtain ⟨held, isHeld, same⟩ := List.mem_map.mp its
    have is := List.inj_on_of_nodup_map (sound.distinct .group) (captured.groups.subset isHeld) isGroup same
    exact ⟨held, isHeld, same, is ▸ inside⟩

/-- The copies of what a component holds are reached as it is. -/
theorem Placed.reaches (sound : Sound state) {component : Component G} {inst : Instance T} (captured : Captured state.model component)
    (placed : Placed state.model component inst) {one name : String} (among : one ∈ component.names)
    (reached : Reaches state.model.groups one name) : name ∈ component.names ∧
      Reaches state.model.groups (groupName component inst one) (groupName component inst name) := by
  induction reached with
  | refl => exact ⟨among, .refl⟩
  | @tail middle name _ member ih =>
    obtain ⟨inside, reached⟩ := ih
    obtain ⟨group, isGroup, rfl, its⟩ := captured.group_of_member sound inside member
    obtain ⟨copy, isCopy, called, members, _⟩ := placed.groups _ (List.mem_map_of_mem isGroup)
    refine ⟨captured.closed group isGroup name its, reached.tail ⟨copy, isCopy, called, ?_⟩⟩
    have below : name ≠ component.name := by
      rintro rfl
      exact captured.free group isGroup its
    have image : groupName component inst name = within inst.name name := if_neg below
    rw [members, image]
    exact List.mem_map_of_mem its

/-- What a component captures of motions is all that is between its members, copies and all. -/
theorem component_traced (kept : Kept state) (traced : Traced state.model) {name : String} {members : List String} {grounded : Bool}
    {component : Component G} (added : addGroup state ⟨name, grounded, members, false⟩ = .ok after)
    (ok : capture after.model name = .ok component) :
    Traced { after.model with components := after.model.components ++ [component] } := by
  obtain ⟨rfl, fits, fresh⟩ := addGroup_ok kept.sound added
  have grown := kept.grow fits
  obtain ⟨rfl, names, motions⟩ := capture_ok ok
  -- Its name is that of nothing before.
  have new : ∀ one ∈ state.model.components, component.name ∉ one.names := fun one isOne among =>
    fresh (kept.name_named isOne among)
  have old : ∀ one ∈ state.model.components, component.name ≠ one.name := fun one isOne same =>
    new one isOne (same ▸ kept.root one isOne)
  have owns : ∀ inst ∈ state.model.instances, ∀ other, Owns { (state.grow [] [⟨component.name, grounded, members, false⟩]).model with
      components := state.model.components ++ [component] } inst other → Owns state.model inst other := by
    rintro inst isInst other ⟨one, isOne, its, among⟩
    rcases List.mem_append.mp isOne with isOne | isNew
    · exact ⟨one, isOne, its, among⟩
    · obtain rfl := List.mem_singleton.mp isNew
      obtain ⟨held, isHeld, called, _⟩ := kept.placed inst isInst
      exact absurd (its.trans called.symm) (old held isHeld)
  constructor
  · refine List.pairwise_append.mpr ⟨traced.nested, List.pairwise_singleton _ _, fun one isOne two isTwo => ?_⟩
    obtain rfl := List.mem_singleton.mp isTwo
    refine ⟨new one isOne, fun inside motion among => ?_⟩
    have captured := grown.captured one isOne
    obtain ⟨held, first, second⟩ := captured.motions motion among
    have below : ∀ other ∈ one.names, other ∈ memberNames (state.grow [] [⟨two.name, grounded, members, false⟩]).model.groups two.name := by
      intro other its
      exact grown.sound.mem_memberNames.mpr ((grown.sound.mem_memberNames.mp (names one.name inside)).trans (captured.reached other its))
    exact (motions motion).mpr ⟨held, below _ first, below _ second⟩
  · exact traced.apart.imp_of_mem fun {one two} isOne isTwo apart other first second =>
      apart other (owns one isOne other first) (owns two isTwo other second)
  · intro inst isInst one isOne its
    have owned := owns inst isInst one.name its
    rcases List.mem_append.mp isOne with isOne | isNew
    · exact traced.roots inst isInst one isOne owned
    · obtain rfl := List.mem_singleton.mp isNew
      exact fresh (kept.owns_named traced isInst owned)
  · intro motion among is
    obtain ⟨inst, isInst, one, isOne, rest⟩ := traced.copied motion among is
    exact ⟨inst, isInst, one, List.mem_append_left _ isOne, rest⟩
  · intro one isOne inst isInst inside source isSource called motion among inner
    obtain ⟨placedOne, isPlaced, is, placed⟩ := grown.placed inst isInst
    rcases List.mem_append.mp isSource with isSource | isNew
    · rcases List.mem_append.mp isOne with isOne | isNew
      · exact traced.held one isOne inst isInst inside source isSource called motion among inner
      · obtain rfl := List.mem_singleton.mp isNew
        obtain rfl := traced.component_unique kept.root isPlaced isSource (is.trans called.symm)
        have captured := grown.captured placedOne isPlaced
        obtain ⟨_, first, second⟩ := captured.motions motion among
        -- The copies of its ends are below the instance.
        have below : ∀ other ∈ placedOne.names, other ≠ placedOne.name → within inst.name other ∈
            memberNames (state.grow [] [⟨one.name, grounded, members, false⟩]).model.groups one.name := by
          intro other its apart
          have reached := (placed.reaches grown.sound captured captured.root_mem (captured.reached other its)).2
          rw [groupName, if_pos rfl, groupName, if_neg apart] at reached
          exact grown.sound.mem_memberNames.mpr ((grown.sound.mem_memberNames.mp (names inst.name inside)).trans reached)
        exact (motions _).mpr ⟨placed.motions motion among, below _ first inner.1, below _ second inner.2⟩
    · obtain rfl := List.mem_singleton.mp isNew
      exact absurd (called.trans is.symm) (old placedOne isPlaced)

/-- **What an instance puts in is new.** -/
theorem place_traced (kept : Kept state) (traced : Traced state.model) {inst : Instance T} {grounded : Option Bool}
    {component : Component G} (isComponent : component ∈ state.model.components) (its : component.name = inst.component)
    (ok : place state inst grounded component = .ok after) : Traced after.model := by
  obtain ⟨_, ok⟩ := check_ok_iff.mp ok
  obtain ⟨_, ok⟩ := check_ok_iff.mp ok
  obtain ⟨names, ok⟩ := check_ok_iff.mp ok
  obtain ⟨_, ok⟩ := check_ok_iff.mp ok
  have captured := kept.captured component isComponent
  have image : (component.parts.map (instancePart inst)).map Part.name ++
      (groundedGroups grounded inst.name (instanceGroups component inst)).map Group.name =
        component.names.map (groupName component inst) := by
    rw [← captured.names_image kept.sound, groundedGroups_eq, instanceGroups, List.map_map, List.map_map, List.map_map]
    rfl
  have fresh : ∀ name, Owns state.model inst name → name ∉ state.names := by
    rintro name ⟨other, isOther, called, among⟩
    obtain rfl := traced.component_unique kept.root isOther isComponent (called.trans its.symm)
    exact ((checkNames_ok (image ▸ names)).2 name among).1
  have root : Owns state.model inst inst.name :=
    ⟨component, isComponent, its, List.mem_map.mpr ⟨component.name, captured.root_mem, if_pos rfl⟩⟩
  obtain rfl := Except.ok.inj ok
  constructor
  · exact traced.nested
  · refine List.pairwise_append.mpr ⟨traced.apart, List.pairwise_singleton _ _, fun one isOne two isTwo name first second => ?_⟩
    obtain rfl := List.mem_singleton.mp isTwo
    exact fresh name second (kept.owns_named traced isOne first)
  · intro one isOne other isOther owns
    rcases List.mem_append.mp isOne with isOne | isNew
    · exact traced.roots one isOne other isOther owns
    · obtain rfl := List.mem_singleton.mp isNew
      exact fresh _ owns (kept.name_named isOther (kept.root other isOther))
  · intro motion among is
    rcases List.mem_append.mp among with among | isNew
    · obtain ⟨one, isOne, rest⟩ := traced.copied motion among is
      exact ⟨one, List.mem_append_left _ isOne, rest⟩
    · obtain ⟨source, isSource, rfl⟩ := List.mem_map.mp isNew
      exact ⟨inst, List.mem_append_right _ (List.mem_singleton_self _), component, isComponent, its, source, isSource, rfl⟩
  · intro other isOther one isOne inside
    rcases List.mem_append.mp isOne with isOne | isNew
    · exact traced.held other isOther one isOne inside
    · obtain rfl := List.mem_singleton.mp isNew
      exact absurd (kept.name_named isOther inside) (fresh _ root)

/-- **A call that is not refused leaves copies traced.** -/
theorem step_traced (kept : Kept state) (traced : Traced state.model) {call : Call T G} (ok : step state call = .ok after) :
    Traced after.model := by
  cases call with
  | part part tool =>
    obtain ⟨_, ok⟩ := check_ok_iff.mp (check_ok_iff.mp ok).2
    obtain ⟨_, ok⟩ := check_ok_iff.mp ok
    obtain rfl := Except.ok.inj ok
    cases tool with
    | false => exact traced.congr rfl rfl fun _ among _ => among
    | true => exact traced.congr rfl rfl fun _ among _ => among
  | edit name edit =>
    have same : after.model.components = state.model.components ∧ after.model.instances = state.model.instances ∧
        after.model.motions = state.model.motions := by
      replace ok : withPart state name edit = .ok after := ok
      unfold withPart at ok
      extract_lets carry at ok
      split at ok
      case h_1 =>
        obtain ⟨edited, _, ok⟩ := bind_ok ok
        obtain rfl := Except.ok.inj ok
        exact ⟨rfl, rfl, rfl⟩
      case h_2 =>
        split at ok
        case h_1 =>
          obtain ⟨edited, _, ok⟩ := bind_ok ok
          obtain rfl := Except.ok.inj ok
          exact ⟨rfl, rfl, rfl⟩
        case h_2 => cases ok
    exact traced.congr same.1 same.2.1 fun motion among _ => same.2.2 ▸ among
  | group group =>
    obtain ⟨rfl, _⟩ := addGroup_ok kept.sound (check_ok_iff.mp ok).2
    exact traced.congr rfl rfl fun _ among _ => among
  | component name members grounded =>
    obtain ⟨grown, added, ok⟩ := bind_ok ok
    obtain ⟨component, captured, ok⟩ := bind_ok ok
    exact Except.ok.inj ok ▸ component_traced kept traced added captured
  | inst inst grounded =>
    replace ok : addInstance state inst grounded = .ok after := ok
    unfold addInstance at ok
    split at ok
    case h_1 component found =>
      exact place_traced kept traced (List.mem_of_find?_eq_some found) (by simpa using List.find?_some found) ok
    case h_2 => cases ok
  | joint joint =>
    obtain ⟨_, ok⟩ := check_ok_iff.mp ok
    obtain ⟨_, ok⟩ := check_ok_iff.mp ok
    obtain rfl := Except.ok.inj ok
    exact traced.congr rfl rfl fun _ among _ => among
  | motion motion =>
    obtain rfl := Except.ok.inj ok
    refine traced.congr rfl rfl fun other among is => ?_
    rcases List.mem_append.mp among with among | isNew
    · exact among
    · obtain rfl := List.mem_singleton.mp isNew
      cases is

theorem run_traced {calls : List (Call T G)} (ran : run calls = .ok state) : Kept state ∧ Traced state.model := by
  have each : ∀ (calls : List (Call T G)) (before : State T G), Kept before → Traced before.model →
      calls.foldlM step before = .ok state → Kept state ∧ Traced state.model := by
    intro calls
    induction calls with
    | nil => exact fun before kept traced ran => Except.ok.inj ran ▸ ⟨kept, traced⟩
    | cons call calls ih =>
      intro before kept traced ran
      obtain ⟨next, ok, ran⟩ := bind_ok ran
      exact ih next (step_kept kept ok) (step_traced kept traced ok) ran
  exact each calls start start_kept start_traced ran

end Call

/-! ### What moves a member, and its copy -/

section Copies

variable {state : State T G} {component : Component G} {inst : Instance T}

theorem Sound.parent_unique (sound : Sound state) {one two name : String} (first : Member state.model.groups one name)
    (second : Member state.model.groups two name) : one = two :=
  Option.some.inj (((sound.parents name one).mpr first).symm.trans ((sound.parents name two).mpr second))

theorem Sound.reaches_antisymm (sound : Sound state) {one two : String} (first : Reaches state.model.groups one two)
    (second : Reaches state.model.groups two one) : one = two := by
  obtain ⟨level, levelled⟩ := sound.levels
  have falls : ∀ {upper lower : String}, Reaches state.model.groups upper lower → upper = lower ∨ level lower < level upper := by
    intro upper lower reached
    induction reached with
    | refl => exact .inl rfl
    | tail _ member ih =>
      obtain ⟨group, among, rfl, inside⟩ := member
      have lower := levelled group among _ inside
      rcases ih with rfl | less
      · exact .inr lower
      · exact .inr (lower.trans less)
  rcases falls first with same | less
  · exact same
  · rcases falls second with same | more
    · exact same.symm
    · exact absurd (less.trans more) (Nat.lt_irrefl _)

/-- Of two names above a third, one is above the other. -/
theorem Sound.reaches_total (sound : Sound state) {one two name : String} (first : Reaches state.model.groups one name)
    (second : Reaches state.model.groups two name) : Reaches state.model.groups one two ∨ Reaches state.model.groups two one := by
  induction first generalizing two with
  | refl => exact .inr second
  | tail above member ih =>
    rcases second.cases_tail with rfl | ⟨parent, second, its⟩
    · exact .inl (above.tail member)
    · obtain rfl := sound.parent_unique member its
      exact ih second

theorem Captured.mem_of_reaches (sound : Sound state) (captured : Captured state.model component) {one name : String}
    (among : one ∈ component.names) (reached : Reaches state.model.groups one name) : name ∈ component.names := by
  induction reached with
  | refl => exact among
  | tail _ member ih =>
    obtain ⟨group, isGroup, _, inside⟩ := captured.group_of_member sound ih member
    exact captured.closed group isGroup _ inside

/-- A member other than the component itself is in one of its groups. -/
theorem Captured.parent (sound : Sound state) (captured : Captured state.model component) {name : String} (among : name ∈ component.names)
    (below : name ≠ component.name) : ∃ group ∈ component.groups, name ∈ group.members := by
  rcases (captured.reached name among).cases_tail with same | ⟨parent, above, member⟩
  · exact absurd same below
  · obtain ⟨group, isGroup, _, inside⟩ := captured.group_of_member sound
      (captured.mem_of_reaches sound captured.root_mem above) member
    exact ⟨group, isGroup, inside⟩

/-- What is above a member is one, or is above the component. -/
theorem Captured.above (sound : Sound state) (captured : Captured state.model component) {upper name : String}
    (among : name ∈ component.names) (reached : Reaches state.model.groups upper name) :
    upper ∈ component.names ∧ upper ≠ component.name ∨ Reaches state.model.groups upper component.name := by
  rcases sound.reaches_total reached (captured.reached name among) with higher | lower
  · exact .inr higher
  · by_cases root : upper = component.name
    · exact .inr (root ▸ .refl)
    · exact .inl ⟨captured.mem_of_reaches sound captured.root_mem lower, root⟩

theorem Kept.placed_of (kept : Kept state) (traced : Traced state.model) (isInst : inst ∈ state.model.instances)
    (isComponent : component ∈ state.model.components) (its : component.name = inst.component) : Placed state.model component inst := by
  obtain ⟨other, isOther, called, placed⟩ := kept.placed inst isInst
  exact traced.component_unique kept.root isOther isComponent (called.trans its.symm) ▸ placed

theorem Placed.injective (sound : Sound state) (captured : Captured state.model component) (placed : Placed state.model component inst)
    {one two : String} (isOne : one ∈ component.names) (isTwo : two ∈ component.names)
    (same : groupName component inst one = groupName component inst two) : one = two :=
  List.inj_on_of_nodup_map (captured.names_image sound ▸ placed.distinct) isOne isTwo same

/-- What a copy reaches are copies of what is reached. -/
theorem Placed.reached (sound : Sound state) (captured : Captured state.model component) (placed : Placed state.model component inst)
    {one name : String} (among : one ∈ component.names) (reached : Reaches state.model.groups (groupName component inst one) name) :
    ∃ below ∈ component.names, name = groupName component inst below ∧ Reaches state.model.groups one below := by
  induction reached with
  | refl => exact ⟨one, among, rfl, .refl⟩
  | @tail middle name _ member ih =>
    obtain ⟨middle, isMiddle, rfl, reached⟩ := ih
    obtain ⟨group, isGroup, called, inside⟩ := member
    have named : group.name ∈ state.model.namesOf .group := List.mem_map_of_mem isGroup
    rcases List.mem_append.mp isMiddle with its | its
    · -- A copy of a part is no group.
      obtain ⟨part, isPart, rfl⟩ := List.mem_map.mp its
      have copy := placed.parts part isPart
      rw [called, captured.groupName_part sound isPart] at named
      cases sound.apart copy named
    · obtain ⟨source, isSource, rfl⟩ := List.mem_map.mp its
      obtain ⟨copy, isCopy, same, members, _⟩ := placed.groups _ (List.mem_map_of_mem isSource)
      obtain rfl := List.inj_on_of_nodup_map (sound.distinct .group) isCopy isGroup (same.trans called.symm)
      rw [members] at inside
      obtain ⟨below, its, rfl⟩ := List.mem_map.mp inside
      have apart : below ≠ component.name := by
        rintro rfl
        exact captured.free source isSource its
      exact ⟨below, captured.closed source isSource below its, (if_neg apart).symm, reached.tail ⟨source, captured.groups.subset isSource, rfl, its⟩⟩

end Copies

section Motions

variable [DecidableEq G] {state : State T G} {component : Component G} {inst : Instance T}

theorem validateShared_ok {model : Model T G} {motion : Motion G} (ok : validateShared model motion = .ok ()) (own : motion.instanced = false) :
    (∀ inst ∈ model.instances, motion.endpoints.2 ∈ memberNames model.groups inst.name → inst.name = motion.endpoints.2) ∧
      ∀ owner, (model.components.find? fun component => component.groups.any (motion.endpoints.2 ∈ ·.members)) = some owner →
        motion ∈ owner.motions := by
  unfold validateShared at ok
  rw [own, if_neg Bool.false_ne_true] at ok
  obtain ⟨alone, shared⟩ := check_ok_iff.mp ok
  refine ⟨fun inst isInst inside => ?_, fun owner found => ?_⟩
  · by_contra apart
    exact refuseIf_ok.mp alone (List.any_eq_true.mpr ⟨inst, isInst, by simpa using ⟨apart, inside⟩⟩)
  · rw [found] at shared
    exact not_not.mp (refuseIf_ok.mp shared)

/-- **A motion of a member other than the component itself was captured.** -/
theorem mem_motions_of_target (kept : Kept state) (traced : Traced state.model) (checked : checkMotions state.model = .ok ())
    (isComponent : component ∈ state.model.components) {motion : Motion G} (among : motion ∈ state.model.motions)
    (target : motion.endpoints.2 ∈ component.names) (below : motion.endpoints.2 ≠ component.name) : motion ∈ component.motions := by
  have sound := kept.sound
  have captured := kept.captured component isComponent
  have reached := captured.reached _ target
  cases own : motion.instanced with
  | false =>
    obtain ⟨group, isGroup, inside⟩ := captured.parent sound target below
    have holds : component.groups.any (motion.endpoints.2 ∈ ·.members) = true :=
      List.any_eq_true.mpr ⟨group, isGroup, decide_eq_true inside⟩
    cases found : state.model.components.find? fun component => component.groups.any (motion.endpoints.2 ∈ ·.members) with
    | none => exact absurd holds (List.find?_eq_none.mp found component isComponent)
    | some owner =>
      have owns := (validateShared_ok ((checkMotions_ok_iff.mp checked).1 motion among).2.2.1 own).2 owner found
      obtain ⟨its, before, after, split, first⟩ := List.find?_eq_some_iff_append.mp found
      -- The owner is the first such component, so it is this one or was captured before it.
      have later : component ∈ owner :: after := by
        rw [split] at isComponent
        refine (List.mem_append.mp isComponent).resolve_left fun earlier => ?_
        have fails := first component earlier
        rw [holds] at fails
        cases fails
      rcases List.mem_cons.mp later with rfl | later
      · exact owns
      · have nested := traced.nested
        rw [split] at nested
        obtain ⟨out, inherits⟩ := (List.pairwise_cons.mp (List.pairwise_append.mp nested).2.1).1 component later
        have isOwner : owner ∈ state.model.components := List.mem_of_find?_eq_some found
        have capturedOwner := kept.captured owner isOwner
        obtain ⟨held, isHeld, inside⟩ := List.any_eq_true.mp its
        have targetOwner := capturedOwner.closed held isHeld _ (of_decide_eq_true inside)
        rcases sound.reaches_total (capturedOwner.reached _ targetOwner) reached with down | up
        · exact absurd (capturedOwner.mem_of_reaches sound capturedOwner.root_mem down) out
        · exact inherits (captured.mem_of_reaches sound captured.root_mem up) owns
  | true =>
    obtain ⟨inst, isInst, source, isSource, its, original, isOriginal, rfl⟩ := traced.copied motion among own
    have capturedSource := kept.captured source isSource
    have placed := kept.placed_of traced isInst isSource its
    have inner := capturedSource.motion_ends sound checked isOriginal
    have image : (instanced inst original).endpoints.2 = groupName source inst original.endpoints.2 := (if_neg inner.2).symm
    have low := (placed.reaches sound capturedSource capturedSource.root_mem
      (capturedSource.reached _ (capturedSource.motions original isOriginal).2.2)).2
    have root : groupName source inst source.name = inst.name := if_pos rfl
    rw [root, ← image] at low
    rcases sound.reaches_total low reached with down | up
    · -- A component's own name is no copy.
      rw [← root] at down
      obtain ⟨lower, isLower, same, _⟩ := placed.reached sound capturedSource capturedSource.root_mem down
      exact absurd ⟨source, isSource, its, List.mem_map.mpr ⟨lower, isLower, same.symm⟩⟩ (traced.roots inst isInst component isComponent)
    · exact traced.held component isComponent inst isInst (captured.mem_of_reaches sound captured.root_mem up) source isSource its
        original isOriginal inner

/-- **A motion of the copy of a member is the copy of a captured motion.** -/
theorem exists_copied (kept : Kept state) (traced : Traced state.model) (checked : checkMotions state.model = .ok ())
    (isComponent : component ∈ state.model.components) (isInst : inst ∈ state.model.instances) (its : component.name = inst.component)
    {motion : Motion G} (among : motion ∈ state.model.motions) {member : String} (isMember : member ∈ component.names)
    (below : member ≠ component.name) (target : motion.endpoints.2 = groupName component inst member) :
    ∃ source ∈ component.motions, motion = instanced inst source ∧ source.endpoints.2 = member := by
  have sound := kept.sound
  have captured := kept.captured component isComponent
  have placed := kept.placed_of traced isInst isComponent its
  have root : groupName component inst component.name = inst.name := if_pos rfl
  have owns : Owns state.model inst motion.endpoints.2 := ⟨component, isComponent, its, List.mem_map.mpr ⟨member, isMember, target.symm⟩⟩
  cases own : motion.instanced with
  | false =>
    have alone := (validateShared_ok ((checkMotions_ok_iff.mp checked).1 motion among).2.2.1 own).1 inst isInst
    have reached := (placed.reaches sound captured captured.root_mem (captured.reached member isMember)).2
    rw [root, ← target] at reached
    have same := alone (sound.mem_memberNames.mpr reached)
    rw [target, ← root] at same
    exact absurd (placed.injective sound captured captured.root_mem isMember same).symm below
  | true =>
    obtain ⟨other, isOther, holder, isHolder, called, source, isSource, rfl⟩ := traced.copied motion among own
    have capturedHolder := kept.captured holder isHolder
    have inner := capturedHolder.motion_ends sound checked isSource
    have image : (instanced other source).endpoints.2 = groupName holder other source.endpoints.2 := (if_neg inner.2).symm
    have ownsOther : Owns state.model other (instanced other source).endpoints.2 :=
      ⟨holder, isHolder, called, List.mem_map.mpr ⟨_, (capturedHolder.motions source isSource).2.2, image.symm⟩⟩
    have same : other = inst := by
      have : Std.Symm fun one two : Instance T => ∀ name, Owns state.model one name → ¬Owns state.model two name :=
        ⟨fun _ _ apart name second first => apart name first second⟩
      by_contra apart
      exact traced.apart.forall isOther isInst apart _ ownsOther owns
    subst same
    obtain rfl := traced.component_unique kept.root isHolder isComponent (called.trans its.symm)
    refine ⟨source, isSource, rfl, ?_⟩
    exact placed.injective sound captured (capturedHolder.motions source isSource).2.2 isMember (image.symm.trans target)

theorem Sound.carries_iff (sound : Sound state) {motion : Motion G} {name : String} :
    carries state.model.groups motion name = true ↔ Reaches state.model.groups motion.endpoints.2 name :=
  Assemblies.carries_iff.trans sound.mem_memberNames

/-- The motions of a component that move a member, that of the smallest side first. -/
def ownCarriers (model : Model T G) (component : Component G) (name : String) : List (Motion G) :=
  (carriers model name).filter component.motions.contains

theorem mem_ownCarriers {model : Model T G} {name : String} {motion : Motion G} : motion ∈ ownCarriers model component name ↔
    (motion ∈ model.motions ∧ carries model.groups motion name = true) ∧ motion ∈ component.motions := by
  rw [ownCarriers, List.mem_filter, List.contains_iff_mem, carriers, mem_chain]

/-- A captured motion does not move the component itself. -/
theorem Captured.not_carries_root (sound : Sound state) (captured : Captured state.model component)
    (checked : checkMotions state.model = .ok ()) {motion : Motion G} (among : motion ∈ component.motions) :
    ¬Reaches state.model.groups motion.endpoints.2 component.name := fun higher =>
  (captured.motion_ends sound checked among).2
    (sound.reaches_antisymm higher (captured.reached _ (captured.motions motion among).2.2))

/-- **What moves a member are the motions captured with it, then what moves the component as a whole.** -/
theorem carriers_member (kept : Kept state) (traced : Traced state.model) (checked : checkMotions state.model = .ok ())
    (isComponent : component ∈ state.model.components) {name : String} (among : name ∈ component.names) :
    carriers state.model name = ownCarriers state.model component name ++ carriers state.model component.name := by
  have sound := kept.sound
  have captured := kept.captured component isComponent
  have nested := checkMotions_nested checked
  refine nested.chain_append (fun other _ higher => ?_) ((nested.chain_strict name).sublist List.filter_sublist) (fun one its => ?_)
    fun other isOther held => ?_
  · exact sound.carries_iff.mpr ((sound.carries_iff.mp higher).trans (captured.reached name among))
  · obtain ⟨⟨isOne, held⟩, own⟩ := mem_ownCarriers.mp its
    exact ⟨isOne, held, mt sound.carries_iff.mp (captured.not_carries_root sound checked own)⟩
  · rcases captured.above sound among (sound.carries_iff.mp held) with ⟨target, below⟩ | higher
    · exact .inl (mem_ownCarriers.mpr ⟨⟨isOther, held⟩, mem_motions_of_target kept traced checked isComponent isOther target below⟩)
    · exact .inr (sound.carries_iff.mpr higher)

/-- **What moves its copy are the copies of these, then what moves the instance as a whole.** -/
theorem carriers_copy (kept : Kept state) (traced : Traced state.model) (checked : checkMotions state.model = .ok ())
    (isComponent : component ∈ state.model.components) (isInst : inst ∈ state.model.instances) (its : component.name = inst.component)
    {name : String} (among : name ∈ component.names) : carriers state.model (groupName component inst name) =
      (ownCarriers state.model component name).map (instanced inst) ++ carriers state.model inst.name := by
  have sound := kept.sound
  have captured := kept.captured component isComponent
  have placed := kept.placed_of traced isInst isComponent its
  have nested := checkMotions_nested checked
  have root : groupName component inst component.name = inst.name := if_pos rfl
  have target : ∀ motion ∈ component.motions, motion.endpoints.2 ∈ component.names ∧
      (instanced inst motion).endpoints.2 = groupName component inst motion.endpoints.2 := fun motion own =>
    ⟨(captured.motions motion own).2.2, (if_neg (captured.motion_ends sound checked own).2).symm⟩
  -- A copy reaches a copy just where the original reaches the original.
  have reaches : ∀ motion ∈ component.motions, ∀ other ∈ component.names,
      Reaches state.model.groups (instanced inst motion).endpoints.2 (groupName component inst other) ↔
        Reaches state.model.groups motion.endpoints.2 other := by
    intro motion own other isOther
    rw [(target motion own).2]
    refine ⟨fun reached => ?_, fun reached => (placed.reaches sound captured (target motion own).1 reached).2⟩
    obtain ⟨below, isBelow, same, reached⟩ := placed.reached sound captured (target motion own).1 reached
    exact placed.injective sound captured isOther isBelow same ▸ reached
  refine nested.chain_append (fun other _ higher => ?_) ?_ (fun one isOne => ?_) fun other isOther held => ?_
  · have low := (placed.reaches sound captured captured.root_mem (captured.reached name among)).2
    exact sound.carries_iff.mpr ((sound.carries_iff.mp higher).trans (root ▸ low))
  · -- Copies of motions one inside the other are one inside the other.
    rw [List.pairwise_map]
    refine List.Pairwise.imp_of_mem ?_ ((nested.chain_strict name).sublist List.filter_sublist : (ownCarriers state.model component name).Pairwise _)
    intro one two isOne isTwo inside
    obtain ⟨⟨_, heldOne⟩, ownOne⟩ := mem_ownCarriers.mp isOne
    obtain ⟨⟨_, heldTwo⟩, ownTwo⟩ := mem_ownCarriers.mp isTwo
    have apart : ¬Reaches state.model.groups one.endpoints.2 two.endpoints.2 := by
      intro reached
      have same := sound.reaches_antisymm reached (sound.carries_iff.mp (inside.2 _ (sound.carries_iff.mpr .refl)))
      exact Nat.ne_of_lt inside.1 (congrArg (fun target => (memberNames state.model.groups target).size) same)
    have different : instanced inst one ≠ instanced inst two := by
      intro same
      refine apart ((reaches one ownOne _ (target two ownTwo).1).mp ?_)
      rw [same, (target two ownTwo).2]
      exact .refl
    have first := sound.carries_iff.mpr ((reaches one ownOne name among).mpr (sound.carries_iff.mp heldOne))
    have second := sound.carries_iff.mpr ((reaches two ownTwo name among).mpr (sound.carries_iff.mp heldTwo))
    refine (nested.inside_or (placed.motions one ownOne) (placed.motions two ownTwo) different first second).resolve_right
      fun reversed => apart ((reaches one ownOne _ (target two ownTwo).1).mp ?_)
    rw [← (target two ownTwo).2]
    exact sound.carries_iff.mp (reversed.2 _ (sound.carries_iff.mpr .refl))
  · obtain ⟨source, isSource, rfl⟩ := List.mem_map.mp isOne
    obtain ⟨⟨_, held⟩, own⟩ := mem_ownCarriers.mp isSource
    refine ⟨placed.motions source own, sound.carries_iff.mpr ((reaches source own name among).mpr (sound.carries_iff.mp held)), ?_⟩
    rw [sound.carries_iff, ← root, reaches source own _ captured.root_mem]
    exact captured.not_carries_root sound checked own
  · have reached := sound.carries_iff.mp held
    have low := (placed.reaches sound captured captured.root_mem (captured.reached name among)).2
    rcases sound.reaches_total reached low with higher | lower
    · rw [root] at higher
      exact .inr (sound.carries_iff.mpr higher)
    · obtain ⟨member, isMember, same, _⟩ := placed.reached sound captured captured.root_mem lower
      by_cases below : member = component.name
      · rw [below, root] at same
        exact .inr (sound.carries_iff.mpr (same ▸ .refl))
      · obtain ⟨source, own, rfl, _⟩ := exists_copied kept traced checked isComponent isInst its isOther isMember below same
        refine .inl (List.mem_map_of_mem (mem_ownCarriers.mpr ⟨⟨(captured.motions source own).1, ?_⟩, own⟩))
        exact sound.carries_iff.mpr ((reaches source own name among).mp reached)

/-- **A copy of a member is moved by the copies of what moves the member in its component, in the same order**, and then by what
moves the whole. -/
theorem run_articulated {calls : List (Call T G)} (ran : run calls = .ok state) (closed : close state.model = .ok ()) :
    ∀ inst ∈ state.model.instances, ∃ component ∈ state.model.components, component.name = inst.component ∧
      ∀ name ∈ component.names, ∃ alone : List (Motion G), (∀ motion ∈ alone, motion ∈ component.motions) ∧
        carriers state.model name = alone ++ carriers state.model component.name ∧
        carriers state.model (groupName component inst name) = alone.map (instanced inst) ++ carriers state.model inst.name := by
  obtain ⟨kept, traced⟩ := run_traced ran
  have checked := (check_ok_iff.mp (check_ok_iff.mp closed).2).2
  intro inst isInst
  obtain ⟨component, isComponent, its, _⟩ := kept.placed inst isInst
  refine ⟨component, isComponent, its, fun name among => ⟨ownCarriers state.model component name, fun motion own => ?_, ?_, ?_⟩⟩
  · exact (mem_ownCarriers.mp own).2
  · exact carriers_member kept traced checked isComponent among
  · exact carriers_copy kept traced checked isComponent isInst its among

end Motions

end Traced

section Desk

instance : Placement Unit ℤ := ⟨fun _ shape => shape, fun _ => true, fun _ _ shape => shape⟩

/-- A desk with a drawer that is pulled, and a copy of it. -/
def desk : List (Call Unit ℤ) := [.part ⟨"box", true, none, [], 0⟩ false, .part ⟨"drawer", true, none, [], 1⟩ false,
  .motion ⟨"pull", ("box", "drawer"), false, 30⟩, .component "desk" ["box", "drawer"] false, .inst ⟨"east", "desk", ()⟩ none]

def deskComponent : Component ℤ where
  name := "desk"
  parts := [⟨"box", true, none, [], 0⟩, ⟨"drawer", true, none, [], 1⟩]
  groups := [⟨"desk", false, ["box", "drawer"], false⟩]
  joints := []
  motions := [⟨"pull", ("box", "drawer"), false, 30⟩]

def deskModel : Model Unit ℤ where
  parts := deskComponent.parts ++ [⟨"east/box", true, none, [], 0⟩, ⟨"east/drawer", true, none, [], 1⟩]
  tools := []
  groups := deskComponent.groups ++ [⟨"east", false, ["east/box", "east/drawer"], false⟩]
  components := [deskComponent]
  instances := [⟨"east", "desk", ()⟩]
  joints := []
  motions := deskComponent.motions ++ [⟨"east/pull", ("east/box", "east/drawer"), true, 30⟩]

def deskNames (name : String) : BTreeSet String :=
  if name = "desk" then (((∅ : BTreeSet String).insert "desk").insert "drawer").insert "box"
  else if name = "east" then (((∅ : BTreeSet String).insert "east").insert "east/drawer").insert "east/box"
  else (∅ : BTreeSet String).insert name

theorem desk_names (name : String) : memberNames deskModel.groups name = deskNames name := by
  unfold deskNames
  split
  case isTrue is =>
    subst is
    exact memberNames_pair ⟨"desk", false, ["box", "drawer"], false⟩ rfl rfl rfl rfl (by decide)
  case isFalse desk =>
    split
    case isTrue is =>
      subst is
      exact memberNames_pair ⟨"east", false, ["east/box", "east/drawer"], false⟩ rfl rfl rfl rfl (by decide)
    case isFalse east =>
      refine memberNames_single ?_
      simpa [deskModel, deskComponent] using ⟨fun is : "desk" = name => desk is.symm, fun is : "east" = name => east is.symm⟩

theorem capture_desk {model : Model Unit ℤ} (parts : model.parts = deskComponent.parts) (groups : model.groups = deskComponent.groups)
    (joints : model.joints = []) (motions : model.motions = deskComponent.motions) : capture model "desk" = .ok deskComponent := by
  have names : memberNames deskComponent.groups "desk" = (((∅ : BTreeSet String).insert "desk").insert "drawer").insert "box" :=
    memberNames_pair ⟨"desk", false, ["box", "drawer"], false⟩ rfl rfl rfl rfl (by decide)
  unfold capture
  rw [groups, names, parts, joints, motions]
  rfl

theorem run_desk : ∃ state, run desk = .ok state ∧ state.model = deskModel := by
  have begun : ∃ before : State Unit ℤ, run (desk.take 3) = .ok before ∧
      ∃ grown, addGroup before ⟨"desk", false, ["box", "drawer"], false⟩ = .ok grown ∧ capture grown.model "desk" = .ok deskComponent ∧
        ∃ after, addInstance { grown with model := { grown.model with components := grown.model.components ++ [deskComponent] } }
          ⟨"east", "desk", ()⟩ none = .ok after ∧ after.model = deskModel :=
    ⟨_, rfl, _, rfl, capture_desk rfl rfl rfl rfl, _, rfl, rfl⟩
  obtain ⟨before, first, grown, added, captured, after, last, model⟩ := begun
  exact ⟨after, run_copied first added captured last, model⟩

theorem close_desk : close deskModel = .ok () := by
  simp only [close, checkMotions, checkMotion, validateShared, desk_names]
  rfl

theorem run_articulated_desk : ∃ state, run desk = .ok state ∧ state.model.motions.length = 2 ∧
    ∀ inst ∈ state.model.instances, ∃ component ∈ state.model.components, component.name = inst.component ∧
      ∀ name ∈ component.names, ∃ alone : List (Motion ℤ), (∀ motion ∈ alone, motion ∈ component.motions) ∧
        carriers state.model name = alone ++ carriers state.model component.name ∧
        carriers state.model (groupName component inst name) = alone.map (instanced inst) ++ carriers state.model inst.name := by
  obtain ⟨state, ran, model⟩ := run_desk
  have closed : close state.model = .ok () := model ▸ close_desk
  exact ⟨state, ran, model ▸ rfl, run_articulated ran closed⟩

end Desk

end Ketchup.Assemblies
