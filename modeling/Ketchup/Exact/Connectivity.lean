/-
**Groups whose parts touch.**

For each group the check collects the parts in it at any depth, walks over them in the order of their lower
bounds and joins those that touch: in one forest those known to, in another those not known to be apart.
A group is reported where the one or the other leaves it in several sets.

* `leaves_reached` — the walk finds the parts a group reaches; `leaves_ends` — it ends where no group is in itself.
* `check_verdict` — what is reported of a group is what contact connects.
* `issues_verdicts` — and so for all groups, contacts found for one group being reused for the next.
-/

import Ketchup.Exact.Recheck
import Ketchup.Library.Partitions
import Ketchup.Library.UnionFind
import Mathlib.Data.List.FinRange

set_option linter.unusedSectionVars false

namespace Ketchup.Exact

structure Group where
  name : String
  logical : Bool
  members : List String

structure Program (B : Type) where
  parts : List (Part B)
  groups : List Group

/-- The kinds of issues of groups. -/
inductive Kind where
  | disconnectedGroup
  | groupContactUnverified
  deriving DecidableEq

structure Issue where
  kind : Kind
  group : String
  parts : List String
  components : List (List String)

attribute [local instance] lexOrd

section Groups

variable {R B : Type} [Field R] [LinearOrder R] [Bodies B R]

/-- The last part of a name, as a map of the parts has it. -/
def Program.part? (program : Program B) (name : String) : Option (Part B) := program.parts.reverse.find? (·.name = name)

def Program.group? (program : Program B) (name : String) : Option Group := program.groups.reverse.find? (·.name = name)

/-- The parts in the names pending, the last of these first. -/
def Program.leaves (program : Program B) : ℕ → List String → BTreeSet String → Option (BTreeSet String)
  | 0, _, _ => none
  | _ + 1, [], found => some found
  | fuel + 1, name :: pending, found =>
    match program.part? name with
    | some _ => program.leaves fuel pending (found.insert name)
    | none =>
      match program.group? name with
      | some child => program.leaves fuel (child.members.reverse ++ pending) found
      | none => program.leaves fuel pending found

/-- Contacts found so far. -/
abbrev Pairs := BTreeMap (String × String) (Option Bool)

/-- What the walk over the parts of a group carries along. -/
structure State (count : ℕ) where
  pairs : Pairs
  known : Forest (Fin count)
  possible : Forest (Fin count)

variable (shapes : ExactShapes R)

/-- The contact of two parts, found before or now. -/
def contact (pairs : Pairs) (a b : Part B) : Pairs × Option Bool :=
  match pairs[(a.name, b.name)]? with
  | some found => (pairs, found)
  | none => (pairs.insert (a.name, b.name) (touching shapes a b), touching shapes a b)

def State.pass {count : ℕ} (members : Fin count → Part B) (state : State count) (left right : Fin count) : State count :=
  let (pairs, touch) := contact shapes state.pairs (members left) (members right)
  { pairs := pairs
    known := if touch = some true then state.known.join left right else state.known
    possible := if touch ≠ some false then state.possible.join left right else state.possible }

/-- The names in each set, sets in the order of their roots. -/
def islands {count : ℕ} (members : Fin count → Part B) (forest : Forest (Fin count)) : List (List String) :=
  ((keyed (fun index => (forest.root index).val) (List.finRange count)).toList.map Prod.snd).map
    (List.map fun index => (members index).name)

/-- The issue of a group, and the contacts found. -/
def Program.check (program : Program B) (fuel : ℕ) (pairs : Pairs) (group : Group) : Option (Pairs × Option Issue) := do
  let leaves ← program.leaves fuel group.members.reverse ∅
  let members := leaves.toList.filterMap program.part?
  if members.length < 2 then some (pairs, none)
  else
    let order := (List.finRange members.length).insertionSort fun a b =>
      (Bodies.low (members.get a).body : R) ≤ Bodies.low (members.get b).body
    let state := sweep (fun left right => beyond (members.get left) (members.get right))
      (State.pass shapes members.get) order ⟨pairs, .single, .single⟩
    let certain := islands members.get state.known
    if certain.length = 1 then some (state.pairs, none)
    else
      let possible := islands members.get state.possible
      let detached : Bool := 1 < possible.length
      some (state.pairs, some {
        kind := if detached then .disconnectedGroup else .groupContactUnverified
        group := group.name
        parts := leaves.toList
        components := if detached then possible else certain })

/-- The groups one after another, but for the logical ones. -/
def Program.checkAll (program : Program B) (fuel : ℕ) (pairs : Pairs) : List Group → Option (List Issue)
  | [] => some []
  | group :: groups =>
    if group.logical then program.checkAll fuel pairs groups
    else do
      let (pairs, issue) ← program.check shapes fuel pairs group
      let issues ← program.checkAll fuel pairs groups
      some (issue.toList ++ issues)

def Program.issues (program : Program B) (fuel : ℕ) : Option (List Issue) := program.checkAll shapes fuel ∅ program.groups

end Groups

/-! ### The parts of a group -/

section Leaves

variable {B : Type} {program : Program B}

variable (program) in
/-- The parts in what a name stands for, at any depth. -/
inductive Reaches : String → String → Prop where
  | part {name part} (found : program.part? name = some part) : Reaches name name
  | group {name child member leaf} (none : program.part? name = none) (found : program.group? name = some child)
    (among : member ∈ child.members) (reaches : Reaches member leaf) : Reaches name leaf

theorem Reaches.exists_part {name leaf : String} (reaches : Reaches program name leaf) :
    ∃ part, program.part? leaf = some part := by
  induction reaches with
  | part found => exact ⟨_, found⟩
  | group _ _ _ _ ih => exact ih

theorem reaches_part {name leaf : String} {part : Part B} (found : program.part? name = some part) :
    Reaches program name leaf ↔ leaf = name := by
  constructor
  · intro reaches
    cases reaches with
    | part _ => rfl
    | group none _ _ _ => rw [none] at found; cases found
  · rintro rfl
    exact .part found

theorem reaches_group {name leaf : String} (none : program.part? name = none) :
    Reaches program name leaf ↔ ∃ child ∈ program.group? name, ∃ member ∈ child.members, Reaches program member leaf := by
  constructor
  · intro reaches
    cases reaches with
    | part found => rw [found] at none; cases none
    | group _ found among reaches => exact ⟨_, found, _, among, reaches⟩
  · rintro ⟨child, found, member, among, reaches⟩
    exact .group none found among reaches

/-- **The walk finds the parts reached.** -/
theorem leaves_reached {fuel : ℕ} {pending : List String} {found result : BTreeSet String}
    (walked : program.leaves fuel pending found = some result) :
    ∀ leaf, leaf ∈ result ↔ leaf ∈ found ∨ ∃ name ∈ pending, Reaches program name leaf := by
  induction fuel generalizing pending found with
  | zero => cases walked
  | succ fuel ih =>
    cases pending with
    | nil =>
      cases walked
      simp
    | cons name pending =>
      intro leaf
      rw [Program.leaves] at walked
      rw [List.exists_mem_cons_iff]
      cases part : program.part? name with
      | some other =>
        rw [part] at walked
        rw [ih walked, BTreeSet.mem_insert, reaches_part part, eq_comm (a := leaf)]
        tauto
      | none =>
        rw [part] at walked
        rw [reaches_group part]
        cases group : program.group? name with
        | some child =>
          simp only [group] at walked
          rw [ih walked]
          simp only [List.mem_append, List.mem_reverse, or_and_right, exists_or, Option.mem_some_iff, exists_eq_left']
        | none =>
          simp only [group] at walked
          rw [ih walked]
          simp

variable (program) in
/-- Something is a member of a group of that name. -/
def Contains (member name : String) : Prop := ∃ child, program.group? name = some child ∧ member ∈ child.members

/-- More fuel changes nothing. -/
theorem leaves_mono {fuel : ℕ} {pending : List String} {found result : BTreeSet String}
    (walked : program.leaves fuel pending found = some result) (more : ℕ) :
    program.leaves (fuel + more) pending found = some result := by
  induction fuel generalizing pending found with
  | zero => cases walked
  | succ fuel ih =>
    rw [Nat.add_right_comm]
    cases pending with
    | nil => exact walked
    | cons name pending =>
      rw [Program.leaves] at walked ⊢
      cases part : program.part? name with
      | some other =>
        rw [part] at walked
        exact ih walked
      | none =>
        rw [part] at walked
        cases group : program.group? name with
        | some child =>
          simp only [group] at walked ⊢
          exact ih walked
        | none =>
          simp only [group] at walked ⊢
          exact ih walked

/-- Where no group is in itself, the walk ends. -/
theorem leaves_ends (acyclic : WellFounded (Contains program)) (pending : List String) (found : BTreeSet String) :
    ∃ fuel result, program.leaves fuel pending found = some result := by
  have each : ∀ name pending, (∀ found, ∃ fuel result, program.leaves fuel pending found = some result) →
      ∀ found, ∃ fuel result, program.leaves fuel (name :: pending) found = some result := by
    intro name
    induction name using acyclic.induction with
    | _ name ih =>
      intro pending ends found
      cases part : program.part? name with
      | some other =>
        obtain ⟨fuel, result, walked⟩ := ends (found.insert name)
        exact ⟨fuel + 1, result, by rw [Program.leaves, part]; exact walked⟩
      | none =>
        cases group : program.group? name with
        | none =>
          obtain ⟨fuel, result, walked⟩ := ends found
          exact ⟨fuel + 1, result, by rw [Program.leaves, part]; simp only [group]; exact walked⟩
        | some child =>
          have all : ∀ members : List String, (∀ member ∈ members, member ∈ child.members) →
              ∀ found, ∃ fuel result, program.leaves fuel (members ++ pending) found = some result := by
            intro members
            induction members with
            | nil => exact fun _ => ends
            | cons member members rest =>
              intro among
              exact ih member ⟨child, group, among member List.mem_cons_self⟩ _
                (rest fun other held => among other (List.mem_cons_of_mem member held))
          obtain ⟨fuel, result, walked⟩ := all child.members.reverse (fun _ => List.mem_reverse.mp) found
          exact ⟨fuel + 1, result, by rw [Program.leaves, part]; simp only [group]; exact walked⟩
  induction pending generalizing found with
  | nil => exact ⟨1, found, rfl⟩
  | cons name pending ih => exact each name pending ih found

end Leaves

/-! ### The walk over a group -/

section Walk

variable {R B : Type} [Field R] [LinearOrder R] [Bodies B R] {program : Program B} {shapes : ExactShapes R}

variable (program shapes) in
/-- Contacts found before are those found now. -/
def Found (pairs : Pairs) : Prop :=
  ∀ a b found, pairs[(a, b)]? = some found →
    ∃ one two, program.part? a = some one ∧ program.part? b = some two ∧ found = touching shapes one two

theorem contact_found {pairs : Pairs} (found : Found program shapes pairs) {a b : Part B}
    (first : program.part? a.name = some a) (second : program.part? b.name = some b) :
    Found program shapes (contact shapes pairs a b).1 ∧ (contact shapes pairs a b).2 = touching shapes a b := by
  unfold contact
  cases held : pairs[(a.name, b.name)]? with
  | some touch =>
    obtain ⟨one, two, isOne, isTwo, is⟩ := found _ _ _ held
    rw [first] at isOne
    rw [second] at isTwo
    cases isOne
    cases isTwo
    exact ⟨found, is⟩
  | none =>
    refine ⟨fun c d touch there => ?_, rfl⟩
    rw [BTreeMap.getElem?_insert] at there
    split at there
    case isTrue same =>
      cases same
      cases there
      exact ⟨a, b, first, second, rfl⟩
    case isFalse => exact found c d touch there

variable {count : ℕ} {members : Fin count → Part B}

variable (program shapes members) in
/-- What the state is once some pairs were passed. -/
structure Passed (done : Fin count → Fin count → Prop) (state : State count) : Prop where
  pairs : Found program shapes state.pairs
  known : state.known.Joins fun i j => done i j ∧ touching shapes (members i) (members j) = some true
  possible : state.possible.Joins fun i j => done i j ∧ touching shapes (members i) (members j) ≠ some false

/-- **Passing a pair joins it where its contact asks for it.** -/
theorem Passed.pass {done : Fin count → Fin count → Prop} {state : State count} (passed : Passed program shapes members done state)
    (named : ∀ i, program.part? (members i).name = some (members i)) (left right : Fin count) :
    Passed program shapes members (fun i j => done i j ∨ i = left ∧ j = right) (state.pass shapes members left right) := by
  obtain ⟨found, touch⟩ := contact_found passed.pairs (named left) (named right)
  -- The relation grows by the pair, or it is as it was.
  have joined : ∀ (holds : Option Bool → Prop) [DecidablePred holds] {forest : Forest (Fin count)},
      (forest.Joins fun i j => done i j ∧ holds (touching shapes (members i) (members j))) →
      (if holds (touching shapes (members left) (members right)) then forest.join left right else forest).Joins
        fun i j => (done i j ∨ i = left ∧ j = right) ∧ holds (touching shapes (members i) (members j)) := by
    intro holds _ forest joins
    split
    case isTrue held =>
      have grown := joins.join left right
      have same : (fun i j => done i j ∧ holds (touching shapes (members i) (members j)) ∨ i = left ∧ j = right) =
          fun i j => (done i j ∨ i = left ∧ j = right) ∧ holds (touching shapes (members i) (members j)) := by
        funext i j
        refine propext ⟨?_, ?_⟩
        · rintro (⟨before, holds⟩ | ⟨rfl, rfl⟩)
          · exact ⟨.inl before, holds⟩
          · exact ⟨.inr ⟨rfl, rfl⟩, held⟩
        · rintro ⟨before | new, holds⟩
          · exact .inl ⟨before, holds⟩
          · exact .inr new
      exact same ▸ grown
    case isFalse fails =>
      have same : (fun i j => done i j ∧ holds (touching shapes (members i) (members j))) =
          fun i j => (done i j ∨ i = left ∧ j = right) ∧ holds (touching shapes (members i) (members j)) := by
        funext i j
        refine propext ⟨fun both => ⟨.inl both.1, both.2⟩, ?_⟩
        rintro ⟨before | ⟨rfl, rfl⟩, holds⟩
        · exact ⟨before, holds⟩
        · exact absurd holds fails
      exact same ▸ joins
  refine ⟨found, ?_, ?_⟩
  · have known := joined (· = some true) passed.known
    rw [← touch] at known
    exact known
  · have possible := joined (· ≠ some false) passed.possible
    rw [← touch] at possible
    exact possible

theorem Passed.passAll (named : ∀ i, program.part? (members i).name = some (members i)) (list : List (Fin count × Fin count))
    {done : Fin count → Fin count → Prop} {state : State count} (passed : Passed program shapes members done state) :
    Passed program shapes members (fun i j => done i j ∨ (i, j) ∈ list)
      (list.foldl (fun state pair => state.pass shapes members pair.1 pair.2) state) := by
  induction list generalizing done state with
  | nil => simpa using passed
  | cons pair rest ih =>
    have all := ih (passed.pass named pair.1 pair.2)
    have same : (fun i j => (done i j ∨ i = pair.1 ∧ j = pair.2) ∨ (i, j) ∈ rest) = fun i j => done i j ∨ (i, j) ∈ pair :: rest := by
      funext i j
      rw [List.mem_cons, or_assoc, Prod.ext_iff]
    exact same ▸ all

/-- Before the other in the order of lower bounds, and of names where these are the same. -/
def Earlier (one two : Part B) : Prop :=
  (Bodies.low one.body : R) < Bodies.low two.body ∨ (Bodies.low one.body : R) = Bodies.low two.body ∧ compare one.name two.name = .lt

variable (program shapes members) in
/-- **The walk passes the pairs that are level.** -/
theorem sweep_passed (named : ∀ i, program.part? (members i).name = some (members i))
    (ascending : ∀ i j, i < j → compare (members i).name (members j).name = .lt) {pairs : Pairs} (found : Found program shapes pairs) :
    let order := (List.finRange count).insertionSort fun a b => (Bodies.low (members a).body : R) ≤ Bodies.low (members b).body
    Passed program shapes members (fun i j => Earlier (members i) (members j) ∧ beyond (members i) (members j) = false)
      (sweep (fun left right => beyond (members left) (members right)) (State.pass shapes members) order ⟨pairs, .single, .single⟩) := by
  intro order
  have sorted : order.Pairwise fun left right => (Bodies.low (members left).body : R) ≤ Bodies.low (members right).body :=
    List.pairwise_insertionSort _ _
  rw [sweep_near]
  swap
  · exact fun left _ => sorted.imp fun {right further} up => by
      simp only [beyond, decide_eq_true_eq]
      exact fun far => far.trans_le up
  have stable : order.Pairwise fun i j => Earlier (members i) (members j) :=
    pairwise_insertionSort_stable (fun i => (Bodies.low (members i).body : R))
      ((List.pairwise_lt_finRange count).imp fun {i j} => ascending i j)
  have listed : ∀ i, i ∈ order := fun i => (List.mem_insertionSort _).mpr (List.mem_finRange i)
  have start : Passed program shapes members (fun _ _ => False) ⟨pairs, .single, .single⟩ := by
    refine ⟨found, ?_, ?_⟩ <;> simpa using Forest.joins_single
  have all := Passed.passAll named (near (fun left right => beyond (members left) (members right)) order) start
  have same : (fun i j => False ∨ (i, j) ∈ near (fun left right => beyond (members left) (members right)) order) =
      fun i j => Earlier (members i) (members j) ∧ beyond (members i) (members j) = false := by
    funext i j
    rw [false_or, mem_near]
    refine propext (and_congr_left fun _ => (pair_sublist ?_ stable).trans ?_)
    · rintro one two (less | ⟨same, less⟩) (less' | ⟨same', less'⟩)
      · exact less.not_gt less'
      · exact less.ne same'.symm
      · exact less'.ne same.symm
      · exact absurd (Std.OrientedCmp.gt_of_lt less) (by simp [less'])
    · exact ⟨fun all => all.2.2, fun earlier => ⟨listed i, listed j, earlier⟩⟩
  exact same ▸ all

/-! ### What is reported -/

variable (program) in
/-- A part in a group, at any depth. -/
def Leaf (group : Group) (name : String) : Prop := ∃ member ∈ group.members, Reaches program member name

variable (program shapes) in
/-- Two parts of a group of which the check asks the contact, and it is as stated. -/
def Meets (kind : Option Bool → Prop) (group : Group) (a b : String) : Prop :=
  Leaf program group a ∧ Leaf program group b ∧ ∃ one two, program.part? a = some one ∧ program.part? b = some two ∧
    (Earlier one two ∧ beyond one two = false) ∧ kind (touching shapes one two)

variable (program shapes) in
/-- Parts of a group that contact connects, known or not known to be none. -/
abbrev Linked (kind : Option Bool → Prop) (group : Group) : String → String → Prop :=
  Relation.EqvGen (Meets program shapes kind group)

variable (program shapes) in
/-- Contact of that kind connects all parts of a group. -/
def Connects (kind : Option Bool → Prop) (group : Group) : Prop :=
  ∀ a b, Leaf program group a → Leaf program group b → Linked program shapes kind group a b

variable (program) in
/-- The parts of a group, by name. -/
def Listed (group : Group) (names : List String) : Prop :=
  names.Pairwise (fun a b => compare a b = .lt) ∧ ∀ name, name ∈ names ↔ Leaf program group name

variable (program shapes) in
/-- What there is to report of a group. -/
inductive Verdict (group : Group) : Option Issue → Prop where
  | connected (known : Connects program shapes (· = some true) group) : Verdict group none
  | disconnected {parts components} (apart : ¬Connects program shapes (· ≠ some false) group)
    (listed : Listed program group parts) (parted : PartsInto parts (Linked program shapes (· ≠ some false) group) components) :
    Verdict group (some ⟨.disconnectedGroup, group.name, parts, components⟩)
  | unverified {parts components} (possible : Connects program shapes (· ≠ some false) group)
    (unknown : ¬Connects program shapes (· = some true) group)
    (listed : Listed program group parts) (parted : PartsInto parts (Linked program shapes (· = some true) group) components) :
    Verdict group (some ⟨.groupContactUnverified, group.name, parts, components⟩)

variable (program members) in
/-- The members walked over are the parts of the group, by name. -/
structure Walked (group : Group) (names : List String) : Prop where
  called : (List.finRange count).map (fun i => (members i).name) = names
  listed : Listed program group names
  named : ∀ i, program.part? (members i).name = some (members i)

namespace Walked

variable {group : Group} {names : List String} (walked : Walked program members group names)

include walked

theorem leaf_iff {name : String} : Leaf program group name ↔ ∃ i, (members i).name = name := by
  rw [← walked.listed.2, ← walked.called, List.mem_map]
  simp only [List.mem_finRange, true_and]

theorem ascending (i j : Fin count) (less : i < j) : compare (members i).name (members j).name = .lt := by
  have sorted := walked.listed.1
  rw [← walked.called, List.pairwise_map] at sorted
  have inside := (pair_sublist (fun one two less => less.not_gt) (List.pairwise_lt_finRange count)).mpr
    ⟨List.mem_finRange i, List.mem_finRange j, less⟩
  exact (List.pairwise_cons.mp (sorted.sublist inside)).1 j List.mem_cons_self

theorem injective : Function.Injective fun i => (members i).name := by
  intro i j same
  have same : (members i).name = (members j).name := same
  rcases lt_trichotomy i j with less | rfl | less
  · have order := walked.ascending i j less
    rw [same] at order
    cases order.symm.trans Std.ReflCmp.compare_self
  · rfl
  · have order := walked.ascending j i less
    rw [same] at order
    cases order.symm.trans Std.ReflCmp.compare_self

/-- **The sets of a forest, by name.** -/
theorem islands_parts {kind : Option Bool → Prop} {forest : Forest (Fin count)}
    (joins : forest.Joins fun i j => (Earlier (members i) (members j) ∧ beyond (members i) (members j) = false) ∧
      kind (touching shapes (members i) (members j))) :
    PartsInto names (Linked program shapes kind group) (islands members forest) := by
  rw [← walked.called]
  refine (partsInto_keyed (fun index => (forest.root index).val) (List.finRange count)).map _ fun i _ j _ => ?_
  rw [Fin.val_inj, joins i j]
  refine (eqvGen_image walked.injective fun a b => ?_).symm
  constructor
  · rintro ⟨leafA, leafB, one, two, first, second, both⟩
    obtain ⟨i, rfl⟩ := walked.leaf_iff.mp leafA
    obtain ⟨j, rfl⟩ := walked.leaf_iff.mp leafB
    rw [walked.named] at first second
    cases first
    cases second
    exact ⟨i, j, rfl, rfl, both⟩
  · rintro ⟨i, j, rfl, rfl, both⟩
    exact ⟨walked.leaf_iff.mpr ⟨i, rfl⟩, walked.leaf_iff.mpr ⟨j, rfl⟩, members i, members j, walked.named i, walked.named j, both⟩

/-- Contact connects a group where its sets are one. -/
theorem connects_iff {kind : Option Bool → Prop} {sets : List (List String)}
    (parts : PartsInto names (Linked program shapes kind group) sets) (some : names ≠ []) :
    Connects program shapes kind group ↔ sets.length = 1 := by
  rw [parts.length_one, and_iff_right some]
  simp only [Connects, walked.listed.2]
  exact ⟨fun all a leafA b leafB => all a b leafA leafB, fun all a b leafA leafB => all a leafA b leafB⟩

end Walked

theorem part?_named {name : String} {part : Part B} (found : program.part? name = some part) : part.name = name := by
  unfold Program.part? at found
  simpa using List.find?_some found

/-- The parts of a group found by name. -/
theorem walked_members {group : Group} {names : List String} (listed : Listed program group names) :
    Walked program (names.filterMap program.part?).get group names := by
  have there : ∀ name ∈ names, ∃ part, program.part? name = some part := by
    intro name among
    obtain ⟨_, _, reaches⟩ := (listed.2 name).mp among
    exact reaches.exists_part
  refine ⟨?_, listed, fun i => ?_⟩
  · have called : (names.filterMap program.part?).map Part.name = names := by
      clear listed
      induction names with
      | nil => rfl
      | cons name rest ih =>
        obtain ⟨part, found⟩ := there name List.mem_cons_self
        rw [List.filterMap_cons_some found, List.map_cons, part?_named found,
          ih fun other among => there other (List.mem_cons_of_mem name among)]
    calc (List.finRange _).map (fun i => ((names.filterMap program.part?).get i).name)
        = ((List.finRange _).map (names.filterMap program.part?).get).map Part.name := List.map_map.symm
      _ = names := by rw [← List.ofFn_eq_map, List.ofFn_get, called]
  · obtain ⟨name, _, found⟩ := List.mem_filterMap.mp (List.get_mem _ i)
    rw [part?_named found, found]

/-- **What is reported of a group is what contact connects.** -/
theorem check_verdict {fuel : ℕ} {pairs after : Pairs} {group : Group} {issue : Option Issue} (found : Found program shapes pairs)
    (checked : program.check shapes fuel pairs group = some (after, issue)) :
    Found program shapes after ∧ Verdict program shapes group issue := by
  unfold Program.check at checked
  obtain ⟨leaves, gathered, checked⟩ := Option.bind_eq_some_iff.mp checked
  have listed : Listed program group leaves.toList := by
    refine ⟨leaves.ordered_toList, fun name => ?_⟩
    rw [Std.ExtTreeSet.mem_toList, leaves_reached gathered]
    simp [Leaf]
  have walked := walked_members listed
  extract_lets members order state certain possible detached at checked
  split at checked
  case isTrue few =>
    cases checked
    refine ⟨found, .connected fun a b leafA leafB => ?_⟩
    -- There is one part at most.
    obtain ⟨i, rfl⟩ := walked.leaf_iff.mp leafA
    obtain ⟨j, rfl⟩ := walked.leaf_iff.mp leafB
    have bound : members.length < 2 := few
    have same : i = j := Fin.ext (by
      have first : i.val < members.length := i.isLt
      have second : j.val < members.length := j.isLt
      omega)
    exact same ▸ .refl _
  case isFalse many =>
    have passed := sweep_passed program shapes members.get walked.named walked.ascending found
    have nonempty : leaves.toList ≠ [] := by
      intro none
      simp only [members, none, List.filterMap_nil, List.length_nil] at many
      omega
    have known : PartsInto leaves.toList (Linked program shapes (· = some true) group) certain := walked.islands_parts passed.known
    split at checked
    case isTrue one =>
      cases checked
      exact ⟨passed.pairs, .connected ((walked.connects_iff known nonempty).mpr one)⟩
    case isFalse several =>
      have loose : PartsInto leaves.toList (Linked program shapes (· ≠ some false) group) possible :=
        walked.islands_parts passed.possible
      cases checked
      refine ⟨passed.pairs, ?_⟩
      have unknown := mt (walked.connects_iff known nonempty).mp several
      by_cases apart : possible.length = 1
      · -- They may all be in contact.
        have attached : detached = false := decide_eq_false (by omega)
        rw [attached]
        exact .unverified ((walked.connects_iff loose nonempty).mpr apart) unknown listed known
      · have detached' : detached = true := by
          refine decide_eq_true (Nat.one_lt_iff_ne_zero_and_ne_one.mpr ⟨fun none => ?_, apart⟩)
          have perm := loose.perm
          rw [List.length_eq_zero_iff.mp none] at perm
          exact nonempty perm.nil_eq.symm
        rw [detached']
        exact .disconnected (mt (walked.connects_iff loose nonempty).mp apart) listed loose

theorem check_mono {fuel : ℕ} {pairs : Pairs} {group : Group} {result : Pairs × Option Issue}
    (checked : program.check shapes fuel pairs group = some result) (more : ℕ) :
    program.check shapes (fuel + more) pairs group = some result := by
  unfold Program.check at checked ⊢
  obtain ⟨leaves, gathered, checked⟩ := Option.bind_eq_some_iff.mp checked
  exact Option.bind_eq_some_iff.mpr ⟨leaves, leaves_mono gathered more, checked⟩

theorem checkAll_mono {fuel : ℕ} {pairs : Pairs} {groups : List Group} {issues : List Issue}
    (checked : program.checkAll shapes fuel pairs groups = some issues) (more : ℕ) :
    program.checkAll shapes (fuel + more) pairs groups = some issues := by
  induction groups generalizing pairs issues with
  | nil => exact checked
  | cons group groups ih =>
    rw [Program.checkAll] at checked ⊢
    by_cases logical : group.logical = true
    · rw [if_pos logical] at checked ⊢
      exact ih checked
    · rw [if_neg logical] at checked ⊢
      obtain ⟨⟨after, issue⟩, first, checked⟩ := Option.bind_eq_some_iff.mp checked
      obtain ⟨rest, later, is⟩ := Option.bind_eq_some_iff.mp checked
      refine Option.bind_eq_some_iff.mpr ⟨(after, issue), check_mono first more, ?_⟩
      exact Option.bind_eq_some_iff.mpr ⟨rest, ih later, is⟩

variable (shapes) in
theorem check_ends (acyclic : WellFounded (Contains program)) (pairs : Pairs) (group : Group) :
    ∃ fuel result, program.check shapes fuel pairs group = some result := by
  obtain ⟨fuel, leaves, gathered⟩ := leaves_ends acyclic group.members.reverse ∅
  refine ⟨fuel, ?_⟩
  unfold Program.check
  rw [gathered, Option.bind_eq_bind, Option.bind_some]
  extract_lets members order state certain possible detached
  split
  case isTrue => exact ⟨_, rfl⟩
  case isFalse =>
    split
    case isTrue => exact ⟨_, rfl⟩
    case isFalse => exact ⟨_, rfl⟩

theorem checkAll_verdicts (acyclic : WellFounded (Contains program)) {pairs : Pairs} (found : Found program shapes pairs)
    (groups : List Group) : ∃ fuel issues, program.checkAll shapes fuel pairs groups = some issues ∧
      ∃ results : List (Option Issue), issues = results.reduceOption ∧
        List.Forall₂ (Verdict program shapes) (groups.filter fun group => !group.logical) results := by
  induction groups generalizing pairs with
  | nil => exact ⟨0, [], rfl, [], rfl, .nil⟩
  | cons group groups ih =>
    by_cases logical : group.logical = true
    · obtain ⟨fuel, issues, checked, results, is, verdicts⟩ := ih found
      refine ⟨fuel, issues, ?_, results, is, ?_⟩
      · rw [Program.checkAll, if_pos logical, checked]
      · rw [List.filter_cons_of_neg (by simp [logical])]
        exact verdicts
    · obtain ⟨fuel, ⟨after, issue⟩, first⟩ := check_ends shapes acyclic pairs group
      obtain ⟨found', verdict⟩ := check_verdict found first
      obtain ⟨fuel', issues, checked, results, rfl, verdicts⟩ := ih found'
      refine ⟨fuel + fuel', issue.toList ++ results.reduceOption, ?_, issue :: results, ?_, ?_⟩
      · rw [Program.checkAll, if_neg logical]
        refine Option.bind_eq_some_iff.mpr ⟨(after, issue), check_mono first fuel', ?_⟩
        exact Option.bind_eq_some_iff.mpr ⟨_, Nat.add_comm fuel' fuel ▸ checkAll_mono checked fuel, rfl⟩
      · cases issue <;> rfl
      · rw [List.filter_cons_of_pos (by simpa using logical)]
        exact .cons verdict verdicts

/-- **Where no group is in itself, the check ends and reports what contact does not connect.** -/
theorem issues_verdicts (acyclic : WellFounded (Contains program)) :
    ∃ fuel issues, (∀ more, program.issues shapes (fuel + more) = some issues) ∧
      ∃ results : List (Option Issue), issues = results.reduceOption ∧
        List.Forall₂ (Verdict program shapes) (program.groups.filter fun group => !group.logical) results := by
  have none : Found program shapes ∅ := fun a b found there => by cases Std.ExtTreeMap.getElem?_empty.symm.trans there
  obtain ⟨fuel, issues, checked, results⟩ := checkAll_verdicts acyclic none program.groups
  exact ⟨fuel, issues, checkAll_mono checked, results⟩

end Walk

section Frame

/-- Two shelves apart, and a group of both in another with nothing else. -/
def frame : Program Span where
  parts := [⟨"top", ⟨0⟩⟩, ⟨"bottom", ⟨1.5⟩⟩]
  groups := [⟨"shelves", false, ["top", "bottom"]⟩, ⟨"frame", false, ["shelves"]⟩]

theorem frame_contains {member name : String} (contains : Contains frame member name) :
    name = "shelves" ∧ member ≠ "shelves" ∧ member ≠ "frame" ∨ name = "frame" ∧ member = "shelves" := by
  obtain ⟨child, found, among⟩ := contains
  unfold Program.group? at found
  have held := List.mem_of_find?_eq_some found
  have named : child.name = name := by simpa using List.find?_some found
  simp only [frame, List.reverse_cons, List.reverse_nil, List.nil_append, List.cons_append, List.mem_cons,
    List.not_mem_nil, or_false] at held
  rcases held with rfl | rfl
  · exact .inr ⟨named.symm, by simpa using among⟩
  · refine .inl ⟨named.symm, ?_⟩
    simp only [List.mem_cons, List.not_mem_nil, or_false] at among
    rcases among with rfl | rfl <;> decide

theorem issues_verdicts_frame : ∃ fuel issues, (∀ more, frame.issues (.blank : ExactShapes ℚ) (fuel + more) = some issues) ∧
    ∃ results : List (Option Issue), issues = results.reduceOption ∧
      List.Forall₂ (Verdict frame (.blank : ExactShapes ℚ)) (frame.groups.filter fun group => !group.logical) results := by
  refine issues_verdicts ⟨fun name => ?_⟩
  have leaf : ∀ name, name ≠ "shelves" → name ≠ "frame" → Acc (Contains frame) name := fun name shelves whole =>
    ⟨_, fun member contains => (frame_contains contains).elim (fun is => absurd is.1 shelves) fun is => absurd is.1 whole⟩
  have shelves : Acc (Contains frame) "shelves" := by
    refine ⟨_, fun member contains => ?_⟩
    rcases frame_contains contains with ⟨_, apart, apart'⟩ | ⟨is, _⟩
    · exact leaf member apart apart'
    · exact absurd is (by decide)
  by_cases whole : name = "frame"
  · refine ⟨_, fun member contains => ?_⟩
    rcases frame_contains contains with ⟨is, _⟩ | ⟨_, rfl⟩
    · exact absurd (whole.symm.trans is) (by decide)
    · exact shelves
  · by_cases among : name = "shelves"
    · exact among ▸ shelves
    · exact leaf name among whole

end Frame

end Ketchup.Exact
