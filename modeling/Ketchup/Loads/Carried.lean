/-
**Which parts are carried.**

Parts on the floor or anchored are carried, and again and again each part that may carry and lies over the
points where it bears on carried parts, until nothing changes. Members of a load path that are not carried
are reported.

Where a part bears (its contacts and bearing joints), its centre and the anchored parts are given.

* `carried_least` — the carried parts are the least set that has the parts on the floor or anchored and
  every part that may carry over points where it bears on the set.
* `carried_order` — so the order of parts, contacts, joints and points does not matter.
* `ring_not_carried` — parts that only bear on each other are not carried.
* `issues_once` — each member that is not carried is reported, once.
-/

import Ketchup.Library.Propagation
import Ketchup.Loads.Over
import Mathlib.Data.Finset.Basic
import Mathlib.Data.List.FinRange

set_option linter.unusedSectionVars false

namespace Ketchup.Loads

open Exact (contactFitMm)

/-- What the check reads of a part: `centre` is its centre of mass, `bottom` and `top` its world bounds in z,
`cut` tells that it has booleans. -/
structure Part (R : Type) where
  name : String
  tags : Finset String
  centre : R × R × R
  bottom : R
  top : R
  cut : Bool

structure LoadPath where
  name : String
  onlyTags : Finset String
  carrierTags : Finset String
  ignore : Finset String
  hint : String

def LoadPath.member {R : Type} (path : LoadPath) (part : Part R) : Bool :=
  !decide (part.name ∈ path.ignore) && (decide (path.onlyTags = ∅) || !decide (Disjoint part.tags path.onlyTags))

/-- `grounded` is what `grounded_parts` gives. -/
structure Model (R : Type) where
  parts : List (Part R)
  loadPaths : List LoadPath
  floorZMm : Option R
  grounded : Finset String

/-- Where a part bears on one supporter. -/
structure Bearing (count : ℕ) (R : Type) where
  supporter : Fin count
  points : List (R × R × R)

/-- The bearings of each part. -/
abbrev Bearings (count : ℕ) (R : Type) := Fin count → List (Bearing count R)

structure Issue (count : ℕ) where
  item : Fin count
  part : String
  path : String
  hint : String

section Check

variable {R : Type} [Field R] [LinearOrder R]

/-- Booleans can end a part at the floor although its uncut box reaches below. -/
def onFloor (part : Part R) (floor : R) : Bool :=
  if !part.cut then |part.bottom - floor| ≤ contactFitMm
  else part.bottom ≤ floor + contactFitMm && part.top > floor + contactFitMm

variable (model : Model R)

abbrev Model.part (item : Fin model.parts.length) : Part R := model.parts.get item

def Model.standing (item : Fin model.parts.length) : Bool :=
  decide ((model.part item).name ∈ model.grounded) || onFloor (model.part item) (model.floorZMm.getD 0)

/-- Windows, doors and finishes touching a member do not hold it up. -/
def Model.mayCarry (item : Fin model.parts.length) : Bool :=
  model.standing item || model.loadPaths.any fun path =>
    path.member (model.part item) || !decide (Disjoint (model.part item).tags path.carrierTags)

variable (bearings : Bearings model.parts.length R)

/-- The points where a part bears on parts that may carry and are carried. -/
def Model.pointsOn (carried : Fin model.parts.length → Bool) (item : Fin model.parts.length) : List (R × R × R) :=
  (((bearings item).filter fun bearing => model.mayCarry bearing.supporter).filter fun bearing =>
    carried bearing.supporter).flatMap Bearing.points

variable [Roots R]

def Model.rests (carried : Fin model.parts.length → Bool) (item : Fin model.parts.length) : Bool :=
  model.mayCarry item &&
    isOver ((model.part item).centre.1, (model.part item).centre.2.1) (model.pointsOn bearings carried item)

def Model.carried : Fin model.parts.length → Bool :=
  settled (model.rests bearings) (List.finRange model.parts.length) model.standing

/-- The members of one load path that are not carried and not yet reported. -/
def Model.report (reported : List (Fin model.parts.length) × List (Issue model.parts.length)) (path : LoadPath)
    (item : Fin model.parts.length) : List (Fin model.parts.length) × List (Issue model.parts.length) :=
  if model.carried bearings item || !path.member (model.part item) || decide (item ∈ reported.1) then reported
  else (item :: reported.1, reported.2 ++ [⟨item, (model.part item).name, path.name, path.hint⟩])

def Model.issues : List (Issue model.parts.length) :=
  if model.loadPaths.isEmpty then []
  else (model.loadPaths.foldl (fun reported path =>
    (List.finRange model.parts.length).foldl (fun reported item => model.report bearings reported path item) reported)
    ([], [])).2

end Check

/-! ### The least set -/

section Least

variable {R : Type} [Field R] [LinearOrder R]

/-- The points, in plan, where a part bears on parts of a set. -/
def bearsOn {count : ℕ} (bearings : Bearings count R) (set : Set (Fin count)) (item : Fin count) : Set (R × R) :=
  {q | ∃ bearing ∈ bearings item, bearing.supporter ∈ set ∧ q ∈ plan bearing.points}

theorem bearsOn_mono {count : ℕ} {bearings : Bearings count R} {one two : Set (Fin count)} (sub : one ⊆ two)
    (item : Fin count) : bearsOn bearings one item ⊆ bearsOn bearings two item := by
  rintro q ⟨bearing, among, on, is⟩
  exact ⟨bearing, among, sub on, is⟩

variable (model : Model R) (bearings : Bearings model.parts.length R)

def Model.centreInPlan (item : Fin model.parts.length) : R × R :=
  ((model.part item).centre.1, (model.part item).centre.2.1)

/-- A set that the parts standing are in, and every part that may carry over points where it bears on the set. -/
structure Model.Closed (set : Set (Fin model.parts.length)) : Prop where
  standing : ∀ item, model.standing item = true → item ∈ set
  above : ∀ item, model.mayCarry item = true → Over (model.centreInPlan item) (bearsOn bearings set item) → item ∈ set

variable {model bearings}

theorem mem_pointsOn {carried : Fin model.parts.length → Bool} {item : Fin model.parts.length} :
    {q | q ∈ plan (model.pointsOn bearings carried item)} =
      bearsOn bearings {other | model.mayCarry other = true ∧ carried other = true} item := by
  ext q
  constructor
  · intro held
    obtain ⟨point, among, rfl⟩ := List.mem_map.mp held
    obtain ⟨bearing, kept, at_⟩ := List.mem_flatMap.mp among
    rw [List.mem_filter, List.mem_filter] at kept
    exact ⟨bearing, kept.1.1, ⟨kept.1.2, kept.2⟩, List.mem_map.mpr ⟨point, at_, rfl⟩⟩
  · rintro ⟨bearing, among, ⟨may, on⟩, held⟩
    obtain ⟨point, at_, rfl⟩ := List.mem_map.mp held
    refine List.mem_map.mpr ⟨point, List.mem_flatMap.mpr ⟨bearing, ?_, at_⟩, rfl⟩
    rw [List.mem_filter, List.mem_filter]
    exact ⟨⟨among, may⟩, on⟩

variable [IsStrictOrderedRing R] [Roots R]

/-- Only what may carry is carried. -/
theorem mayCarry_of_carried {item : Fin model.parts.length} (is : model.carried bearings item = true) :
    model.mayCarry item = true := by
  refine settle_within {item | model.mayCarry item = true} ?_ ?_ item is
  · intro marks _ other _ rests
    exact ((Bool.and_eq_true _ _).mp rests).1
  · intro other stands
    show model.mayCarry other = true
    rw [Model.mayCarry, stands, Bool.true_or]

theorem rests_iff {item : Fin model.parts.length} (distinct : Apart (bearsOn bearings Set.univ item))
    (carried : Fin model.parts.length → Bool) :
    model.rests bearings carried item = true ↔ model.mayCarry item = true ∧
      Over (model.centreInPlan item)
        (bearsOn bearings {other | model.mayCarry other = true ∧ carried other = true} item) := by
  have apart : Apart {q | q ∈ plan (model.pointsOn bearings carried item)} := by
    rw [mem_pointsOn]
    exact fun q one r two => distinct q (bearsOn_mono (Set.subset_univ _) item one) r
      (bearsOn_mono (Set.subset_univ _) item two)
  rw [Model.rests, Bool.and_eq_true, over_apart apart, mem_pointsOn]
  rfl

/-- **The carried parts are the least set that holds itself up.** -/
theorem carried_least (distinct : ∀ item, Apart (bearsOn bearings Set.univ item)) :
    model.Closed bearings {item | model.carried bearings item = true} ∧
      ∀ set, model.Closed bearings set → ∀ item, model.carried bearings item = true → item ∈ set := by
  refine ⟨⟨settle_grows _ _, fun item may above => ?_⟩, fun set closed item is => ?_⟩
  · refine settle_closed _ _ item (List.mem_finRange item) ((rests_iff (distinct item) _).mpr ⟨may, ?_⟩)
    have sub : {other | model.carried bearings other = true} ⊆
        {other | model.mayCarry other = true ∧ model.carried bearings other = true} :=
      fun other is => ⟨mayCarry_of_carried is, is⟩
    exact over_mono (bearsOn_mono sub item) above
  · refine settle_within set ?_ closed.standing item is
    intro marks within other _ rests
    obtain ⟨may, above⟩ := (rests_iff (distinct other) marks).mp rests
    exact closed.above other may (over_mono (bearsOn_mono (fun supporter is => within supporter is.2) other) above)

/-- A post on the floor and a beam on it. -/
noncomputable def beamOnPost : Model ℝ where
  parts := [⟨"post", ∅, (5, 5, 50), 0, 100, false⟩, ⟨"beam", ∅, (5, 5, 110), 100, 120, false⟩]
  loadPaths := [⟨"roof", ∅, ∅, ∅, "hold it up"⟩]
  floorZMm := none
  grounded := ∅

noncomputable def beamBears (points : List (ℝ × ℝ × ℝ)) : Bearings beamOnPost.parts.length ℝ := fun item =>
  if item = ⟨1, Nat.one_lt_two⟩ then [⟨⟨0, Nat.zero_lt_two⟩, points⟩] else []

theorem beamBears_apart {points : List (ℝ × ℝ × ℝ)} (here : ∀ q ∈ plan points, q = (5, 5)) :
    ∀ item, Apart (bearsOn (beamBears points) Set.univ item) := by
  intro item q one r two _
  have is : ∀ q ∈ bearsOn (beamBears points) Set.univ item, q = (5, 5) := by
    rintro q ⟨bearing, among, -, held⟩
    unfold beamBears at among
    split at among
    · rw [List.mem_singleton.mp among] at held
      exact here q held
    · cases among
  rw [is q one, is r two]

theorem carried_least_beam :
    beamOnPost.Closed (beamBears [(5, 5, 100)]) {item | beamOnPost.carried (beamBears [(5, 5, 100)]) item = true} ∧
      ∀ set, beamOnPost.Closed (beamBears [(5, 5, 100)]) set →
        ∀ item, beamOnPost.carried (beamBears [(5, 5, 100)]) item = true → item ∈ set :=
  carried_least (beamBears_apart (by simp [plan]))

/-- **Parts that only bear on each other are not carried.** -/
theorem ring_not_carried (ring : Set (Fin model.parts.length)) (off : ∀ item ∈ ring, model.standing item = false)
    (only : ∀ item ∈ ring, ∀ bearing ∈ bearings item, bearing.supporter ∈ ring) :
    ∀ item ∈ ring, model.carried bearings item = false := by
  intro item among
  rw [← Bool.not_eq_true]
  intro is
  refine settle_within ringᶜ ?_ ?_ item is among
  · rintro marks within other - rests held
    have none : {q | q ∈ plan (model.pointsOn bearings marks other)} = ∅ := by
      rw [mem_pointsOn, Set.eq_empty_iff_forall_notMem]
      rintro q ⟨bearing, bears, ⟨-, on⟩, -⟩
      exact within bearing.supporter on (only other held bearing bears)
    have above := ((Bool.and_eq_true _ _).mp rests).2
    rw [over_kept] at above
    obtain ⟨q, hull, -⟩ := above
    have empty : {q | q ∈ kept (plan (model.pointsOn bearings marks other))} = ∅ := by
      rw [Set.eq_empty_iff_forall_notMem]
      exact fun q held => (none ▸ kept_subset held : q ∈ (∅ : Set (R × R)))
    rw [empty, convexHull_empty] at hull
    exact hull
  · intro other stands held
    rw [off other held] at stands
    cases stands

/-- Two parts in the air that hold each other. -/
noncomputable def floating : Model ℝ where
  parts := [⟨"left", ∅, (0, 0, 1), 0.5, 1.5, false⟩, ⟨"right", ∅, (1, 0, 1), 0.5, 1.5, false⟩]
  loadPaths := [⟨"roof", ∅, ∅, ∅, "hold it up"⟩]
  floorZMm := none
  grounded := ∅

theorem ring_not_carried_floating :
    floating.carried (fun _ => [⟨⟨0, Nat.zero_lt_two⟩, [(0, 0, 1)]⟩, ⟨⟨1, Nat.one_lt_two⟩, [(1, 0, 1)]⟩])
      ⟨1, Nat.one_lt_two⟩ = false := by
  refine ring_not_carried Set.univ ?_ (fun _ _ _ _ => Set.mem_univ _) _ (Set.mem_univ _)
  have high : ∀ part ∈ floating.parts, part.bottom = 0.5 ∧ part.cut = false := by simp [floating]
  intro item _
  obtain ⟨bottom, cut⟩ := high _ (List.get_mem _ item)
  rw [Model.standing, onFloor, cut, bottom]
  norm_num [floating, contactFitMm]

/-- One model with its parts, load paths and bearings in another order. -/
structure Reordered (model other : Model R) (bearings : Bearings model.parts.length R)
    (bearings' : Bearings other.parts.length R) (place : Fin model.parts.length ≃ Fin other.parts.length) : Prop where
  part : ∀ item, other.part (place item) = model.part item
  paths : ∀ path, path ∈ other.loadPaths ↔ path ∈ model.loadPaths
  floor : other.floorZMm = model.floorZMm
  grounded : other.grounded = model.grounded
  bears : ∀ item supporter q, (∃ bearing ∈ bearings' (place item), bearing.supporter = place supporter ∧ q ∈ plan bearing.points) ↔
    ∃ bearing ∈ bearings item, bearing.supporter = supporter ∧ q ∈ plan bearing.points

namespace Reordered

variable {other : Model R} {bearings' : Bearings other.parts.length R}
  {place : Fin model.parts.length ≃ Fin other.parts.length} (same : Reordered model other bearings bearings' place)

include same

theorem symm : Reordered other model bearings' bearings place.symm where
  part item := by rw [← same.part, Equiv.apply_symm_apply]
  paths path := (same.paths path).symm
  floor := same.floor.symm
  grounded := same.grounded.symm
  bears item supporter q := by
    rw [← same.bears, Equiv.apply_symm_apply, Equiv.apply_symm_apply]

theorem standing (item : Fin model.parts.length) : other.standing (place item) = model.standing item := by
  rw [Model.standing, Model.standing, same.part, same.floor, same.grounded]

theorem mayCarry (item : Fin model.parts.length) : other.mayCarry (place item) = model.mayCarry item := by
  rw [Model.mayCarry, Model.mayCarry, same.standing, same.part]
  congr 1
  rw [Bool.eq_iff_iff, List.any_eq_true, List.any_eq_true]
  simp only [same.paths]

theorem bearsOn_place (set : Set (Fin other.parts.length)) (item : Fin model.parts.length) :
    bearsOn bearings' set (place item) = bearsOn bearings {supporter | place supporter ∈ set} item := by
  ext q
  constructor
  · rintro ⟨bearing, among, on, held⟩
    obtain ⟨bearing', among', is, held'⟩ := (same.bears item (place.symm bearing.supporter) q).mp
      ⟨bearing, among, (place.apply_symm_apply _).symm, held⟩
    refine ⟨bearing', among', ?_, held'⟩
    show place bearing'.supporter ∈ set
    rwa [is, place.apply_symm_apply]
  · rintro ⟨bearing, among, on, held⟩
    obtain ⟨bearing', among', is, held'⟩ := (same.bears item bearing.supporter q).mpr ⟨bearing, among, rfl, held⟩
    exact ⟨bearing', among', is ▸ on, held'⟩

theorem carried_le (distinct : ∀ item, Apart (bearsOn bearings Set.univ item))
    (distinct' : ∀ item, Apart (bearsOn bearings' Set.univ item)) {item : Fin model.parts.length}
    (is : model.carried bearings item = true) : other.carried bearings' (place item) = true := by
  have closed := (carried_least distinct').1
  refine (carried_least distinct).2 {item | other.carried bearings' (place item) = true} ⟨?_, ?_⟩ item is
  · intro item stands
    exact closed.standing _ (same.standing item ▸ stands)
  · intro item may above
    refine closed.above _ ((same.mayCarry item).trans may) ?_
    rw [same.bearsOn_place, show other.centreInPlan (place item) = model.centreInPlan item by
      rw [Model.centreInPlan, Model.centreInPlan, same.part]]
    exact above

/-- **The order of parts, load paths, contacts, joints and points does not matter.** -/
theorem carried_order (distinct : ∀ item, Apart (bearsOn bearings Set.univ item)) (item : Fin model.parts.length) :
    other.carried bearings' (place item) = model.carried bearings item := by
  have distinct' : ∀ item, Apart (bearsOn bearings' Set.univ item) := by
    intro item
    have is := same.bearsOn_place Set.univ (place.symm item)
    rw [place.apply_symm_apply] at is
    rw [is]
    exact distinct (place.symm item)
  rw [Bool.eq_iff_iff]
  refine ⟨fun is => ?_, same.carried_le distinct distinct'⟩
  have back := same.symm.carried_le distinct' distinct is
  rwa [place.symm_apply_apply] at back

end Reordered

/-- The same beam with its point of contact found twice. -/
theorem carried_order_beam :
    beamOnPost.carried (beamBears [(5, 5, 100), (5, 5, 101)]) ((Equiv.refl _) ⟨1, Nat.one_lt_two⟩) =
      beamOnPost.carried (beamBears [(5, 5, 100)]) ⟨1, Nat.one_lt_two⟩ := by
  refine Reordered.carried_order ⟨fun _ => rfl, fun _ => Iff.rfl, rfl, rfl, fun item supporter q => ?_⟩
    (beamBears_apart (by simp [plan])) _
  have twice : q ∈ plan [(5, 5, 100), (5, 5, (101 : ℝ))] ↔ q ∈ plan [(5, 5, (100 : ℝ))] := by
    show q ∈ [(5, 5), (5, 5)] ↔ q ∈ [(5, 5)]
    simp
  unfold beamBears
  rw [Equiv.refl_apply, Equiv.refl_apply]
  split
  · simp [twice]
  · simp

end Least

/-! ### Reports -/

section Reports

variable {R : Type} [Field R] [LinearOrder R] [Roots R] {model : Model R}
  (bearings : Bearings model.parts.length R)

/-- What has been reported so far: each item once, under the path by which it is a member. -/
structure Reported (model : Model R) (state : List (Fin model.parts.length) × List (Issue model.parts.length)) : Prop where
  once : (state.2.map Issue.item).Nodup
  same : ∀ item, item ∈ state.1 ↔ item ∈ state.2.map Issue.item
  tells : ∀ issue ∈ state.2, issue.part = (model.part issue.item).name ∧
    ∃ path ∈ model.loadPaths, path.member (model.part issue.item) = true ∧ issue.path = path.name ∧ issue.hint = path.hint

/-- A member that is due is reported, nothing else is. -/
theorem Reported.report {state : List (Fin model.parts.length) × List (Issue model.parts.length)}
    (reported : Reported model state) {path : LoadPath} (among : path ∈ model.loadPaths) (item : Fin model.parts.length) :
    Reported model (model.report bearings state path item) ∧
      ∀ other, other ∈ (model.report bearings state path item).1 ↔
        other ∈ state.1 ∨ other = item ∧ model.carried bearings item = false ∧ path.member (model.part item) = true := by
  by_cases skip : (model.carried bearings item || !path.member (model.part item) || decide (item ∈ state.1)) = true
  · rw [Model.report, if_pos skip]
    refine ⟨reported, fun other => ⟨.inl, ?_⟩⟩
    rintro (held | ⟨rfl, off, member⟩)
    · exact held
    · rw [off, member] at skip
      exact of_decide_eq_true skip
  · rw [Model.report, if_neg skip]
    rw [Bool.or_eq_true, Bool.or_eq_true, not_or, not_or] at skip
    obtain ⟨⟨off, member⟩, fresh⟩ := skip
    rw [Bool.not_eq_true] at off
    rw [Bool.not_eq_true', Bool.not_eq_false] at member
    rw [decide_eq_true_eq] at fresh
    refine ⟨⟨?_, ?_, ?_⟩, fun other => ?_⟩
    · rw [List.map_append, List.nodup_append]
      refine ⟨reported.once, List.nodup_singleton _, ?_⟩
      intro other held new single
      rw [List.map_singleton, List.mem_singleton] at single
      rintro rfl
      have is : other = item := single
      exact fresh ((reported.same item).mpr (is ▸ held))
    · intro other
      rw [List.mem_cons, List.map_append, List.mem_append, reported.same, List.map_singleton, List.mem_singleton, or_comm]
    · intro issue held
      rcases List.mem_append.mp held with old | new
      · exact reported.tells issue old
      · rw [List.mem_singleton.mp new]
        exact ⟨rfl, path, among, member, rfl, rfl⟩
    · rw [List.mem_cons, or_comm]
      exact or_congr_right ⟨fun is => ⟨is, off, member⟩, fun is => is.1⟩

theorem Reported.items {path : LoadPath} (among : path ∈ model.loadPaths) (items : List (Fin model.parts.length))
    {state : List (Fin model.parts.length) × List (Issue model.parts.length)} (reported : Reported model state) :
    Reported model (items.foldl (fun state item => model.report bearings state path item) state) ∧
      ∀ other, other ∈ (items.foldl (fun state item => model.report bearings state path item) state).1 ↔
        other ∈ state.1 ∨ other ∈ items ∧ model.carried bearings other = false ∧ path.member (model.part other) = true := by
  induction items generalizing state with
  | nil => exact ⟨reported, by simp⟩
  | cons item items ih =>
    obtain ⟨first, tells⟩ := reported.report bearings among item
    refine ⟨(ih first).1, fun other => ((ih first).2 other).trans ?_⟩
    rw [tells, List.mem_cons]
    constructor
    · rintro ((held | ⟨rfl, due⟩) | ⟨later, due⟩)
      · exact .inl held
      · exact .inr ⟨.inl rfl, due⟩
      · exact .inr ⟨.inr later, due⟩
    · rintro (held | ⟨rfl | later, due⟩)
      · exact .inl (.inl held)
      · exact .inl (.inr ⟨rfl, due⟩)
      · exact .inr ⟨later, due⟩

theorem Reported.paths {paths : List LoadPath} (among : ∀ path ∈ paths, path ∈ model.loadPaths)
    {state : List (Fin model.parts.length) × List (Issue model.parts.length)} (reported : Reported model state) :
    let after := paths.foldl (fun state path =>
      (List.finRange model.parts.length).foldl (fun state item => model.report bearings state path item) state) state
    Reported model after ∧ ∀ other, other ∈ after.1 ↔
      other ∈ state.1 ∨ model.carried bearings other = false ∧ ∃ path ∈ paths, path.member (model.part other) = true := by
  induction paths generalizing state with
  | nil => exact ⟨reported, by simp⟩
  | cons path paths ih =>
    obtain ⟨first, tells⟩ := reported.items bearings (among path List.mem_cons_self) (List.finRange _)
    obtain ⟨last, told⟩ := ih (fun other held => among other (List.mem_cons_of_mem path held)) first
    refine ⟨last, fun other => (told other).trans ?_⟩
    rw [tells]
    simp only [List.mem_finRange, true_and, List.mem_cons, exists_eq_or_imp]
    tauto

/-- **Each member that is not carried is reported, once.** -/
theorem issues_once (model : Model R) (bearings : Bearings model.parts.length R) :
    ((model.issues bearings).map Issue.item).Nodup ∧
      (∀ item, item ∈ (model.issues bearings).map Issue.item ↔
        model.carried bearings item = false ∧ ∃ path ∈ model.loadPaths, path.member (model.part item) = true) ∧
      ∀ issue ∈ model.issues bearings, issue.part = (model.part issue.item).name ∧
        ∃ path ∈ model.loadPaths, path.member (model.part issue.item) = true ∧ issue.path = path.name ∧ issue.hint = path.hint := by
  have start : Reported model ([], []) := ⟨List.nodup_nil, by simp, by simp⟩
  obtain ⟨reported, told⟩ := start.paths bearings (fun _ held => held)
  unfold Model.issues
  by_cases none : model.loadPaths.isEmpty = true
  · rw [if_pos none]
    rw [List.isEmpty_iff] at none
    simp [none]
  · rw [if_neg none]
    refine ⟨reported.once, fun item => ?_, reported.tells⟩
    rw [← reported.same, told]
    simp

end Reports

end Ketchup.Loads
