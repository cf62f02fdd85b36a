/-
**A sweep over sorted elements.**

Each element is taken with those after it, up to the first beyond its reach.

* `sweep_near` — the sweep visits the pairs of `near`, in their order.
* `mem_near` — those are all pairs in the list's order, the second within reach of the first.
* `pairwise_insertionSort_stable` — sorting leaves elements of one key in their order.
-/

import Mathlib.Data.List.Sort
import Mathlib.Order.Basic

namespace Ketchup

section Sweep

variable {A S : Type} (beyond : A → A → Bool)

section Visit

variable (visit : S → A → A → S)

/-- One element with those after it. -/
def sweepFrom (left : A) : List A → S → S
  | [], state => state
  | right :: rest, state => if beyond left right then state else sweepFrom left rest (visit state left right)

def sweep : List A → S → S
  | [], state => state
  | left :: rest, state => sweep rest (sweepFrom beyond visit left rest state)

end Visit

/-- The pairs within reach. -/
def near : List A → List (A × A)
  | [] => []
  | left :: rest => (rest.filter fun right => !beyond left right).map (Prod.mk left) ++ near rest

variable {beyond}

theorem sweepFrom_filter (visit : S → A → A → S) (left : A) {rest : List A} (state : S)
    (stays : rest.Pairwise fun right further => beyond left right = true → beyond left further = true) :
    sweepFrom beyond visit left rest state =
      (rest.filter fun right => !beyond left right).foldl (fun state right => visit state left right) state := by
  induction rest generalizing state with
  | nil => rfl
  | cons right rest ih =>
    obtain ⟨head, stays⟩ := List.pairwise_cons.mp stays
    rw [sweepFrom]
    by_cases far : beyond left right = true
    · -- All that follow are beyond too.
      have none : rest.filter (fun right => !beyond left right) = [] :=
        List.filter_eq_nil_iff.mpr fun further among => by simp [head further among far]
      simp [far, none]
    · simp only [Bool.not_eq_true] at far
      simp [far, ih _ stays]

/-- **The sweep visits the pairs within reach.** -/
theorem sweep_near (visit : S → A → A → S) {list : List A} (state : S)
    (stays : ∀ left ∈ list, list.Pairwise fun right further => beyond left right = true → beyond left further = true) :
    sweep beyond visit list state =
      (near beyond list).foldl (fun state pair => visit state pair.1 pair.2) state := by
  induction list generalizing state with
  | nil => rfl
  | cons left rest ih =>
    rw [sweep, near, List.foldl_append, List.foldl_map,
      sweepFrom_filter visit left state (List.pairwise_cons.mp (stays left List.mem_cons_self)).2,
      ih _ fun other among => (List.pairwise_cons.mp (stays other (List.mem_cons_of_mem left among))).2]

theorem mem_near {list : List A} {pair : A × A} :
    pair ∈ near beyond list ↔ [pair.1, pair.2].Sublist list ∧ beyond pair.1 pair.2 = false := by
  obtain ⟨one, two⟩ := pair
  induction list with
  | nil => simp [near]
  | cons left rest ih =>
    rw [near, List.mem_append, ih, List.mem_map]
    constructor
    · rintro (⟨right, among, is⟩ | ⟨inside, reach⟩)
      · obtain ⟨rfl, rfl⟩ := Prod.mk.injEq .. ▸ is
        obtain ⟨among, reach⟩ := List.mem_filter.mp among
        exact ⟨(List.singleton_sublist.mpr among).cons_cons left, by simpa using reach⟩
      · exact ⟨inside.cons left, reach⟩
    · rintro ⟨inside, reach⟩
      cases inside with
      | cons _ inside => exact .inr ⟨inside, reach⟩
      | cons_cons _ inside =>
        exact .inl ⟨two, List.mem_filter.mpr ⟨List.singleton_sublist.mp inside, by simp [reach]⟩, rfl⟩

/-- Two elements of a list are a pair in its order, one way or the other. -/
theorem pair_sublist_or {list : List A} {one two : A} (apart : one ≠ two) (first : one ∈ list) (second : two ∈ list) :
    [one, two].Sublist list ∨ [two, one].Sublist list := by
  induction list with
  | nil => cases first
  | cons head rest ih =>
    rcases List.mem_cons.mp first with rfl | inFirst <;> rcases List.mem_cons.mp second with rfl | inSecond
    · exact absurd rfl apart
    · exact .inl ((List.singleton_sublist.mpr inSecond).cons_cons _)
    · exact .inr ((List.singleton_sublist.mpr inFirst).cons_cons _)
    · exact (ih inFirst inSecond).imp (·.cons head) (·.cons head)

/-- Of a list in some strict order, the pairs in the list's order are those in that order. -/
theorem pair_sublist {before : A → A → Prop} (asymm : ∀ one two, before one two → ¬before two one) {list : List A}
    (sorted : list.Pairwise before) {one two : A} :
    [one, two].Sublist list ↔ one ∈ list ∧ two ∈ list ∧ before one two := by
  constructor
  · intro inside
    refine ⟨inside.subset List.mem_cons_self, inside.subset (List.mem_cons_of_mem _ List.mem_cons_self), ?_⟩
    exact (List.pairwise_cons.mp (sorted.sublist inside)).1 two List.mem_cons_self
  · rintro ⟨first, second, order⟩
    induction list with
    | nil => cases first
    | cons head rest ih =>
      obtain ⟨least, sorted⟩ := List.pairwise_cons.mp sorted
      rcases List.mem_cons.mp second with rfl | later
      · -- Nothing comes before the first.
        rcases List.mem_cons.mp first with rfl | first
        · exact absurd order (asymm _ _ order)
        · exact absurd order (asymm _ _ (least one first))
      · rcases List.mem_cons.mp first with rfl | first
        · exact (List.singleton_sublist.mpr later).cons_cons one
        · exact (ih sorted first later).cons head

end Sweep

section Stable

variable {A K : Type} [LinearOrder K] (key : A → K) {tie : A → A → Prop}

theorem pairwise_orderedInsert {element : A} {list : List A}
    (sorted : list.Pairwise fun one two => key one < key two ∨ key one = key two ∧ tie one two)
    (ties : ∀ other ∈ list, tie element other) :
    (list.orderedInsert (fun one two => key one ≤ key two) element).Pairwise
      fun one two => key one < key two ∨ key one = key two ∧ tie one two := by
  induction list with
  | nil => simp
  | cons head rest ih =>
    obtain ⟨least, sorted'⟩ := List.pairwise_cons.mp sorted
    rw [List.orderedInsert_cons]
    split
    case isTrue before =>
      refine List.pairwise_cons.mpr ⟨fun other among => ?_, sorted⟩
      have up : key element ≤ key other := by
        rcases List.mem_cons.mp among with rfl | later
        · exact before
        · exact before.trans ((least other later).elim le_of_lt fun same => same.1.le)
      exact up.lt_or_eq.imp id fun same => ⟨same, ties other among⟩
    case isFalse after =>
      refine List.pairwise_cons.mpr ⟨fun other among => ?_, ih sorted' fun other later => ties other (List.mem_cons_of_mem _ later)⟩
      rcases List.mem_cons.mp ((List.perm_orderedInsert _ element rest).mem_iff.mp among) with rfl | later
      · exact .inl (not_le.mp after)
      · exact least other later

/-- **Sorting leaves elements of one key in their order.** -/
theorem pairwise_insertionSort_stable {list : List A} (ties : list.Pairwise tie) :
    (list.insertionSort fun one two => key one ≤ key two).Pairwise
      fun one two => key one < key two ∨ key one = key two ∧ tie one two := by
  induction list with
  | nil => exact .nil
  | cons head rest ih =>
    obtain ⟨ties, later⟩ := List.pairwise_cons.mp ties
    exact pairwise_orderedInsert key (ih later) fun other among => ties other ((List.mem_insertionSort _).mp among)

end Stable

end Ketchup
