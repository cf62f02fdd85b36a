/-
**Cycles, and the order that is there without one.**

Over a map whose entries name the keys they depend on, `Kahn.order` succeeds exactly when every
dependency is a key and none depends on itself through others (`order_isOk_iff`). Where it fails for a
cycle it names the least key that leads to one (`order_cyclic`), which need not lie on it.
-/

import Ketchup.Library.Kahn
import Mathlib.Data.Fintype.Pigeonhole
import Mathlib.Data.Set.Finite.List
import Mathlib.Logic.Relation

set_option linter.unusedSectionVars false

namespace Ketchup

open Relation

/-- Where every step of a finite set can be followed by another, every member leads to a cycle. -/
theorem exists_cycle {A : Type} {step : A → A → Prop} {inside : Set A} (finite : inside.Finite)
    (next : ∀ element ∈ inside, ∃ other ∈ inside, step element other) {element : A}
    (member : element ∈ inside) :
    ∃ other, ReflTransGen step element other ∧ TransGen step other other := by
  choose! follow within steps using next
  have stays (count : Nat) : follow^[count] element ∈ inside := by
    induction count with
    | zero => exact member
    | succ count ih =>
      rw [Function.iterate_succ_apply']
      exact within _ ih
  have walk (from_ count : Nat) :
      ReflTransGen step (follow^[from_] element) (follow^[from_ + count] element) := by
    induction count with
    | zero => exact .refl
    | succ count ih =>
      rw [← Nat.add_assoc, Function.iterate_succ_apply']
      exact ih.tail (steps _ (stays _))
  have repeats : ∃ first second, first < second ∧ follow^[first] element = follow^[second] element := by
    have := finite.to_subtype
    obtain ⟨first, second, apart, same⟩ := Finite.exists_ne_map_eq_of_infinite
      fun count => (⟨follow^[count] element, stays count⟩ : inside)
    have alike := congrArg Subtype.val same
    rcases Nat.lt_or_gt_of_ne apart with less | more
    · exact ⟨first, second, less, alike⟩
    · exact ⟨second, first, more, alike.symm⟩
  obtain ⟨first, second, less, same⟩ := repeats
  refine ⟨follow^[first] element, by simpa using walk 0 first, ?_⟩
  have onward : TransGen step (follow^[first] element) (follow^[second] element) := by
    refine .head' (steps _ (stays first)) ?_
    rw [← Function.iterate_succ_apply' follow]
    have rest := walk (first + 1) (second - (first + 1))
    rwa [Nat.add_sub_cancel' less] at rest
  rwa [← same] at onward

namespace Kahn

variable {K V : Type} [Ord K] [DecidableEq K] [Std.TransOrd K] [Std.LawfulEqOrd K]

section Relations

variable (dependencies : V → List K) (nodes : BTreeMap K V)

def DependsOn (key dependency : K) : Prop :=
  ∃ value, nodes[key]? = some value ∧ dependency ∈ dependencies value

/-- Every dependency is a key. -/
def Complete : Prop :=
  ∀ (key : K) (value : V), nodes[key]? = some value → ∀ dependency ∈ dependencies value, dependency ∈ nodes

/-- The key depends on itself, through others or at once. -/
def OnCycle (key : K) : Prop := TransGen (DependsOn dependencies nodes) key key

/-- The key is on a cycle or depends on one. -/
def LeadsToCycle (key : K) : Prop :=
  ∃ other, ReflTransGen (DependsOn dependencies nodes) key other ∧ OnCycle dependencies nodes other

end Relations

variable {dependencies : V → List K} {nodes : BTreeMap K V}

theorem LeadsToCycle.dependency {key : K} (leads : LeadsToCycle dependencies nodes key) :
    ∃ dependency, DependsOn dependencies nodes key dependency ∧
      LeadsToCycle dependencies nodes dependency := by
  obtain ⟨other, path, cycle⟩ := leads
  rcases path.cases_head with rfl | ⟨dependency, step, rest⟩
  · obtain ⟨dependency, step, rest⟩ := TransGen.head'_iff.mp cycle
    exact ⟨dependency, step, key, rest, cycle⟩
  · exact ⟨dependency, step, other, rest, cycle⟩

/-- Only what leads to no cycle is listed. -/
theorem ReadyOrder.not_leadsToCycle {done listed : List K}
    (legal : ReadyOrder dependencies nodes done listed)
    (before : ∀ key ∈ done, ¬LeadsToCycle dependencies nodes key) :
    ∀ key ∈ listed, ¬LeadsToCycle dependencies nodes key := by
  induction listed generalizing done with
  | nil => nofun
  | cons head rest ih =>
    obtain ⟨⟨value, entry, ready⟩, _, later⟩ := legal
    have free : ¬LeadsToCycle dependencies nodes head := by
      intro leads
      obtain ⟨dependency, ⟨other, known, named⟩, leads⟩ := leads.dependency
      obtain rfl := Option.some.inj (entry.symm.trans known)
      exact before dependency (ready dependency named) leads
    intro key member
    rcases List.mem_cons.mp member with rfl | member
    · exact free
    · refine ih later (fun other there => ?_) key member
      rcases List.mem_append.mp there with there | there
      · exact before other there
      · rw [List.mem_singleton.mp there]
        exact free

/-- With no key ready, a key not listed waits for another such. -/
theorem Inv.waits {state : State K} (inv : Inv dependencies nodes state)
    (complete : Complete dependencies nodes) (done : ∀ key, key ∉ state.ready) {key : K}
    (present : key ∈ nodes) (left : key ∉ state.order) :
    ∃ dependency, (dependency ∈ nodes ∧ dependency ∉ state.order) ∧
      DependsOn dependencies nodes key dependency := by
  obtain ⟨value, entry⟩ := Option.isSome_iff_exists.mp
    (Std.ExtTreeMap.mem_iff_isSome_getElem?.mp present)
  have waiting : ¬((dependencies value).countP fun d => decide (d ∉ state.order)) = 0 := by
    intro none_
    refine done key ((inv.ready key).mpr ⟨left, ?_⟩)
    rw [inv.degree key, entry, Option.map_some, none_]
  rw [List.countP_eq_zero] at waiting
  push Not at waiting
  obtain ⟨dependency, named, unlisted⟩ := waiting
  exact ⟨dependency, ⟨complete key value entry dependency named, of_decide_eq_true unlisted⟩,
    value, entry, named⟩

/-- **What is left over is what leads to a cycle.** -/
theorem Inv.left_iff {state : State K} (inv : Inv dependencies nodes state)
    (complete : Complete dependencies nodes) (done : ∀ key, key ∉ state.ready) {key : K} :
    key ∈ nodes ∧ key ∉ state.order ↔ LeadsToCycle dependencies nodes key := by
  constructor
  · intro left
    have finite : {key : K | key ∈ nodes ∧ key ∉ state.order}.Finite :=
      (List.finite_toSet nodes.keys).subset fun key left => Std.ExtTreeMap.mem_keys.mpr left.1
    exact exists_cycle finite (fun other member => inv.waits complete done member.1 member.2) left
  · intro leads
    obtain ⟨dependency, ⟨value, entry, _⟩, _⟩ := leads.dependency
    refine ⟨?_, fun listed => inv.legal.not_leadsToCycle nofun key listed leads⟩
    rw [Std.ExtTreeMap.mem_iff_isSome_getElem?, entry]
    rfl

theorem firstMissing_eq_none : firstMissing dependencies nodes = none ↔ Complete dependencies nodes := by
  unfold firstMissing
  rw [List.find?_eq_none]
  constructor
  · intro known key value entry dependency named
    have there := known dependency (List.mem_flatMap.mpr
      ⟨(key, value), Std.ExtTreeMap.mem_toList_iff_getElem?_eq_some.mpr entry, named⟩)
    exact Std.ExtTreeMap.mem_iff_contains.mpr (by simpa using there)
  · intro complete dependency there
    obtain ⟨entry, listed, named⟩ := List.mem_flatMap.mp there
    have known := complete entry.1 entry.2 (Std.ExtTreeMap.mem_toList_iff_getElem?_eq_some.mp listed)
      dependency named
    simpa using Std.ExtTreeMap.mem_iff_contains.mp known

/-- What `order` answers when every dependency is a key. -/
theorem order_of_complete (complete : Complete dependencies nodes) :
    ∃ final : State K, Inv dependencies nodes final ∧ (∀ key, key ∉ final.ready) ∧
      order dependencies nodes =
        if final.order.length = nodes.size then .ok final.order
        else .error (.cyclic ((final.indegree.toList.find? fun entry => entry.2 ≠ 0).map Prod.fst)) := by
  obtain ⟨final, run, inv, done⟩ := loop_ends dependencies nodes
  refine ⟨final, inv, done, ?_⟩
  unfold order
  rw [firstMissing_eq_none.mpr complete]
  show (loop dependencies nodes (nodes.size + 1) (start dependencies nodes) >>= _) = _
  rw [run]
  rfl

/-- Every key is listed exactly when as many are listed as there are. -/
theorem Inv.length_eq_iff {state : State K} (inv : Inv dependencies nodes state) :
    state.order.length = nodes.size ↔ ∀ key ∈ nodes, key ∈ state.order := by
  constructor
  · intro all key member
    have permutation := inv.subperm.perm_of_length_le
      (Nat.le_of_eq (by rw [Std.ExtTreeMap.length_keys, all]))
    exact permutation.mem_iff.mpr (Std.ExtTreeMap.mem_keys.mpr member)
  · intro all
    refine Nat.le_antisymm inv.length_le ?_
    rw [← Std.ExtTreeMap.length_keys]
    exact (List.subperm_of_subset nodes.nodup_keys fun key member =>
      all key (Std.ExtTreeMap.mem_keys.mp member)).length_le

/-- **There is an order exactly when every dependency is a key and there is no cycle.** -/
theorem order_isOk_iff :
    (∃ listed, order dependencies nodes = .ok listed) ↔
      Complete dependencies nodes ∧ ∀ key, ¬OnCycle dependencies nodes key := by
  constructor
  · rintro ⟨listed, ok⟩
    obtain ⟨legal, all⟩ := order_ok ok
    refine ⟨fun key value entry dependency named => ?_, fun key cycle => ?_⟩
    · have member : key ∈ listed := (all key).mpr (by
        rw [Std.ExtTreeMap.mem_iff_isSome_getElem?, entry]
        rfl)
      have there := legal.dependencies_mem member entry named
      exact (all dependency).mp there
    · have leads : LeadsToCycle dependencies nodes key := ⟨key, .refl, cycle⟩
      obtain ⟨dependency, ⟨value, entry, _⟩, _⟩ := leads.dependency
      refine legal.not_leadsToCycle nofun key ((all key).mpr ?_) leads
      rw [Std.ExtTreeMap.mem_iff_isSome_getElem?, entry]
      rfl
  · rintro ⟨complete, acyclic⟩
    obtain ⟨final, inv, done, is⟩ := order_of_complete complete
    have all : final.order.length = nodes.size := by
      rw [inv.length_eq_iff]
      intro key member
      by_contra left
      obtain ⟨other, _, cycle⟩ := (inv.left_iff complete done).mp ⟨member, left⟩
      exact acyclic other cycle
    exact ⟨final.order, by rw [is, if_pos all]⟩

/-- **The key named in place of an order** is the least that leads to a cycle. -/
theorem order_cyclic {found : Option K} (failed : order dependencies nodes = .error (.cyclic found)) :
    Complete dependencies nodes ∧ ∃ key, found = some key ∧ LeadsToCycle dependencies nodes key ∧
      ∀ other, LeadsToCycle dependencies nodes other → other = key ∨ compare key other = .lt := by
  have complete : Complete dependencies nodes := by
    rw [← firstMissing_eq_none]
    unfold order at failed
    split at failed
    case h_1 => cases failed
    case h_2 none_ => exact none_
  refine ⟨complete, ?_⟩
  obtain ⟨final, inv, done, is⟩ := order_of_complete complete
  rw [is] at failed
  split at failed
  case isTrue => cases failed
  case isFalse short =>
    have same := Error.cyclic.inj (Except.error.inj failed)
    -- A key has a count left exactly when it is left over.
    have counted (key : K) (degree : Nat) (entry : (key, degree) ∈ final.indegree.toList) :
        degree ≠ 0 ↔ LeadsToCycle dependencies nodes key := by
      have known := Std.ExtTreeMap.mem_toList_iff_getElem?_eq_some.mp entry
      rw [← inv.left_iff complete done]
      have present : key ∈ nodes := by
        rw [inv.degree key] at known
        obtain ⟨value, there, _⟩ := Option.map_eq_some_iff.mp known
        rw [Std.ExtTreeMap.mem_iff_isSome_getElem?, there]
        rfl
      refine ⟨fun some_ => ⟨present, fun listed => some_ ?_⟩, fun left none_ => ?_⟩
      · obtain ⟨value, there⟩ := Option.isSome_iff_exists.mp
          (Std.ExtTreeMap.mem_iff_isSome_getElem?.mp present)
        rw [inv.degree key, there, Option.map_some, Option.some.injEq] at known
        rw [← known, List.countP_eq_zero]
        intro dependency named
        have done_ := inv.legal.dependencies_mem listed there named
        simpa using done_
      · exact done key ((inv.ready key).mpr ⟨left.2, none_ ▸ known⟩)
    rw [inv.length_eq_iff] at short
    push Not at short
    obtain ⟨key, member, left⟩ := short
    have leads := (inv.left_iff complete done).mp ⟨member, left⟩
    have listed : ∀ other, LeadsToCycle dependencies nodes other →
        ∃ degree, (other, degree) ∈ final.indegree.toList := by
      intro other leads
      obtain ⟨dependency, ⟨value, there, _⟩, _⟩ := leads.dependency
      have known := inv.degree other
      rw [there, Option.map_some] at known
      exact ⟨_, Std.ExtTreeMap.mem_toList_iff_getElem?_eq_some.mpr known⟩
    cases least : final.indegree.toList.find? fun entry => entry.2 ≠ 0 with
    | none =>
      obtain ⟨degree, entry⟩ := listed key leads
      have none_ := List.find?_eq_none.mp least _ entry
      exact absurd ((counted key degree entry).mpr leads) (by simpa using none_)
    | some entry =>
      obtain ⟨first, degree⟩ := entry
      rw [least, Option.map_some] at same
      obtain ⟨some_, before, after, split_, earlier⟩ := List.find?_eq_some_iff_append.mp least
      have there : (first, degree) ∈ final.indegree.toList := List.mem_of_find?_eq_some least
      refine ⟨first, same.symm, (counted first degree there).mp (by simpa using some_), ?_⟩
      intro other leads
      obtain ⟨count, entry⟩ := listed other leads
      have ordered := final.indegree.ordered_keys_toList
      have inside := entry
      rw [split_] at inside ordered
      rcases List.mem_append.mp inside with early | late
      · have zero := earlier _ early
        exact absurd ((counted other count entry).mpr leads) (by simpa using zero)
      · rcases List.mem_cons.mp late with here | later
        · exact .inl (congrArg Prod.fst here)
        · exact .inr ((List.pairwise_cons.mp (List.pairwise_append.mp ordered).2.1).1 _ later)

end Kahn

end Ketchup
