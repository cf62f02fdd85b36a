/-
**The dependents of a set, by passes to a fixed point.**

Over a map whose entries name the keys they depend on, `dependentClosure` starts from the changed
keys and goes over the entries again and again, adding every key with a dependency found so far,
until a pass adds nothing:

* `closurePass_keeps`, `closurePass_adds`: a pass loses nothing and adds each key with a dependency
  in the set it started from;
* `closureLoop_closed`: with more fuel than keys left to add the loop ends in a set no pass grows,
  because a pass that grows it leaves fewer keys (`left_lt_of_grows`);
* `dependentClosure_closed`, `dependentClosure_keeps`: the closure holds the changed keys and every
  dependent of what it holds.
-/

import Ketchup.Library.Ordered

set_option linter.unusedSectionVars false

namespace Ketchup

section Closure

variable {K V : Type} [Ord K] [Std.TransOrd K] [Std.LawfulEqOrd K]
variable (dependencies : V → List K) (nodes : BTreeMap K V)

/-- Adds one entry's key when one of its dependencies is there. -/
def closureAdd (closure : BTreeSet K) (entry : K × V) : BTreeSet K :=
  if (dependencies entry.2).any closure.contains then closure.insert entry.1 else closure

/-- One pass over the entries, in key order. -/
def closurePass (closure : BTreeSet K) : BTreeSet K :=
  nodes.toList.foldl (closureAdd dependencies) closure

def closureLoop : Nat → BTreeSet K → BTreeSet K
  | 0, closure => closure
  | fuel + 1, closure =>
    let grown := closurePass dependencies nodes closure
    if grown.size = closure.size then grown else closureLoop fuel grown

/-- The changed keys and everything that depends on them. A pass that goes on adds a key of the
map, so one pass more than the map has keys is fuel enough. -/
def dependentClosure (changed : BTreeSet K) : BTreeSet K :=
  closureLoop dependencies nodes (nodes.size + 1) changed

/-- Every dependent of a member is a member. -/
def Closed (closure : BTreeSet K) : Prop :=
  ∀ key value, nodes[key]? = some value →
    (∃ dependency ∈ dependencies value, dependency ∈ closure) → key ∈ closure

variable {dependencies nodes}

theorem closureAdd_keeps {closure : BTreeSet K} {entry : K × V} {key : K}
    (member : key ∈ closure) : key ∈ closureAdd dependencies closure entry := by
  unfold closureAdd
  split
  · exact Std.ExtTreeSet.mem_insert.mpr (Or.inr member)
  · exact member

theorem foldl_closureAdd_keeps {entries : List (K × V)} {closure : BTreeSet K} {key : K}
    (member : key ∈ closure) : key ∈ entries.foldl (closureAdd dependencies) closure := by
  induction entries generalizing closure with
  | nil => exact member
  | cons entry rest ih => exact ih (closureAdd_keeps member)

theorem foldl_closureAdd_adds {entries : List (K × V)} {closure : BTreeSet K} (entry : K × V)
    (listed : entry ∈ entries)
    (depends : ∃ dependency ∈ dependencies entry.2, dependency ∈ closure) :
    entry.1 ∈ entries.foldl (closureAdd dependencies) closure := by
  induction entries generalizing closure with
  | nil => cases listed
  | cons head rest ih =>
    rcases List.mem_cons.mp listed with rfl | later
    · rw [List.foldl_cons]
      refine foldl_closureAdd_keeps ?_
      have found : (dependencies entry.2).any closure.contains = true :=
        List.any_eq_true.mpr depends
      rw [closureAdd, if_pos found]
      exact Std.ExtTreeSet.mem_insert_self
    · obtain ⟨dependency, named, held⟩ := depends
      exact ih later ⟨dependency, named, closureAdd_keeps held⟩

theorem mem_of_mem_foldl_closureAdd {entries : List (K × V)} {closure : BTreeSet K} {key : K}
    (member : key ∈ entries.foldl (closureAdd dependencies) closure) :
    key ∈ closure ∨ key ∈ entries.map Prod.fst := by
  induction entries generalizing closure with
  | nil => exact Or.inl member
  | cons entry rest ih =>
    rcases ih member with early | late
    · unfold closureAdd at early
      split at early
      · rcases Std.ExtTreeSet.mem_insert.mp early with same | before
        · exact Or.inr (by simp [Std.LawfulEqCmp.eq_of_compare same])
        · exact Or.inl before
      · exact Or.inl early
    · exact Or.inr (List.mem_cons_of_mem _ late)

theorem closurePass_keeps {closure : BTreeSet K} {key : K} (member : key ∈ closure) :
    key ∈ closurePass dependencies nodes closure :=
  foldl_closureAdd_keeps member

theorem closurePass_adds {closure : BTreeSet K} {key : K} {value : V}
    (entry : nodes[key]? = some value)
    (depends : ∃ dependency ∈ dependencies value, dependency ∈ closure) :
    key ∈ closurePass dependencies nodes closure :=
  foldl_closureAdd_adds (key, value)
    (Std.ExtTreeMap.mem_toList_iff_getElem?_eq_some.mpr entry) depends

/-- A pass that adds nothing started from a closed set. -/
theorem closed_of_size_eq {closure : BTreeSet K}
    (size : (closurePass dependencies nodes closure).size = closure.size) :
    Closed dependencies nodes (closurePass dependencies nodes closure) := by
  have same := BTreeSet.eq_of_subset_of_size (fun _ => closurePass_keeps) size
  intro key value entry depends
  rw [same] at depends
  exact closurePass_adds entry depends

/-- The keys a set does not hold yet. -/
def left (nodes : BTreeMap K V) (closure : BTreeSet K) : List K :=
  nodes.keys.filter fun key => decide (key ∉ closure)

theorem left_lt_of_grows {closure : BTreeSet K}
    (grows : (closurePass dependencies nodes closure).size ≠ closure.size) :
    (left nodes (closurePass dependencies nodes closure)).length < (left nodes closure).length := by
  have sublist : (left nodes (closurePass dependencies nodes closure)).Sublist
      (left nodes closure) := by
    refine List.monotone_filter_right _ fun key missing => ?_
    rw [decide_eq_true_eq] at missing ⊢
    exact fun held => missing (closurePass_keeps held)
  by_contra longer
  have same := sublist.eq_of_length_le (Nat.not_lt.mp longer)
  have inside : ∀ key ∈ closurePass dependencies nodes closure, key ∈ closure := by
    intro key member
    by_contra missing
    have listed : key ∈ nodes.keys := by
      rw [← Std.ExtTreeMap.map_fst_toList_eq_keys]
      exact (mem_of_mem_foldl_closureAdd member).resolve_left missing
    have leftBefore : key ∈ left nodes closure :=
      List.mem_filter.mpr ⟨listed, decide_eq_true missing⟩
    rw [← same] at leftBefore
    exact of_decide_eq_true (List.mem_filter.mp leftBefore).2 member
  have equal : closurePass dependencies nodes closure = closure :=
    Std.ExtTreeSet.ext_mem fun key => ⟨inside key, closurePass_keeps⟩
  exact grows (congrArg _ equal)

theorem closureLoop_keeps {fuel : Nat} {closure : BTreeSet K} {key : K} (member : key ∈ closure) :
    key ∈ closureLoop dependencies nodes fuel closure := by
  induction fuel generalizing closure with
  | zero => exact member
  | succ fuel ih =>
    rw [closureLoop]
    split
    · exact closurePass_keeps member
    · exact ih (closurePass_keeps member)

theorem closureLoop_closed {fuel : Nat} {closure : BTreeSet K}
    (enough : (left nodes closure).length < fuel) :
    Closed dependencies nodes (closureLoop dependencies nodes fuel closure) := by
  induction fuel generalizing closure with
  | zero => exact absurd enough (Nat.not_lt_zero _)
  | succ fuel ih =>
    rw [closureLoop]
    split
    case isTrue stable => exact closed_of_size_eq stable
    case isFalse grows =>
      exact ih (Nat.lt_of_lt_of_le (left_lt_of_grows grows) (Nat.le_of_lt_succ enough))

theorem dependentClosure_keeps {changed : BTreeSet K} {key : K} (member : key ∈ changed) :
    key ∈ dependentClosure dependencies nodes changed :=
  closureLoop_keeps member

theorem dependentClosure_closed (changed : BTreeSet K) :
    Closed dependencies nodes (dependentClosure dependencies nodes changed) := by
  refine closureLoop_closed (Nat.lt_succ_of_le ?_)
  calc (left nodes changed).length ≤ nodes.keys.length := List.length_filter_le _ _
    _ = nodes.size := Std.ExtTreeMap.length_keys

end Closure

end Ketchup
