/-
**Lists parted into sets.**

* `PartsInto` — sets that together are a list, each holding all that is the same as one of it.
* `partsInto_keyed` — a list sorted by a key of its elements.
-/

import Ketchup.Library.Lists
import Ketchup.Library.Ordered
import Mathlib.Data.List.Induction

namespace Ketchup

section Sets

variable {A K : Type}

/-- Sets that part a list, each all that is the same as one of it. -/
structure PartsInto (all : List A) (same : A → A → Prop) (sets : List (List A)) : Prop where
  perm : sets.flatten.Perm all
  nonempty : [] ∉ sets
  apart : sets.Pairwise fun first second => ∀ one ∈ first, ∀ two ∈ second, ¬same one two
  within : ∀ set ∈ sets, ∀ one ∈ set, ∀ two ∈ set, same one two

/-- There is one set where all elements, and at least one, are the same. -/
theorem PartsInto.length_one {all : List A} {same : A → A → Prop} {sets : List (List A)}
    (parts : PartsInto all same sets) : sets.length = 1 ↔ all ≠ [] ∧ ∀ one ∈ all, ∀ two ∈ all, same one two := by
  constructor
  · intro one
    obtain ⟨set, rfl⟩ := List.length_eq_one_iff.mp one
    have perm : set.Perm all := by simpa using parts.perm
    refine ⟨?_, fun one first two second =>
      parts.within set List.mem_cons_self one (perm.mem_iff.mpr first) two (perm.mem_iff.mpr second)⟩
    rintro rfl
    exact parts.nonempty (perm.eq_nil ▸ List.mem_cons_self)
  · rintro ⟨some, every⟩
    match sets, parts with
    | [], parts => exact absurd parts.perm.nil_eq.symm some
    | [_], _ => rfl
    | first :: second :: rest, parts =>
      -- Two sets have elements that are not the same.
      obtain ⟨one, inFirst⟩ := List.exists_mem_of_ne_nil first fun empty => parts.nonempty (empty ▸ List.mem_cons_self)
      obtain ⟨two, inSecond⟩ := List.exists_mem_of_ne_nil second fun empty =>
        parts.nonempty (empty ▸ List.mem_cons_of_mem _ List.mem_cons_self)
      have inside : ∀ set ∈ first :: second :: rest, ∀ element ∈ set, element ∈ all := fun set held element among =>
        parts.perm.mem_iff.mp (List.mem_flatten.mpr ⟨set, held, among⟩)
      exact absurd
        (every one (inside _ List.mem_cons_self _ inFirst) two
          (inside _ (List.mem_cons_of_mem _ List.mem_cons_self) _ inSecond))
        ((List.pairwise_cons.mp parts.apart).1 second List.mem_cons_self one inFirst two inSecond)

theorem PartsInto.congr {all : List A} {same other : A → A → Prop} {sets : List (List A)}
    (parts : PartsInto all same sets) (iff : ∀ one ∈ all, ∀ two ∈ all, same one two ↔ other one two) :
    PartsInto all other sets := by
  have inside : ∀ set ∈ sets, ∀ element ∈ set, element ∈ all := fun set held element among =>
    parts.perm.mem_iff.mp (List.mem_flatten.mpr ⟨set, held, among⟩)
  refine ⟨parts.perm, parts.nonempty, ?_, ?_⟩
  · refine List.Pairwise.imp_of_mem ?_ parts.apart
    intro first second inFirst inSecond apart one among two among' same
    exact apart one among two among' ((iff one (inside _ inFirst _ among) two (inside _ inSecond _ among')).mpr same)
  · intro set held one among two among'
    exact (iff one (inside _ held _ among) two (inside _ held _ among')).mp (parts.within set held one among two among')

/-- The same of other elements, one for one. -/
theorem PartsInto.map {B : Type} {all : List A} {same : A → A → Prop} {other : B → B → Prop} {sets : List (List A)}
    (parts : PartsInto all same sets) (image : A → B)
    (iff : ∀ one ∈ all, ∀ two ∈ all, same one two ↔ other (image one) (image two)) :
    PartsInto (all.map image) other (sets.map (List.map image)) := by
  have inside : ∀ set ∈ sets, ∀ element ∈ set, element ∈ all := fun set held element among =>
    parts.perm.mem_iff.mp (List.mem_flatten.mpr ⟨set, held, among⟩)
  constructor
  · rw [← List.map_flatten]
    exact parts.perm.map image
  · intro empty
    obtain ⟨set, held, is⟩ := List.mem_map.mp empty
    exact parts.nonempty (List.map_eq_nil_iff.mp is ▸ held)
  · rw [List.pairwise_map]
    refine List.Pairwise.imp_of_mem ?_ parts.apart
    intro first second inFirst inSecond apart _ imageOne _ imageTwo same
    obtain ⟨one, among, rfl⟩ := List.mem_map.mp imageOne
    obtain ⟨two, among', rfl⟩ := List.mem_map.mp imageTwo
    exact apart one among two among' ((iff one (inside _ inFirst _ among) two (inside _ inSecond _ among')).mpr same)
  · intro _ imageSet _ imageOne _ imageTwo
    obtain ⟨set, held, rfl⟩ := List.mem_map.mp imageSet
    obtain ⟨one, among, rfl⟩ := List.mem_map.mp imageOne
    obtain ⟨two, among', rfl⟩ := List.mem_map.mp imageTwo
    exact (iff one (inside _ held _ among) two (inside _ held _ among')).mp (parts.within set held one among two among')

variable [Ord K] [Std.TransOrd K] (key : A → K)

/-- The elements of each key, keys in their order. -/
def keyed (list : List A) : BTreeMap K (List A) :=
  list.foldl (fun sets element => sets.insert (key element) (sets.getD (key element) [] ++ [element])) ∅

variable [Std.LawfulEqOrd K] [DecidableEq K]

theorem getElem?_keyed (list : List A) (each : K) :
    (keyed key list)[each]? =
      if list.filter (fun element => key element = each) = [] then none
      else some (list.filter fun element => key element = each) := by
  induction list using List.reverseRecOn with
  | nil => exact Std.ExtTreeMap.getElem?_empty
  | append_singleton list element ih =>
    have grown : keyed key (list ++ [element]) =
        (keyed key list).insert (key element) ((keyed key list).getD (key element) [] ++ [element]) := by
      rw [keyed, List.foldl_append]
      rfl
    rw [grown, BTreeMap.getElem?_insert, List.filter_append]
    by_cases is : key element = each
    · subst is
      rw [if_pos rfl, Std.ExtTreeMap.getD_eq_getD_getElem?, ih]
      by_cases empty : list.filter (fun other => key other = key element) = [] <;> simp [empty]
    · rw [if_neg is, ih]
      simp [is]

/-- **Elements by key are parted by their keys.** -/
theorem partsInto_keyed (list : List A) :
    PartsInto list (fun one two => key one = key two) ((keyed key list).toList.map Prod.snd) := by
  have entry : ∀ entry ∈ (keyed key list).toList,
      entry.2 ≠ [] ∧ entry.2 = list.filter fun element => key element = entry.1 := by
    rw [BTreeMap.forall_mem_toList]
    intro each set found
    rw [getElem?_keyed] at found
    split at found
    · cases found
    · rename_i some
      cases found
      exact ⟨some, rfl⟩
  constructor
  · have keys : (keyed key list).toList.map Prod.snd =
        ((keyed key list).toList.map Prod.fst).map fun each => list.filter fun element => key element = each := by
      rw [List.map_map]
      exact List.map_congr_left fun held among => (entry held among).2
    rw [keys, ← List.flatMap_def]
    refine perm_flatMap_filter key BTreeMap.nodup_keys_toList fun element among => ?_
    have some : list.filter (fun other => key other = key element) ≠ [] :=
      List.ne_nil_of_mem (List.mem_filter.mpr ⟨among, decide_eq_true rfl⟩)
    have found := getElem?_keyed key list (key element)
    rw [if_neg some] at found
    exact List.mem_map.mpr ⟨_, Std.ExtTreeMap.mem_toList_iff_getElem?_eq_some.mpr found, rfl⟩
  · intro empty
    obtain ⟨held, among, is⟩ := List.mem_map.mp empty
    exact (entry held among).1 is
  · rw [List.pairwise_map]
    have distinct : ((keyed key list).toList.map Prod.fst).Nodup := BTreeMap.nodup_keys_toList
    rw [List.nodup_iff_pairwise_ne, List.pairwise_map] at distinct
    refine List.Pairwise.imp_of_mem ?_ distinct
    intro first second inFirst inSecond different one among two among' same
    rw [(entry first inFirst).2] at among
    rw [(entry second inSecond).2] at among'
    exact different ((of_decide_eq_true (List.mem_filter.mp among).2).symm.trans
      (same.trans (of_decide_eq_true (List.mem_filter.mp among').2)))
  · intro _ set one among two among'
    obtain ⟨held, inside, rfl⟩ := List.mem_map.mp set
    rw [(entry held inside).2] at among among'
    exact (of_decide_eq_true (List.mem_filter.mp among).2).trans (of_decide_eq_true (List.mem_filter.mp among').2).symm

end Sets

end Ketchup
