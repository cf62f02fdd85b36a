/-
**Ordered maps and sets.**

`BTreeMap` and `BTreeSet` are the extensional balanced trees of the standard library: two of them
are equal exactly when they hold the same entries, and they list their entries in key order.

A key type that is a structure or an enumeration is ordered through an injective `key` into a type
that is ordered already (`lawfulEqOrd_of_key`), so that its order is the lexicographic one of its
fields.
-/

import Std.Data.ExtTreeMap
import Std.Data.ExtTreeSet
import Mathlib.Data.List.Perm.Basic
import Mathlib.Data.List.Perm.Subperm

namespace Ketchup

/-- A map with ordered keys. -/
abbrev BTreeMap (K V : Type) [Ord K] := Std.ExtTreeMap K V compare

/-- A set with ordered elements. -/
abbrev BTreeSet (K : Type) [Ord K] := Std.ExtTreeSet K compare

theorem BTreeMap.toList_empty {K V : Type} [Ord K] [Std.TransOrd K] :
    (∅ : BTreeMap K V).toList = [] :=
  List.isEmpty_iff.mp (Std.ExtTreeMap.isEmpty_toList.trans Std.ExtTreeMap.isEmpty_empty)

theorem BTreeMap.mem_iff_exists {K V : Type} [Ord K] [Std.TransOrd K] {map : BTreeMap K V} {key : K} :
    key ∈ map ↔ ∃ value, map[key]? = some value := by
  rw [Std.ExtTreeMap.mem_iff_isSome_getElem?, Option.isSome_iff_exists]

/-- A list of images in another order is the images of the values in another order. -/
theorem exists_perm_of_perm_map {A B : Type} {image : A → B} {images : List B} {values : List A}
    (permuted : images.Perm (values.map image)) :
    ∃ others : List A, others.Perm values ∧ images = others.map image := by
  have both : Relation.Comp (fun list values => list = List.map image values) List.Perm images
      values := by
    rw [List.eq_map_comp_perm]
    exact permuted
  obtain ⟨others, same, permuted⟩ := both
  exact ⟨others, permuted, same⟩

section Keys

variable {A B : Type} [Ord B]

/-- An order read off an ordered key is transitive. -/
theorem transOrd_of_key [Std.TransOrd B] (key : A → B) : Std.TransCmp (compareOn key) where
  eq_swap {a b} := @Std.OrientedCmp.eq_swap B compare _ (key a) (key b)
  isLE_trans {a b c} := @Std.TransCmp.isLE_trans B compare _ (key a) (key b) (key c)

/-- An order read off an injective ordered key tells every two values apart. -/
theorem lawfulEqOrd_of_key [Std.LawfulEqOrd B] (key : A → B) (injective : key.Injective) :
    Std.LawfulEqCmp (compareOn key) where
  compare_self {a} := @Std.ReflCmp.compare_self B compare _ (key a)
  eq_of_compare {a b} same :=
    injective (@Std.LawfulEqCmp.eq_of_compare B compare _ (key a) (key b) same)

end Keys

/-- Of two values one is not after the other. -/
theorem isLE_total {A : Type} {cmp : A → A → Ordering} [Std.OrientedCmp cmp] (first second : A) :
    ((cmp first second).isLE || (cmp second first).isLE) = true := by
  rw [Bool.or_eq_true]
  by_cases least : (cmp first second).isLE = true
  · exact .inl least
  · exact .inr (Ordering.isLE_iff_eq_lt_or_eq_eq.mpr (.inl (Std.OrientedCmp.lt_of_not_isLE least)))

section Maps

variable {K V : Type} [Ord K] [Std.TransOrd K] [Std.LawfulEqOrd K]

theorem BTreeMap.mem_keys_of_getElem? {map : BTreeMap K V} {key : K} {value : V}
    (entry : map[key]? = some value) : key ∈ map.keys := by
  rw [Std.ExtTreeMap.mem_keys, Std.ExtTreeMap.mem_iff_isSome_getElem?, entry]
  rfl

/-- What holds of each listed entry holds of each entry found. -/
theorem BTreeMap.forall_mem_toList {map : BTreeMap K V} {holds : K × V → Prop} :
    (∀ entry ∈ map.toList, holds entry) ↔ ∀ key value, map[key]? = some value → holds (key, value) :=
  ⟨fun each _ _ found => each _ (Std.ExtTreeMap.mem_toList_iff_getElem?_eq_some.mpr found),
    fun each entry member => each entry.1 entry.2
      (Std.ExtTreeMap.mem_toList_iff_getElem?_eq_some.mp member)⟩

/-- A set inside one of the same size is that set. -/
theorem BTreeSet.eq_of_subset_of_size {small large : BTreeSet K}
    (subset : ∀ key ∈ small, key ∈ large) (size : large.size = small.size) : large = small := by
  have distinct : small.toList.Nodup :=
    small.distinct_toList.imp fun different same =>
      different (Std.LawfulEqCmp.compare_eq_iff_eq.mpr same)
  have sublist : small.toList ⊆ large.toList := fun key member =>
    Std.ExtTreeSet.mem_toList.mpr (subset key (Std.ExtTreeSet.mem_toList.mp member))
  have permutation := (List.subperm_of_subset distinct sublist).perm_of_length_le
    (Nat.le_of_eq (by rw [Std.ExtTreeSet.length_toList, Std.ExtTreeSet.length_toList, size]))
  refine Std.ExtTreeSet.ext_mem fun key => ?_
  rw [← Std.ExtTreeSet.mem_toList, ← Std.ExtTreeSet.mem_toList]
  exact permutation.symm.mem_iff

theorem BTreeSet.size_lt_of_subset {small large : BTreeSet K} (subset : ∀ key ∈ small, key ∈ large) (apart : small ≠ large) :
    small.size < large.size := by
  have distinct : small.toList.Nodup :=
    small.distinct_toList.imp fun different same =>
      different (Std.LawfulEqCmp.compare_eq_iff_eq.mpr same)
  have sublist : small.toList ⊆ large.toList := fun key member =>
    Std.ExtTreeSet.mem_toList.mpr (subset key (Std.ExtTreeSet.mem_toList.mp member))
  have least := (List.subperm_of_subset distinct sublist).length_le
  rw [Std.ExtTreeSet.length_toList, Std.ExtTreeSet.length_toList] at least
  exact Nat.lt_of_le_of_ne least fun same => apart (BTreeSet.eq_of_subset_of_size subset same.symm).symm

/-- A lookup after an insertion. -/
theorem BTreeMap.getElem?_insert [DecidableEq K] {map : BTreeMap K V} {key other : K} {value : V} :
    (map.insert key value)[other]? = if key = other then some value else map[other]? := by
  rw [Std.ExtTreeMap.getElem?_insert]
  simp only [Std.LawfulEqCmp.compare_eq_iff_eq]

/-- A lookup after a removal. -/
theorem BTreeMap.getElem?_erase [DecidableEq K] {map : BTreeMap K V} {key other : K} :
    (map.erase key)[other]? = if key = other then none else map[other]? := by
  rw [Std.ExtTreeMap.getElem?_erase]
  simp only [Std.LawfulEqCmp.compare_eq_iff_eq]

theorem BTreeSet.mem_insert {set : BTreeSet K} {key other : K} :
    other ∈ set.insert key ↔ key = other ∨ other ∈ set := by
  rw [Std.ExtTreeSet.mem_insert, Std.LawfulEqCmp.compare_eq_iff_eq]

/-- The entries of a map, one for each key. -/
theorem BTreeMap.nodup_toList {map : BTreeMap K V} : map.toList.Nodup :=
  map.distinct_keys_toList.imp fun different same =>
    different (Std.LawfulEqCmp.compare_eq_iff_eq.mpr (congrArg Prod.fst same))

/-- A key that was not there adds one entry. -/
theorem BTreeMap.toList_insert_fresh {map : BTreeMap K V} {key : K} {value : V}
    (fresh : map[key]? = none) :
    (map.insert key value).toList.Perm ((key, value) :: map.toList) := by
  have unlisted : (key, value) ∉ map.toList := by
    rw [Std.ExtTreeMap.mem_toList_iff_getElem?_eq_some, fresh]
    exact nofun
  refine (List.perm_ext_iff_of_nodup nodup_toList
    (List.nodup_cons.mpr ⟨unlisted, nodup_toList⟩)).mpr fun entry => ?_
  obtain ⟨other, held⟩ := entry
  rw [List.mem_cons, Std.ExtTreeMap.mem_toList_iff_getElem?_eq_some,
    Std.ExtTreeMap.mem_toList_iff_getElem?_eq_some, Std.ExtTreeMap.getElem?_insert]
  split
  case isTrue same =>
    cases Std.LawfulEqCmp.compare_eq_iff_eq.mp same
    rw [fresh]
    simp [eq_comm]
  case isFalse other_key =>
    refine ⟨Or.inr, fun either => either.resolve_left fun same => other_key ?_⟩
    exact Std.LawfulEqCmp.compare_eq_iff_eq.mpr (congrArg Prod.fst same).symm

/-- The entries after an insertion: the new one, and those of other keys. -/
theorem BTreeMap.toList_insert [DecidableEq K] (map : BTreeMap K V) (key : K) (value : V) :
    (map.insert key value).toList.Perm ((key, value) :: (map.erase key).toList) := by
  have absent : (map.erase key)[key]? = none := by
    rw [getElem?_erase, if_pos rfl]
  have same : map.insert key value = (map.erase key).insert key value := by
    refine Std.ExtTreeMap.ext_getElem? fun other => ?_
    rw [getElem?_insert, getElem?_insert, getElem?_erase]
    split <;> rfl
  rw [same]
  exact toList_insert_fresh absent

/-- The entries with one of them first. -/
theorem BTreeMap.toList_of_getElem? [DecidableEq K] {map : BTreeMap K V} {key : K} {value : V}
    (found : map[key]? = some value) : map.toList.Perm ((key, value) :: (map.erase key).toList) := by
  have same : map.insert key value = map := by
    refine Std.ExtTreeMap.ext_getElem? fun other => ?_
    rw [getElem?_insert]
    split
    case isTrue is => rw [← is, found]
    case isFalse => rfl
  have inserted := toList_insert map key value
  rw [same] at inserted
  exact inserted

/-- Without a key, nothing of it is to be removed. -/
theorem BTreeMap.erase_absent [DecidableEq K] {map : BTreeMap K V} {key : K}
    (absent : map[key]? = none) : map.erase key = map := by
  refine Std.ExtTreeMap.ext_getElem? fun other => ?_
  rw [getElem?_erase]
  split
  case isTrue is => rw [← is, absent]
  case isFalse => rfl

theorem BTreeMap.nodup_keys_toList {map : BTreeMap K V} : (map.toList.map Prod.fst).Nodup := by
  rw [List.nodup_iff_pairwise_ne, List.pairwise_map]
  exact map.distinct_keys_toList.imp fun different same =>
    different (Std.LawfulEqCmp.compare_eq_iff_eq.mpr same)

/-- Entries of a map at one key are one entry. -/
theorem BTreeMap.entry_unique {map : BTreeMap K V} {holds : K × V → Bool} {one two : K × V}
    (isOne : one ∈ map.toList.filter holds) (isTwo : two ∈ map.toList.filter holds)
    (same : one.1 = two.1) : one = two := by
  have first := Std.ExtTreeMap.mem_toList_iff_getElem?_eq_some.mp (List.mem_filter.mp isOne).1
  have second := Std.ExtTreeMap.mem_toList_iff_getElem?_eq_some.mp (List.mem_filter.mp isTwo).1
  rw [same] at first
  exact Prod.ext same (Option.some.inj (first.symm.trans second))

section Lookups

variable [DecidableEq K] {E : Type} {key : E → K} {value : E → V} {list : List E} {map : BTreeMap K V}

/-- A lookup of a key at which nothing was put in. -/
theorem BTreeMap.getElem?_foldl_insert_other {other : K} (apart : ∀ next ∈ list, key next ≠ other) :
    (list.foldl (fun held next => held.insert (key next) (value next)) map)[other]? = map[other]? := by
  induction list generalizing map with
  | nil => rfl
  | cons next rest ih =>
    rw [List.foldl_cons, ih fun later member => apart later (List.mem_cons_of_mem _ member),
      getElem?_insert, if_neg (apart next (List.mem_cons_self ..))]

/-- A lookup after entries were put in, no two at one key. -/
theorem BTreeMap.getElem?_foldl_insert
    (injective : ∀ one ∈ list, ∀ two ∈ list, key one = key two → one = two) {entry : E}
    (member : entry ∈ list) :
    (list.foldl (fun held next => held.insert (key next) (value next)) map)[key entry]? =
      some (value entry) := by
  induction list generalizing map with
  | nil => cases member
  | cons next rest ih =>
    rw [List.foldl_cons]
    by_cases later : entry ∈ rest
    · exact ih (fun one isOne two isTwo => injective one (List.mem_cons_of_mem _ isOne) two
        (List.mem_cons_of_mem _ isTwo)) later
    · obtain rfl := (List.mem_cons.mp member).resolve_right later
      rw [getElem?_foldl_insert_other, getElem?_insert, if_pos rfl]
      intro other isOther same
      exact later (injective other (List.mem_cons_of_mem _ isOther) entry member same ▸ isOther)

/-- A lookup after removals. -/
theorem BTreeMap.getElem?_foldl_erase {keys : List K} {other : K} :
    (keys.foldl (fun held next => held.erase next) map)[other]? =
      if other ∈ keys then none else map[other]? := by
  induction keys generalizing map with
  | nil => rfl
  | cons next rest ih =>
    rw [List.foldl_cons, ih, getElem?_erase]
    by_cases later : other ∈ rest
    · rw [if_pos later, if_pos (List.mem_cons_of_mem _ later)]
    · rw [if_neg later]
      by_cases same : next = other
      · rw [if_pos same, if_pos (same ▸ List.mem_cons_self ..)]
      · rw [if_neg same, if_neg fun member => ?_]
        rcases List.mem_cons.mp member with is | after
        · exact same is.symm
        · exact later after

end Lookups

section Insertions

variable {E : Type} (entry : E → K × V) {list : List E} {map : BTreeMap K V}

/-- Keys that are new stay so while others are put in. -/
theorem BTreeMap.fresh_insert {next : E} (apart : (entry next).1 ∉ list.map fun other => (entry other).1)
    (fresh : ∀ other ∈ list, map[(entry other).1]? = none) :
    ∀ other ∈ list, (map.insert (entry next).1 (entry next).2)[(entry other).1]? = none := by
  intro other member
  rw [Std.ExtTreeMap.getElem?_insert, if_neg]
  · exact fresh other member
  · intro same
    refine apart (List.mem_map.mpr ⟨other, member, ?_⟩)
    exact (Std.LawfulEqCmp.compare_eq_iff_eq.mp same).symm

/-- Entries put at new keys are added to those that are there. -/
theorem BTreeMap.toList_foldl_insert_fresh (distinct : (list.map fun next => (entry next).1).Nodup)
    (fresh : ∀ next ∈ list, map[(entry next).1]? = none) :
    (list.foldl (fun held next => held.insert (entry next).1 (entry next).2) map).toList.Perm
      (list.map entry ++ map.toList) := by
  induction list generalizing map with
  | nil => exact .refl _
  | cons next rest ih =>
    obtain ⟨apart, distinct⟩ := List.nodup_cons.mp distinct
    have here := fresh next (List.mem_cons_self ..)
    have later := ih distinct
      (fresh_insert entry apart fun other member => fresh other (List.mem_cons_of_mem _ member))
    exact later.trans (((toList_insert_fresh here).append_left _).trans List.perm_middle)

/-- **Steps that each put an entry at a new key** put all of them there. -/
theorem BTreeMap.foldlM_insert_fresh {ε : Type} {step : BTreeMap K V → E → Except ε (BTreeMap K V)}
    (steps : ∀ held, ∀ next ∈ list, held[(entry next).1]? = none →
      step held next = .ok (held.insert (entry next).1 (entry next).2))
    (distinct : (list.map fun next => (entry next).1).Nodup)
    (fresh : ∀ next ∈ list, map[(entry next).1]? = none) :
    list.foldlM step map =
      .ok (list.foldl (fun held next => held.insert (entry next).1 (entry next).2) map) := by
  induction list generalizing map with
  | nil => rfl
  | cons next rest ih =>
    obtain ⟨apart, distinct⟩ := List.nodup_cons.mp distinct
    rw [List.foldlM_cons, steps map next (List.mem_cons_self ..) (fresh next (List.mem_cons_self ..))]
    exact ih (fun held other member => steps held other (List.mem_cons_of_mem _ member)) distinct
      (fresh_insert entry apart fun other member => fresh other (List.mem_cons_of_mem _ member))

end Insertions

end Maps

end Ketchup
