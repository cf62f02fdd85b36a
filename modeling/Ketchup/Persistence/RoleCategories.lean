/-
**Role categories renamed, no two to one name.**

A category is renamed where it has an old name and no category has the new one
(`categories_renamed`). The new names differ where the old ones do (`newRoleName_inj`), and none is a
name there was, so that categories stay apart (`roles_stay_apart`).
-/

import Ketchup.Persistence.OldFormats
import Mathlib.Data.List.Nodup

namespace Ketchup.Persistence.OldFormats

/-- Categories of one classification have different ids and different names. -/
structure RolesApart (dimension : ClassificationDimension) : Prop where
  ids : (dimension.categories.map Category.id).Nodup
  names : (dimension.categories.map Category.name).Nodup

/-- The first nine characters tell the new names apart. -/
theorem roles_differ : ∀ role ∈ renamedRoles, 9 ≤ role.2.toList.length ∧
    ∀ other ∈ renamedRoles, role.2.toList.take 9 = other.2.toList.take 9 → role = other := by
  decide

theorem newRoleName_eq_some {name renamed : String} (is : newRoleName name = some renamed) :
    ∃ role ∈ renamedRoles, ∃ rest, name = role.1 ++ rest ∧ renamed = role.2 ++ rest := by
  unfold newRoleName at is
  obtain ⟨role, listed, is⟩ := List.exists_of_findSome?_eq_some is
  obtain ⟨rest, stripped, is⟩ := Option.bind_eq_some_iff.mp is
  split at is
  · exact ⟨role, listed, rest, stripPrefix_eq_some stripped, (Option.some.inj is).symm⟩
  · cases is

/-- **Different old names get different new ones.** -/
theorem newRoleName_inj {one two renamed : String} (isOne : newRoleName one = some renamed) (isTwo : newRoleName two = some renamed) :
    one = two := by
  obtain ⟨role, listed, rest, rfl, rfl⟩ := newRoleName_eq_some isOne
  obtain ⟨other, listedToo, restToo, rfl, same⟩ := newRoleName_eq_some isTwo
  have same := congrArg String.toList same
  rw [String.toList_append, String.toList_append] at same
  have first := congrArg (List.take 9) same
  rw [List.take_append_of_le_length (roles_differ role listed).1,
    List.take_append_of_le_length (roles_differ other listedToo).1] at first
  obtain rfl := (roles_differ role listed).2 other listedToo first
  rw [String.toList_injective (List.append_cancel_left same)]

/-! ### One classification -/

section Dimension

variable {dimension : ClassificationDimension}

/-- The name a category has after the conversion. -/
def roleName (dimension : ClassificationDimension) (category : Category) : String :=
  ((newRoleName category.name).filter fun name => dimension.categories.all fun other => other.name ≠ name).getD category.name

/-- Names given one after another, each to another id. -/
theorem categories_foldl {renamed : List (Nat × String)} (nodup : (renamed.map Prod.fst).Nodup) :
    (renamed.foldl (fun dimension renamed => { dimension with categories := dimension.categories.map fun category =>
      if category.id = renamed.1 then { category with name := renamed.2 } else category }) dimension).categories =
    dimension.categories.map fun category =>
      { category with name := ((renamed.find? (·.1 = category.id)).map Prod.snd).getD category.name } := by
  induction renamed generalizing dimension with
  | nil => simp
  | cons first renamed ih =>
    obtain ⟨fresh, nodup⟩ := List.nodup_cons.mp nodup
    rw [List.foldl_cons, ih nodup, List.map_map]
    refine List.map_congr_left fun category _ => ?_
    have none_later : renamed.find? (·.1 = first.1) = none := by
      rw [List.find?_eq_none]
      intro other inside
      simp only [decide_eq_true_eq]
      intro alike
      exact fresh (List.mem_map.mpr ⟨other, inside, alike⟩)
    by_cases same : category.id = first.1
    · simp [same, none_later]
    · simp [same, Ne.symm same]

theorem mem_renamedCategories {id : Nat} {name : String} : (id, name) ∈ renamedCategories dimension ↔
    (∃ category ∈ dimension.categories, newRoleName category.name = some name ∧ category.id = id) ∧
      ∀ category ∈ dimension.categories, category.name ≠ name := by
  unfold renamedCategories
  simp [List.mem_filter, List.mem_filterMap, List.all_eq_true, and_comm]

theorem renamedCategories_ids (ids : (dimension.categories.map Category.id).Nodup) :
    ((renamedCategories dimension).map Prod.fst).Nodup := by
  unfold renamedCategories
  refine List.Nodup.sublist (List.filter_sublist.map Prod.fst) ?_
  generalize dimension.categories = categories at ids
  induction categories with
  | nil => exact List.nodup_nil
  | cons category categories ih =>
    rw [List.map_cons, List.nodup_cons] at ids
    rw [List.filterMap_cons]
    cases newRoleName category.name with
    | none => exact ih ids.2
    | some name =>
      rw [Option.map_some, List.map_cons, List.nodup_cons]
      refine ⟨fun there => ids.1 ?_, ih ids.2⟩
      obtain ⟨renamed, inside, same⟩ := List.mem_map.mp there
      obtain ⟨other, isOther, made⟩ := List.mem_filterMap.mp inside
      obtain ⟨_, -, rfl⟩ := Option.map_eq_some_iff.mp made
      exact List.mem_map.mpr ⟨other, isOther, same⟩

/-- **Each category has the name it should.** -/
theorem categories_renamed (ids : (dimension.categories.map Category.id).Nodup) :
    ((renamedCategories dimension).foldl (fun dimension renamed =>
      { dimension with categories := dimension.categories.map fun category =>
        if category.id = renamed.1 then { category with name := renamed.2 } else category }) dimension).categories =
      dimension.categories.map fun category => { category with name := roleName dimension category } := by
  rw [categories_foldl (renamedCategories_ids ids)]
  refine List.map_congr_left fun category inside => ?_
  suffices same : ((renamedCategories dimension).find? (·.1 = category.id)).map Prod.snd =
      (newRoleName category.name).filter fun name => dimension.categories.all fun other => other.name ≠ name by
    rw [same]
    rfl
  cases found : (renamedCategories dimension).find? (·.1 = category.id) with
  | some renamed =>
    obtain ⟨id, name⟩ := renamed
    obtain rfl : id = category.id := by simpa using List.find?_some found
    obtain ⟨⟨other, isOther, made, same⟩, fresh⟩ := mem_renamedCategories.mp (List.mem_of_find?_eq_some found)
    obtain rfl := List.inj_on_of_nodup_map ids isOther inside same
    rw [made, Option.map_some, Option.filter_some, if_pos (by simpa using fresh)]
  | none =>
    rw [Option.map_none, eq_comm, Option.eq_none_iff_forall_ne_some]
    intro name is
    rw [Option.filter_eq_some_iff] at is
    rw [List.find?_eq_none] at found
    have listed := mem_renamedCategories.mpr ⟨⟨category, inside, is.1, rfl⟩, by simpa using is.2⟩
    exact found _ listed (decide_eq_true rfl)

theorem roleName_inj {one two : Category} (isOne : one ∈ dimension.categories) (isTwo : two ∈ dimension.categories)
    (same : roleName dimension one = roleName dimension two) : one.name = two.name := by
  -- a new name is none there was
  have fresh : ∀ {category : Category} {name : String}, ((newRoleName category.name).filter fun name =>
      dimension.categories.all fun other => other.name ≠ name) = some name →
      newRoleName category.name = some name ∧ ∀ other ∈ dimension.categories, other.name ≠ name := by
    intro category name is
    rw [Option.filter_eq_some_iff] at is
    exact ⟨is.1, by simpa using is.2⟩
  unfold roleName at same
  cases one_ : (newRoleName one.name).filter fun name => dimension.categories.all fun other => other.name ≠ name with
  | none =>
    cases two_ : (newRoleName two.name).filter fun name => dimension.categories.all fun other => other.name ≠ name with
    | none => rwa [one_, two_, Option.getD_none, Option.getD_none] at same
    | some name =>
      rw [one_, two_, Option.getD_none, Option.getD_some] at same
      exact absurd same ((fresh two_).2 one isOne)
  | some name =>
    cases two_ : (newRoleName two.name).filter fun name => dimension.categories.all fun other => other.name ≠ name with
    | none =>
      rw [one_, two_, Option.getD_none, Option.getD_some] at same
      exact absurd same.symm ((fresh one_).2 two isTwo)
    | some other =>
      rw [one_, two_, Option.getD_some, Option.getD_some] at same
      subst same
      exact newRoleName_inj (fresh one_).1 (fresh two_).1

end Dimension

/-- **Role categories stay apart.** -/
theorem roles_stay_apart {dimensions : List ClassificationDimension} (apart : ∀ dimension ∈ dimensions, RolesApart dimension) :
    ∀ dimension ∈ renameFormat99RoleCategories dimensions, RolesApart dimension := by
  intro renamed inside
  obtain ⟨dimension, isDimension, rfl⟩ := List.mem_map.mp inside
  have own := apart dimension isDimension
  split
  · exact own
  · have nodup : dimension.categories.Nodup := own.ids.of_map _
    constructor
    · rw [categories_renamed own.ids, List.map_map]
      exact own.ids
    · rw [categories_renamed own.ids, List.map_map]
      refine nodup.map_on fun one isOne two isTwo same => ?_
      exact List.inj_on_of_nodup_map own.names isOne isTwo (roleName_inj isOne isTwo same)

end Ketchup.Persistence.OldFormats
