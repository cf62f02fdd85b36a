/-
**Disjoint sets by parents, without ranks.**

Each element has a parent and a root is its own. Two roots are joined by making one the parent of the other.

* `root_join` — what a join does to roots.
* `Joins` — the roots tell exactly what some relation connects; a join adds its pair to the relation.
-/

import Mathlib.Data.Nat.Basic
import Mathlib.Logic.Function.Basic
import Mathlib.Logic.Relation

namespace Ketchup

variable {A : Type}

/-- Parents that lead to a root. -/
structure Forest (A : Type) where
  parents : A → A
  falls : ∃ depth : A → ℕ, ∀ element, parents element ≠ element → depth (parents element) < depth element

namespace Forest

/-- Each element on its own. -/
def single : Forest A := ⟨id, fun _ => 0, fun _ apart => absurd rfl apart⟩

variable [DecidableEq A] (forest : Forest A)

def root (element : A) : A :=
  if forest.parents element = element then element else root (forest.parents element)
termination_by Classical.choose forest.falls element
decreasing_by exact Classical.choose_spec forest.falls _ ‹_›

theorem root_of_fixed {element : A} (fixed : forest.parents element = element) : forest.root element = element := by
  rw [root, if_pos fixed]

theorem root_parents (element : A) : forest.root (forest.parents element) = forest.root element := by
  by_cases fixed : forest.parents element = element
  · rw [fixed]
  · exact ((root.eq_def forest element).trans (if_neg fixed)).symm

/-- A root is its own parent. -/
theorem parents_root (element : A) : forest.parents (forest.root element) = forest.root element := by
  fun_induction forest.root element with
  | case1 element fixed => exact fixed
  | case2 element moved ih => exact ih

theorem root_root (element : A) : forest.root (forest.root element) = forest.root element :=
  forest.root_of_fixed (forest.parents_root element)

/-- The root of the second gets the root of the first as its parent. -/
def join (a b : A) : Forest A where
  parents := Function.update forest.parents (forest.root b) (forest.root a)
  falls := by
    obtain ⟨depth, falls⟩ := forest.falls
    by_cases same : forest.root a = forest.root b
    · -- Nothing changes.
      have still : Function.update forest.parents (forest.root b) (forest.root a) = forest.parents := by
        rw [same]
        exact Function.update_eq_self_iff.mpr (forest.parents_root b).symm
      rw [still]
      exact ⟨depth, falls⟩
    · -- The tree of the second goes below that of the first.
      refine ⟨fun element => if forest.root element = forest.root b then depth element + depth (forest.root a) + 1
        else depth element, fun element moved => ?_⟩
      by_cases top : element = forest.root b
      · subst top
        dsimp only
        rw [Function.update_self, forest.root_root b, if_pos rfl, forest.root_root a, if_neg same]
        omega
      · rw [Function.update_of_ne top] at moved ⊢
        dsimp only
        rw [root_parents]
        have lower := falls element moved
        split <;> omega

theorem root_join (a b element : A) :
    (forest.join a b).root element = if forest.root element = forest.root b then forest.root a else forest.root element := by
  have head : (forest.join a b).parents (forest.root b) = forest.root a := Function.update_self _ _ _
  have other : ∀ element, element ≠ forest.root b → (forest.join a b).parents element = forest.parents element :=
    fun element apart => Function.update_of_ne apart _ _
  have top : (forest.join a b).root (forest.root a) = forest.root a := by
    refine root_of_fixed _ ?_
    by_cases same : forest.root a = forest.root b
    · rw [same, head, same]
    · rw [other _ same, parents_root]
  fun_induction forest.root element with
  | case1 element fixed =>
    by_cases is : element = forest.root b
    · rw [if_pos is, is, ← root_parents, head, top]
    · rw [if_neg is, root_of_fixed]
      rw [other element is, fixed]
  | case2 element moved ih =>
    have apart : element ≠ forest.root b := by
      rintro rfl
      exact moved (forest.parents_root b)
    rw [← root_parents, other element apart]
    exact ih

/-- Elements have one root exactly where the relation connects them. -/
def Joins (relation : A → A → Prop) : Prop :=
  ∀ one two, forest.root one = forest.root two ↔ Relation.EqvGen relation one two

variable {forest}

theorem joins_single : (single : Forest A).Joins fun _ _ => False := by
  intro one two
  have self : ∀ element : A, (single : Forest A).root element = element := fun element => root_of_fixed _ rfl
  rw [self, self]
  constructor
  · rintro rfl
    exact .refl one
  · intro connected
    induction connected with
    | rel _ _ never => exact never.elim
    | refl _ => rfl
    | symm _ _ _ ih => exact ih.symm
    | trans _ _ _ _ _ ih ih' => exact ih.trans ih'

/-- **A join connects its pair, and nothing else.** -/
theorem Joins.join {relation : A → A → Prop} (joins : forest.Joins relation) (a b : A) :
    (forest.join a b).Joins fun one two => relation one two ∨ one = a ∧ two = b := by
  have old : ∀ {one two}, forest.root one = forest.root two →
      Relation.EqvGen (fun one two => relation one two ∨ one = a ∧ two = b) one two := fun same =>
    ((joins _ _).mp same).mono fun _ _ => .inl
  have new : Relation.EqvGen (fun one two => relation one two ∨ one = a ∧ two = b) a b := .rel a b (.inr ⟨rfl, rfl⟩)
  intro one two
  rw [root_join, root_join]
  constructor
  · intro same
    by_cases first : forest.root one = forest.root b <;> by_cases second : forest.root two = forest.root b
    · exact old (first.trans second.symm)
    · rw [if_pos first, if_neg second] at same
      exact ((old first).trans _ _ _ (new.symm _ _)).trans _ _ _ (old same)
    · rw [if_neg first, if_pos second] at same
      exact ((old same).trans _ _ _ new).trans _ _ _ (old second.symm)
    · rw [if_neg first, if_neg second] at same
      exact old same
  · intro connected
    induction connected with
    | rel one two step =>
      rcases step with related | ⟨rfl, rfl⟩
      · rw [(joins one two).mpr (.rel one two related)]
      · rw [if_pos rfl]
        split <;> rfl
    | refl _ => rfl
    | symm _ _ _ ih => exact ih.symm
    | trans _ _ _ _ _ ih ih' => exact ih.trans ih'

/-- Relations that connect the same are told by the same roots. -/
theorem Joins.congr {relation other : A → A → Prop} (joins : forest.Joins relation)
    (forth : ∀ one two, relation one two → Relation.EqvGen other one two)
    (back : ∀ one two, other one two → Relation.EqvGen relation one two) : forest.Joins other := by
  have generate : ∀ {first second : A → A → Prop}, (∀ one two, first one two → Relation.EqvGen second one two) →
      ∀ one two, Relation.EqvGen first one two → Relation.EqvGen second one two := by
    intro first second each one two connected
    induction connected with
    | rel one two step => exact each one two step
    | refl one => exact .refl one
    | symm one two _ ih => exact ih.symm _ _
    | trans one two three _ _ ih ih' => exact ih.trans _ _ _ ih'
  exact fun one two => (joins one two).trans ⟨generate forth one two, generate back one two⟩

end Forest

/-- Images of elements are connected as the elements are. -/
theorem eqvGen_image {B : Type} {image : A → B} (injective : image.Injective) {relation : A → A → Prop}
    {other : B → B → Prop} (iff : ∀ a b, other a b ↔ ∃ one two, image one = a ∧ image two = b ∧ relation one two) {one two : A} :
    Relation.EqvGen other (image one) (image two) ↔ Relation.EqvGen relation one two := by
  constructor
  · have traced : ∀ a b, Relation.EqvGen other a b →
        a = b ∨ ∃ one two, image one = a ∧ image two = b ∧ Relation.EqvGen relation one two := by
      intro a b connected
      induction connected with
      | rel a b step =>
        obtain ⟨one, two, isOne, isTwo, related⟩ := (iff a b).mp step
        exact .inr ⟨one, two, isOne, isTwo, .rel one two related⟩
      | refl a => exact .inl rfl
      | symm a b _ ih =>
        rcases ih with rfl | ⟨one, two, isOne, isTwo, connected⟩
        · exact .inl rfl
        · exact .inr ⟨two, one, isTwo, isOne, connected.symm⟩
      | trans a b c _ _ ih ih' =>
        rcases ih with rfl | ⟨one, two, isOne, isTwo, connected⟩
        · exact ih'
        · rcases ih' with rfl | ⟨three, four, isThree, isFour, connected'⟩
          · exact .inr ⟨one, two, isOne, isTwo, connected⟩
          · obtain rfl := injective (isTwo.trans isThree.symm)
            exact .inr ⟨one, four, isOne, isFour, connected.trans _ _ _ connected'⟩
    intro connected
    rcases traced _ _ connected with same | ⟨first, second, isFirst, isSecond, connected⟩
    · exact injective same ▸ .refl one
    · exact injective isFirst ▸ injective isSecond ▸ connected
  · intro connected
    induction connected with
    | rel one two step => exact .rel _ _ ((iff _ _).mpr ⟨one, two, rfl, rfl, step⟩)
    | refl one => exact .refl _
    | symm one two _ ih => exact ih.symm
    | trans one two three _ _ ih ih' => exact ih.trans _ _ _ ih'

end Ketchup
