/-
**Lists as `Vec` and `Iterator` handle them.**

`insertionSort` is Mathlib's; it is stable, as `sort_by` is, and evaluates by structural recursion.
-/

import Mathlib.Data.List.Sort
import Mathlib.Algebra.Order.Floor.Ring
import Mathlib.Data.Rat.Floor

namespace Ketchup

section Lists

variable {A : Type}

/-- `Vec::swap_remove`: the last element takes the place of the one removed. -/
def swapRemove (list : List A) (index : Nat) : List A :=
  match list.getLast? with
  | none => []
  | some last => (list.set index last).dropLast

/-- An element and what `swapRemove` leaves are the list. -/
theorem perm_swapRemove {list : List A} {index : Nat} {element : A}
    (found : list[index]? = some element) : list.Perm (element :: swapRemove list index) := by
  rcases List.eq_nil_or_concat list with rfl | ⟨front, last, rfl⟩
  · cases found
  · have removed : swapRemove (front ++ [last]) index =
        ((front ++ [last]).set index last).dropLast := by
      unfold swapRemove
      rw [List.getLast?_concat]
    rw [List.concat_eq_append] at found ⊢
    obtain ⟨inside, is⟩ := List.getElem?_eq_some_iff.mp found
    rw [removed]
    rcases Nat.lt_or_ge index front.length with before | after
    · rw [List.set_append_left _ _ before, List.dropLast_concat]
      rw [List.getElem_append_left before] at is
      have moved : front.Perm (element :: front.eraseIdx index) := by
        rw [← is]
        exact (List.getElem_cons_eraseIdx_perm before).symm
      have taken : (front.set index last).Perm (last :: front.eraseIdx index) := by
        have long : index < (front.set index last).length := by rwa [List.length_set]
        have perm := List.getElem_cons_eraseIdx_perm long
        rw [List.getElem_set_self, List.eraseIdx_set_eq] at perm
        exact perm.symm
      have swapped : (front ++ [last]).Perm (element :: last :: front.eraseIdx index) :=
        (List.perm_append_singleton last front).trans
          ((moved.cons last).trans (List.Perm.swap element last _))
      exact swapped.trans (taken.symm.cons element)
    · have same : index = front.length := by
        rw [List.length_append, List.length_singleton] at inside
        omega
      subst same
      have isLast : last = element := by
        rw [List.getElem_append_right (Nat.le_refl _)] at is
        simpa using is
      rw [List.set_append_right _ _ (Nat.le_refl _), Nat.sub_self, List.set_cons_zero,
        List.dropLast_concat, ← isLast]
      exact List.perm_append_singleton last front

/-- What a list holds when one element holds more. -/
theorem perm_flatMap_set {B : Type} {holds : A → List B} {list : List A} {position : Nat}
    {old new : A} {extra : List B} (found : list[position]? = some old)
    (more : holds new = holds old ++ extra) :
    ((list.set position new).flatMap holds).Perm (list.flatMap holds ++ extra) := by
  obtain ⟨before, after, rfl, rfl⟩ : ∃ before after, list = before ++ old :: after ∧
      before.length = position := by
    obtain ⟨inside, is⟩ := List.getElem?_eq_some_iff.mp found
    refine ⟨list.take position, list.drop (position + 1), ?_, List.length_take_of_le inside.le⟩
    rw [← is, ← List.drop_eq_getElem_cons inside, List.take_append_drop]
  rw [List.set_append_right _ _ (Nat.le_refl _), Nat.sub_self, List.set_cons_zero,
    List.flatMap_append, List.flatMap_cons, more, List.flatMap_append, List.flatMap_cons,
    List.append_assoc, List.append_assoc, List.append_assoc, List.perm_append_left_iff,
    List.perm_append_left_iff]
  exact List.perm_append_comm

theorem flatMap_filterMap {B C : Type} (choose : A → Option B) (holds : B → List C)
    (list : List A) :
    (list.filterMap choose).flatMap holds = list.flatMap fun next => (choose next).elim [] holds := by
  induction list with
  | nil => rfl
  | cons next rest ih =>
    rw [List.flatMap_cons, ← ih]
    cases is : choose next with
    | none => rw [List.filterMap_cons_none is, Option.elim_none, List.nil_append]
    | some chosen => rw [List.filterMap_cons_some is, List.flatMap_cons, Option.elim_some]

/-- A list part by part, by a key of its elements. -/
theorem perm_flatMap_filter {K : Type} [DecidableEq K] (key : A → K) {keys : List K} (nodup : keys.Nodup)
    {list : List A} (all : ∀ element ∈ list, key element ∈ keys) :
    (keys.flatMap fun each => list.filter fun element => key element = each).Perm list := by
  induction keys generalizing list with
  | nil =>
    have none : list = [] := List.eq_nil_iff_forall_not_mem.mpr fun element inside =>
      absurd (all element inside) List.not_mem_nil
    rw [none]
    exact .nil
  | cons first keys ih =>
    obtain ⟨fresh, nodup⟩ := List.nodup_cons.mp nodup
    have rest := @ih nodup (list.filter fun element => !decide (key element = first)) (by
      intro element inside
      obtain ⟨there, apart⟩ := List.mem_filter.mp inside
      exact (List.mem_cons.mp (all element there)).resolve_left (by simpa using apart))
    have same : (keys.flatMap fun each => (list.filter fun element => !decide (key element = first)).filter
        fun element => key element = each) = keys.flatMap fun each => list.filter fun element => key element = each := by
      refine List.flatMap_congr fun each inside => ?_
      rw [List.filter_filter]
      refine List.filter_congr fun element _ => ?_
      have apart : each ≠ first := fun is => fresh (is ▸ inside)
      by_cases is : key element = each <;> simp [is, apart]
    rw [List.flatMap_cons]
    rw [same] at rest
    exact (rest.append_left _).trans (List.filter_append_perm _ list)

/-- A value put in the place of either of two equal ones. -/
theorem set_perm_set {list : List A} {first second : Nat} {value other : A}
    (one : list[first]? = some value) (two : list[second]? = some value) :
    (list.set first other).Perm (list.set second other) := by
  obtain ⟨inside, rfl⟩ := List.getElem?_eq_some_iff.mp one
  obtain ⟨inside', same⟩ := List.getElem?_eq_some_iff.mp two
  have rests : (list.eraseIdx first).Perm (list.eraseIdx second) := by
    refine (List.perm_cons list[first]).mp ((List.getElem_cons_eraseIdx_perm inside).trans ?_)
    rw [← same]
    exact (List.getElem_cons_eraseIdx_perm inside').symm
  exact (List.set_perm_cons_eraseIdx inside other).trans ((rests.cons other).trans
    (List.set_perm_cons_eraseIdx inside' other).symm)

/-- **What each step of a fold does, its result has**, when no later step undoes it. -/
theorem foldl_each {B : Type} {step : B → A → B} {list : List A} {start : B} (inv : B → Prop)
    (done : A → B → Prop) (holds : inv start)
    (does : ∀ so, ∀ next ∈ list, inv so → inv (step so next) ∧ done next (step so next))
    (keeps : ∀ so, ∀ next ∈ list, inv so → ∀ other, done other so → done other (step so next)) :
    inv (list.foldl step start) ∧ ∀ element ∈ list, done element (list.foldl step start) := by
  induction list generalizing start with
  | nil => exact ⟨holds, fun _ member => absurd member List.not_mem_nil⟩
  | cons next rest ih =>
    have first := List.mem_cons_self (a := next) (l := rest)
    obtain ⟨held, isDone⟩ := does start next first holds
    obtain ⟨all, each⟩ := ih held (fun so other member => does so other (List.mem_cons_of_mem _ member))
      fun so other member => keeps so other (List.mem_cons_of_mem _ member)
    refine ⟨all, List.forall_mem_cons.mpr ⟨?_, each⟩⟩
    rw [List.foldl_cons]
    refine (List.foldlRecOn (motive := fun so => inv so ∧ done next so) rest step ⟨held, isDone⟩
      fun so both other member => ?_).2
    exact ⟨(does so other (List.mem_cons_of_mem _ member) both.1).1,
      keeps so other (List.mem_cons_of_mem _ member) both.1 next both.2⟩

/-- `Iterator::max_by`: the last of the elements none is greater than. -/
def maxBy (atMost : A → A → Bool) : List A → Option A
  | [] => none
  | first :: rest => some (rest.foldl (fun best next => if atMost best next then next else best) first)

theorem maxBy_mem {atMost : A → A → Bool} {list : List A} {greatest : A}
    (is : maxBy atMost list = some greatest) : greatest ∈ list := by
  cases list with
  | nil => cases is
  | cons first rest =>
    have inside : ∀ (rest : List A) (best : A), rest.foldl
        (fun best next => if atMost best next then next else best) best ∈ best :: rest := by
      intro rest
      induction rest with
      | nil => exact fun best => List.mem_cons_self ..
      | cons next rest ih =>
        intro best
        rw [List.foldl_cons]
        split
        · exact List.mem_cons_of_mem _ (ih next)
        · rcases List.mem_cons.mp (ih best) with same | later
          · rw [same]
            exact List.mem_cons_self ..
          · exact List.mem_cons_of_mem _ (List.mem_cons_of_mem _ later)
    rw [← Option.some.inj is]
    exact inside rest first

theorem maxBy_none {atMost : A → A → Bool} {list : List A} :
    maxBy atMost list = none ↔ list = [] := by
  cases list with
  | nil => exact iff_of_true rfl rfl
  | cons => exact ⟨nofun, nofun⟩

end Lists

/-- `f64::round`: halves go away from zero. -/
def roundAway (value : ℚ) : ℤ := if 0 ≤ value then ⌊value + 1 / 2⌋ else ⌈value - 1 / 2⌉

end Ketchup
