/-
**Weights along closed walks.**

A closed walk goes through its points in order and back to the first. What its steps weigh together is
the weight of the walk; a step taken there and back weighs nothing where weights are antisymmetric.

* `closed_joined` — a walk that leaves its first point for another walk and returns, as often as it likes,
  weighs what the walks weigh together.
* `foldl_toggle` — what a walk toggles, as a sum modulo 2.
-/

import Mathlib.Algebra.BigOperators.Group.List.Basic
import Mathlib.Algebra.Field.ZMod

namespace Ketchup

variable {A M : Type}

/-- The steps of a closed walk. -/
def steps (walk : List A) : List (A × A) := walk.zip (walk.rotate 1)

section Weights

variable [AddCommGroup M] (weight : A → A → M)

/-- What the steps of a closed walk weigh. -/
def closed (walk : List A) : M := ((steps walk).map fun step => weight step.1 step.2).sum

/-- What the steps from each point to the next weigh. -/
def along : List A → M
  | [] => 0
  | [_] => 0
  | one :: two :: rest => weight one two + along (two :: rest)

@[simp] theorem along_pair (one two : A) (rest : List A) :
    along weight (one :: two :: rest) = weight one two + along weight (two :: rest) := rfl

theorem along_append (before after : List A) (middle : A) :
    along weight (before ++ middle :: after) =
      along weight (before ++ [middle]) + along weight (middle :: after) := by
  induction before with
  | nil => exact (zero_add _).symm
  | cons first before ih =>
    cases before with
    | nil =>
      show weight first middle + along weight (middle :: after) =
        weight first middle + 0 + along weight (middle :: after)
      rw [add_zero]
    | cons second before =>
      show weight first second + along weight (second :: before ++ middle :: after) =
        weight first second + along weight (second :: before ++ [middle]) + along weight (middle :: after)
      rw [ih, add_assoc]

theorem along_zip (first : A) (rest : List A) (last : A) :
    (((first :: rest).zip (rest ++ [last])).map fun step => weight step.1 step.2).sum =
      along weight (first :: rest ++ [last]) := by
  induction rest generalizing first with
  | nil => simp [along]
  | cons second rest ih =>
    rw [List.cons_append, List.zip_cons_cons, List.map_cons, List.sum_cons, ih second]
    rfl

@[simp] theorem closed_nil : closed weight [] = 0 := rfl

/-- A closed walk ends where it starts. -/
theorem closed_cons (first : A) (rest : List A) :
    closed weight (first :: rest) = along weight (first :: rest ++ [first]) := by
  rw [closed, steps, List.rotate_cons_succ, List.rotate_zero, along_zip]

variable {weight}

/-- The walks after the first, each entered and left through the first point of it. -/
def detours (home : A) (walks : List (A × List A)) : List A :=
  walks.flatMap fun walk => home :: walk.1 :: walk.2 ++ [walk.1]

theorem along_detours (back : ∀ one two, weight one two + weight two one = 0) (home : A)
    (walks : List (A × List A)) :
    along weight (detours home walks ++ [home]) =
      (walks.map fun walk => closed weight (walk.1 :: walk.2)).sum := by
  induction walks with
  | nil => rfl
  | cons walk walks ih =>
    obtain ⟨first, rest⟩ := walk
    -- What is left of the detours starts at home, wherever they end.
    obtain ⟨after, is⟩ : ∃ after, detours home walks ++ [home] = home :: after := by
      cases walks with
      | nil => exact ⟨[], rfl⟩
      | cons walk walks => exact ⟨_, rfl⟩
    have whole : detours home ((first, rest) :: walks) ++ [home] =
        home :: (first :: rest) ++ first :: (detours home walks ++ [home]) := by
      simp [detours]
    rw [whole, along_append, is, along_pair, ← is, ih, List.cons_append, List.cons_append, along_pair,
      List.map_cons, List.sum_cons, closed_cons]
    rw [add_add_add_comm, back, zero_add]
    rfl

/-- **A walk with detours weighs what the walks weigh.** -/
theorem closed_joined (back : ∀ one two, weight one two + weight two one = 0) (home : A) (rest : List A)
    (walks : List (A × List A)) :
    closed weight (home :: rest ++ detours home walks) =
      closed weight (home :: rest) + (walks.map fun walk => closed weight (walk.1 :: walk.2)).sum := by
  rw [← along_detours back home walks, List.cons_append, closed_cons, closed_cons, List.cons_append, List.append_assoc]
  cases walks with
  | nil => exact (add_zero _).symm
  | cons walk walks =>
    show along weight ((home :: rest) ++ home :: (walk.1 :: walk.2 ++ [walk.1] ++ detours home walks ++ [home])) = _
    rw [along_append]
    simp [detours]

end Weights

/-- Walks with a first point, by it. -/
theorem exists_headed {walks : List (List A)} (nonempty : ∀ walk ∈ walks, walk ≠ []) :
    ∃ headed : List (A × List A), walks = headed.map fun walk => walk.1 :: walk.2 := by
  induction walks with
  | nil => exact ⟨[], rfl⟩
  | cons walk walks ih =>
    obtain ⟨headed, rfl⟩ := ih fun other among => nonempty other (List.mem_cons_of_mem walk among)
    cases walk with
    | nil => exact absurd rfl (nonempty [] List.mem_cons_self)
    | cons first rest => exact ⟨(first, rest) :: headed, rfl⟩

/-- What is toggled at some elements, counted modulo 2. -/
theorem foldl_toggle (list : List A) (hit : A → Bool) (start : Bool) :
    ((list.foldl (fun inside element => if hit element then !inside else inside) start).toNat : ZMod 2) =
      start.toNat + (list.map fun element => ((hit element).toNat : ZMod 2)).sum := by
  induction list generalizing start with
  | nil => exact (add_zero _).symm
  | cons element list ih =>
    rw [List.foldl_cons, ih, List.map_cons, List.sum_cons, ← add_assoc]
    congr 1
    cases hit element <;> cases start <;> rfl

theorem countP_parity (list : List A) (hit : A → Bool) :
    ((list.filter hit).length : ZMod 2) = (list.map fun element => ((hit element).toNat : ZMod 2)).sum := by
  induction list with
  | nil => rfl
  | cons element list ih =>
    rw [List.map_cons, List.sum_cons, ← ih, List.filter_cons]
    cases hit element
    · simp
    · simp [add_comm]

end Ketchup
