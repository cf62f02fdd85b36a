/-
**Arcs of a circle as intervals of a line.**

A run from one number to another covers the angles that differ from a number of it by whole turns.
Runs that follow one another within less than a turn have no angle in common (`apart_of_separated`) and
leave one out (`exists_uncovered`); a run of a whole turn covers every angle (`onCircle_of_turn_le`).
-/

import Mathlib.Algebra.Order.Archimedean.Basic
import Mathlib.Algebra.Order.Field.Basic
import Mathlib.Data.List.Pairwise
import Mathlib.Tactic.Linarith
import Mathlib.Tactic.Ring

set_option linter.unusedSectionVars false

namespace Ketchup

variable {K : Type*} [Field K] [LinearOrder K] [IsStrictOrderedRing K] {turn : K}

/-- An angle that a run covers. -/
def OnCircle (turn : K) (run : K × K) (angle : K) : Prop :=
  ∃ turns : ℤ, run.1 ≤ angle + turns * turn ∧ angle + turns * turn ≤ run.2

/-- Runs one after the other, none touching the next. -/
def Separated (runs : List (K × K)) : Prop := runs.Pairwise fun run next => run.2 < next.1

/-- A separated run that starts before another ends before it. -/
theorem Separated.before {runs : List (K × K)} (separated : Separated runs) (forward : ∀ run ∈ runs, run.1 ≤ run.2)
    {first second : K × K} (one : first ∈ runs) (two : second ∈ runs) (less : first.1 < second.1) :
    first.2 < second.1 := by
  induction runs with
  | nil => simp at one
  | cons run runs ih =>
    obtain ⟨after, separated⟩ := List.pairwise_cons.mp separated
    have order := forward run List.mem_cons_self
    rcases List.mem_cons.mp one with rfl | early
    · rcases List.mem_cons.mp two with rfl | late
      · exact absurd less (lt_irrefl _)
      · exact after second late
    · rcases List.mem_cons.mp two with rfl | late
      · have := after first early
        exact absurd less (order.trans this.le).not_gt
      · exact ih separated (fun run inside => forward run (List.mem_cons_of_mem _ inside)) early late

theorem onCircle_of_mem {run : K × K} {angle : K} (low : run.1 ≤ angle) (high : angle ≤ run.2) :
    OnCircle turn run angle := ⟨0, by simpa using low, by simpa using high⟩

theorem onCircle_shift {run : K × K} {angle : K} :
    OnCircle turn (run.1 + turn, run.2 + turn) angle ↔ OnCircle turn run angle := by
  constructor
  · rintro ⟨turns, low, high⟩
    refine ⟨turns - 1, ?_, ?_⟩
    · push_cast
      linarith
    · push_cast
      linarith
  · rintro ⟨turns, low, high⟩
    refine ⟨turns + 1, ?_, ?_⟩
    · push_cast
      linarith
    · push_cast
      linarith

theorem OnCircle.mono {run wider : K × K} {angle : K} (on : OnCircle turn run angle) (low : wider.1 ≤ run.1)
    (high : run.2 ≤ wider.2) : OnCircle turn wider angle := by
  obtain ⟨turns, start, upto⟩ := on
  exact ⟨turns, low.trans start, upto.trans high⟩

/-- **A run of a whole turn covers every angle.** -/
theorem onCircle_of_turn_le [Archimedean K] (pos : 0 < turn) {run : K × K} (whole : run.1 + turn ≤ run.2) (angle : K) :
    OnCircle turn run angle := by
  obtain ⟨turns, ⟨low, high⟩, -⟩ := existsUnique_add_zsmul_mem_Ico pos angle run.1
  rw [zsmul_eq_mul] at low high
  exact ⟨turns, low, (high.trans_le whole).le⟩

/-- Numbers less than a turn apart differ by no whole turns. -/
theorem turns_eq_of_near (pos : 0 < turn) {first second : ℤ} {angle base : K} (low₁ : base ≤ angle + first * turn)
    (high₁ : angle + first * turn < base + turn) (low₂ : base ≤ angle + second * turn)
    (high₂ : angle + second * turn < base + turn) : first = second := by
  have less : ∀ {one two : ℤ}, base ≤ angle + one * turn → angle + two * turn < base + turn → two ≤ one := by
    intro one two low high
    by_contra more
    have step : (one : K) + 1 ≤ two := by exact_mod_cast Int.add_one_le_of_lt (not_le.mp more)
    have := mul_le_mul_of_nonneg_right step pos.le
    linarith
  exact le_antisymm (less low₂ high₁) (less low₁ high₂)

/-- **Separated runs within less than a turn** have no angle in common. -/
theorem apart_of_separated (pos : 0 < turn) {base : K} {runs : List (K × K)} (separated : Separated runs)
    (within : ∀ run ∈ runs, base ≤ run.1 ∧ run.2 < base + turn) :
    runs.Pairwise fun run next => ∀ angle, ¬(OnCircle turn run angle ∧ OnCircle turn next angle) := by
  refine separated.imp_of_mem ?_
  rintro run next here there before angle ⟨⟨first, low₁, high₁⟩, second, low₂, high₂⟩
  obtain ⟨from₁, upto₁⟩ := within run here
  obtain ⟨from₂, upto₂⟩ := within next there
  have same := turns_eq_of_near pos (from₁.trans low₁) (high₁.trans_lt upto₁) (from₂.trans low₂) (high₂.trans_lt upto₂)
  rw [same] at high₁
  linarith

/-- **Runs within less than a turn** leave an angle out. -/
theorem exists_uncovered (pos : 0 < turn) {base top : K} (less : top < base + turn) {runs : List (K × K)}
    (within : ∀ run ∈ runs, base ≤ run.1 ∧ run.2 ≤ top) : ∃ angle, ∀ run ∈ runs, ¬OnCircle turn run angle := by
  by_cases empty : top < base
  · -- no run is within these bounds
    refine ⟨base, ?_⟩
    rintro run inside ⟨turns, low, high⟩
    obtain ⟨start, upto⟩ := within run inside
    linarith
  · refine ⟨(top + (base + turn)) / 2, ?_⟩
    rintro run inside ⟨turns, low, high⟩
    obtain ⟨start, upto⟩ := within run inside
    have same : turns = 0 := by
      refine @turns_eq_of_near K _ _ _ turn pos turns 0 ((top + (base + turn)) / 2) base ?_ ?_ ?_ ?_
      · linarith
      · linarith
      · push_cast
        linarith
      · push_cast
        linarith
    subst same
    push_cast at high
    linarith

end Ketchup
