/-
**The arcs a drawing shows of a circle.**

`merge` makes unbroken runs of intervals of a circle: the intervals in the order of their starts, each
that the run before it reaches put to that run, and at the end the first run to the last if the last
goes round to it. A run of a whole turn is the full circle.

* `runsFrom_separated`, `runsFrom_cover` — as intervals of a line the runs are right.
* `closed_cover` — so they are once the last has taken in the first.
* `merge_right_iff` — on the circle they are right unless the last run goes round to a second run too, which
  stays as it is then.
-/

import Ketchup.Library.Turns
import Mathlib.Analysis.SpecialFunctions.Trigonometric.Basic
import Mathlib.Data.List.Sort

set_option linter.unusedSectionVars false

namespace Ketchup.DrawingExport

variable {K : Type*} [Field K] [LinearOrder K] [IsStrictOrderedRing K]

/-- The loop over the intervals after the first, the last run at hand. -/
def runsFrom (gap : K) (last : K × K) : List (K × K) → List (K × K)
  | [] => [last]
  | (start, span) :: intervals =>
    if start ≤ last.2 + gap then runsFrom gap (last.1, max last.2 (start + span)) intervals
    else last :: runsFrom gap (start, start + span) intervals

/-- The runs of sorted intervals, from start to end. -/
def runs (gap : K) : List (K × K) → List (K × K)
  | [] => []
  | (start, span) :: intervals => runsFrom gap (start, start + span) intervals

/-- The first run put to the last, if the last goes round to it. -/
def closed (turn gap : K) : List (K × K) → List (K × K)
  | first :: second :: rest =>
    let last := (second :: rest).getLast (List.cons_ne_nil _ _)
    if first.1 + turn ≤ last.2 + gap then (second :: rest).dropLast ++ [(last.1, max last.2 (first.2 + turn))]
    else first :: second :: rest
  | runs => runs

/-- A run as it is shown: its start and its span, or the full circle. -/
def shown (turn gap : K) (run : K × K) : K × K :=
  if turn ≤ run.2 - run.1 + gap then (0, turn) else (run.1, run.2 - run.1)

/-- Unbroken runs of the intervals. -/
def merge (turn gap : K) (intervals : List (K × K)) : List (K × K) :=
  (closed turn gap (runs gap (intervals.mergeSort fun left right => left.1 ≤ right.1))).map (shown turn gap)

/-! ### On a line -/

/-- Where an interval of a start and a span lies. -/
def extent (interval : K × K) : K × K := (interval.1, interval.1 + interval.2)

theorem runsFrom_head (last : K × K) (intervals : List (K × K)) :
    ∃ upto rest, runsFrom 0 last intervals = (last.1, upto) :: rest := by
  induction intervals generalizing last with
  | nil => exact ⟨last.2, [], rfl⟩
  | cons interval intervals ih =>
    unfold runsFrom
    split
    · exact ih _
    · exact ⟨last.2, _, rfl⟩

/-- **The runs do not touch**, and each has its start before its end. -/
theorem runsFrom_separated {last : K × K} {intervals : List (K × K)} (forward : last.1 ≤ last.2)
    (sorted : intervals.Pairwise fun left right => left.1 ≤ right.1) (spans : ∀ interval ∈ intervals, 0 ≤ interval.2) :
    Separated (runsFrom 0 last intervals) ∧ ∀ run ∈ runsFrom 0 last intervals, last.1 ≤ run.1 ∧ run.1 ≤ run.2 := by
  induction intervals generalizing last with
  | nil => simp [runsFrom, Separated, forward]
  | cons interval intervals ih =>
    obtain ⟨start, span⟩ := interval
    obtain ⟨first, sorted⟩ := List.pairwise_cons.mp sorted
    have nonneg : 0 ≤ span := spans _ List.mem_cons_self
    have spans := fun interval inside => spans interval (List.mem_cons_of_mem _ inside)
    unfold runsFrom
    split
    · exact ih (forward.trans (le_max_left _ _)) sorted spans
    next beyond =>
      rw [add_zero, not_le] at beyond
      have after : (start, start + span).1 ≤ (start, start + span).2 := by
        simpa using nonneg
      obtain ⟨separated, runs⟩ := ih after sorted spans
      refine ⟨List.pairwise_cons.mpr ⟨fun run inside => beyond.trans_le (runs run inside).1, separated⟩, ?_⟩
      intro run inside
      rcases List.mem_cons.mp inside with rfl | inside
      · exact ⟨le_rfl, forward⟩
      · exact ⟨forward.trans (beyond.le.trans (runs run inside).1), (runs run inside).2⟩

/-- Runs that cover what intervals do, and are made of their starts and ends. -/
structure Cover (intervals runs : List (K × K)) : Prop where
  inside : ∀ interval ∈ intervals, ∃ run ∈ runs, run.1 ≤ interval.1 ∧ interval.2 ≤ run.2
  starts : ∀ run ∈ runs, ∃ interval ∈ intervals, interval.1 = run.1
  ends : ∀ run ∈ runs, ∃ interval ∈ intervals, interval.2 = run.2
  filled : ∀ run ∈ runs, ∀ place, run.1 < place → place ≤ run.2 →
    ∃ interval ∈ intervals, interval.1 < place ∧ place ≤ interval.2

theorem Cover.single (interval : K × K) : Cover [interval] [interval] where
  inside := by simp
  starts := by simp
  ends := by simp
  filled := by simp only [List.mem_singleton, forall_eq, exists_eq_left]; exact fun place low high => ⟨low, high⟩

theorem Cover.cons {intervals runs : List (K × K)} (cover : Cover intervals runs) (interval : K × K) :
    Cover (interval :: intervals) (interval :: runs) where
  inside := by
    simp only [List.mem_cons, forall_eq_or_imp, exists_eq_or_imp]
    exact ⟨Or.inl ⟨le_rfl, le_rfl⟩, fun other there => Or.inr (cover.inside other there)⟩
  starts := by
    simp only [List.mem_cons, forall_eq_or_imp, exists_eq_or_imp]
    exact ⟨by simp, fun run there => Or.inr (cover.starts run there)⟩
  ends := by
    simp only [List.mem_cons, forall_eq_or_imp, exists_eq_or_imp]
    exact ⟨by simp, fun run there => Or.inr (cover.ends run there)⟩
  filled := by
    simp only [List.mem_cons, forall_eq_or_imp, exists_eq_or_imp]
    exact ⟨fun place low high => Or.inl ⟨low, high⟩, fun run there place low high =>
      Or.inr (cover.filled run there place low high)⟩

/-- Two intervals for the one they make. -/
theorem Cover.apart {intervals runs : List (K × K)} {first second : K × K} (order : first.1 ≤ second.1)
    (touch : second.1 ≤ first.2) (cover : Cover ((first.1, max first.2 second.2) :: intervals) runs) :
    Cover (first :: second :: intervals) runs where
  inside := by
    obtain ⟨wide, there, low, high⟩ := cover.inside _ List.mem_cons_self
    rintro interval (_ | ⟨_, _ | ⟨_, inside⟩⟩)
    · exact ⟨wide, there, low, (le_max_left _ _).trans high⟩
    · exact ⟨wide, there, low.trans order, (le_max_right _ _).trans high⟩
    · exact cover.inside interval (List.mem_cons_of_mem _ inside)
  starts run there := by
    obtain ⟨interval, inside, same⟩ := cover.starts run there
    rcases List.mem_cons.mp inside with rfl | inside
    · exact ⟨first, by simp, same⟩
    · exact ⟨interval, by simp [inside], same⟩
  ends run there := by
    obtain ⟨interval, inside, same⟩ := cover.ends run there
    rcases List.mem_cons.mp inside with rfl | inside
    · rcases max_choice first.2 second.2 with is | is
      · exact ⟨first, by simp, is.symm.trans same⟩
      · exact ⟨second, by simp, is.symm.trans same⟩
    · exact ⟨interval, by simp [inside], same⟩
  filled run there place low high := by
    obtain ⟨interval, inside, start, upto⟩ := cover.filled run there place low high
    rcases List.mem_cons.mp inside with rfl | inside
    · by_cases before : place ≤ first.2
      · exact ⟨first, by simp, start, before⟩
      · refine ⟨second, by simp, touch.trans_lt (not_le.mp before), ?_⟩
        rcases le_max_iff.mp upto with upto | upto
        · exact absurd upto before
        · exact upto
    · exact ⟨interval, by simp [inside], start, upto⟩

/-- **The runs cover what the intervals cover.** -/
theorem runsFrom_cover {last : K × K} {intervals : List (K × K)}
    (sorted : intervals.Pairwise fun left right => left.1 ≤ right.1) (after : ∀ interval ∈ intervals, last.1 ≤ interval.1) :
    Cover (last :: intervals.map extent) (runsFrom 0 last intervals) := by
  induction intervals generalizing last with
  | nil => exact .single last
  | cons interval intervals ih =>
    obtain ⟨start, span⟩ := interval
    obtain ⟨first, sorted⟩ := List.pairwise_cons.mp sorted
    have later : last.1 ≤ start := after _ List.mem_cons_self
    unfold runsFrom
    split
    next touch =>
      rw [add_zero] at touch
      refine .apart later touch (ih sorted fun interval inside => ?_)
      exact after interval (List.mem_cons_of_mem _ inside)
    · have rest : Cover ((start, start + span) :: intervals.map extent) (runsFrom 0 (start, start + span) intervals) :=
        ih sorted first
      exact rest.cons last

/-- **The runs of intervals**: they cover what the intervals cover, none touching the next. -/
structure RunsOf (intervals runs : List (K × K)) : Prop where
  cover : Cover (intervals.map extent) runs
  separated : Separated runs
  forward : ∀ run ∈ runs, run.1 ≤ run.2

theorem runs_spec {intervals : List (K × K)} (spans : ∀ interval ∈ intervals, 0 ≤ interval.2) :
    RunsOf intervals (runs 0 (intervals.mergeSort fun left right => left.1 ≤ right.1)) := by
  have sorted : (intervals.mergeSort fun left right => left.1 ≤ right.1).Pairwise fun left right => left.1 ≤ right.1 := by
    have := @List.pairwise_mergeSort (K × K) (fun left right => decide (left.1 ≤ right.1))
      (fun one two three first second => by simp only [decide_eq_true_eq] at *; exact first.trans second)
      (fun one two => by simpa using le_total one.1 two.1) intervals
    simpa using this
  have same := List.mergeSort_perm intervals fun left right => decide (left.1 ≤ right.1)
  have covered : RunsOf (intervals.mergeSort fun left right => left.1 ≤ right.1)
      (runs 0 (intervals.mergeSort fun left right => left.1 ≤ right.1)) := by
    generalize intervals.mergeSort (fun left right => decide (left.1 ≤ right.1)) = ordered at sorted same
    cases ordered with
    | nil => exact ⟨⟨by simp, by simp [runs], by simp [runs], by simp [runs]⟩, by simp [runs, Separated], by simp [runs]⟩
    | cons interval ordered =>
      obtain ⟨start, span⟩ := interval
      obtain ⟨first, sorted⟩ := List.pairwise_cons.mp sorted
      have nonneg := fun interval inside => spans interval (same.subset inside)
      have forward : (start, start + span).1 ≤ (start, start + span).2 := by
        simpa using nonneg _ List.mem_cons_self
      obtain ⟨separated, order⟩ := runsFrom_separated forward sorted fun interval inside =>
        nonneg interval (List.mem_cons_of_mem _ inside)
      exact ⟨runsFrom_cover sorted first, separated, fun run inside => (order run inside).2⟩
  refine ⟨?_, covered.separated, covered.forward⟩
  have extents := same.map extent
  have cover := covered.cover
  refine ⟨fun interval inside => cover.inside interval (extents.mem_iff.mpr inside), fun run there => ?_,
    fun run there => ?_, fun run there place low high => ?_⟩
  · obtain ⟨interval, inside, is⟩ := cover.starts run there
    exact ⟨interval, extents.mem_iff.mp inside, is⟩
  · obtain ⟨interval, inside, is⟩ := cover.ends run there
    exact ⟨interval, extents.mem_iff.mp inside, is⟩
  · obtain ⟨interval, inside, is⟩ := cover.filled run there place low high
    exact ⟨interval, extents.mem_iff.mp inside, is⟩

/-! ### On a circle -/

variable {turn : K}

theorem Cover.on {intervals runs : List (K × K)} (cover : Cover intervals runs)
    (forward : ∀ interval ∈ intervals, interval.1 ≤ interval.2) (angle : K) :
    (∃ run ∈ runs, OnCircle turn run angle) ↔ ∃ interval ∈ intervals, OnCircle turn interval angle := by
  constructor
  · rintro ⟨run, there, turns, low, high⟩
    rcases low.eq_or_lt with start | low
    · obtain ⟨interval, inside, is⟩ := cover.starts run there
      exact ⟨interval, inside, turns, by rw [is, start], by rw [← start, ← is]; exact forward interval inside⟩
    · obtain ⟨interval, inside, low, high⟩ := cover.filled run there _ low high
      exact ⟨interval, inside, turns, low.le, high⟩
  · rintro ⟨interval, inside, on⟩
    obtain ⟨run, there, low, high⟩ := cover.inside interval inside
    exact ⟨run, there, on.mono low high⟩

theorem on_shown [Archimedean K] (pos : 0 < turn) (run : K × K) (angle : K) :
    OnCircle turn (extent (shown turn 0 run)) angle ↔ OnCircle turn run angle := by
  unfold shown
  rw [add_zero]
  split
  next whole =>
    refine iff_of_true ?_ (onCircle_of_turn_le pos (by linarith) angle)
    exact onCircle_of_turn_le pos (by simp [extent]) angle
  next => simp [extent]

/-- The last run with the first one put to it. -/
def joined (turn : K) (first last : K × K) : K × K := (last.1, max last.2 (first.2 + turn))

theorem on_joined {first last : K × K} (reach : first.1 + turn ≤ last.2) (before : last.1 ≤ first.1 + turn)
    (angle : K) : OnCircle turn (joined turn first last) angle ↔
      OnCircle turn first angle ∨ OnCircle turn last angle := by
  constructor
  · rintro ⟨turns, low, high⟩
    rcases le_max_iff.mp high with upto | upto
    · exact Or.inr ⟨turns, low, upto⟩
    · by_cases start : first.1 + turn ≤ angle + turns * turn
      · exact Or.inl (onCircle_shift.mp ⟨turns, start, upto⟩)
      · exact Or.inr ⟨turns, low, (not_le.mp start).le.trans reach⟩
  · rintro (on | on)
    · exact (onCircle_shift.mpr on).mono before (le_max_right _ _)
    · exact on.mono le_rfl (le_max_left _ _)

/-- Lists of two runs or more, by their first and their last. -/
theorem closed_ends (first last : K × K) (middle : List (K × K)) : closed turn 0 (first :: (middle ++ [last])) =
    if first.1 + turn ≤ last.2 then middle ++ [joined turn first last] else first :: (middle ++ [last]) := by
  cases middle with
  | nil => simp [closed, joined]
  | cons second middle => simp [closed, joined, List.getLast_cons, List.dropLast_cons_of_ne_nil]

/-- **The last run goes round to no run but the first.** -/
def Spared (turn : K) : List (K × K) → Prop
  | _ :: second :: third :: rest => ((third :: rest).getLast (List.cons_ne_nil _ _)).2 < second.1 + turn
  | _ => True

theorem spared_ends (first second last : K × K) (middle : List (K × K)) :
    Spared turn (first :: second :: (middle ++ [last])) ↔ last.2 < second.1 + turn := by
  cases middle with
  | nil => simp [Spared]
  | cons third middle => simp [Spared, List.getLast_cons]

/-- **What the runs of a circle are to be**: they cover what the intervals cover, no two have an angle in
common, none covers an angle twice, and there is the full circle if and only if the intervals cover it. -/
structure Right (turn : K) (intervals merged : List (K × K)) : Prop where
  covers : ∀ angle, (∃ run ∈ merged, OnCircle turn (extent run) angle) ↔
    ∃ interval ∈ intervals, OnCircle turn (extent interval) angle
  apart : merged.Pairwise fun run next =>
    ∀ angle, ¬(OnCircle turn (extent run) angle ∧ OnCircle turn (extent next) angle)
  once : ∀ run ∈ merged, 0 ≤ run.2 ∧ run.2 ≤ turn
  full : merged = [(0, turn)] ↔ ∀ angle, ∃ interval ∈ intervals, OnCircle turn (extent interval) angle

/-- The runs at the end are a whole circle, or lie apart within less than a turn. -/
inductive Closed (turn : K) : List (K × K) → Prop
  | whole (run : K × K) (around : turn ≤ run.2 - run.1) : Closed turn [run]
  | apart {runs : List (K × K)} (base top : K) (less : top < base + turn)
      (within : ∀ run ∈ runs, base ≤ run.1 ∧ run.2 ≤ top) (separated : Separated runs) : Closed turn runs

theorem shown_eq_whole {run : K × K} (is : shown turn 0 run = (0, turn)) : turn ≤ run.2 - run.1 := by
  unfold shown at is
  rw [add_zero] at is
  split at is
  next whole => exact whole
  next => exact (congrArg Prod.snd is).ge

/-- **Runs at the end that cover what the intervals cover** are right. -/
theorem right_of_closed [Archimedean K] (pos : 0 < turn) {intervals last : List (K × K)} (closed : Closed turn last)
    (forward : ∀ run ∈ last, run.1 ≤ run.2) (covers : ∀ angle, (∃ run ∈ last, OnCircle turn run angle) ↔
      ∃ interval ∈ intervals, OnCircle turn (extent interval) angle) :
    Right turn intervals (last.map (shown turn 0)) where
  covers angle := by
    rw [← covers angle]
    simp only [List.mem_map, exists_exists_and_eq_and, on_shown pos]
  apart := by
    rw [List.pairwise_map]
    simp only [on_shown pos]
    cases closed with
    | whole run around => exact List.pairwise_singleton _ _
    | apart base top less within separated =>
      exact apart_of_separated pos separated fun run inside =>
        ⟨(within run inside).1, (within run inside).2.trans_lt less⟩
  once := by
    intro run inside
    obtain ⟨own, there, rfl⟩ := List.mem_map.mp inside
    have order := forward own there
    unfold shown
    split
    · exact ⟨pos.le, le_rfl⟩
    next short =>
      rw [add_zero, not_le] at short
      exact ⟨sub_nonneg.mpr order, short.le⟩
  full := by
    simp only [← covers]
    cases closed with
    | whole run around =>
      refine iff_of_true ?_ fun angle => ⟨run, List.mem_singleton_self _, onCircle_of_turn_le pos (by linarith) angle⟩
      rw [List.map_singleton, shown, if_pos (by rwa [add_zero])]
    | apart base top less within separated =>
      refine iff_of_false ?_ ?_
      · intro is
        obtain ⟨run, rfl, whole⟩ := List.map_eq_singleton_iff.mp is
        have bounds := within run (List.mem_singleton_self _)
        have := shown_eq_whole whole
        linarith
      · intro all
        obtain ⟨angle, without⟩ := exists_uncovered pos less within
        obtain ⟨run, inside, on⟩ := all angle
        exact without run inside on

theorem exists_ends {runs : List (K × K)} (many : 2 ≤ runs.length) :
    ∃ first middle last, runs = first :: (middle ++ [last]) := by
  obtain ⟨first, rest, rfl⟩ := List.exists_cons_of_length_pos (Nat.lt_of_lt_of_le Nat.zero_lt_two many)
  have notEmpty : rest ≠ [] := by
    rintro rfl
    simp at many
  exact ⟨first, rest.dropLast, rest.getLast notEmpty, by rw [List.dropLast_append_getLast]⟩

/-- Each run lies between the start of the first and the end of the last. -/
theorem within_ends {runs middle : List (K × K)} {first last : K × K} (separated : Separated runs)
    (forward : ∀ run ∈ runs, run.1 ≤ run.2) (is : runs = first :: (middle ++ [last])) :
    ∀ run ∈ runs, first.1 ≤ run.1 ∧ run.2 ≤ last.2 := by
  subst is
  obtain ⟨afterFirst, rest⟩ := List.pairwise_cons.mp separated
  obtain ⟨-, -, beforeLast⟩ := List.pairwise_append.mp rest
  have order := forward first List.mem_cons_self
  have orderLast := forward last (by simp)
  intro run inside
  rcases List.mem_cons.mp inside with rfl | inside
  · exact ⟨le_rfl, (afterFirst last (by simp)).le.trans orderLast⟩
  · refine ⟨order.trans (afterFirst run inside).le, ?_⟩
    rcases List.mem_append.mp inside with inside | inside
    · exact (beforeLast run inside last (List.mem_singleton_self _)).le.trans orderLast
    · rw [List.mem_singleton.mp inside]

section

variable {runs : List (K × K)} (separated : Separated runs) (forward : ∀ run ∈ runs, run.1 ≤ run.2)
  (starts : ∀ run ∈ runs, 0 ≤ run.1 ∧ run.1 < turn)
include separated forward starts

/-- **The closing step keeps what is covered.** -/
theorem closed_cover (angle : K) :
    (∃ run ∈ closed turn 0 runs, OnCircle turn run angle) ↔ ∃ run ∈ runs, OnCircle turn run angle := by
  by_cases many : 2 ≤ runs.length
  · obtain ⟨first, middle, last, rfl⟩ := exists_ends many
    rw [closed_ends]
    split
    next reach =>
      have before : last.1 ≤ first.1 + turn := by
        have := (starts first List.mem_cons_self).1
        have := (starts last (by simp)).2
        linarith
      simp only [List.mem_append, List.mem_cons, List.not_mem_nil, or_false, or_and_right, exists_or, exists_eq_left,
        on_joined reach before]
      exact or_left_comm
    next => rfl
  · rcases runs with _ | ⟨first, _ | ⟨second, rest⟩⟩
    · rfl
    · rfl
    · simp at many

theorem closed_forward : ∀ run ∈ closed turn 0 runs, run.1 ≤ run.2 := by
  by_cases many : 2 ≤ runs.length
  · obtain ⟨first, middle, last, rfl⟩ := exists_ends many
    rw [closed_ends]
    split
    next =>
      intro run inside
      rcases List.mem_append.mp inside with inside | inside
      · exact forward run (by simp [inside])
      · rw [List.mem_singleton.mp inside]
        exact (forward last (by simp)).trans (le_max_left _ _)
    next => exact forward
  · rcases runs with _ | ⟨first, _ | ⟨second, rest⟩⟩
    · exact forward
    · exact forward
    · simp at many

/-- **Where the last run goes round to no run but the first**, the runs at the end are closed. -/
theorem closed_of_spared (pos : 0 < turn) (spared : Spared turn runs) : Closed turn (closed turn 0 runs) := by
  have alone : ∀ run : K × K, Closed turn [run] := by
    intro run
    by_cases around : turn ≤ run.2 - run.1
    · exact .whole run around
    · exact .apart run.1 run.2 (by linarith) (by simp) (List.pairwise_singleton _ _)
  by_cases many : 2 ≤ runs.length
  · obtain ⟨first, middle, last, is⟩ := exists_ends many
    have within := within_ends separated forward is
    subst is
    rw [closed_ends]
    split
    next reach =>
      cases middle with
      | nil => exact alone _
      | cons second middle =>
        obtain ⟨afterFirst, rest⟩ := List.pairwise_cons.mp separated
        have within := within_ends rest (fun run inside => forward run (List.mem_cons_of_mem _ inside))
          (List.cons_append ..)
        obtain ⟨sorted, -, beforeLast⟩ := List.pairwise_append.mp rest
        have before : first.2 < second.1 := afterFirst second List.mem_cons_self
        have spared : last.2 < second.1 + turn := (spared_ends first second last middle).mp spared
        refine .apart second.1 (joined turn first last).2 (max_lt spared (by linarith)) ?_ ?_
        · intro run inside
          rcases List.mem_append.mp inside with inside | inside
          · have bounds := within run (List.mem_append_left _ inside)
            exact ⟨bounds.1, bounds.2.trans (le_max_left _ _)⟩
          · rw [List.mem_singleton.mp inside]
            exact ⟨(within last (by simp)).1, le_rfl⟩
        · refine List.pairwise_append.mpr ⟨sorted, List.pairwise_singleton _ _, fun run inside other there => ?_⟩
          rw [List.mem_singleton.mp there]
          exact beforeLast run inside last (List.mem_singleton_self _)
    next short => exact .apart first.1 last.2 (not_le.mp short) within separated
  · rcases runs with _ | ⟨first, _ | ⟨second, rest⟩⟩
    · exact .apart 0 0 (by linarith) (by simp [closed]) List.Pairwise.nil
    · exact alone first
    · simp at many

/-- **Where it goes round to a second run**, the last run and that have an angle in common. -/
theorem touching_of_not_spared (unspared : ¬Spared turn runs) :
    ¬(closed turn 0 runs).Pairwise fun run next => ∀ angle, ¬(OnCircle turn run angle ∧ OnCircle turn next angle) := by
  rcases runs with _ | ⟨first, _ | ⟨second, rest⟩⟩
  · exact absurd trivial unspared
  · exact absurd trivial unspared
  · obtain rfl | ⟨middle, last, rfl⟩ := List.eq_nil_or_concat' rest
    · exact absurd trivial unspared
    · rw [spared_ends, not_lt] at unspared
      have order := (forward first List.mem_cons_self).trans
        ((List.pairwise_cons.mp separated).1 second List.mem_cons_self).le
      have starting := starts second (by simp)
      have ending := starts last (by simp)
      rw [← List.cons_append, closed_ends, if_pos (by linarith)]
      intro apart
      have both := (List.pairwise_append.mp apart).2.2 second List.mem_cons_self _ (List.mem_singleton_self _)
      refine both second.1 ⟨onCircle_of_mem le_rfl (forward second (by simp)), 1, ?_, ?_⟩
      · push_cast
        unfold joined
        linarith
      · push_cast
        rw [one_mul]
        exact unspared.trans (le_max_left _ _)

end

/-! ### In terms of the intervals -/

/-- An interval that none before it reaches. -/
def Begins (intervals : List (K × K)) (interval : K × K) : Prop :=
  ∀ other ∈ intervals, other.1 < interval.1 → other.1 + other.2 < interval.1

/-- **No interval goes round to a run** that is neither the first nor the last. -/
def ReachesNoInner (turn : K) (intervals : List (K × K)) : Prop :=
  ∀ inner ∈ intervals, Begins intervals inner → (∃ before ∈ intervals, before.1 < inner.1) →
    (∃ after ∈ intervals, Begins intervals after ∧ inner.1 < after.1) →
    ∀ interval ∈ intervals, interval.1 + interval.2 < inner.1 + turn

/-- A run starts where an interval begins. -/
theorem RunsOf.begins {intervals runs : List (K × K)} (spec : RunsOf intervals runs)
    (spans : ∀ interval ∈ intervals, 0 ≤ interval.2) (start : K) :
    (∃ run ∈ runs, run.1 = start) ↔ ∃ interval ∈ intervals, interval.1 = start ∧ Begins intervals interval := by
  constructor
  · rintro ⟨run, there, rfl⟩
    obtain ⟨own, listed, is⟩ := spec.cover.starts run there
    obtain ⟨interval, inside, rfl⟩ := List.mem_map.mp listed
    have is : interval.1 = run.1 := is
    refine ⟨interval, inside, is, fun other also before => ?_⟩
    obtain ⟨wide, wider, low, high⟩ := spec.cover.inside (extent other) (List.mem_map_of_mem also)
    have low : wide.1 ≤ other.1 := low
    rw [is] at before ⊢
    exact lt_of_le_of_lt high (spec.separated.before spec.forward wider there (low.trans_lt before))
  · rintro ⟨interval, inside, rfl, begins⟩
    obtain ⟨wide, there, low, high⟩ := spec.cover.inside (extent interval) (List.mem_map_of_mem inside)
    refine ⟨wide, there, le_antisymm low ?_⟩
    by_contra later
    have span := spans interval inside
    have ends : interval.1 ≤ wide.2 := by
      have high : interval.1 + interval.2 ≤ wide.2 := high
      linarith
    -- what fills the run before the interval starts reaches it
    obtain ⟨own, listed, start, upto⟩ := spec.cover.filled wide there interval.1 (not_le.mp later) ends
    obtain ⟨other, also, rfl⟩ := List.mem_map.mp listed
    exact absurd (begins other also start) (not_lt.mpr upto)

/-- **The last run goes round to no run but the first** exactly when no interval goes round to an inner one. -/
theorem spared_iff {intervals runs : List (K × K)} (spec : RunsOf intervals runs)
    (spans : ∀ interval ∈ intervals, 0 ≤ interval.2) : Spared turn runs ↔ ReachesNoInner turn intervals := by
  have begins := spec.begins spans
  have separated := spec.separated
  have forward := spec.forward
  constructor
  · rintro spared inner inside innerBegins ⟨before, also, earlier⟩ ⟨after, within, afterBegins, later⟩ interval there
    obtain ⟨run, runThere, start⟩ := (begins inner.1).mpr ⟨inner, inside, rfl, innerBegins⟩
    obtain ⟨run', runThere', start'⟩ := (begins after.1).mpr ⟨after, within, rfl, afterBegins⟩
    obtain ⟨wide, wideThere, low, -⟩ := spec.cover.inside (extent before) (List.mem_map_of_mem also)
    obtain ⟨wide', wideThere', -, high⟩ := spec.cover.inside (extent interval) (List.mem_map_of_mem there)
    have low : wide.1 ≤ before.1 := low
    have high : interval.1 + interval.2 ≤ wide'.2 := high
    obtain ⟨first, rest, rfl⟩ := List.exists_cons_of_ne_nil (List.ne_nil_of_mem runThere)
    obtain ⟨afterFirst, separatedRest⟩ := List.pairwise_cons.mp separated
    have order := forward first List.mem_cons_self
    have least : ∀ run ∈ first :: rest, first.1 ≤ run.1 := by
      intro run inside
      rcases List.mem_cons.mp inside with rfl | inside
      · exact le_rfl
      · exact order.trans (afterFirst run inside).le
    have inRest : ∀ run ∈ first :: rest, first.1 < run.1 → run ∈ rest := by
      intro run inside more
      rcases List.mem_cons.mp inside with rfl | inside
      · exact absurd more (lt_irrefl _)
      · exact inside
    have beyond : first.1 < run.1 := (least wide wideThere).trans_lt (low.trans_lt (earlier.trans_eq start.symm))
    have runRest := inRest run runThere beyond
    have less : run.1 < run'.1 := by rwa [start, start']
    have runRest' := inRest run' runThere' (beyond.trans less)
    obtain ⟨second, rest, rfl⟩ := List.exists_cons_of_ne_nil (List.ne_nil_of_mem runRest)
    obtain rfl | ⟨middle, last, rfl⟩ := List.eq_nil_or_concat' rest
    · rw [List.mem_singleton.mp runRest, List.mem_singleton.mp runRest'] at less
      exact absurd less (lt_irrefl _)
    · have spared := (spared_ends first second last middle).mp spared
      have bounds := (within_ends separatedRest (fun run inside => forward run (List.mem_cons_of_mem _ inside)) rfl
        run runRest).1
      have ends : first :: second :: (middle ++ [last]) = first :: ((second :: middle) ++ [last]) := rfl
      have upto := (within_ends separated forward ends wide' wideThere').2
      rw [← start]
      linarith
  · intro without
    rcases runs with _ | ⟨first, _ | ⟨second, rest⟩⟩
    · trivial
    · trivial
    · obtain rfl | ⟨middle, last, rfl⟩ := List.eq_nil_or_concat' rest
      · trivial
      · rw [spared_ends]
        obtain ⟨inner, inside, innerStart, innerBegins⟩ := (begins second.1).mp ⟨second, by simp, rfl⟩
        obtain ⟨before, also, beforeStart, -⟩ := (begins first.1).mp ⟨first, by simp, rfl⟩
        obtain ⟨after, within, afterStart, afterBegins⟩ := (begins last.1).mp ⟨last, by simp, rfl⟩
        obtain ⟨own, listed, ends⟩ := spec.cover.ends last (by simp)
        obtain ⟨interval, there, rfl⟩ := List.mem_map.mp listed
        obtain ⟨afterFirst, rest⟩ := List.pairwise_cons.mp separated
        have order₁ := (forward first (by simp)).trans_lt (afterFirst second List.mem_cons_self)
        have order₂ := (forward second (by simp)).trans_lt ((List.pairwise_cons.mp rest).1 last (by simp))
        have ends : interval.1 + interval.2 = last.2 := ends
        rw [← ends, ← innerStart]
        exact without inner inside innerBegins ⟨before, also, by rwa [beforeStart, innerStart]⟩
          ⟨after, within, afterBegins, by rwa [afterStart, innerStart]⟩ interval there

/-- The runs that `merge` gives are right exactly when the last run goes round to no run but the first. -/
theorem right_iff_spared [Archimedean K] (pos : 0 < turn) {intervals : List (K × K)}
    (bounds : ∀ interval ∈ intervals, 0 ≤ interval.1 ∧ interval.1 < turn ∧ 0 ≤ interval.2) :
    Right turn intervals (merge turn 0 intervals) ↔
      Spared turn (runs 0 (intervals.mergeSort fun left right => left.1 ≤ right.1)) := by
  have spec := runs_spec fun interval inside => (bounds interval inside).2.2
  unfold merge
  generalize runs 0 (intervals.mergeSort fun left right => decide (left.1 ≤ right.1)) = line at spec
  have starts : ∀ run ∈ line, 0 ≤ run.1 ∧ run.1 < turn := by
    intro run there
    obtain ⟨own, listed, is⟩ := spec.cover.starts run there
    obtain ⟨interval, inside, rfl⟩ := List.mem_map.mp listed
    rw [← is]
    exact ⟨(bounds interval inside).1, (bounds interval inside).2.1⟩
  have forward : ∀ interval ∈ intervals.map extent, interval.1 ≤ interval.2 := by
    intro own listed
    obtain ⟨interval, inside, rfl⟩ := List.mem_map.mp listed
    simpa [extent] using (bounds interval inside).2.2
  constructor
  · intro right
    by_contra unspared
    have apart := right.apart
    rw [List.pairwise_map] at apart
    simp only [on_shown pos] at apart
    exact touching_of_not_spared spec.separated spec.forward starts unspared apart
  · intro spared
    refine right_of_closed pos (closed_of_spared spec.separated spec.forward starts pos spared)
      (closed_forward spec.separated spec.forward starts) fun angle => ?_
    rw [closed_cover spec.separated spec.forward starts, spec.cover.on forward]
    simp only [List.mem_map, exists_exists_and_eq_and]

/-- **The runs of a circle are right** exactly when no interval goes round to a run between the first and the
last. -/
theorem merge_right_iff [Archimedean K] (pos : 0 < turn) {intervals : List (K × K)}
    (bounds : ∀ interval ∈ intervals, 0 ≤ interval.1 ∧ interval.1 < turn ∧ 0 ≤ interval.2) :
    Right turn intervals (merge turn 0 intervals) ↔ ReachesNoInner turn intervals :=
  (right_iff_spared pos bounds).trans
    (spared_iff (runs_spec fun interval inside => (bounds interval inside).2.2) fun interval inside =>
      (bounds interval inside).2.2)

/-- Two halves. -/
theorem halves_right : Right (60 : ℚ) [(0, 30), (30, 30)] (merge 60 0 [(0, 30), (30, 30)]) := by
  refine (merge_right_iff (by norm_num) ?_).mpr ?_
  · simp
    norm_num
  · rintro inner inside begins ⟨before, also, less⟩ ⟨after, within, -, more⟩
    simp only [List.mem_cons, List.not_mem_nil, or_false] at inside also within
    rcases inside with rfl | rfl
    · rcases also with rfl | rfl
      · exact absurd less (by norm_num)
      · exact absurd less (by norm_num)
    · rcases within with rfl | rfl
      · exact absurd more (by norm_num)
      · exact absurd more (by norm_num)

/-- Two short arcs, and a long one in two pieces that goes round over both. -/
def wrapped (turn : K) : List (K × K) :=
  [(turn / 60, turn / 60), (turn / 12, turn / 60), (turn / 2, turn / 2), (11 * turn / 12, turn / 4)]

/-- **A run that goes round to two others** is shown beside the second of them. -/
theorem wrapped_not_right :
    (∀ interval ∈ wrapped (2 * Real.pi), 0 ≤ interval.1 ∧ interval.1 < 2 * Real.pi ∧ 0 ≤ interval.2 ∧ interval.2 ≤ Real.pi) ∧
    ¬Right (2 * Real.pi) (wrapped (2 * Real.pi)) (merge (2 * Real.pi) 0 (wrapped (2 * Real.pi))) := by
  have pos := Real.pi_pos
  have bounds : ∀ interval ∈ wrapped (2 * Real.pi),
      0 ≤ interval.1 ∧ interval.1 < 2 * Real.pi ∧ 0 ≤ interval.2 ∧ interval.2 ≤ Real.pi := by
    simp only [wrapped, List.mem_cons, List.not_mem_nil, or_false, forall_eq_or_imp, forall_eq]
    refine ⟨?_, ?_, ?_, ?_⟩ <;> refine ⟨?_, ?_, ?_, ?_⟩ <;> linarith
  refine ⟨bounds, fun right => ?_⟩
  have spared := (right_iff_spared (by linarith) fun interval inside =>
    ⟨(bounds interval inside).1, (bounds interval inside).2.1, (bounds interval inside).2.2.1⟩).mp right
  have spans := fun interval inside => (bounds interval inside).2.2.1
  have reaches := (spared_iff (runs_spec spans) spans).mp spared
  have begins : ∀ interval ∈ [(2 * Real.pi / 12, 2 * Real.pi / 60), (2 * Real.pi / 2, 2 * Real.pi / 2)],
      Begins (wrapped (2 * Real.pi)) interval := by
    simp only [Begins, wrapped, List.mem_cons, List.not_mem_nil, or_false, forall_eq_or_imp, forall_eq]
    refine ⟨⟨?_, ?_, ?_, ?_⟩, ?_, ?_, ?_, ?_⟩ <;> intro less <;> linarith
  have less := reaches (2 * Real.pi / 12, 2 * Real.pi / 60) (by simp [wrapped]) (begins _ (by simp))
    ⟨(2 * Real.pi / 60, 2 * Real.pi / 60), by simp [wrapped], by linarith⟩
    ⟨(2 * Real.pi / 2, 2 * Real.pi / 2), by simp [wrapped], begins _ (by simp), by linarith⟩
    (11 * (2 * Real.pi) / 12, 2 * Real.pi / 4) (by simp [wrapped])
  linarith

end Ketchup.DrawingExport
