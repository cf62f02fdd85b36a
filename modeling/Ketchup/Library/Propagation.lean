/-
**Marks that spread until nothing changes.**

Items are visited one after another, again and again, and what fires by the marks so far is marked, until a
round marks nothing.

* `settle_within` — what holds of the first marks and of whatever fires by such marks holds of all marks.
* `settle_closed` — in the end nothing fires that is not marked.
-/

import Mathlib.Data.List.Basic
import Mathlib.Logic.Function.Basic

namespace Ketchup

variable {A : Type}

/-- The marks of the one are among those of the other. -/
def MarksWithin (marks other : A → Bool) : Prop := ∀ item, marks item = true → other item = true

theorem countP_lt {items : List A} {one two : A → Bool} (more : MarksWithin one two) {item : A} (among : item ∈ items)
    (old : one item = false) (new : two item = true) :
    items.countP (fun item => !two item) < items.countP fun item => !one item := by
  have le : ∀ items : List A, items.countP (fun item => !two item) ≤ items.countP fun item => !one item := by
    intro items
    refine List.countP_mono_left fun other _ unmarked => ?_
    cases marked : one other with
    | false => rfl
    | true => rw [more other marked] at unmarked; exact unmarked
  obtain ⟨before, after, rfl⟩ := List.append_of_mem among
  rw [List.countP_append, List.countP_append, List.countP_cons, List.countP_cons, old, new]
  have := le before
  have := le after
  simp only [Bool.not_true, Bool.not_false, if_true, Bool.false_eq_true, if_false]
  omega

variable [DecidableEq A] (fires : (A → Bool) → A → Bool)

/-- One item visited. The flag tells whether anything was marked. -/
def markNext (state : (A → Bool) × Bool) (item : A) : (A → Bool) × Bool :=
  if !state.1 item && fires state.1 item then (Function.update state.1 item true, true) else state

def markRound (items : List A) (marks : A → Bool) : (A → Bool) × Bool := items.foldl (markNext fires) (marks, false)

variable {fires}

theorem markNext_grows (state : (A → Bool) × Bool) (item : A) : MarksWithin state.1 (markNext fires state item).1 := by
  intro other marked
  unfold markNext
  split
  · by_cases same : other = item
    · subst same
      exact Function.update_self other true state.1
    · exact (Function.update_of_ne same true state.1).trans marked
  · exact marked

theorem foldl_grows (items : List A) (state : (A → Bool) × Bool) : MarksWithin state.1 (items.foldl (markNext fires) state).1 := by
  induction items generalizing state with
  | nil => exact fun _ marked => marked
  | cons item items ih => exact fun other marked => ih _ other (markNext_grows state item other marked)

theorem foldl_flag (items : List A) (state : (A → Bool) × Bool) (flag : state.2 = true) :
    (items.foldl (markNext fires) state).2 = true := by
  induction items generalizing state with
  | nil => exact flag
  | cons item items ih =>
    refine ih _ ?_
    unfold markNext
    split
    · rfl
    · exact flag

/-- A round that tells no change made none, and nothing fires. -/
theorem markRound_still {items : List A} {marks : A → Bool} (still : (markRound fires items marks).2 = false) :
    (markRound fires items marks).1 = marks ∧ ∀ item ∈ items, fires marks item = true → marks item = true := by
  induction items with
  | nil => exact ⟨rfl, by simp⟩
  | cons item items ih =>
    by_cases spreads : (!marks item && fires marks item) = true
    · have flag : (items.foldl (markNext fires) (markNext fires (marks, false) item)).2 = true :=
        foldl_flag items _ (by rw [markNext, if_pos spreads])
      exact absurd (still.symm.trans flag) Bool.false_ne_true
    · have same : markRound fires (item :: items) marks = markRound fires items marks := by
        show items.foldl (markNext fires) (markNext fires (marks, false) item) = _
        rw [markNext, if_neg spreads]
        rfl
      rw [same] at still ⊢
      refine ⟨(ih still).1, List.forall_mem_cons.mpr ⟨fun fired => ?_, (ih still).2⟩⟩
      cases marked : marks item with
      | true => rfl
      | false => exact absurd (by rw [marked, fired]; rfl) spreads

/-- A round that tells a change marked something new. -/
theorem markRound_marks {items : List A} {marks : A → Bool} (changed : (markRound fires items marks).2 = true) :
    ∃ item ∈ items, marks item = false ∧ (markRound fires items marks).1 item = true := by
  induction items with
  | nil => cases changed
  | cons item items ih =>
    by_cases spreads : (!marks item && fires marks item) = true
    · refine ⟨item, List.mem_cons_self, ?_, ?_⟩
      · exact (Bool.not_eq_true' _).mp ((Bool.and_eq_true _ _).mp spreads).1
      · show (items.foldl (markNext fires) (markNext fires (marks, false) item)).1 item = true
        refine foldl_grows items _ item ?_
        rw [markNext, if_pos spreads]
        exact Function.update_self item true marks
    · have same : markRound fires (item :: items) marks = markRound fires items marks := by
        show items.foldl (markNext fires) (markNext fires (marks, false) item) = _
        rw [markNext, if_neg spreads]
        rfl
      rw [same] at changed ⊢
      obtain ⟨other, among, marked⟩ := ih changed
      exact ⟨other, List.mem_cons_of_mem item among, marked⟩

variable (fires)

/-- Rounds until one marks nothing. -/
def settled (items : List A) (marks : A → Bool) : A → Bool :=
  if _changed : (markRound fires items marks).2 = true then settled items (markRound fires items marks).1
  else (markRound fires items marks).1
termination_by items.countP fun item => !marks item
decreasing_by
  obtain ⟨item, among, old, new⟩ := markRound_marks _changed
  exact countP_lt (foldl_grows items (marks, false)) among old new

variable {fires}

theorem markRound_within {items : List A} {set : Set A}
    (kept : ∀ marks : A → Bool, (∀ item, marks item = true → item ∈ set) → ∀ item ∈ items, fires marks item = true → item ∈ set)
    {marks : A → Bool} (start : ∀ item, marks item = true → item ∈ set) :
    ∀ item, (markRound fires items marks).1 item = true → item ∈ set := by
  have fold : ∀ (some : List A) (state : (A → Bool) × Bool), (∀ item ∈ some, item ∈ items) →
      (∀ item, state.1 item = true → item ∈ set) → ∀ item, (some.foldl (markNext fires) state).1 item = true → item ∈ set := by
    intro some
    induction some with
    | nil => exact fun state _ within => within
    | cons first some ih =>
      intro state sub within
      refine ih _ (fun item among => sub item (List.mem_cons_of_mem first among)) ?_
      intro item marked
      unfold markNext at marked
      split at marked
      · rename_i spreads
        by_cases same : item = first
        · subst same
          exact kept state.1 within item (sub item List.mem_cons_self) ((Bool.and_eq_true _ _).mp spreads).2
        · exact within item ((Function.update_of_ne same true state.1).symm.trans marked)
      · exact within item marked
  exact fold items (marks, false) (fun _ among => among) start

/-- What the first marks have, and what fires by marks that have it, all marks have. -/
theorem settle_within {items : List A} (set : Set A)
    (kept : ∀ marks : A → Bool, (∀ item, marks item = true → item ∈ set) → ∀ item ∈ items, fires marks item = true → item ∈ set)
    {marks : A → Bool} (start : ∀ item, marks item = true → item ∈ set) :
    ∀ item, settled fires items marks item = true → item ∈ set := by
  fun_induction settled fires items marks with
  | case1 marks _ ih => exact ih (markRound_within kept start)
  | case2 marks still => exact markRound_within kept start

theorem settle_grows (items : List A) (marks : A → Bool) : MarksWithin marks (settled fires items marks) := by
  fun_induction settled fires items marks with
  | case1 marks _ ih => exact fun item marked => ih item (foldl_grows items (marks, false) item marked)
  | case2 marks still => exact foldl_grows items (marks, false)

/-- In the end nothing fires that is not marked. -/
theorem settle_closed (items : List A) (marks : A → Bool) :
    ∀ item ∈ items, fires (settled fires items marks) item = true → settled fires items marks item = true := by
  fun_induction settled fires items marks with
  | case1 marks _ ih => exact ih
  | case2 marks still =>
    obtain ⟨same, closed⟩ := markRound_still (eq_false_of_ne_true still)
    rw [same]
    exact closed

end Ketchup
