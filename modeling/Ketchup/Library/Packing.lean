/-
**Packing items into bins, with a gap between two of one bin.**

Bins are of kinds, each with a capacity and a cost. A packing puts every item into one bin; items in turn
go into a bin that is there or into a new one (`Completes`). What is left can be completed at some cost
from bins in any order (`Completes.perm`), never for less than the items exceed the room that is left
(`Completes.lower`), and at the cost of every packing (`completes_of_packing`).
-/

import Mathlib.Algebra.Order.BigOperators.Group.List
import Mathlib.Algebra.Order.Group.Defs
import Mathlib.Data.List.Perm.Basic
import Mathlib.Tactic.Abel

namespace Ketchup

section Loads

variable {R : Type} [AddCommGroup R] (gap : R)

/-- What items take of a bin: themselves, and a gap between each two neighbours. -/
def load : List R → R
  | [] => 0
  | first :: rest => first + (rest.map (gap + ·)).sum

theorem load_eq (sizes : List R) : load gap sizes = sizes.sum + (sizes.length - 1) • gap := by
  cases sizes with
  | nil => simp [load]
  | cons first rest =>
    have gaps : (rest.map (gap + ·)).sum = rest.sum + rest.length • gap := by
      induction rest with
      | nil => simp
      | cons second others ih =>
        rw [List.map_cons, List.sum_cons, ih, List.sum_cons, List.length_cons, succ_nsmul]
        abel
    rw [load, gaps, List.sum_cons, List.length_cons, Nat.add_sub_cancel, add_assoc]

theorem load_perm {sizes others : List R} (perm : sizes.Perm others) :
    load gap sizes = load gap others := by
  rw [load_eq, load_eq, perm.sum_eq, perm.length_eq]

theorem load_append {sizes : List R} (some_ : sizes ≠ []) (size : R) :
    load gap (sizes ++ [size]) = load gap sizes + gap + size := by
  obtain ⟨first, rest, rfl⟩ := List.exists_cons_of_ne_nil some_
  simp only [load, List.cons_append, List.map_append, List.map_cons, List.map_nil, List.sum_append,
    List.sum_singleton, add_assoc]

end Loads

variable {R K : Type} [AddCommGroup R] [LinearOrder R] [IsOrderedAddMonoid R]

/-- Items in turn go into bins that are there, each with what is taken of it, or into new ones; this is
what the new ones cost. -/
inductive Completes (kinds : Set K) (capacity cost : K → R) (gap : R) :
    List R → List (K × R) → R → Prop
  | done {bins : List (K × R)} : Completes kinds capacity cost gap [] bins 0
  | onBin {size taken added : R} {rest : List R} {before after : List (K × R)} {kind : K} :
      taken + gap + size ≤ capacity kind →
      Completes kinds capacity cost gap rest (before ++ (kind, taken + gap + size) :: after) added →
      Completes kinds capacity cost gap (size :: rest) (before ++ (kind, taken) :: after) added
  | newBin {size added : R} {rest : List R} {bins : List (K × R)} {kind : K} :
      kind ∈ kinds → size ≤ capacity kind →
      Completes kinds capacity cost gap rest (bins ++ [(kind, size)]) added →
      Completes kinds capacity cost gap (size :: rest) bins (cost kind + added)

/-- Bins of the kinds there are that hold every item once, each within its capacity. -/
structure IsPacking (kinds : Set K) (capacity : K → R) (gap : R) (sizes : List R)
    (bins : List (K × List R)) : Prop where
  holds : (bins.flatMap Prod.snd).Perm sizes
  offered : ∀ bin ∈ bins, bin.1 ∈ kinds
  fits : ∀ bin ∈ bins, load gap bin.2 ≤ capacity bin.1

variable {kinds : Set K} {capacity cost : K → R} {gap : R}

namespace Completes

variable {remaining : List R} {bins others : List (K × R)} {added : R}

omit [IsOrderedAddMonoid R] in
/-- **The order of the bins does not matter.** -/
theorem perm (completes : Completes kinds capacity cost gap remaining bins added)
    (perm : bins.Perm others) : Completes kinds capacity cost gap remaining others added := by
  induction completes generalizing others with
  | done => exact .done
  | @onBin size taken added rest before after kind fits _ ih =>
    have member : (kind, taken) ∈ others := perm.subset (by simp)
    obtain ⟨before', after', rfl⟩ := List.append_of_mem member
    have same : (before ++ after).Perm (before' ++ after') :=
      (List.perm_cons _).mp (List.perm_middle.symm.trans (perm.trans List.perm_middle))
    refine .onBin fits (ih ?_)
    exact List.perm_middle.trans ((same.cons _).trans List.perm_middle.symm)
  | newBin offered fits _ ih => exact .newBin offered fits (ih (perm.append_right _))

theorem nonneg (costs : ∀ kind ∈ kinds, 0 ≤ cost kind)
    (completes : Completes kinds capacity cost gap remaining bins added) : 0 ≤ added := by
  induction completes with
  | done => exact le_refl 0
  | onBin _ _ ih => exact ih
  | newBin offered _ _ ih => exact add_nonneg (costs _ offered) ih

/-- **What does not fit in the room that is left has to be paid for.** -/
theorem lower (gap_nonneg : 0 ≤ gap) (covers : ∀ kind ∈ kinds, capacity kind ≤ cost kind)
    (completes : Completes kinds capacity cost gap remaining bins added)
    (within : ∀ bin ∈ bins, bin.2 ≤ capacity bin.1) :
    remaining.sum ≤ (bins.map fun bin => capacity bin.1 - bin.2).sum + added := by
  induction completes with
  | done =>
    rw [List.sum_nil, add_zero]
    refine List.sum_nonneg fun left member => ?_
    obtain ⟨bin, inside, rfl⟩ := List.mem_map.mp member
    exact sub_nonneg.mpr (within bin inside)
  | @onBin size taken added rest before after kind fits _ ih =>
    have later := ih (by
      simp only [List.mem_append, List.mem_cons] at within ⊢
      rintro bin (earlier | rfl | later)
      · exact within bin (.inl earlier)
      · exact fits
      · exact within bin (.inr (.inr later)))
    simp only [List.map_append, List.map_cons, List.sum_append, List.sum_cons] at later ⊢
    calc size + rest.sum ≤ size + gap + rest.sum := by
          rw [add_assoc, add_le_add_iff_left]
          exact le_add_of_nonneg_left gap_nonneg
      _ ≤ size + gap + (_ + added) := add_le_add_right later _
      _ = _ := by abel
  | @newBin size added rest bins kind offered fits _ ih =>
    have later := ih (by
      simp only [List.mem_append, List.mem_singleton]
      rintro bin (earlier | rfl)
      · exact within bin earlier
      · exact fits)
    simp only [List.map_append, List.map_cons, List.map_nil, List.sum_append, List.sum_singleton] at later
    rw [List.sum_cons]
    calc size + rest.sum ≤ size + (_ + added) := add_le_add_right later _
      _ = (bins.map fun bin => capacity bin.1 - bin.2).sum + (capacity kind + added) := by abel
      _ ≤ _ := add_le_add_right (add_le_add_left (covers _ offered) _) _

end Completes

/-! ### A packing completes empty bins -/

section Slots

variable {sizes : List R} {news : List (K × List R)}

/-- A list with one of its members first. -/
theorem exists_perm_cons {A : Type} {member : A} {list : List A} (inside : member ∈ list) :
    ∃ others, list.Perm (member :: others) := by
  obtain ⟨before, after, rfl⟩ := List.append_of_mem inside
  exact ⟨before ++ after, List.perm_middle⟩

/-- What a bin holds already, and what it is to hold yet. -/
abbrev Slot (K R : Type) := (K × R) × List R

/-- A member that is taken out of a part of a list. -/
theorem perm_taken {A : Type} {member : A} {before items others after : List A}
    (perm : items.Perm (member :: others)) :
    (before ++ (items ++ after)).Perm (member :: (before ++ (others ++ after))) :=
  ((perm.append_right after).append_left before).trans List.perm_middle

theorem gaps_nonneg (gap_nonneg : 0 ≤ gap) {items : List R} (nonneg : ∀ item ∈ items, 0 ≤ item) :
    0 ≤ (items.map (gap + ·)).sum := by
  refine List.sum_nonneg fun value member => ?_
  obtain ⟨item, inside, rfl⟩ := List.mem_map.mp member
  exact add_nonneg gap_nonneg (nonneg item inside)

/-- Items that bins are to hold go into them in any order. -/
theorem completes_of_slots {slots : List (Slot K R)} (gap_nonneg : 0 ≤ gap)
    (sizes_nonneg : ∀ size ∈ sizes, 0 ≤ size)
    (holds : (slots.flatMap Prod.snd ++ news.flatMap Prod.snd).Perm sizes)
    (fits : ∀ slot ∈ slots, slot.1.2 + (slot.2.map (gap + ·)).sum ≤ capacity slot.1.1)
    (offered : ∀ bin ∈ news, bin.1 ∈ kinds ∧ bin.2 ≠ [] ∧ load gap bin.2 ≤ capacity bin.1) :
    Completes kinds capacity cost gap sizes (slots.map Prod.fst) (news.map fun bin => cost bin.1).sum := by
  induction sizes generalizing slots news with
  | nil =>
    have none_ : news = [] := by
      refine List.eq_nil_iff_forall_not_mem.mpr fun bin member => (offered bin member).2.1 ?_
      have empty := (List.append_eq_nil_iff.mp holds.eq_nil).2
      exact List.flatMap_eq_nil_iff.mp empty bin member
    subst none_
    exact .done
  | cons size rest ih =>
    have later_nonneg : ∀ later ∈ rest, 0 ≤ later := fun later member =>
      sizes_nonneg later (List.mem_cons_of_mem _ member)
    have first : size ∈ slots.flatMap Prod.snd ++ news.flatMap Prod.snd :=
      holds.symm.subset (List.mem_cons_self ..)
    rcases List.mem_append.mp first with onSlot | onNew
    · -- the item goes into a bin that is there
      obtain ⟨slot, member, inside⟩ := List.mem_flatMap.mp onSlot
      obtain ⟨before, after, rfl⟩ := List.append_of_mem member
      obtain ⟨⟨kind, taken⟩, items⟩ := slot
      obtain ⟨others, perm⟩ := exists_perm_cons inside
      simp only [List.flatMap_append, List.flatMap_cons, List.append_assoc] at holds
      have left := (List.perm_cons size).mp ((perm_taken perm).symm.trans holds)
      have room := fits _ member
      rw [(perm.map (gap + ·)).sum_eq, List.map_cons, List.sum_cons, add_comm gap size, ← add_assoc,
        ← add_assoc, add_right_comm taken size gap] at room
      have others_nonneg : ∀ item ∈ others, 0 ≤ item := fun item member =>
        later_nonneg item (left.subset (by simp [member]))
      have less : taken + gap + size ≤ capacity kind :=
        (le_add_of_nonneg_right (gaps_nonneg gap_nonneg others_nonneg)).trans room
      have further : Completes kinds capacity cost gap rest
          ((before ++ ((kind, taken + gap + size), others) :: after).map Prod.fst)
          (news.map fun bin => cost bin.1).sum := by
        refine ih later_nonneg ?_ ?_ offered
        · simpa only [List.flatMap_append, List.flatMap_cons, List.append_assoc] using left
        · simp only [List.mem_append, List.mem_cons] at fits ⊢
          rintro slot (earlier | rfl | later)
          · exact fits slot (.inl earlier)
          · exact room
          · exact fits slot (.inr (.inr later))
      rw [List.map_append, List.map_cons] at further ⊢
      exact .onBin less further
    · -- it is the first of a new bin
      obtain ⟨bin, member, inside⟩ := List.mem_flatMap.mp onNew
      obtain ⟨before, after, rfl⟩ := List.append_of_mem member
      obtain ⟨kind, items⟩ := bin
      obtain ⟨others, perm⟩ := exists_perm_cons inside
      simp only [List.flatMap_append, List.flatMap_cons] at holds
      rw [← List.append_assoc] at holds
      have left := (List.perm_cons size).mp ((perm_taken perm).symm.trans holds)
      rw [List.append_assoc] at left
      obtain ⟨isKind, _, room⟩ := offered _ member
      rw [load_perm gap perm, load] at room
      have others_nonneg : ∀ item ∈ others, 0 ≤ item := fun item member =>
        later_nonneg item (left.subset (by simp [member]))
      have less : size ≤ capacity kind :=
        (le_add_of_nonneg_right (gaps_nonneg gap_nonneg others_nonneg)).trans room
      have further : Completes kinds capacity cost gap rest
          ((slots ++ [((kind, size), others)]).map Prod.fst)
          ((before ++ after).map fun bin => cost bin.1).sum := by
        refine ih later_nonneg ?_ ?_ ?_
        · simp only [List.flatMap_append, List.flatMap_cons, List.flatMap_nil, List.append_nil,
            List.append_assoc]
          exact (List.Perm.append_left _ (List.perm_append_comm_assoc ..)).trans left
        · simp only [List.mem_append, List.mem_singleton]
          rintro slot (earlier | rfl)
          · exact fits slot earlier
          · exact room
        · intro bin inside
          refine offered bin ?_
          rcases List.mem_append.mp inside with earlier | later
          · exact List.mem_append_left _ earlier
          · exact List.mem_append_right _ (List.mem_cons_of_mem _ later)
      rw [(List.perm_middle.map fun bin : K × List R => cost bin.1).sum_eq, List.map_cons, List.sum_cons]
      rw [List.map_append] at further
      exact .newBin isKind less further

end Slots

/-- **Every packing is a completion** of no bins, at no more than it costs. -/
theorem completes_of_packing {sizes : List R} {bins : List (K × List R)} (gap_nonneg : 0 ≤ gap)
    (sizes_nonneg : ∀ size ∈ sizes, 0 ≤ size) (costs : ∀ kind ∈ kinds, 0 ≤ cost kind)
    (packing : IsPacking kinds capacity gap sizes bins) :
    ∃ added ≤ (bins.map fun bin => cost bin.1).sum,
      Completes kinds capacity cost gap sizes [] added := by
  -- bins that hold nothing are left out
  have parted := List.filter_append_perm (fun bin : K × List R => decide (bin.2 ≠ [])) bins
  have used : (bins.filter fun bin => decide (bin.2 ≠ [])).flatMap Prod.snd = bins.flatMap Prod.snd := by
    generalize bins = list
    induction list with
    | nil => rfl
    | cons bin rest ih =>
      by_cases empty : bin.2 = []
      · simpa [empty] using ih
      · simpa [empty] using ih
  have kept : ∀ bin ∈ bins.filter fun bin => decide (bin.2 ≠ []),
      bin.1 ∈ kinds ∧ bin.2 ≠ [] ∧ load gap bin.2 ≤ capacity bin.1 := by
    intro bin member
    obtain ⟨inside, some_⟩ := List.mem_filter.mp member
    exact ⟨packing.offered bin inside, of_decide_eq_true some_, packing.fits bin inside⟩
  have completes : Completes kinds capacity cost gap sizes (([] : List (Slot K R)).map Prod.fst)
      ((bins.filter fun bin => decide (bin.2 ≠ [])).map fun bin => cost bin.1).sum :=
    completes_of_slots gap_nonneg sizes_nonneg (by rw [used]; exact packing.holds)
      (fun slot member => absurd member List.not_mem_nil) kept
  refine ⟨_, ?_, completes⟩
  rw [← (parted.map fun bin => cost bin.1).sum_eq, List.map_append, List.sum_append]
  refine le_add_of_nonneg_right (List.sum_nonneg fun value member => ?_)
  obtain ⟨bin, inside, rfl⟩ := List.mem_map.mp member
  exact costs _ (packing.offered bin (List.mem_filter.mp inside).1)

end Ketchup
