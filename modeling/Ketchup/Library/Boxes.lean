/-
**Boxes that lie apart.**

A box has a lower and an upper bound along each axis. Two boxes are `Apart` when along some axis one
ends before the other starts, up to a slack; `Clears` is the form with the slack on one side only, which
is kept when both boxes are replaced by boxes inside them.
-/

import Mathlib.Algebra.Order.Monoid.Defs
import Mathlib.Algebra.Order.Monoid.Unbundled.Basic

namespace Ketchup

structure Box (I A : Type) where
  low : I → A
  high : I → A

namespace Box

variable {I A : Type} [AddCommMonoid A] [PartialOrder A] [IsOrderedAddMonoid A]

/-- A box inside another, that it exceeds at its upper bounds by at most the slack. -/
def Inside (slack : A) (inner outer : Box I A) : Prop :=
  ∀ axis, outer.low axis ≤ inner.low axis ∧ inner.high axis ≤ outer.high axis + slack

/-- The first box reaches at most the slack into the other, which does not reach into it. -/
def Clears (slack : A) (first other : Box I A) : Prop :=
  ∃ axis, first.high axis ≤ other.low axis + slack ∨ other.high axis ≤ first.low axis

def Apart (slack : A) (first other : Box I A) : Prop :=
  ∃ axis, first.high axis ≤ other.low axis + slack ∨ other.high axis ≤ first.low axis + slack

variable {slack : A} {first other inner outer last : Box I A}

omit [IsOrderedAddMonoid A] in
theorem Apart.symm (apart : Apart slack first other) : Apart slack other first := by
  obtain ⟨axis, either⟩ := apart
  exact ⟨axis, either.symm⟩

omit [IsOrderedAddMonoid A] in
theorem Clears.symm (clears : Clears 0 first other) : Clears 0 other first := by
  obtain ⟨axis, before | after⟩ := clears
  · exact ⟨axis, .inr (before.trans_eq (add_zero _))⟩
  · exact ⟨axis, .inl (after.trans_eq (add_zero _).symm)⟩

omit [IsOrderedAddMonoid A] in
theorem Inside.trans (one : Inside 0 inner outer) (two : Inside 0 outer last) : Inside 0 inner last :=
  fun axis => ⟨(two axis).1.trans (one axis).1,
    ((one axis).2.trans_eq (add_zero _)).trans (two axis).2⟩

/-- A box inside the other one is cleared as well. -/
theorem Clears.shrink (clears : Clears slack first outer) (inside : Inside 0 inner outer) :
    Clears slack first inner := by
  obtain ⟨axis, before | after⟩ := clears
  · exact ⟨axis, .inl (before.trans (add_le_add_left (inside axis).1 slack))⟩
  · exact ⟨axis, .inr (((inside axis).2.trans_eq (add_zero _)).trans after)⟩

/-- A box that exceeds the first one by the slack reaches that far into the other. -/
theorem Clears.exceed (clears : Clears 0 outer other) (inside : Inside slack inner outer) :
    Clears slack inner other := by
  obtain ⟨axis, before | after⟩ := clears
  · have ends : outer.high axis ≤ other.low axis := before.trans_eq (add_zero _)
    exact ⟨axis, .inl ((inside axis).2.trans (add_le_add_left ends slack))⟩
  · exact ⟨axis, .inr (after.trans (inside axis).1)⟩

/-- **Boxes stay apart** when one that was cleared is exceeded by the slack. -/
theorem Clears.apart (clears : Clears slack first outer) (inside : Inside slack inner outer) :
    Apart slack first inner := by
  obtain ⟨axis, before | after⟩ := clears
  · exact ⟨axis, .inl (before.trans (add_le_add_left (inside axis).1 slack))⟩
  · exact ⟨axis, .inr ((inside axis).2.trans (add_le_add_left after slack))⟩

end Box

end Ketchup
