/-
**Pieces that meet at their ends.**

Each of `count` pieces has two ends, each at a point (`key`). Two ends are mated where no third one is at
their point (`MeetAlone`), which makes the pieces `Joints`.
-/

import Ketchup.Library.Joints
import Mathlib.Data.List.FinRange

namespace Ketchup

/-- The first end of a piece, or its last. -/
abbrev PieceEnd (count : Nat) : Type := Fin count × Bool

section Meeting

variable {count : Nat}

def farEnd (pieceEnd : PieceEnd count) : PieceEnd count := (pieceEnd.1, !pieceEnd.2)

variable (count) in
/-- All ends, piece by piece. -/
def allEnds : List (PieceEnd count) :=
  (List.finRange count).flatMap fun index => [(index, false), (index, true)]

theorem mem_allEnds (pieceEnd : PieceEnd count) : pieceEnd ∈ allEnds count := by
  obtain ⟨index, side⟩ := pieceEnd
  refine List.mem_flatMap.mpr ⟨index, List.mem_finRange index, ?_⟩
  cases side <;> simp

theorem nodup_allEnds : (allEnds count).Nodup := by
  refine List.nodup_flatMap.mpr ⟨fun index _ => by simp, ?_⟩
  refine (List.nodup_finRange _).imp fun {first second} apart => ?_
  intro pieceEnd its other
  simp only [List.mem_cons, List.not_mem_nil, or_false] at its other
  rcases its with rfl | rfl <;> simp_all

variable {K : Type} [DecidableEq K] (key : PieceEnd count → K)

/-- The ends at a point, in the order of `allEnds`. -/
def endsAt (at_ : K) : List (PieceEnd count) :=
  (allEnds count).filter fun pieceEnd => key pieceEnd = at_

/-- Exactly the two ends `first` and `second` are at their point. -/
def MeetAlone (first second : PieceEnd count) : Prop :=
  first ≠ second ∧ ∀ other, key other = key first ↔ other = first ∨ other = second

variable {key}

theorem mem_endsAt {pieceEnd : PieceEnd count} {at_ : K} :
    pieceEnd ∈ endsAt key at_ ↔ key pieceEnd = at_ := by
  simp [endsAt, mem_allEnds]

theorem nodup_endsAt (at_ : K) : (endsAt key at_).Nodup :=
  nodup_allEnds.filter _

/-- Two ends are alone at their point if two ends are found there. -/
theorem meetAlone_iff {first second : PieceEnd count} : MeetAlone key first second ↔
    (endsAt key (key first)).length = 2 ∧ key second = key first ∧ second ≠ first := by
  constructor
  · rintro ⟨apart, only⟩
    have perm : (endsAt key (key first)).Perm [first, second] := by
      refine (List.perm_ext_iff_of_nodup (nodup_endsAt _) (by simp [apart])).mpr fun other => ?_
      rw [mem_endsAt, only]
      simp
    exact ⟨perm.length_eq, (only second).mpr (Or.inr rfl), apart.symm⟩
  · rintro ⟨two, same, apart⟩
    have inside : [first, second] ⊆ endsAt key (key first) := by
      simp [mem_endsAt, same]
    have perm : [first, second].Perm (endsAt key (key first)) :=
      (List.subperm_of_subset (by simp [apart.symm]) inside).perm_of_length_le two.le
    refine ⟨apart.symm, fun other => ?_⟩
    rw [← mem_endsAt , ← perm.mem_iff]
    simp

theorem MeetAlone.symm {first second : PieceEnd count} (alone : MeetAlone key first second) :
    MeetAlone key second first := by
  obtain ⟨two, same, apart⟩ := meetAlone_iff.mp alone
  exact meetAlone_iff.mpr ⟨same ▸ two, same.symm, apart.symm⟩

variable (key) in
/-- The other end at a point where two meet. -/
def mate (pieceEnd : PieceEnd count) : Option (PieceEnd count) :=
  if (endsAt key (key pieceEnd)).length = 2 then (endsAt key (key pieceEnd)).find? (· ≠ pieceEnd) else none

theorem mate_eq_some {first second : PieceEnd count} : mate key first = some second ↔ MeetAlone key first second := by
  rw [mate]
  constructor
  · intro found
    split at found
    next two =>
      have inside := mem_endsAt.mp (List.mem_of_find?_eq_some found)
      exact meetAlone_iff.mpr ⟨two, inside, by simpa using List.find?_some found⟩
    next => exact absurd found (by simp)
  · intro alone
    obtain ⟨two, same, apart⟩ := meetAlone_iff.mp alone
    rw [if_pos two]
    cases found : (endsAt key (key first)).find? (· ≠ first) with
    | none =>
      have := List.find?_eq_none.mp found second (mem_endsAt.mpr same)
      exact absurd apart (by simpa using this)
    | some other =>
      have inside := mem_endsAt.mp (List.mem_of_find?_eq_some found)
      rcases (alone.2 other).mp inside with rfl | rfl
      · exact absurd (List.find?_some found) (by simp)
      · rfl

theorem mate_isNone (pieceEnd : PieceEnd count) :
    (mate key pieceEnd).isNone ↔ (endsAt key (key pieceEnd)).length ≠ 2 := by
  rw [Option.isNone_iff_eq_none]
  constructor
  · intro none two
    have both : ((endsAt key (key pieceEnd)).erase pieceEnd).length = 1 := by
      rw [List.length_erase_of_mem (mem_endsAt.mpr rfl), two]
    obtain ⟨other, its⟩ := List.length_pos_iff_exists_mem.mp (both.symm ▸ Nat.one_pos)
    obtain ⟨apart, inside⟩ := (nodup_endsAt _).mem_erase_iff.mp its
    have := mate_eq_some.mpr (meetAlone_iff.mpr ⟨two, mem_endsAt.mp inside, apart⟩)
    exact absurd (none.symm.trans this) (by simp)
  · exact fun apart => if_neg apart

variable (key) in
/-- Pieces, their ends, and the ends that meet alone. -/
def joints : Joints (PieceEnd count) (Fin count) where
  item := Prod.fst
  far := farEnd
  mate := mate key
  far_far := by simp [farEnd]
  far_ne := by
    rintro ⟨index, side⟩ same
    cases side <;> simp [farEnd] at same
  item_far := fun _ => rfl
  same_item := by
    rintro ⟨index, side⟩ ⟨_, other⟩ rfl
    cases side <;> cases other <;> simp [farEnd]
  mate_symm := fun _ _ mated => mate_eq_some.mpr (mate_eq_some.mp mated).symm
  mate_ne := fun _ mated => (mate_eq_some.mp mated).1 rfl

end Meeting

end Ketchup
