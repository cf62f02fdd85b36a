/-
**The lines of one layer of an underlay**, flat: the points of all polylines one after another, and where
each polyline ends.

A point is taken by the bits of its coordinates, so the type of points is any type with equality. The
texts and fills of a layer are no part of its lines.
-/

import Mathlib.Data.List.Basic
import Mathlib.Data.Multiset.AddSub
import Mathlib.Data.Sym.Sym2

namespace Ketchup.Underlay

variable {P : Type}

structure LayerLines (P : Type) where
  pointsMm : List P
  /-- The index in `pointsMm` one past the last point of each polyline. -/
  ends : List Nat
  styles : List Nat
  deriving DecidableEq

namespace LayerLines

/-- The points from `start` up to `stop`. -/
def between (points : List P) (start stop : Nat) : List P :=
  (points.take stop).drop start

def polylines (lines : LayerLines P) : List (List P) :=
  ((0 :: lines.ends).zip lines.ends).map fun range => between lines.pointsMm range.1 range.2

/-- Every polyline with the index of its style. -/
def styledPolylines (lines : LayerLines P) : List (Nat × List P) :=
  lines.styles.zip lines.polylines

/-- The straight pieces of a polyline, from point to point. -/
def segments (points : List P) : List (P × P) :=
  points.zip points.tail

/-- The straight pieces of a polyline, whichever way they are drawn. -/
def undirected (points : List P) : List (Sym2 P) :=
  (segments points).map fun pair => s(pair.1, pair.2)

/-- The straight pieces of the polylines of a style. -/
def straightOf (styled : List (Nat × List P)) (style : Nat) : List (Sym2 P) :=
  (styled.filter fun styled => styled.1 = style).flatMap fun styled => undirected styled.2

def straight (lines : LayerLines P) (style : Nat) : Multiset (Sym2 P) :=
  straightOf lines.styledPolylines style

/-- The last polyline ends at the last point, none beyond it, and each has a style. -/
structure Sound (lines : LayerLines P) : Prop where
  reaches : lines.ends.getLastD 0 = lines.pointsMm.length
  within : ∀ stop ∈ lines.ends, stop ≤ lines.pointsMm.length
  styled : lines.styles.length = lines.ends.length

/-- The lines with one polyline more. -/
def push (lines : LayerLines P) (style : Nat) (points : List P) : LayerLines P where
  pointsMm := lines.pointsMm ++ points
  ends := lines.ends ++ [(lines.pointsMm ++ points).length]
  styles := lines.styles ++ [style]

variable {lines : LayerLines P} {style : Nat} {points : List P}

theorem length_polylines : lines.polylines.length = lines.ends.length := by
  simp [polylines]

theorem zip_ends (first last : Nat) (ends : List Nat) :
    (first :: (ends ++ [last])).zip (ends ++ [last]) =
      (first :: ends).zip ends ++ [(ends.getLastD first, last)] := by
  induction ends generalizing first with
  | nil => rfl
  | cons next ends ih =>
    rw [List.cons_append, List.zip_cons_cons, ih next, List.zip_cons_cons, List.cons_append,
      List.getLastD_cons]

theorem Sound.push (sound : lines.Sound) : (lines.push style points).Sound where
  reaches := by simp [LayerLines.push]
  within := by
    intro stop inside
    rcases List.mem_append.mp inside with before | its
    · have := sound.within stop before
      simp only [LayerLines.push, List.length_append]
      omega
    · exact (List.mem_singleton.mp its).le
  styled := by simp [LayerLines.push, sound.styled]

theorem between_append {start stop : Nat} (within : stop ≤ points.length) (more : List P) :
    between (points ++ more) start stop = between points start stop := by
  rw [between, List.take_append_of_le_length within, between]

/-- A polyline that is added comes after those that were there. -/
theorem Sound.polylines_push (sound : lines.Sound) :
    (lines.push style points).polylines = lines.polylines ++ [points] := by
  rw [polylines, LayerLines.push, zip_ends, List.map_append, List.map_singleton, sound.reaches]
  congr 1
  · refine List.map_congr_left fun range inside => between_append ?_ points
    exact sound.within _ (List.of_mem_zip inside).2
  · simp only [between, List.take_length, List.drop_left]

theorem Sound.styledPolylines_push (sound : lines.Sound) :
    (lines.push style points).styledPolylines = lines.styledPolylines ++ [(style, points)] := by
  have length : lines.styles.length = lines.polylines.length := sound.styled.trans length_polylines.symm
  rw [styledPolylines, sound.polylines_push, LayerLines.push, List.zip_append length]
  rfl

/-! ### Straight pieces -/

theorem segments_cons_cons (first second : P) (rest : List P) :
    segments (first :: second :: rest) = (first, second) :: segments (second :: rest) := rfl

/-- Two polylines where one starts at the end of the other have the pieces of both. -/
theorem segments_joined {before after : List P} (meets : before.getLast? = after.head?) :
    segments (before ++ after.drop 1) = segments before ++ segments after := by
  induction before with
  | nil =>
    have : after = [] := List.head?_eq_none_iff.mp meets.symm
    simp [this, segments]
  | cons first rest ih =>
    cases rest with
    | nil =>
      obtain ⟨tail, rfl⟩ : ∃ tail, after = first :: tail := List.head?_eq_some_iff.mp meets.symm
      rfl
    | cons second rest =>
      rw [List.getLast?_cons_cons] at meets
      rw [List.cons_append, List.cons_append, segments_cons_cons, segments_cons_cons, ← List.cons_append,
        ih meets, List.cons_append]

theorem undirected_joined {before after : List P} (meets : before.getLast? = after.head?) :
    undirected (before ++ after.drop 1) = undirected before ++ undirected after := by
  rw [undirected, segments_joined meets, List.map_append, undirected, undirected]

/-- A polyline drawn backwards has the same pieces. -/
theorem undirected_reverse (points : List P) : (undirected points.reverse).Perm (undirected points) := by
  induction points with
  | nil => exact .nil
  | cons first rest ih =>
    cases rest with
    | nil => exact .nil
    | cons second rest =>
      have meets : (second :: rest).reverse.getLast? = [second, first].head? := by simp
      have joined := undirected_joined meets
      rw [List.drop_one, List.tail_cons, ← List.reverse_cons] at joined
      rw [joined]
      have swapped : undirected [second, first] = undirected [first, second] := by
        simp [undirected, segments, Sym2.eq_swap]
      have pieces : undirected (first :: second :: rest) = undirected [first, second] ++ undirected (second :: rest) :=
        rfl
      rw [swapped, pieces]
      exact List.perm_append_comm.trans (ih.append_left _)

theorem straightOf_append (all more : List (Nat × List P)) (style : Nat) :
    straightOf (all ++ more) style = straightOf all style ++ straightOf more style := by
  rw [straightOf, List.filter_append, List.flatMap_append, straightOf, straightOf]

theorem straightOf_perm {all other : List (Nat × List P)} (perm : all.Perm other) (style : Nat) :
    (straightOf all style).Perm (straightOf other style) :=
  (perm.filter _).flatMap_right _

/-- Polylines of one style. -/
theorem straightOf_uniform {styled : List (Nat × List P)} {one : Nat} (uniform : ∀ each ∈ styled, each.1 = one)
    (style : Nat) :
    straightOf styled style = if one = style then styled.flatMap fun each => undirected each.2 else [] := by
  rw [straightOf]
  split
  next same =>
    rw [List.filter_eq_self.mpr fun each inside => by simp [uniform each inside, same]]
  next apart =>
    rw [List.filter_eq_nil_iff.mpr fun each inside => by simp [uniform each inside, apart], List.flatMap_nil]

end LayerLines

end Ketchup.Underlay
