/-
**Rings of points, and one walk of them.**

Rings are filled by even/odd, whichever way they go round. `walk` makes one ring of several: it leaves the
first point of the first ring for each other one and comes back, so that every connector is walked there
and back.

* `walk_same` — the walk has the signed area of the rings, and contains the points they contain.
-/

import Ketchup.Library.ClosedWalks
import Mathlib.Algebra.Order.Field.Basic
import Mathlib.Algebra.Order.Group.Unbundled.Abs
import Mathlib.Algebra.Order.Ring.Rat
import Mathlib.Tactic.FieldSimp
import Mathlib.Tactic.Ring

namespace Ketchup.Contact

/-- A point of the plane, its `[f64; 2]` by name. -/
structure Point (R : Type) where
  x : R
  y : R
  deriving DecidableEq

abbrev Rings (R : Type) := List (List (Point R))

section Plane

variable {R : Type} [Field R]

/-- `DEFAULT_LINEAR_TOLERANCE_MM`. -/
def eps : R := 1e-7

def sub (a b : Point R) : Point R := ⟨a.x - b.x, a.y - b.y⟩

def dot (a b : Point R) : R := a.x * b.x + a.y * b.y

def cross (a b : Point R) : R := a.x * b.y - a.y * b.x

/-- Each point of a ring with the next, the last with the first. -/
def edges (rings : Rings R) : List (Point R × Point R) := rings.flatMap steps

variable [LinearOrder R]

def near (a b : Point R) : Bool := dot (sub a b) (sub a b) ≤ eps * eps

/-- The ray from the point towards larger `x` meets the edge. -/
def crosses (p : Point R) (edge : Point R × Point R) : Bool :=
  let a := edge.1
  let b := edge.2
  (decide (a.y > p.y) != decide (b.y > p.y)) && decide (p.x < (b.x - a.x) * (p.y - a.y) / (b.y - a.y) + a.x)

/-- One ring is entered and left where the ray meets it. -/
def inside (p : Point R) (ring : List (Point R)) : Bool :=
  (steps ring).foldl (fun inside edge => if crosses p edge then !inside else inside) false

def containsRings (rings : Rings R) (p : Point R) : Bool := (rings.filter (inside p)).length % 2 == 1

def contains (rings : Rings R) (p : Point R) : Bool := containsRings rings p

/-- The sum that `area` takes the absolute value of. -/
def signedSum (rings : Rings R) : R := ((edges rings).map fun edge => cross edge.1 edge.2).sum

def area (rings : Rings R) : R := |signedSum rings| * 0.5

/-- The rings as one walk. There is none where the first ring has no point to come back to. -/
def walk : Rings R → Option (List (Point R))
  | [] => some []
  | first :: rest => (rest.filter (· ≠ [])).foldlM (fun points ring => do
      let home ← first[0]?
      let back ← ring[0]?
      some (points ++ [home] ++ ring ++ [back])) first

end Plane

section Walk

variable {R : Type}

/-- The walk makes a detour from its first point for each further ring. -/
theorem walk_eq (home : Point R) (rest : List (Point R)) (walks : List (Point R × List (Point R))) :
    walk ((home :: rest) :: walks.map fun walk => walk.1 :: walk.2) = some (home :: rest ++ detours home walks) := by
  have each : ∀ (points : List (Point R)) (walks : List (Point R × List (Point R))),
      (walks.map fun walk => walk.1 :: walk.2).foldlM (fun points ring => do
        let home ← (home :: rest)[0]?
        let back ← ring[0]?
        some (points ++ [home] ++ ring ++ [back])) points = some (points ++ detours home walks) := by
    intro points walks
    induction walks generalizing points with
    | nil => exact congrArg some (List.append_nil points).symm
    | cons walk walks ih =>
      refine (ih _).trans ?_
      simp [detours]
  have all : (walks.map fun walk => walk.1 :: walk.2).filter (· ≠ []) = walks.map fun walk => walk.1 :: walk.2 := by
    rw [List.filter_eq_self]
    intro ring among
    obtain ⟨walk, -, rfl⟩ := List.mem_map.mp among
    rfl
  show ((walks.map fun walk => walk.1 :: walk.2).filter (· ≠ [])).foldlM _ (home :: rest) = _
  rw [all]
  exact each _ walks

/-- What is antisymmetric on steps is on the walk what it is on the rings together. -/
theorem walk_closed {M : Type} [AddCommGroup M] {weight : Point R → Point R → M}
    (back : ∀ one two, weight one two + weight two one = 0) {rings : Rings R}
    (nonempty : ∀ ring ∈ rings, ring ≠ []) :
    ∃ points, walk rings = some points ∧ closed weight points = (rings.map (closed weight)).sum := by
  obtain ⟨walks, rfl⟩ := exists_headed nonempty
  cases walks with
  | nil => exact ⟨[], rfl, rfl⟩
  | cons first walks =>
    refine ⟨_, walk_eq first.1 first.2 walks, ?_⟩
    rw [closed_joined back, List.map_cons, List.map_cons, List.sum_cons, List.map_map]
    rfl

variable [Field R]

theorem cross_back (a b : Point R) : cross a b + cross b a = 0 := by
  unfold cross
  ring

theorem signedSum_eq (rings : Rings R) : signedSum rings = (rings.map (closed cross)).sum := by
  rw [signedSum, edges, List.map_flatMap, List.flatMap_def, List.sum_flatten, List.map_map]
  rfl

variable [LinearOrder R]

/-- It does not matter which way an edge is walked. -/
theorem crosses_back (p a b : Point R) : crosses p (a, b) = crosses p (b, a) := by
  unfold crosses
  dsimp only
  by_cases level : decide (a.y > p.y) = decide (b.y > p.y)
  · rw [level, bne_self_eq_false, Bool.false_and, Bool.false_and]
  · have apart : a.y ≠ b.y := fun same => level (by rw [same])
    have one : b.y - a.y ≠ 0 := sub_ne_zero.mpr apart.symm
    have two : a.y - b.y ≠ 0 := sub_ne_zero.mpr apart
    have meets : (b.x - a.x) * (p.y - a.y) / (b.y - a.y) + a.x =
        (a.x - b.x) * (p.y - b.y) / (a.y - b.y) + b.x := by
      field_simp
      ring
    rw [meets, bne_comm]

/-- A crossing counted modulo 2. -/
def crossing (p a b : Point R) : ZMod 2 := ((crosses p (a, b)).toNat : ZMod 2)

theorem crossing_back (p a b : Point R) : crossing p a b + crossing p b a = 0 := by
  unfold crossing
  rw [crosses_back p b a]
  cases crosses p (a, b) <;> rfl

/-- A ring contains what it crosses the ray of an odd number of times. -/
theorem inside_eq (p : Point R) (ring : List (Point R)) :
    ((inside p ring).toNat : ZMod 2) = closed (crossing p) ring := by
  rw [inside, foldl_toggle]
  exact zero_add _

theorem containsRings_iff (rings : Rings R) (p : Point R) :
    containsRings rings p = true ↔ (rings.map (closed (crossing p))).sum = 1 := by
  have parity := countP_parity rings (inside p)
  simp only [inside_eq] at parity
  rw [containsRings, beq_iff_eq, ← parity]
  exact (ZMod.natCast_eq_one_iff_odd.trans Nat.odd_iff).symm

/-- **The walk of rings is their area.** It exists, and by area and by filling it is the rings. -/
theorem walk_same {rings : Rings R} (nonempty : ∀ ring ∈ rings, ring ≠ []) :
    ∃ points, walk rings = some points ∧
      signedSum [points] = signedSum rings ∧ area [points] = area rings ∧
      ∀ p, contains [points] p = contains rings p := by
  obtain ⟨points, walked, same⟩ := walk_closed cross_back nonempty
  have signed : signedSum [points] = signedSum rings := by
    rw [signedSum_eq, signedSum_eq, ← same]
    exact List.sum_singleton
  refine ⟨points, walked, signed, ?_, ?_⟩
  · rw [area, area, signed]
  · intro p
    obtain ⟨points', walked', same'⟩ := walk_closed (crossing_back p) nonempty
    obtain rfl : points' = points := Option.some.inj (walked'.symm.trans walked)
    apply Bool.eq_iff_iff.mpr
    rw [contains, contains, containsRings_iff, containsRings_iff, ← same']
    simp

/-- A square, a hole in it that touches its side, and a single point. -/
theorem walk_same_hole :
    ∃ points, walk [[⟨0, 0⟩, ⟨4, 0⟩, ⟨4, 4⟩, ⟨0, 4⟩], [⟨0, 1⟩, ⟨2, 1⟩, ⟨2, 2⟩], [(⟨3, 3⟩ : Point ℚ)]] = some points ∧
      signedSum [points] = signedSum [[⟨0, 0⟩, ⟨4, 0⟩, ⟨4, 4⟩, ⟨0, 4⟩], [⟨0, 1⟩, ⟨2, 1⟩, ⟨2, 2⟩], [⟨3, 3⟩]] ∧
      area [points] = area [[⟨0, 0⟩, ⟨4, 0⟩, ⟨4, 4⟩, ⟨0, 4⟩], [⟨0, 1⟩, ⟨2, 1⟩, ⟨2, 2⟩], [⟨3, 3⟩]] ∧
      ∀ p, contains [points] p =
        contains [[⟨0, 0⟩, ⟨4, 0⟩, ⟨4, 4⟩, ⟨0, 4⟩], [⟨0, 1⟩, ⟨2, 1⟩, ⟨2, 2⟩], [⟨3, 3⟩]] p :=
  walk_same (by simp)

end Walk

end Ketchup.Contact
