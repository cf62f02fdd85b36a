/-
**Over the hull of the points a part bears on.**

`hull` sorts the points in plan, keeps one of those that follow one another within rounding, and stacks
them forth and back. `isOver` asks whether a point is inside or within the tolerance of a side.

* `over_iff` — it is over exactly where some point of the hull of the kept points is within the tolerance;
  each point is kept up to rounding.
* `over_apart` — where no two points are that close, this is the hull of all of them.
-/

import Ketchup.Exact.Answers
import Ketchup.Library.TurningChains
import Mathlib.Analysis.Real.Sqrt
import Mathlib.Data.List.Sort

set_option linter.unusedSectionVars false

namespace Ketchup.Loads

open Exact (contactFitMm)

/-- Square roots, as far as lengths are compared with them. -/
class Roots (R : Type) [Field R] [LinearOrder R] where
  sqrt : R → R
  sqrt_le : ∀ {x y : R}, 0 ≤ y → (sqrt x ≤ y ↔ x ≤ y * y)

noncomputable instance : Roots ℝ where
  sqrt := Real.sqrt
  sqrt_le {x y} positive := by rw [Real.sqrt_le_left positive, sq]

variable {R : Type} [Field R] [LinearOrder R]

def rounding : R := 1e-9

def cross2 (left right : R × R) : R := left.1 * right.2 - left.2 * right.1

/-- Positive when o, a, b turn counter-clockwise. -/
def turn (o a b : R × R) : R := cross2 (a.1 - o.1, a.2 - o.2) (b.1 - o.1, b.2 - o.2)

/-- By x, then by y. -/
def before (a b : R × R) : Prop := a.1 < b.1 ∨ a.1 = b.1 ∧ a.2 ≤ b.2

instance (a b : R × R) : Decidable (before a b) := inferInstanceAs (Decidable (_ ∨ _))

/-- What follows a kept element: the next that is not the same is kept, and so on. -/
def dedupFrom {A : Type} (same : A → A → Bool) (kept : A) : List A → List A
  | [] => [kept]
  | next :: rest => if same next kept then dedupFrom same kept rest else kept :: dedupFrom same next rest

def dedupBy {A : Type} (same : A → A → Bool) : List A → List A
  | [] => []
  | first :: rest => dedupFrom same first rest

def rounded (a b : R × R) : Bool := |a.1 - b.1| ≤ rounding && |a.2 - b.2| ≤ rounding

/-- The points that the hull is made of. -/
def kept (points : List (R × R)) : List (R × R) := dedupBy rounded (points.insertionSort before)

/-- What does not turn left with the new point is dropped. The stack has its top first. -/
def keepTurning : List (R × R) → R × R → List (R × R)
  | last :: second :: rest, point =>
    if turn second last point ≤ 0 then keepTurning (second :: rest) point else point :: last :: second :: rest
  | stack, point => point :: stack

/-- Counter-clockwise. -/
def hull (all : List (R × R)) : List (R × R) :=
  let points := kept all
  if points.length < 3 then points
  else
    let lower := points.foldl keepTurning []
    let upper := points.reverse.foldl keepTurning []
    lower.tail.reverse ++ upper.tail.reverse

section Distances

variable [Roots R]

def plan (points : List (R × R × R)) : List (R × R) := points.map fun point => (point.1, point.2.1)

def segmentDistance (p a b : R × R) : R :=
  let dx := b.1 - a.1
  let dy := b.2 - a.2
  let length := dx * dx + dy * dy
  let t := if length > 0 then max 0 (min 1 (((p.1 - a.1) * dx + (p.2 - a.2) * dy) / length)) else 0
  Roots.sqrt ((p.1 - a.1 - t * dx) ^ 2 + (p.2 - a.2 - t * dy) ^ 2)

/-- Whether `p` is inside the hull of the points or within the tolerance of it. -/
def isOver (p : R × R) (points : List (R × R × R)) : Bool :=
  let hull := hull (plan points)
  match hull with
  | [] => false
  | [only] => segmentDistance p only only ≤ contactFitMm
  | [first, last] => segmentDistance p first last ≤ contactFitMm
  | _ =>
    ((List.range hull.length).all fun i => 0 ≤ turn (corner hull i) (corner hull (i + 1)) p) ||
      (List.range hull.length).any fun i => segmentDistance p (corner hull i) (corner hull (i + 1)) ≤ contactFitMm

end Distances

/-! ### Kept points -/

section Kept

variable {A : Type} {same : A → A → Bool}

theorem dedupFrom_sublist (kept : A) (rest : List A) : List.Sublist (dedupFrom same kept rest) (kept :: rest) := by
  induction rest generalizing kept with
  | nil => exact List.Sublist.refl _
  | cons next rest ih =>
    rw [dedupFrom]
    split
    · exact (ih kept).trans (List.Sublist.cons_cons kept (List.sublist_cons_self next rest))
    · exact List.Sublist.cons_cons kept (ih next)

theorem dedupBy_sublist (list : List A) : List.Sublist (dedupBy same list) list := by
  cases list with
  | nil => exact List.Sublist.refl _
  | cons first rest => exact dedupFrom_sublist first rest

theorem exists_dedupFrom (same : A → A → Bool) (kept : A) (rest : List A) : ∃ others, dedupFrom same kept rest = kept :: others := by
  induction rest generalizing kept with
  | nil => exact ⟨[], rfl⟩
  | cons next rest ih =>
    rw [dedupFrom]
    split
    · exact ih kept
    · exact ⟨_, rfl⟩

theorem dedupFrom_isChain (kept : A) (rest : List A) :
    (dedupFrom same kept rest).IsChain fun one two => same two one = false := by
  induction rest generalizing kept with
  | nil => exact List.isChain_singleton kept
  | cons next rest ih =>
    rw [dedupFrom]
    split
    · exact ih kept
    · rename_i other
      have chain := ih next
      obtain ⟨others, is⟩ := exists_dedupFrom same next rest
      rw [is] at chain ⊢
      exact List.isChain_cons_cons.mpr ⟨eq_false_of_ne_true other, chain⟩

theorem dedupBy_isChain (list : List A) : (dedupBy same list).IsChain fun one two => same two one = false := by
  cases list with
  | nil => exact List.isChain_nil
  | cons first rest => exact dedupFrom_isChain first rest

/-- What is left out is the same as something kept. -/
theorem dedupFrom_covers (reflexive : ∀ a, same a a = true) (kept : A) (rest : List A) :
    ∀ a ∈ kept :: rest, ∃ b ∈ dedupFrom same kept rest, same a b = true := by
  induction rest generalizing kept with
  | nil =>
    intro a among
    exact ⟨a, among, reflexive a⟩
  | cons next rest ih =>
    intro a among
    rw [dedupFrom]
    by_cases like : same next kept = true
    · rw [if_pos like]
      rcases List.mem_cons.mp among with rfl | among
      · exact ih a a List.mem_cons_self
      · rcases List.mem_cons.mp among with rfl | among
        · obtain ⟨others, is⟩ := exists_dedupFrom same kept rest
          exact ⟨kept, by rw [is]; exact List.mem_cons_self, like⟩
        · exact ih kept a (List.mem_cons_of_mem kept among)
    · rw [if_neg like]
      rcases List.mem_cons.mp among with rfl | among
      · exact ⟨a, List.mem_cons_self, reflexive a⟩
      · obtain ⟨b, held, is⟩ := ih next a among
        exact ⟨b, List.mem_cons_of_mem kept held, is⟩

theorem dedupBy_covers (reflexive : ∀ a, same a a = true) (list : List A) :
    ∀ a ∈ list, ∃ b ∈ dedupBy same list, same a b = true := by
  cases list with
  | nil => simp
  | cons first rest => exact dedupFrom_covers reflexive first rest

end Kept

instance : IsTrans (R × R) before where
  trans a b c one two := by
    rcases one with less | ⟨same, less⟩ <;> rcases two with later | ⟨same', later⟩
    · exact .inl (less.trans later)
    · exact .inl (same' ▸ less)
    · exact .inl (same ▸ later)
    · exact .inr ⟨same.trans same', less.trans later⟩

instance : Std.Total (before : R × R → R × R → Prop) where
  total a b := by
    rcases lt_trichotomy a.1 b.1 with less | same | more
    · exact .inl (.inl less)
    · rcases le_total a.2 b.2 with below | above
      · exact .inl (.inr ⟨same, below⟩)
      · exact .inr (.inr ⟨same.symm, above⟩)
    · exact .inr (.inl more)

theorem kept_sublist (points : List (R × R)) : List.Sublist (kept points) (points.insertionSort before) :=
  dedupBy_sublist _

theorem kept_subset {points : List (R × R)} {q : R × R} (held : q ∈ kept points) : q ∈ points :=
  (List.perm_insertionSort before points).mem_iff.mp ((kept_sublist points).subset held)

variable [IsStrictOrderedRing R]

theorem rounding_pos : (0 : R) < rounding := by
  unfold rounding
  norm_num

theorem rounded_self (a : R × R) : rounded a a = true := by
  simp [rounded, rounding_pos.le]

/-- The vectors that lead from a point to one sorted after it. -/
def Ahead (v : R × R) : Prop := 0 < v.1 ∨ v.1 = 0 ∧ 0 < v.2

theorem ahead_forward : Forward (Ahead : R × R → Prop) where
  add {u v} one two := by
    rcases one with right | ⟨level, up⟩ <;> rcases two with right' | ⟨level', up'⟩
    · exact .inl (add_pos right right')
    · exact .inl (show 0 < u.1 + v.1 by rwa [level', add_zero])
    · exact .inl (show 0 < u.1 + v.1 by rwa [level, zero_add])
    · exact .inr ⟨show u.1 + v.1 = 0 by rw [level, level', add_zero], add_pos up up'⟩
  smul {c u} positive one := by
    rcases one with right | ⟨level, up⟩
    · exact .inl (mul_pos positive right)
    · exact .inr ⟨show c * u.1 = 0 by rw [level, mul_zero], mul_pos positive up⟩
  zero back := by
    rcases back with right | ⟨-, up⟩
    · exact lt_irrefl _ right
    · exact lt_irrefl _ up

theorem ahead_of_before {a b : R × R} (sorted : before a b) (apart : a ≠ b) : Ahead (b - a) := by
  rcases sorted with less | ⟨same, below⟩
  · exact .inl (sub_pos.mpr less)
  · exact .inr ⟨sub_eq_zero.mpr same.symm, sub_pos.mpr (lt_of_le_of_ne below fun level => apart (Prod.ext same level))⟩

theorem kept_covers (points : List (R × R)) : ∀ q ∈ points, ∃ k ∈ kept points, rounded q k = true := fun q among =>
  dedupBy_covers rounded_self _ q ((List.perm_insertionSort before points).mem_iff.mpr among)

theorem ahead_of_sorted {points : List (R × R)} (sorted : points.Pairwise before)
    (apart : points.IsChain fun q r => rounded r q = false) : points.Pairwise fun q r => Ahead (r - q) := by
  induction points with
  | nil => exact .nil
  | cons q points ih =>
    cases points with
    | nil => exact List.pairwise_singleton _ q
    | cons r rest =>
      obtain ⟨other, apart⟩ := List.isChain_cons_cons.mp apart
      obtain ⟨less, sorted⟩ := List.pairwise_cons.mp sorted
      have after := ih sorted apart
      have step : Ahead (r - q) := by
        refine ahead_of_before (less r List.mem_cons_self) ?_
        rintro rfl
        rw [rounded_self] at other
        cases other
      refine List.pairwise_cons.mpr ⟨List.forall_mem_cons.mpr ⟨step, fun later held => ?_⟩, after⟩
      rw [← sub_add_sub_cancel later r q]
      exact ahead_forward.add (List.rel_of_pairwise_cons after held) step

/-- The kept points, strictly in their order. -/
theorem kept_sorted (points : List (R × R)) : (kept points).Pairwise fun q r => Ahead (r - q) :=
  ahead_of_sorted ((List.pairwise_insertionSort before points).sublist (kept_sublist points)) (dedupBy_isChain _)

/-! ### Distances -/

/-- The square of the distance of two points. -/
def apart (p q : R × R) : R := (p.1 - q.1) ^ 2 + (p.2 - q.2) ^ 2

/-- Some point of a set is within the tolerance. -/
def Within (p : R × R) (set : Set (R × R)) : Prop := ∃ q ∈ set, apart p q ≤ contactFitMm * contactFitMm

theorem fit_pos : (0 : R) < contactFitMm := by
  unfold contactFitMm
  norm_num

/-- The quadratic of the distance along a line is least at the place nearest the point. -/
theorem nearest_le (ratio : R) {length s : R} (positive : 0 ≤ length) (low : 0 ≤ s) (high : s ≤ 1) :
    max 0 (min 1 ratio) * max 0 (min 1 ratio) * length - 2 * (max 0 (min 1 ratio) * (ratio * length)) ≤
      s * s * length - 2 * (s * (ratio * length)) := by
  have gap : 0 ≤ (s - max 0 (min 1 ratio)) * ((s + max 0 (min 1 ratio)) - 2 * ratio) := by
    rcases le_total ratio 0 with below | above
    · rw [max_eq_left ((min_le_right 1 ratio).trans below)]
      nlinarith
    · rcases le_total 1 ratio with past | within
      · rw [min_eq_left past, max_eq_right zero_le_one]
        nlinarith
      · rw [min_eq_right within, max_eq_right above]
        nlinarith [mul_self_nonneg (s - ratio)]
  nlinarith [mul_nonneg gap positive]

theorem apart_line (p a b : R × R) (t : R) :
    apart p (a + t • (b - a)) = (p.1 - a.1 - t * (b.1 - a.1)) ^ 2 + (p.2 - a.2 - t * (b.2 - a.2)) ^ 2 := by
  simp only [apart, Prod.fst_add, Prod.snd_add, Prod.smul_fst, Prod.smul_snd, Prod.fst_sub, Prod.snd_sub, smul_eq_mul]
  ring

variable [Roots R]

/-- The distance to a segment is that to its nearest point. -/
theorem segmentDistance_le (p a b : R × R) :
    segmentDistance p a b ≤ contactFitMm ↔ Within p (segment R a b) := by
  unfold segmentDistance
  dsimp only
  rw [Roots.sqrt_le fit_pos.le]
  by_cases long : (b.1 - a.1) * (b.1 - a.1) + (b.2 - a.2) * (b.2 - a.2) > 0
  · rw [if_pos long]
    constructor
    · intro close
      exact ⟨_, mem_segment_line.mpr ⟨_, le_max_left _ _, max_le zero_le_one (min_le_left _ _), rfl⟩,
        (apart_line p a b _).trans_le close⟩
    · rintro ⟨r, among, close⟩
      obtain ⟨s, low, high, rfl⟩ := mem_segment_line.mp among
      refine le_trans ?_ close
      rw [apart_line]
      have least := nearest_le (((p.1 - a.1) * (b.1 - a.1) + (p.2 - a.2) * (b.2 - a.2)) /
        ((b.1 - a.1) * (b.1 - a.1) + (b.2 - a.2) * (b.2 - a.2))) long.le low high
      rw [div_mul_cancel₀ _ (ne_of_gt long)] at least
      linarith
  · rw [if_neg long]
    have one := mul_self_nonneg (b.1 - a.1)
    have two := mul_self_nonneg (b.2 - a.2)
    have first : b.1 = a.1 := sub_eq_zero.mp (mul_self_eq_zero.mp (by linarith))
    have second : b.2 = a.2 := sub_eq_zero.mp (mul_self_eq_zero.mp (by linarith))
    obtain rfl : b = a := Prod.ext first second
    rw [segment_same]
    simp [Within, apart]

/-! ### The hull -/

theorem keepTurning_eq (stack : List (R × R)) (point : R × R) : keepTurning stack point = stacked stack point := by
  induction stack with
  | nil => rfl
  | cons last stack ih =>
    cases stack with
    | nil => rfl
    | cons second rest =>
      rw [keepTurning, stacked, ih]
      rfl

/-- Three points or more are stacked forth and back. -/
theorem hull_eq (points : List (R × R)) (many : ¬(kept points).length < 3) : hull points = chainHull (kept points) := by
  unfold hull chainHull
  dsimp only
  rw [if_neg many, show (keepTurning : List (R × R) → R × R → List (R × R)) = stacked from
    funext fun stack => funext fun point => keepTurning_eq stack point]

/-- Inside the hull of points, or within the tolerance of it. -/
def Over (p : R × R) (points : Set (R × R)) : Prop := Within p (convexHull R points)

theorem within_mono {p : R × R} {one two : Set (R × R)} (sub : one ⊆ two) (within : Within p one) : Within p two := by
  obtain ⟨q, among, close⟩ := within
  exact ⟨q, sub among, close⟩

theorem within_self {p : R × R} {set : Set (R × R)} (among : p ∈ set) : Within p set :=
  ⟨p, among, by
    rw [apart, sub_self, sub_self]
    have := mul_self_nonneg (contactFitMm : R)
    simpa using this⟩

/-- On the way to a point, one only comes nearer to it. -/
theorem apart_segment {p q r : R × R} (among : r ∈ segment R q p) : apart p r ≤ apart p q := by
  obtain ⟨t, low, high, rfl⟩ := mem_segment_line.mp among
  have is : apart p (q + t • (p - q)) = (1 - t) ^ 2 * apart p q := by
    simp only [apart, Prod.fst_add, Prod.snd_add, Prod.smul_fst, Prod.smul_snd, Prod.fst_sub, Prod.snd_sub, smul_eq_mul]
    ring
  have positive : 0 ≤ apart p q := by
    unfold apart
    positivity
  rw [is]
  nlinarith [mul_nonneg (mul_nonneg low (sub_nonneg.mpr high)) positive, mul_nonneg low positive]

/-- What a polygon has on the left of its sides, it has also in its hull. -/
theorem region_of_hull {points : List (R × R)} {corners : ℕ → R × R} (left : ∀ q ∈ points, Region corners q)
    {q : R × R} (among : q ∈ convexHull R {q | q ∈ points}) : Region corners q := by
  refine convexHull_min (t := {q | Region corners q}) left ?_ among
  rw [convex_iff_segment_subset]
  rintro a one b two r held i
  obtain ⟨t, low, high, rfl⟩ := mem_segment_line.mp held
  rw [orient_line]
  exact add_nonneg (mul_nonneg (sub_nonneg.mpr high) (one i)) (mul_nonneg low (two i))

/-- **Over a polygon.** The sides tell what the hull of the points is. -/
theorem over_polygon {points : List (R × R)} {count : ℕ} {corners : ℕ → R × R} (polygon : ConvexPolygon count corners)
    (left : ∀ q ∈ points, Region corners q) (among : ∀ i, corners i ∈ points) (p : R × R) :
    Over p {q | q ∈ points} ↔ (∀ i < count, 0 ≤ orient (corners i) (corners (i + 1)) p) ∨
      ∃ i < count, Within p (segment R (corners i) (corners (i + 1))) := by
  have region : (∀ i < count, 0 ≤ orient (corners i) (corners (i + 1)) p) ↔ Region corners p := by
    constructor
    · intro all i
      rw [← polygon.orient_mod]
      exact all _ (Nat.mod_lt i polygon.some)
    · exact fun region i _ => region i
  rw [region]
  constructor
  · rintro ⟨q, held, close⟩
    by_cases inside : Region corners p
    · exact .inl inside
    · obtain ⟨i, r, onWay, onSide⟩ := polygon.region_exit (region_of_hull left held) inside
      refine .inr ⟨i % count, Nat.mod_lt i polygon.some, r, ?_, (apart_segment onWay).trans close⟩
      have next : corners (i % count + 1) = corners (i + 1) := by
        rw [← polygon.around_mod (i % count + 1), ← polygon.around_mod (i + 1), Nat.mod_add_mod]
      rwa [next, polygon.around_mod]
  · rintro (inside | ⟨i, -, near⟩)
    · refine within_self (convexHull_mono ?_ (polygon.region_hull inside))
      rintro _ ⟨i, rfl⟩
      exact among i
    · exact within_mono (segment_subset_convexHull (among i) (among (i + 1))) near

theorem over_kept (p : R × R) (points : List (R × R × R)) :
    isOver p points = true ↔ Over p {q | q ∈ kept (plan points)} := by
  unfold isOver
  generalize plan points = plan
  have sorted := kept_sorted plan
  by_cases few : (kept plan).length < 3
  · rw [show hull plan = kept plan from if_pos few]
    cases points : kept plan with
    | nil => simp [Over, Within]
    | cons a rest =>
      cases rest with
      | nil =>
        dsimp only
        rw [decide_eq_true_eq, segmentDistance_le, segment_same, Over]
        simp
      | cons b rest =>
        cases rest with
        | nil =>
          dsimp only
          rw [decide_eq_true_eq, segmentDistance_le, Over, ← convexHull_pair]
          have pair : {q | q ∈ [a, b]} = ({a, b} : Set (R × R)) := by
            ext q
            simp
          rw [pair]
        | cons c rest =>
          rw [points, List.length_cons, List.length_cons, List.length_cons] at few
          omega
  · rw [hull_eq plan few]
    generalize kept plan = points at *
    cases points with
    | nil => exact absurd (by simp) few
    | cons first rest =>
      have some : rest ≠ [] := by
        rintro rfl
        exact few (by simp)
      rcases chainHull_cases ahead_forward sorted some with ⟨last, among, is, between⟩ | ⟨polygon, left, among⟩
      · rw [is]
        dsimp only
        rw [decide_eq_true_eq, segmentDistance_le, Over]
        have whole : convexHull R {q | q ∈ first :: rest} = segment R first last :=
          (convexHull_min between (convex_segment first last)).antisymm
            (segment_subset_convexHull List.mem_cons_self (List.mem_cons_of_mem first among))
        rw [whole]
      · generalize chainHull (first :: rest) = hull at *
        match hull with
        | [] => exact absurd polygon.some (lt_irrefl 0)
        | [a] => exact absurd (by simp [corner]) (polygon.next_ne 0)
        | [a, b] =>
          have turn := polygon.turns 0
          rw [show corner [a, b] (0 + 2) = corner [a, b] 0 by simp [corner], orient_start] at turn
          exact absurd turn (lt_irrefl 0)
        | a :: b :: c :: others =>
          rw [over_polygon polygon left (fun i => among _ (corner_mem (List.cons_ne_nil _ _) i)) p]
          simp only [Bool.or_eq_true, List.all_eq_true, List.any_eq_true, List.mem_range, decide_eq_true_eq,
            segmentDistance_le]
          rfl

/-- **What is over points.** It is over the kept points exactly by their hull; they are some of the points, and
each of the points is one of them up to rounding. -/
theorem over_iff (p : R × R) (points : List (R × R × R)) :
    (isOver p points = true ↔ Over p {q | q ∈ kept (plan points)}) ∧
      (∀ q ∈ kept (plan points), q ∈ plan points) ∧ ∀ q ∈ plan points, ∃ k ∈ kept (plan points), rounded q k = true :=
  ⟨over_kept p points, fun _ held => kept_subset held, kept_covers (plan points)⟩

/-- A triangle with one corner given twice, up to rounding. -/
theorem over_iff_triangle :
    (isOver (1, 1) [(0, 0, 0), (4, 0, 0), (0, 4, 0), (4 + 1e-10, 0, (7 : ℝ))] = true ↔
      Over (1, 1) {q | q ∈ kept (plan [(0, 0, 0), (4, 0, 0), (0, 4, 0), (4 + 1e-10, 0, (7 : ℝ))])}) ∧
      (∀ q ∈ kept (plan [(0, 0, 0), (4, 0, 0), (0, 4, 0), (4 + 1e-10, 0, (7 : ℝ))]),
        q ∈ plan [(0, 0, 0), (4, 0, 0), (0, 4, 0), (4 + 1e-10, 0, (7 : ℝ))]) ∧
      ∀ q ∈ plan [(0, 0, 0), (4, 0, 0), (0, 4, 0), (4 + 1e-10, 0, (7 : ℝ))],
        ∃ k ∈ kept (plan [(0, 0, 0), (4, 0, 0), (0, 4, 0), (4 + 1e-10, 0, (7 : ℝ))]), rounded q k = true :=
  over_iff (1, 1) [(0, 0, 0), (4, 0, 0), (0, 4, 0), (4 + 1e-10, 0, 7)]

/-- Points no two of which are the same by rounding. -/
def Apart (points : Set (R × R)) : Prop := ∀ q ∈ points, ∀ r ∈ points, rounded q r = true → q = r

/-- Where rounding confuses no two points, the hull is that of all of them. -/
theorem over_apart {p : R × R} {points : List (R × R × R)} (distinct : Apart {q | q ∈ plan points}) :
    isOver p points = true ↔ Over p {q | q ∈ plan points} := by
  rw [over_kept]
  have same : {q | q ∈ kept (plan points)} = {q | q ∈ plan points} := by
    ext q
    refine ⟨kept_subset, fun among => ?_⟩
    obtain ⟨k, held, like⟩ := kept_covers (plan points) q among
    rw [distinct q among k (kept_subset held) like]
    exact held
  rw [same]

theorem over_mono {p : R × R} {one two : Set (R × R)} (sub : one ⊆ two) (above : Over p one) : Over p two :=
  within_mono (convexHull_mono sub) above

end Ketchup.Loads
