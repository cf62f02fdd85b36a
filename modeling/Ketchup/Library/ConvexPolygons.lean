/-
**Convex polygons by their corners.**

The corners of a polygon are numbered all the way round, again and again. It is convex where it turns left
at each corner and has all of them on the left of each side.

* `region_hull` — what is on the left of each side is in the convex hull of the corners.
* `region_exit` — the way out of the polygon crosses one of its sides.
-/

import Mathlib.Analysis.Convex.Combination
import Mathlib.Data.Nat.Find
import Mathlib.Data.Finset.Max
import Mathlib.Tactic.FieldSimp
import Mathlib.Tactic.FinCases
import Mathlib.Tactic.Linarith
import Mathlib.Tactic.LinearCombination
import Mathlib.Tactic.Ring

set_option linter.unusedSectionVars false

namespace Ketchup

variable {R : Type} [Field R] [LinearOrder R] [IsStrictOrderedRing R]

/-! ### Sides of a line -/

/-- The area of the parallelogram of two vectors, positive where the second is on the left. -/
def wedge (u v : R × R) : R := u.1 * v.2 - u.2 * v.1

/-- On which side of the line through two points a third is, positive on the left. -/
def orient (a b p : R × R) : R := wedge (b - a) (p - a)

theorem wedge_self (u : R × R) : wedge u u = 0 := by
  unfold wedge
  ring

theorem wedge_swap (u v : R × R) : wedge v u = -wedge u v := by
  unfold wedge
  ring

theorem wedge_smul (u v : R × R) (c : R) : wedge u (c • v) = c * wedge u v := by
  simp only [wedge, Prod.smul_fst, Prod.smul_snd, smul_eq_mul]
  ring

/-- Three vectors of the plane depend on each other. -/
theorem wedge_expand (u v w : R × R) : wedge u w • v = wedge v w • u + wedge u v • w := by
  ext
  · simp only [wedge, Prod.smul_fst, Prod.fst_add, smul_eq_mul]
    ring
  · simp only [wedge, Prod.smul_snd, Prod.snd_add, smul_eq_mul]
    ring

theorem orient_start (a b : R × R) : orient a b a = 0 := by
  simp [orient, wedge]

theorem orient_end (a b : R × R) : orient a b b = 0 := wedge_self _

theorem orient_rotate (a b p : R × R) : orient b p a = orient a b p := by
  simp only [orient, wedge, Prod.fst_sub, Prod.snd_sub]
  ring

theorem orient_swap (a b p : R × R) : orient b a p = -orient a b p := by
  simp only [orient, wedge, Prod.fst_sub, Prod.snd_sub]
  ring

/-- Along a line, the side changes evenly. -/
theorem orient_line (a b p q : R × R) (t : R) :
    orient a b (p + t • (q - p)) = (1 - t) * orient a b p + t * orient a b q := by
  simp only [orient, wedge, Prod.fst_sub, Prod.snd_sub, Prod.fst_add, Prod.snd_add, Prod.smul_fst,
    Prod.smul_snd, smul_eq_mul]
  ring

theorem mem_segment_line {a b p : R × R} :
    p ∈ segment R a b ↔ ∃ t : R, 0 ≤ t ∧ t ≤ 1 ∧ p = a + t • (b - a) := by
  rw [segment_eq_image']
  constructor
  · rintro ⟨t, ⟨low, high⟩, rfl⟩
    exact ⟨t, low, high, rfl⟩
  · rintro ⟨t, low, high, rfl⟩
    exact ⟨t, ⟨low, high⟩, rfl⟩

/-- What is on the left of all sides of a triangle is in it. -/
theorem mem_hull_triangle {points : Set (R × R)} {a b c p : R × R} (one : a ∈ points) (two : b ∈ points)
    (three : c ∈ points) (area : 0 < orient a b c) (ab : 0 ≤ orient a b p) (bc : 0 ≤ orient b c p)
    (ca : 0 ≤ orient c a p) : p ∈ convexHull R points := by
  have whole : orient a b p + orient b c p + orient c a p = orient a b c := by
    simp only [orient, wedge, Prod.fst_sub, Prod.snd_sub]
    ring
  have is : p = (orient b c p / orient a b c) • a + (orient c a p / orient a b c) • b + (orient a b p / orient a b c) • c := by
    have nonzero := area.ne'
    ext
    · simp only [Prod.fst_add, Prod.smul_fst, smul_eq_mul]
      field_simp
      simp only [orient, wedge, Prod.fst_sub, Prod.snd_sub]
      ring
    · simp only [Prod.snd_add, Prod.smul_snd, smul_eq_mul]
      field_simp
      simp only [orient, wedge, Prod.fst_sub, Prod.snd_sub]
      ring
  have weights : orient b c p / orient a b c + orient c a p / orient a b c + orient a b p / orient a b c = 1 := by
    rw [← add_div, ← add_div, div_eq_one_iff_eq area.ne']
    linarith
  have inside := (convex_convexHull R points).sum_mem (t := Finset.univ)
    (w := ![orient b c p / orient a b c, orient c a p / orient a b c, orient a b p / orient a b c]) (z := ![a, b, c])
  rw [Fin.sum_univ_three, Fin.sum_univ_three] at inside
  rw [is]
  refine inside ?_ weights ?_
  · intro i _
    fin_cases i
    · exact div_nonneg bc area.le
    · exact div_nonneg ca area.le
    · exact div_nonneg ab area.le
  · intro i _
    fin_cases i
    · exact subset_convexHull R points one
    · exact subset_convexHull R points two
    · exact subset_convexHull R points three

/-! ### Polygons -/

/-- The corners of a convex polygon, all the way round. -/
structure ConvexPolygon (count : ℕ) (corner : ℕ → R × R) : Prop where
  some : 0 < count
  around : ∀ i, corner (i + count) = corner i
  turns : ∀ i, 0 < orient (corner i) (corner (i + 1)) (corner (i + 2))
  left : ∀ i k, 0 ≤ orient (corner i) (corner (i + 1)) (corner k)

/-- What is on the left of each side. -/
def Region (corner : ℕ → R × R) (p : R × R) : Prop := ∀ i, 0 ≤ orient (corner i) (corner (i + 1)) p

namespace ConvexPolygon

variable {count : ℕ} {corner : ℕ → R × R} (polygon : ConvexPolygon count corner)

include polygon

/-- Before each side there is another. -/
theorem exists_before (i : ℕ) : ∃ before, corner (before + 1) = corner i ∧ corner (before + 2) = corner (i + 1) := by
  have some := polygon.some
  refine ⟨i + (count - 1), ?_, ?_⟩
  · rw [show i + (count - 1) + 1 = i + count by omega, polygon.around]
  · rw [show i + (count - 1) + 2 = i + 1 + count by omega, polygon.around]

/-- What is on the line of a side and on the left of all sides is on the side. -/
theorem mem_side {p : R × R} (region : Region corner p) {i : ℕ}
    (level : orient (corner i) (corner (i + 1)) p = 0) : p ∈ segment R (corner i) (corner (i + 1)) := by
  obtain ⟨before, start, stop⟩ := polygon.exists_before i
  have first := polygon.turns before
  have second := polygon.turns i
  have low := region before
  have high := region (i + 1)
  rw [start, stop] at first
  rw [start] at low
  generalize corner i = a at *
  generalize corner (i + 1) = b at *
  generalize corner (i + 2) = c at *
  generalize corner before = z at *
  have along : p - a = (orient z a p / orient z a b) • (b - a) := by
    have expand := wedge_expand (a - z) (b - a) (p - a)
    have one : wedge (a - z) (p - a) = orient z a p := by
      simp only [orient, wedge, Prod.fst_sub, Prod.snd_sub]
      ring
    have two : wedge (a - z) (b - a) = orient z a b := by
      simp only [orient, wedge, Prod.fst_sub, Prod.snd_sub]
      ring
    have three : wedge (b - a) (p - a) = 0 := level
    rw [one, two, three, zero_smul, zero_add] at expand
    rw [div_eq_inv_mul, mul_smul, expand, smul_smul, inv_mul_cancel₀ first.ne', one_smul]
  obtain ⟨t, positive, is⟩ : ∃ t, 0 ≤ t ∧ p = a + t • (b - a) :=
    ⟨_, div_nonneg low first.le, by rw [← along, add_sub_cancel]⟩
  refine mem_segment_line.mpr ⟨t, positive, ?_, is⟩
  -- Past the end of the side it would be on the right of the next.
  by_contra past
  have far := mul_pos (sub_pos.mpr (not_le.mp past)) second
  have next : orient b c p = (1 - t) * orient a b c := by
    rw [is, orient_line, orient_start, mul_zero, add_zero, orient_rotate]
  linarith

theorem next_ne (i : ℕ) : corner i ≠ corner (i + 1) := by
  intro same
  have turn := polygon.turns i
  rw [← same] at turn
  simp [orient, wedge] at turn

/-- On the line of a side there is no corner but its ends. -/
theorem level_ends {i k : ℕ} (level : orient (corner i) (corner (i + 1)) (corner k) = 0) :
    corner i = corner k ∨ corner (i + 1) = corner k := by
  obtain ⟨t, low, high, is⟩ := mem_segment_line.mp (polygon.mem_side (fun j => polygon.left j k) level)
  obtain ⟨before, start, stop⟩ := polygon.exists_before k
  have turn := polygon.turns before
  have firsts := And.intro (polygon.left before i) (polygon.left before (i + 1))
  have seconds := And.intro (polygon.left k i) (polygon.left k (i + 1))
  rw [start, stop] at turn
  rw [start] at firsts
  generalize corner i = a at *
  generalize corner (i + 1) = b at *
  generalize corner before = z at *
  generalize corner (k + 1) = d at *
  have first : (1 - t) * orient z (corner k) a + t * orient z (corner k) b = 0 := by
    rw [← orient_line, ← is, orient_end]
  have second : (1 - t) * orient (corner k) d a + t * orient (corner k) d b = 0 := by
    rw [← orient_line, ← is, orient_start]
  generalize corner k = c at *
  rcases high.eq_or_lt with rfl | inner
  · right
    rw [is, one_smul, add_sub_cancel]
  · -- The corner before its end is on both sides next to the corner.
    left
    have outer := sub_pos.mpr inner
    have one : orient z c a = 0 := by
      have := mul_nonneg low firsts.2
      have := mul_nonneg outer.le firsts.1
      exact (mul_eq_zero.mp (by linarith : (1 - t) * orient z c a = 0)).resolve_left outer.ne'
    have two : orient c d a = 0 := by
      have := mul_nonneg low seconds.2
      have := mul_nonneg outer.le seconds.1
      exact (mul_eq_zero.mp (by linarith : (1 - t) * orient c d a = 0)).resolve_left outer.ne'
    have expand := wedge_expand (c - z) (a - c) (d - c)
    have three : wedge (c - z) (d - c) = orient z c d := by
      simp only [orient, wedge, Prod.fst_sub, Prod.snd_sub]
      ring
    have four : wedge (c - z) (a - c) = orient z c a := by
      simp only [orient, wedge, Prod.fst_sub, Prod.snd_sub]
      ring
    rw [three, four, one, wedge_swap (d - c) (a - c), zero_smul, add_zero,
      show wedge (d - c) (a - c) = 0 from two, neg_zero, zero_smul] at expand
    exact sub_eq_zero.mp ((smul_eq_zero.mp expand).resolve_left turn.ne')

/-- Seen from the first corner, some two corners in a row have the point between them. -/
theorem exists_fan {p : R × R} (region : Region corner p) :
    ∃ k, 0 ≤ orient (corner 0) (corner (k + 1)) p ∧ orient (corner 0) (corner (k + 2)) p ≤ 0 ∧
      0 < orient (corner 0) (corner (k + 1)) (corner (k + 2)) := by
  classical
  have last : ∃ k, orient (corner 0) (corner (k + 2)) p ≤ 0 := by
    obtain ⟨before, start, -⟩ := polygon.exists_before 0
    have some := polygon.some
    refine ⟨before + count + count - 2, ?_⟩
    rw [show before + count + count - 2 + 2 = before + count + count by omega, polygon.around, polygon.around, orient_swap]
    have right := region before
    rw [start] at right
    linarith
  have earlier : ∀ before, Nat.find last = before + 1 → 0 < orient (corner 0) (corner (before + 2)) p :=
    fun before is => not_le.mp (Nat.find_min last (by omega))
  have passed := Nat.find_spec last
  generalize Nat.find last = k at *
  have upTo : 0 ≤ orient (corner 0) (corner (k + 1)) p := by
    cases k with
    | zero => exact region 0
    | succ before => exact (earlier before rfl).le
  refine ⟨k, upTo, passed, lt_of_le_of_ne ?_ ?_⟩
  · rw [← orient_rotate]
    exact polygon.left (k + 1) 0
  · intro level
    rw [← orient_rotate] at level
    have behind := region (k + 1)
    rcases polygon.level_ends level.symm with same | same
    · cases k with
      | zero => exact polygon.next_ne 0 same.symm
      | succ before =>
        have ahead := earlier before rfl
        rw [same] at ahead
        simp [orient, wedge] at ahead
    · rw [same, orient_swap] at behind
      cases k with
      | zero =>
        have turn := polygon.turns 0
        rw [same, orient_start] at turn
        exact lt_irrefl _ turn
      | succ before =>
        have ahead := earlier before rfl
        linarith

/-- **The region of the polygon is in the hull of its corners.** -/
theorem region_hull {p : R × R} (region : Region corner p) : p ∈ convexHull R (Set.range corner) := by
  obtain ⟨k, upTo, passed, area⟩ := polygon.exists_fan region
  refine mem_hull_triangle ⟨0, rfl⟩ ⟨k + 1, rfl⟩ ⟨k + 2, rfl⟩ area upTo (region (k + 1)) ?_
  rw [orient_swap]
  linarith

theorem around_mod (i : ℕ) : corner (i % count) = corner i := by
  have turns : ∀ j rounds, corner (j + count * rounds) = corner j := by
    intro j rounds
    induction rounds with
    | zero => rw [mul_zero, add_zero]
    | succ rounds ih => rw [Nat.mul_succ, ← add_assoc, polygon.around, ih]
  conv_rhs => rw [← Nat.mod_add_div i count]
  exact (turns _ _).symm

/-- The sides after the first round are those of the first. -/
theorem orient_mod (i : ℕ) (p : R × R) :
    orient (corner (i % count)) (corner (i % count + 1)) p = orient (corner i) (corner (i + 1)) p := by
  have next : corner (i % count + 1) = corner (i + 1) := by
    rw [← polygon.around_mod (i % count + 1), ← polygon.around_mod (i + 1), Nat.mod_add_mod]
  rw [next, polygon.around_mod]

/-- **The way out crosses a side.** -/
theorem region_exit {q p : R × R} (inside : Region corner q) (outside : ¬Region corner p) :
    ∃ i, ∃ r ∈ segment R q p, r ∈ segment R (corner i) (corner (i + 1)) := by
  classical
  let sides := (Finset.range count).filter fun i => orient (corner i) (corner (i + 1)) p < 0
  let time i := orient (corner i) (corner (i + 1)) q / (orient (corner i) (corner (i + 1)) q - orient (corner i) (corner (i + 1)) p)
  have some : sides.Nonempty := by
    obtain ⟨i, right⟩ := not_forall.mp outside
    refine ⟨i % count, Finset.mem_filter.mpr ⟨Finset.mem_range.mpr (Nat.mod_lt _ polygon.some), ?_⟩⟩
    rw [polygon.orient_mod]
    exact not_le.mp right
  -- The side crossed first.
  obtain ⟨i, crossed, first⟩ := sides.exists_min_image time some
  have right := (Finset.mem_filter.mp crossed).2
  have apart : 0 < orient (corner i) (corner (i + 1)) q - orient (corner i) (corner (i + 1)) p := by
    linarith [inside i]
  have low : 0 ≤ time i := div_nonneg (inside i) apart.le
  have high : time i ≤ 1 := by
    rw [div_le_one apart]
    linarith
  refine ⟨i, q + time i • (p - q), mem_segment_line.mpr ⟨_, low, high, rfl⟩, polygon.mem_side ?_ ?_⟩
  · intro j
    rw [← polygon.orient_mod, orient_line]
    have left := inside (j % count)
    by_cases right : orient (corner (j % count)) (corner (j % count + 1)) p < 0
    · have later := first (j % count)
        (Finset.mem_filter.mpr ⟨Finset.mem_range.mpr (Nat.mod_lt _ polygon.some), right⟩)
      rw [le_div_iff₀ (by linarith)] at later
      linarith
    · have := mul_nonneg (sub_nonneg.mpr high) left
      have := mul_nonneg low (not_lt.mp right)
      linarith
  · rw [orient_line]
    have is : time i * (orient (corner i) (corner (i + 1)) q - orient (corner i) (corner (i + 1)) p) =
        orient (corner i) (corner (i + 1)) q := div_mul_cancel₀ _ apart.ne'
    linarith

end ConvexPolygon

end Ketchup
