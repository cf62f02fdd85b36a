/-
**Chains that turn left, and the hull they make.**

Points in the order of some direction are put on a stack one after another; before each, what would not
turn left with it is dropped. Forth and back through the points, the two chains are the hull.

* `Forward` — the directions that point forward.
* `chain_of_sorted` — the stack turns left at each corner, with all the points on its left.
* `hull_flat`, `hull_polygon` — the two chains are one segment that has all the points on it, or a convex
  polygon that has them on the left of all its sides.
-/

import Ketchup.Library.ConvexPolygons
import Mathlib.Data.List.GetD

set_option linter.unusedSectionVars false

namespace Ketchup

variable {R : Type} [Field R] [LinearOrder R] [IsStrictOrderedRing R]

/-! ### Directions -/

/-- Directions that never lead back. -/
structure Forward (C : R × R → Prop) : Prop where
  add : ∀ {u v}, C u → C v → C (u + v)
  smul : ∀ {c : R} {u}, 0 < c → C u → C (c • u)
  zero : ¬C 0

namespace Forward

variable {C : R × R → Prop} (forward : Forward C)

include forward

theorem combine_ne {u v w : R × R} {a b c : R} (one : C u) (two : C v) (three : C w) (positive : 0 < a)
    (second : 0 ≤ b) (third : 0 ≤ c) : a • u + b • v + c • w ≠ 0 := by
  intro back
  apply forward.zero
  rw [← back]
  have first := forward.smul positive one
  rcases second.eq_or_lt with rfl | second <;> rcases third.eq_or_lt with rfl | third
  · simpa using first
  · simpa using forward.add first (forward.smul third three)
  · simpa using forward.add first (forward.smul second two)
  · exact forward.add (forward.add first (forward.smul second two)) (forward.smul third three)

/-- Turning left twice is turning left. -/
theorem wedge_nonneg {u v w : R × R} (one : C u) (two : C v) (three : C w) (first : 0 ≤ wedge u v)
    (second : 0 ≤ wedge v w) : 0 ≤ wedge u w := by
  by_contra right
  refine forward.combine_ne two one three (neg_pos.mpr (not_le.mp right)) second first ?_
  rw [neg_smul, wedge_expand u v w]
  abel

theorem wedge_zero {u v w : R × R} (one : C u) (two : C v) (parallel : wedge u v = 0) (left : 0 ≤ wedge u w)
    (right : wedge v w ≤ 0) : wedge u w = 0 := by
  by_contra apart
  refine forward.combine_ne two one one (lt_of_le_of_ne left (Ne.symm apart)) (neg_nonneg.mpr right) le_rfl ?_
  rw [wedge_expand u v w, parallel]
  simp

end Forward

theorem exists_smul {d v : R × R} (some : d ≠ 0) (parallel : wedge d v = 0) : ∃ t : R, v = t • d := by
  unfold wedge at parallel
  by_cases first : d.1 = 0
  · have second : d.2 ≠ 0 := fun second => some (Prod.ext first second)
    refine ⟨v.2 / d.2, Prod.ext ?_ ?_⟩
    · rw [first, zero_mul, zero_sub, neg_eq_zero] at parallel
      simp [first, (mul_eq_zero.mp parallel).resolve_left second]
    · simp [second]
  · refine ⟨v.1 / d.1, Prod.ext ?_ ?_⟩
    · simp [first]
    · simp only [Prod.smul_snd, smul_eq_mul]
      field_simp
      linarith

/-! ### The stack -/

/-- A point put on a stack whose last corners it keeps to the left. -/
def stacked : List (R × R) → R × R → List (R × R)
  | b :: a :: rest, p => if orient a b p ≤ 0 then stacked (a :: rest) p else p :: b :: a :: rest
  | stack, p => p :: stack

/-- A stack that leads forward and turns left, the points on its left. -/
inductive LeftChain (C : R × R → Prop) (points : List (R × R)) : List (R × R) → Prop where
  | one (a) : LeftChain C points [a]
  | two {a b} (ahead : C (b - a)) (left : ∀ q ∈ points, 0 ≤ orient a b q) : LeftChain C points [b, a]
  | more {a b c rest} (chain : LeftChain C points (b :: a :: rest)) (ahead : C (c - b)) (turn : 0 < orient a b c)
    (left : ∀ q ∈ points, 0 ≤ orient b c q) : LeftChain C points (c :: b :: a :: rest)

theorem orient_wedge (a b p : R × R) : orient a b p = wedge (b - a) (p - b) := by
  simp only [orient, wedge, Prod.fst_sub, Prod.snd_sub]
  ring

namespace LeftChain

variable {C : R × R → Prop} {points stack : List (R × R)} {p : R × R}

/-- A point past the stack, on the left of its last side, is on the left of all of them. -/
theorem pass (forward : Forward C) {a b : R × R} {rest : List (R × R)} (chain : LeftChain C points (b :: a :: rest))
    (ahead : C (p - b)) (left : 0 ≤ orient a b p) : LeftChain C (p :: points) (b :: a :: rest) := by
  induction rest generalizing a b with
  | nil =>
    cases chain with
    | two earlier lefts => exact .two earlier (List.forall_mem_cons.mpr ⟨left, lefts⟩)
  | cons z rest ih =>
    cases chain with
    | more chain earlier turn lefts =>
      have before : C (a - z) := by
        cases chain with
        | two earlier _ => exact earlier
        | more _ earlier _ _ => exact earlier
      rw [orient_wedge] at turn left
      have turned := forward.wedge_nonneg before earlier ahead turn.le left
      refine .more (ih chain ?_ ?_) earlier (by rwa [orient_wedge]) (List.forall_mem_cons.mpr ⟨by rwa [orient_wedge], lefts⟩)
      · rw [← sub_add_sub_cancel p b a]
        exact forward.add ahead earlier
      · have sum : orient z a p = wedge (a - z) (b - a) + wedge (a - z) (p - b) := by
          simp only [orient, wedge, Prod.fst_sub, Prod.snd_sub]
          ring
        linarith

/-- **A point put on the stack.** -/
theorem push (forward : Forward C) (chain : LeftChain C points stack) {first : R × R}
    (bottom : stack.getLast? = some first) (least : ∀ q ∈ points, q = first ∨ C (q - first))
    (among : ∀ q ∈ stack, q ∈ points)
    (order : ∀ q ∈ points, ∀ r ∈ points, q = r ∨ C (q - r) ∨ C (r - q))
    (beyond : ∀ q ∈ points, C (p - q))
    (past : ∀ top ∈ stack.head?, ∀ q ∈ points, C (q - top) → 0 ≤ orient top p q) :
    LeftChain C (p :: points) (Ketchup.stacked stack p) := by
  induction stack with
  | nil => cases bottom
  | cons b stack ih =>
    cases stack with
    | nil =>
      obtain rfl : b = first := Option.some.inj bottom
      refine .two (beyond b (among b List.mem_cons_self)) (List.forall_mem_cons.mpr ⟨(orient_end b p).ge, ?_⟩)
      intro q held
      rcases least q held with rfl | after
      · exact (orient_start q p).ge
      · exact past b rfl q held after
    | cons a rest =>
      have atB := among b List.mem_cons_self
      have atA := among a (List.mem_cons_of_mem b List.mem_cons_self)
      have ahead : C (b - a) ∧ ∀ q ∈ points, 0 ≤ orient a b q := by
        cases chain with
        | two ahead left => exact ⟨ahead, left⟩
        | more _ ahead _ left => exact ⟨ahead, left⟩
      by_cases drop : orient a b p ≤ 0
      · rw [Ketchup.stacked, if_pos drop]
        have kept : LeftChain C points (a :: rest) := by
          cases chain with
          | two _ _ => exact .one a
          | more chain _ _ _ => exact chain
        refine ih kept bottom (fun q held => among q (List.mem_cons_of_mem b held)) ?_
        -- What is past the new top is on the left of the side that was dropped.
        rintro top ⟨⟩ q held after
        refine forward.wedge_nonneg (beyond a atA) ahead.1 after ?_ (ahead.2 q held)
        rw [wedge_swap]
        exact neg_nonneg.mpr drop
      · have turn := not_le.mp drop
        rw [Ketchup.stacked, if_neg drop]
        refine .more (chain.pass forward (beyond b atB) turn.le) (beyond b atB) turn
          (List.forall_mem_cons.mpr ⟨(orient_end b p).ge, ?_⟩)
        intro q held
        rcases order q held b atB with rfl | after | before
        · exact (orient_start q p).ge
        · exact past b rfl q held after
        · have left := ahead.2 q held
          have one : wedge (b - q) (b - a) = orient a b q := by
            simp only [orient, wedge, Prod.fst_sub, Prod.snd_sub]
            ring
          have two : wedge (b - q) (p - b) = orient b p q := by
            simp only [orient, wedge, Prod.fst_sub, Prod.snd_sub]
            ring
          rw [← two]
          rw [orient_wedge] at turn
          exact forward.wedge_nonneg before ahead.1 (beyond b atB) (one ▸ left) turn.le

end LeftChain

section Stacks

variable {C : R × R → Prop} {points stack : List (R × R)} {p first : R × R}

theorem stacked_eq_cons (stack : List (R × R)) (p : R × R) : ∃ rest, stacked stack p = p :: rest := by
  fun_induction stacked stack p with
  | case1 b a rest p drop ih => exact ih
  | case2 b a rest p drop => exact ⟨_, rfl⟩
  | case3 stack p => exact ⟨_, rfl⟩

theorem mem_of_mem_stacked {q : R × R} (held : q ∈ stacked stack p) : q = p ∨ q ∈ stack := by
  fun_induction stacked stack p with
  | case1 b a rest p drop ih => exact (ih held).imp_right (List.mem_cons_of_mem b)
  | case2 b a rest p drop => exact List.mem_cons.mp held
  | case3 stack p => exact List.mem_cons.mp held

theorem stacked_getLast? (bottom : stack.getLast? = some first) : (stacked stack p).getLast? = some first := by
  fun_induction stacked stack p with
  | case1 b a rest p drop ih => exact ih bottom
  | case2 b a rest p drop => exact bottom
  | case3 stack p _ =>
    cases stack with
    | nil => cases bottom
    | cons q stack => exact bottom

/-- The stack of the points so far, from the first of them to the last. -/
structure Stacked (C : R × R → Prop) (first last : R × R) (points stack : List (R × R)) : Prop where
  chain : LeftChain C points stack
  top : stack.head? = some last
  bottom : stack.getLast? = some first
  among : ∀ q ∈ stack, q ∈ points
  least : ∀ q ∈ points, q = first ∨ C (q - first)
  most : ∀ q ∈ points, q = last ∨ C (last - q)
  order : ∀ q ∈ points, ∀ r ∈ points, q = r ∨ C (q - r) ∨ C (r - q)

theorem LeftChain.congr {points' : List (R × R)} (chain : LeftChain C points stack)
    (same : ∀ q ∈ points', q ∈ points) : LeftChain C points' stack := by
  induction chain with
  | one a => exact .one a
  | two ahead left => exact .two ahead fun q among => left q (same q among)
  | more _ ahead turn left ih => exact .more ih ahead turn fun q among => left q (same q among)

theorem Stacked.congr {last : R × R} {points' : List (R × R)} (held : Stacked C first last points stack)
    (same : ∀ q, q ∈ points' ↔ q ∈ points) : Stacked C first last points' stack where
  chain := held.chain.congr fun q => (same q).mp
  top := held.top
  bottom := held.bottom
  among q within := (same q).mpr (held.among q within)
  least q within := held.least q ((same q).mp within)
  most q within := held.most q ((same q).mp within)
  order q one r two := held.order q ((same q).mp one) r ((same r).mp two)

theorem Stacked.push (forward : Forward C) {last : R × R} (held : Stacked C first last points stack)
    (beyond : ∀ q ∈ points, C (p - q)) : Stacked C first p (p :: points) (stacked stack p) where
  chain := by
    refine held.chain.push forward held.bottom held.least held.among held.order beyond ?_
    rintro top is q among after
    obtain rfl : top = last := Option.some.inj (is.symm.trans held.top)
    rcases held.most q among with rfl | before
    · exact absurd (sub_self q ▸ after) forward.zero
    · refine absurd ?_ forward.zero
      rw [← sub_self q, ← sub_add_sub_cancel q top q]
      exact forward.add after before
  top := by
    obtain ⟨rest, is⟩ := stacked_eq_cons stack p
    rw [is]
    rfl
  bottom := stacked_getLast? held.bottom
  among := by
    intro q among
    rcases mem_of_mem_stacked among with rfl | among
    · exact List.mem_cons_self
    · exact List.mem_cons_of_mem p (held.among q among)
  least := List.forall_mem_cons.mpr
    ⟨.inr (beyond first (held.among first (List.mem_of_getLast? held.bottom))), held.least⟩
  most := List.forall_mem_cons.mpr ⟨.inl rfl, fun q among => .inr (beyond q among)⟩
  order := by
    intro q one r two
    rcases List.mem_cons.mp one with here | one <;> rcases List.mem_cons.mp two with there | two
    · exact .inl (here.trans there.symm)
    · exact .inr (.inl (here ▸ beyond r two))
    · exact .inr (.inr (there ▸ beyond q one))
    · exact held.order q one r two

theorem Stacked.run (forward : Forward C) {rest : List (R × R)} {last : R × R}
    (held : Stacked C first last points stack) (sorted : rest.Pairwise fun q r => C (r - q))
    (beyond : ∀ q ∈ points, ∀ r ∈ rest, C (r - q)) :
    Stacked C first (rest.getLast?.getD last) (rest.reverse ++ points) (rest.foldl stacked stack) := by
  induction rest generalizing points stack last with
  | nil => exact held
  | cons p rest ih =>
    obtain ⟨after, sorted⟩ := List.pairwise_cons.mp sorted
    have step := held.push forward fun q among => beyond q among p List.mem_cons_self
    have run := ih step sorted (List.forall_mem_cons.mpr
      ⟨after, fun q among r later => beyond q among r (List.mem_cons_of_mem p later)⟩)
    rw [List.reverse_cons, List.append_assoc, List.getLast?_cons]
    exact run

/-- **Points in the order of a direction, stacked.** -/
theorem chain_of_sorted (forward : Forward C) {rest : List (R × R)}
    (sorted : (first :: rest).Pairwise fun q r => C (r - q)) :
    Stacked C first (rest.getLast?.getD first) (first :: rest) ((first :: rest).foldl stacked []) := by
  obtain ⟨after, sorted⟩ := List.pairwise_cons.mp sorted
  have start : Stacked C first first [first] [first] := by
    constructor <;> simp [LeftChain.one]
  have run := start.run forward sorted (by simpa using after)
  refine run.congr fun q => ?_
  rw [List.mem_append, List.mem_reverse, List.mem_singleton, List.mem_cons, or_comm]

end Stacks

/-! ### Paths -/

/-- A path that has the points on its left and turns left. -/
structure Bends (points path : List (R × R)) : Prop where
  left : ∀ i a b, path[i]? = some a → path[i + 1]? = some b → ∀ q ∈ points, 0 ≤ orient a b q
  turn : ∀ i a b c, path[i]? = some a → path[i + 1]? = some b → path[i + 2]? = some c → 0 < orient a b c

section Paths

variable {C : R × R → Prop} {points stack : List (R × R)}

theorem LeftChain.left_at (chain : LeftChain C points stack) {i : ℕ} {a b : R × R} (one : stack[i + 1]? = some a)
    (two : stack[i]? = some b) : C (b - a) ∧ ∀ q ∈ points, 0 ≤ orient a b q := by
  induction chain generalizing i with
  | one c => simp at one
  | two ahead left =>
    cases i with
    | zero =>
      cases one
      cases two
      exact ⟨ahead, left⟩
    | succ i => simp at one
  | more chain ahead turn left ih =>
    cases i with
    | zero =>
      cases one
      cases two
      exact ⟨ahead, left⟩
    | succ i => exact ih one two

theorem LeftChain.turn_at (chain : LeftChain C points stack) {i : ℕ} {a b c : R × R} (one : stack[i + 2]? = some a)
    (two : stack[i + 1]? = some b) (three : stack[i]? = some c) : 0 < orient a b c := by
  induction chain generalizing i with
  | one c => simp at one
  | two ahead left => simp at one
  | more chain ahead turn left ih =>
    cases i with
    | zero =>
      cases one
      cases two
      cases three
      exact turn
    | succ i => exact ih one two three

theorem getElem?_of_reverse {i : ℕ} {a : R × R} (found : stack.reverse[i]? = some a) :
    i < stack.length ∧ stack[stack.length - 1 - i]? = some a := by
  obtain ⟨within, is⟩ := List.getElem?_eq_some_iff.mp found
  rw [List.length_reverse] at within
  exact ⟨within, by rw [← List.getElem?_reverse within, found]⟩

theorem LeftChain.bends (chain : LeftChain C points stack) : Bends points stack.reverse where
  left i a b one two := by
    obtain ⟨-, one⟩ := getElem?_of_reverse one
    obtain ⟨within, two⟩ := getElem?_of_reverse two
    rw [show stack.length - 1 - i = stack.length - 1 - (i + 1) + 1 by omega] at one
    exact (chain.left_at one two).2
  turn i a b c one two three := by
    obtain ⟨-, one⟩ := getElem?_of_reverse one
    obtain ⟨-, two⟩ := getElem?_of_reverse two
    obtain ⟨within, three⟩ := getElem?_of_reverse three
    rw [show stack.length - 1 - i = stack.length - 1 - (i + 2) + 2 by omega] at one
    rw [show stack.length - 1 - (i + 1) = stack.length - 1 - (i + 2) + 1 by omega] at two
    exact chain.turn_at one two three

/-- Two paths, one after the other. -/
theorem Bends.join {before after : List (R × R)} {x : R × R} (one : Bends points (before ++ [x]))
    (two : Bends points (x :: after))
    (between : ∀ a b, before.getLast? = some a → after.head? = some b → 0 < orient a x b) :
    Bends points (before ++ x :: after) := by
  have early : ∀ {i : ℕ}, i ≤ before.length → (before ++ x :: after)[i]? = (before ++ [x])[i]? := by
    intro i within
    rcases within.eq_or_lt with rfl | within
    · simp
    · rw [List.getElem?_append_left within, List.getElem?_append_left within]
  have late : ∀ {i : ℕ}, before.length ≤ i → (before ++ x :: after)[i]? = (x :: after)[i - before.length]? :=
    fun within => List.getElem?_append_right within
  constructor
  · intro i a b first second
    by_cases within : i + 1 ≤ before.length
    · rw [early within] at second
      rw [early (by omega)] at first
      exact one.left i a b first second
    · rw [late (by omega)] at first second
      rw [show i + 1 - before.length = i - before.length + 1 by omega] at second
      exact two.left _ a b first second
  · intro i a b c first second third
    by_cases within : i + 2 ≤ before.length
    · rw [early within] at third
      rw [early (by omega)] at first second
      exact one.turn i a b c first second third
    · by_cases past : before.length ≤ i
      · rw [late (by omega)] at first second third
        rw [show i + 1 - before.length = i - before.length + 1 by omega] at second
        rw [show i + 2 - before.length = i - before.length + 2 by omega] at third
        exact two.turn _ a b c first second third
      · have last : i = before.length - 1 := by omega
        rw [List.getElem?_append_left (by omega), last, ← List.getLast?_eq_getElem?] at first
        rw [late (by omega), show i + 1 - before.length = 0 by omega] at second
        rw [late (by omega), show i + 2 - before.length = 1 by omega] at third
        cases second
        exact between a c first (by rw [List.head?_eq_getElem?]; exact third)

/-- The corners of a list, all the way round. -/
def corner (hull : List (R × R)) (i : ℕ) : R × R := hull.getD (i % hull.length) 0

theorem corner_mod (hull : List (R × R)) (i j : ℕ) : corner hull (i % hull.length + j) = corner hull (i + j) := by
  unfold corner
  rw [Nat.mod_add_mod]

theorem corner_mem {hull : List (R × R)} (some : hull ≠ []) (i : ℕ) : corner hull i ∈ hull := by
  have within := Nat.mod_lt i (List.length_pos_iff.mpr some)
  rw [corner, List.getD_eq_getElem _ _ within]
  exact List.getElem_mem within

/-- A path that closes with a turn to the left is a convex polygon. -/
theorem polygon_of_path {hull : List (R × R)} {first : R × R} (start : hull.head? = some first)
    (bends : Bends points (hull ++ [first])) (among : ∀ q ∈ hull, q ∈ points)
    (wrap : ∀ a c, hull.getLast? = some a → (hull ++ [first])[1]? = some c → 0 < orient a first c) :
    ConvexPolygon hull.length (corner hull) ∧ ∀ q ∈ points, Region (corner hull) q := by
  have some : hull ≠ [] := by
    rintro rfl
    cases start
  have positive := List.length_pos_iff.mpr some
  have on : ∀ i, i ≤ hull.length → (hull ++ [first])[i]? = .some (corner hull i) := by
    intro i within
    unfold corner
    rcases within.eq_or_lt with rfl | within
    · rw [Nat.mod_self, List.getElem?_append_right le_rfl, Nat.sub_self, ← List.headD_eq_getD, List.headD_eq_head?_getD,
        start]
      rfl
    · rw [Nat.mod_eq_of_lt within, List.getElem?_append_left within, List.getD_eq_getElem _ _ within]
      exact List.getElem?_eq_getElem within
  have left : ∀ q ∈ points, Region (corner hull) q := by
    intro q held i
    have within := Nat.mod_lt i positive
    have here : corner hull (i % hull.length) = corner hull i := corner_mod hull i 0
    rw [← corner_mod hull i 1, ← here]
    exact bends.left (i % hull.length) _ _ (on _ within.le) (on _ within) q held
  refine ⟨⟨positive, ?_, ?_, fun i k => left _ (among _ (corner_mem some k)) i⟩, left⟩
  · intro i
    unfold corner
    rw [Nat.add_mod_right]
  · intro i
    have within := Nat.mod_lt i positive
    have here : corner hull (i % hull.length) = corner hull i := corner_mod hull i 0
    rw [← corner_mod hull i 1, ← corner_mod hull i 2, ← here]
    by_cases last : i % hull.length + 1 = hull.length
    · have round : corner hull (i % hull.length + 2) = corner hull 1 := by
        rw [show i % hull.length + 2 = hull.length + 1 by omega]
        unfold corner
        rw [Nat.add_mod_left]
      have back : corner hull (i % hull.length + 1) = first := by
        have closed := on _ last.le
        rw [last, List.getElem?_append_right le_rfl, Nat.sub_self] at closed
        rw [last]
        exact (Option.some.inj closed).symm
      rw [round, back]
      refine wrap _ _ ?_ (on 1 positive)
      rw [List.getLast?_eq_getElem?, ← on _ within.le, List.getElem?_append_left within,
        show hull.length - 1 = i % hull.length by omega]
    · exact bends.turn (i % hull.length) _ _ _ (on _ within.le) (on _ within) (on _ (by omega))

end Paths

/-! ### The hull -/

/-- The points stacked forth and back, each without its last. -/
def chainHull (points : List (R × R)) : List (R × R) :=
  (points.foldl stacked []).tail.reverse ++ (points.reverse.foldl stacked []).tail.reverse

section Hull

variable {C : R × R → Prop} {points : List (R × R)} {first last : R × R}

theorem Forward.back (forward : Forward C) : Forward fun v => C (-v) where
  add {u v} one two := by
    rw [neg_add]
    exact forward.add one two
  smul {c u} positive one := by
    rw [← smul_neg]
    exact forward.smul positive one
  zero back := forward.zero (neg_zero (G := R × R) ▸ back)

/-- Where two sides on one line meet, all the points are on the line. -/
theorem junction_level (forward : Forward C) {a x b : R × R} (ahead : C (x - a)) (behind : C (x - b))
    (one : ∀ q ∈ points, 0 ≤ orient a x q) (two : ∀ q ∈ points, 0 ≤ orient x b q) (level : orient a x b = 0) :
    ∀ q ∈ points, orient a x q = 0 := by
  intro q held
  have left := one q held
  have right := two q held
  rw [orient_wedge] at left level ⊢
  have parallel : wedge (x - a) (x - b) = 0 := by
    rw [← neg_sub b x, show wedge (x - a) (-(b - x)) = -wedge (x - a) (b - x) by
      simp only [wedge, Prod.fst_neg, Prod.snd_neg]; ring, level, neg_zero]
  refine forward.wedge_zero ahead behind parallel left ?_
  have is : wedge (x - b) (q - x) = -orient x b q := by
    simp only [orient, wedge, Prod.fst_sub, Prod.snd_sub]
    ring
  rw [is]
  exact neg_nonpos.mpr right

/-- Points on one line. -/
def Level (points : List (R × R)) : Prop := ∀ q ∈ points, ∀ r ∈ points, ∀ s ∈ points, orient q r s = 0

theorem level_of_line {a x : R × R} (some : x ≠ a) (line : ∀ q ∈ points, orient a x q = 0) : Level points := by
  intro q one r two s three
  have parallel : ∀ p ∈ points, wedge (x - a) (p - q) = 0 := by
    intro p held
    have is : wedge (x - a) (p - q) = orient a x p - orient a x q := by
      simp only [orient, wedge, Prod.fst_sub, Prod.snd_sub]
      ring
    rw [is, line p held, line q one, sub_zero]
  obtain ⟨t, is⟩ := exists_smul (sub_ne_zero.mpr some) (parallel r two)
  rw [orient, is, wedge_swap, wedge_smul, wedge_swap, parallel s three, neg_zero, mul_zero, neg_zero]

/-- On a line, a stack holds no more than its ends. -/
theorem Stacked.of_level {stack : List (R × R)} (held : Stacked C first last points stack) (apart : first ≠ last)
    (level : Level points) : stack = [last, first] := by
  obtain ⟨chain, top, bottom, among, -, -, -⟩ := held
  cases chain with
  | one a =>
    cases top
    cases bottom
    exact absurd rfl apart
  | two ahead left =>
    cases top
    cases bottom
    rfl
  | more chain ahead turn left => exact absurd (level _ (among _ (by simp)) _ (among _ (by simp)) _ (among _ (by simp))) turn.ne'

/-- A stack that does not end where it begins has two points at least. -/
theorem Stacked.exists_second {stack : List (R × R)} (held : Stacked C first last points stack) (apart : first ≠ last) :
    ∃ a rest, stack = last :: a :: rest := by
  obtain ⟨chain, top, bottom, -, -, -, -⟩ := held
  cases chain with
  | one a =>
    cases top
    cases bottom
    exact absurd rfl apart
  | two ahead left =>
    cases top
    exact ⟨_, _, rfl⟩
  | more chain ahead turn left =>
    cases top
    exact ⟨_, _, rfl⟩

/-- The first two of a stack. -/
theorem LeftChain.start {stack : List (R × R)} (chain : LeftChain C points stack) {x b : R × R}
    (zero : stack.reverse[0]? = some x) (one : stack.reverse[1]? = some b) :
    C (b - x) ∧ ∀ q ∈ points, 0 ≤ orient x b q := by
  obtain ⟨-, zero⟩ := getElem?_of_reverse zero
  obtain ⟨within, one⟩ := getElem?_of_reverse one
  rw [show stack.length - 1 - 0 = stack.length - 1 - 1 + 1 by omega] at zero
  exact chain.left_at zero one

theorem junction_turns (forward : Forward C) {a x b : R × R} (ahead : C (x - a)) (behind : C (x - b)) (held : b ∈ points)
    (one : ∀ q ∈ points, 0 ≤ orient a x q) (two : ∀ q ∈ points, 0 ≤ orient x b q) (level : ¬Level points) :
    0 < orient a x b := by
  refine lt_of_le_of_ne (one b held) fun flat => level ?_
  refine level_of_line ?_ (junction_level forward ahead behind one two flat.symm)
  rintro rfl
  exact forward.zero (sub_self x ▸ ahead)

theorem Stacked.reverse_zero {stack : List (R × R)} (held : Stacked C first last points stack) :
    stack.reverse[0]? = some first := by
  rw [← List.head?_eq_getElem?, List.head?_reverse]
  exact held.bottom

/-- Where a stack ends and another begins, the path turns left. -/
theorem Stacked.meet (forward : Forward C) {D : R × R → Prop} (opposite : ∀ v, D v → C (-v)) {a : R × R}
    {front stack : List (R × R)} (one : Stacked C first last points (last :: a :: front))
    (two : Stacked D last first points stack) (level : ¬Level points) {b : R × R}
    (next : stack.reverse[1]? = some b) : 0 < orient a last b := by
  have ahead := one.chain.left_at (i := 0) rfl rfl
  have behind := two.chain.start two.reverse_zero next
  obtain ⟨-, held⟩ := getElem?_of_reverse next
  have back := opposite _ behind.1
  rw [neg_sub] at back
  exact junction_turns forward ahead.1 back (two.among b (List.mem_of_getElem? held)) ahead.2 behind.2 level

/-- Forth and back, two stacks make a polygon. -/
theorem polygon_of_stacks (forward : Forward C) {a b : R × R} {front back : List (R × R)}
    (lower : Stacked C first last points (last :: a :: front))
    (upper : Stacked (fun v => C (-v)) last first points (first :: b :: back)) (level : ¬Level points) :
    let hull := (a :: front).reverse ++ (b :: back).reverse
    ConvexPolygon hull.length (corner hull) ∧ (∀ q ∈ points, Region (corner hull) q) ∧ ∀ q ∈ hull, q ∈ points := by
  intro hull
  obtain ⟨after, upperIs⟩ : ∃ after, (first :: b :: back).reverse = last :: after := by
    have bottom := upper.bottom
    rw [← List.head?_reverse] at bottom
    exact List.head?_eq_some_iff.mp bottom
  have path : hull ++ [first] = (a :: front).reverse ++ last :: after := by
    rw [← upperIs, List.reverse_cons (a := first), List.append_assoc]
  have lowerIs : (last :: a :: front).reverse = (a :: front).reverse ++ [last] := List.reverse_cons
  have among : ∀ q ∈ hull, q ∈ points := by
    intro q held
    rcases List.mem_append.mp held with below | above
    · exact lower.among q (List.mem_cons_of_mem last (List.mem_reverse.mp below))
    · exact upper.among q (List.mem_cons_of_mem first (List.mem_reverse.mp above))
  have bends : Bends points (hull ++ [first]) := by
    rw [path]
    refine (lowerIs ▸ lower.chain.bends).join (upperIs ▸ upper.chain.bends) ?_
    intro a' b' isA isB
    rw [List.getLast?_reverse] at isA
    cases isA
    refine lower.meet forward (fun v back => back) upper level ?_
    rw [upperIs, List.getElem?_cons_succ, ← List.head?_eq_getElem?]
    exact isB
  have start : hull.head? = some first := by
    have bottom := lower.bottom
    rw [List.getLast?_cons_cons] at bottom
    rw [List.head?_append, List.head?_reverse, bottom]
    rfl
  have wrap : ∀ a' c, hull.getLast? = some a' → (hull ++ [first])[1]? = some c → 0 < orient a' first c := by
    intro a' c isA isC
    rw [List.getLast?_append, List.getLast?_reverse] at isA
    cases isA
    refine upper.meet forward.back (fun v front => by rwa [neg_neg]) lower level ?_
    rw [← isC, path, lowerIs, List.getElem?_append, List.getElem?_append, List.length_reverse, List.length_cons]
    by_cases short : 1 < front.length + 1
    · rw [if_pos short, if_pos short]
    · rw [if_neg short, if_neg short, show 1 - (front.length + 1) = 0 by omega]
      rfl
  have polygon := polygon_of_path start bends among wrap
  exact ⟨polygon.1, polygon.2, among⟩

/-- What is between two points by a direction, and on their line, is between them. -/
theorem mem_segment_of_forward (forward : Forward C) (step : C (last - first)) {q : R × R}
    (after : q = first ∨ C (q - first)) (before : q = last ∨ C (last - q)) (level : orient first last q = 0) :
    q ∈ segment R first last := by
  rcases after with rfl | after
  · exact left_mem_segment R q last
  rcases before with rfl | before
  · exact right_mem_segment R first q
  have some : last - first ≠ 0 := fun none => forward.zero (none ▸ step)
  obtain ⟨t, is⟩ := exists_smul some level
  refine mem_segment_line.mpr ⟨t, ?_, ?_, by rw [← is, add_sub_cancel]⟩
  · by_contra negative
    refine forward.combine_ne after step step one_pos (neg_nonneg.mpr (not_le.mp negative).le) le_rfl ?_
    rw [is]
    simp
  · by_contra past
    refine forward.combine_ne before step step one_pos (sub_nonneg.mpr (not_le.mp past).le) le_rfl ?_
    rw [← sub_sub_sub_cancel_right last q first, is, sub_smul]
    simp

/-- **The hull of two points or more.** It is the segment from the first to the last where all are on it, and
else a convex polygon of some of them that has all on the left of its sides. -/
theorem chainHull_cases (forward : Forward C) {rest : List (R × R)}
    (sorted : (first :: rest).Pairwise fun q r => C (r - q)) (some : rest ≠ []) :
    (∃ last ∈ rest, chainHull (first :: rest) = [first, last] ∧ ∀ q ∈ first :: rest, q ∈ segment R first last) ∨
    ConvexPolygon (chainHull (first :: rest)).length (corner (chainHull (first :: rest))) ∧
      (∀ q ∈ first :: rest, Region (corner (chainHull (first :: rest))) q) ∧
      ∀ q ∈ chainHull (first :: rest), q ∈ first :: rest := by
  obtain ⟨middle, last, rfl⟩ : ∃ middle last, rest = middle ++ [last] :=
    ⟨rest.dropLast, rest.getLast some, (List.dropLast_append_getLast some).symm⟩
  have lower := chain_of_sorted forward sorted
  have backward : (last :: (middle.reverse ++ [first])).Pairwise fun q r => C (-(r - q)) := by
    have reversed := List.pairwise_reverse.mpr sorted
    simpa using reversed
  have upper := chain_of_sorted forward.back backward
  rw [show (middle ++ [last]).getLast?.getD first = last by simp] at lower
  rw [show (middle.reverse ++ [first]).getLast?.getD last = first by simp] at upper
  have turned : (first :: (middle ++ [last])).reverse = last :: (middle.reverse ++ [first]) := by simp
  rw [← turned] at upper
  replace upper : Stacked (fun v => C (-v)) last first (first :: (middle ++ [last])) _ :=
    upper.congr fun q => List.mem_reverse.symm
  unfold chainHull
  generalize points_is : first :: (middle ++ [last]) = points at *
  have step : C (last - first) := by
    rw [← points_is] at sorted
    exact List.rel_of_pairwise_cons sorted (by simp)
  have apart : first ≠ last := by
    rintro rfl
    exact forward.zero (sub_self first ▸ step)
  generalize points.foldl stacked [] = below at *
  generalize points.reverse.foldl stacked [] = above at *
  by_cases level : Level points
  · left
    refine ⟨last, by simp, ?_, ?_⟩
    · rw [lower.of_level apart level, upper.of_level apart.symm level]
      rfl
    · intro q held
      have one := lower.among _ (List.mem_of_getLast? lower.bottom)
      have two := lower.among _ (List.mem_of_head? lower.top)
      exact mem_segment_of_forward forward step (lower.least q held) (lower.most q held) (level _ one _ two _ held)
  · right
    obtain ⟨a, front, rfl⟩ := lower.exists_second apart
    obtain ⟨b, back, rfl⟩ := upper.exists_second apart.symm
    exact polygon_of_stacks forward lower upper level

end Hull

end Ketchup
